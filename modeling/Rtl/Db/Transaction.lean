import Rtl.Db.Connection
import Rtl.Db.Lease

/-! # Pooled transactions

A `Transaction` leases a connection from the pool and begins a
`ConnectionTransaction` on it; its members are destroyed in the opposite order. Its
operations catch connection errors and mark the lease as broken, which closes the
connection. A program is single-threaded here: a call of `acquire` that would wait
is not enabled.

The pool numbers connections by the position of their object among all connection
objects.
-/

namespace Rtl.Db

open Rtl.Base

structure Database where
  core : ConnectionSystem
  pool : PoolSystem
  deriving Repr, DecidableEq

def DbError.thrown : DbError → Thrown
  | .configurationError message => .dbError .configurationError message none
  | .poolExhausted message => .dbError .poolExhausted message none
  | .poolTimeout message => .dbError .poolTimeout message none

/-! ## Leases -/

namespace Database

variable (db : Database)

def setStates (states : List ConnectionState) : Database :=
  { db with core := { db.core with states := states } }

def isOpen (c : Nat) : Bool := (db.core.connection? c).any (·.isOpen db.core.states)

def inspect : Option Nat → Returned
  | none => .null
  | some c => if db.isOpen c then .opened c else .closed c

def discard (cs : List Nat) : Database :=
  { db with core := { db.core with
      connections := cs.foldl (fun connections c => connections.set c none) db.core.connections } }

/-- The destructor of `PooledConnection`, and the first half of its move
assignment. -/
def release (h : Handle) : Database :=
  if h.poolState then
    let r := db.pool.returnConnection (db.inspect h.connection) 0
    { db with pool := r.1 }.discard r.2.discards
  else db.discard h.connection.toList

def markBroken (h : Handle) : Database × Handle :=
  (match h.connection.bind db.core.connection? with
    | none => db
    | some x => db.setStates (x.close db.core.states),
    { h with broken := true })

/-- The pool, about to give its next connection the number of the next object. -/
def numbered : PoolSystem := { db.pool with nextConnection := db.core.connections.length }

theorem numbered_state : db.numbered.state = db.pool.state := rfl

/-- `ConnectionPool::acquire` and `try_acquire_for`; `none` while the caller waits.
A connection that has to be made first is a new object. -/
def acquire (cfg : PoolConfig) (timed valid : Bool) (outcome : Outcome) :
    Option (Database × Except Thrown Handle) :=
  match db.numbered.acquire cfg ⟨timed⟩ (establish valid outcome).isOk with
  | some (p, .acquired c) =>
      some ({ core := if c = db.core.connections.length then db.core.opened else db.core, pool := p },
        .ok ⟨true, some c, false⟩)
  | some (p, .creationThrew) =>
      match establish valid outcome with
      | .error e => some ({ db with pool := p }, .error e)
      | .ok () => none
  | some (p, .threw e) => some ({ db with pool := p }, .error e.thrown)
  | _ => none

end Database

/-! ## Transactions -/

inductive IsolationLevel where
  | readCommitted
  | repeatableRead
  | serializable
  deriving Repr, DecidableEq

def IsolationLevel.toSql : IsolationLevel → String
  | .readCommitted => "READ COMMITTED"
  | .repeatableRead => "REPEATABLE READ"
  | .serializable => "SERIALIZABLE"

structure TransactionImpl where
  connection : Handle
  tx : ConnectionTransaction
  deriving Repr, DecidableEq

structure Transaction where
  impl : Option TransactionImpl
  deriving Repr, DecidableEq

namespace TransactionImpl

/-- The constructor; the lease is given back when no transaction can be begun. -/
def make (cfg : PoolConfig) (db : Database) (valid : Bool) (outcome work : Outcome) :
    Option (Database × Except Thrown TransactionImpl) :=
  match db.acquire cfg false valid outcome with
  | none => none
  | some (leased, .error e) => some (leased, .error e)
  | some (leased, .ok h) =>
      match h.connection.bind leased.core.connection? with
      | none => some (leased.release h, .error (.logicError "Invalid pooled connection handle"))
      | some x =>
          match x.beginTransaction leased.core.states work with
          | .error e => some (leased.release h, .error e)
          | .ok (states, tx) => some (leased.setStates states, .ok ⟨h, tx⟩)

/-- The members in the opposite order of their declaration. -/
def destroy (db : Database) (impl : TransactionImpl) : Database :=
  (db.setStates (impl.tx.finish db.core.states).1).release impl.connection

/-- The handlers of `Transaction`: a connection error breaks the lease. -/
def caught (db : Database) (impl : TransactionImpl) (e : Thrown) : Database × TransactionImpl :=
  if e.isConnectionError then
    ((db.markBroken impl.connection).1, { impl with connection := (db.markBroken impl.connection).2 })
  else (db, impl)

end TransactionImpl

namespace Transaction

variable (db : Database) (t : Transaction)

def execute (outcome : Outcome) : (Database × Transaction) × Except Thrown Unit :=
  match t.impl with
  | none => ((db, t), .error (.logicError "Invalid transaction handle"))
  | some impl =>
      match impl.tx.execute outcome with
      | .ok () => ((db, t), .ok ())
      | .error e => (((impl.caught db e).1, ⟨some (impl.caught db e).2⟩), .error e)

def exec (outcome : Outcome) : (Database × Transaction) × Except Thrown Unit :=
  t.execute db outcome

def execParams (outcome : Outcome) : (Database × Transaction) × Except Thrown Unit :=
  t.execute db outcome

def execPrepared (outcome : Outcome) : (Database × Transaction) × Except Thrown Unit :=
  t.execute db outcome

/-- `answer` is what libpqxx makes of a statement. -/
def setIsolationLevel (level : IsolationLevel) (answer : String → Outcome) :
    (Database × Transaction) × Except Thrown Unit :=
  t.execute db (answer ("SET TRANSACTION ISOLATION LEVEL " ++ level.toSql))

/-- The shape of `commit` and `rollback`, given what the inner call has come to: the
lease goes back to the pool after a success. -/
def ending (impl : TransactionImpl) :
    (List ConnectionState × ConnectionTransaction) × Except Thrown Unit →
      (Database × Transaction) × Except Thrown Unit
  | ((states, tx), .ok ()) =>
      (({ impl with tx := tx }.destroy (db.setStates states), ⟨none⟩), .ok ())
  | ((_, _), .error e) => (((impl.caught db e).1, ⟨some (impl.caught db e).2⟩), .error e)

def commit (outcome : Outcome) : (Database × Transaction) × Except Thrown Unit :=
  match t.impl with
  | none => ((db, t), .error (.logicError "Invalid transaction handle"))
  | some impl => ending db impl (impl.tx.commit db.core.states outcome)

def rollback : (Database × Transaction) × Except Thrown Unit :=
  match t.impl with
  | none => ((db, t), .error (.logicError "Invalid transaction handle"))
  | some impl => ending db impl (impl.tx.rollback db.core.states)

def active : Bool := t.impl.any (·.tx.active)

/-- The destructor; `impl` is destroyed after its body. -/
def destroy : Database :=
  match t.impl with
  | none => db
  | some impl =>
      let r := if impl.connection.connection = none then db.markBroken impl.connection
        else (db, impl.connection)
      let q := if impl.tx.active then (impl.tx.rollback r.1.core.states).1
        else (r.1.core.states, impl.tx)
      TransactionImpl.destroy (r.1.setStates q.1) ⟨r.2, q.2⟩

/-- What becomes of the old `impl` when a handle is assigned to, or when the
constructor throws. -/
def reset : Database :=
  match t.impl with
  | none => db
  | some impl => impl.destroy db

def construct (cfg : PoolConfig) (level : IsolationLevel) (valid : Bool) (outcome work : Outcome)
    (answer : String → Outcome) : Option (Database × Except Thrown Transaction) :=
  match TransactionImpl.make cfg db valid outcome work with
  | none => none
  | some (made, .error e) => some (made, .error e)
  | some (made, .ok impl) =>
      match (Transaction.mk (some impl)).setIsolationLevel made level answer with
      | ((set, t), .ok ()) => some (set, .ok t)
      | ((set, t), .error e) => some (t.reset set, .error e)

end Transaction

/-! ## The objects of a program -/

/-- Whether the constructor still has to set the isolation level, has returned, or
has thrown and left the members to be destroyed. -/
inductive Phase where
  | initialising (level : IsolationLevel)
  | ready
  | unwinding
  deriving Repr, DecidableEq

structure TransactionObject where
  transaction : Transaction
  phase : Phase
  deriving Repr, DecidableEq

structure TransactionSystem where
  db : Database
  leases : List (Option Handle)
  transactions : List (Option TransactionObject)
  deriving Repr, DecidableEq

inductive TransactionEvent where
  | connection (e : ConnectionEvent)
  | acquire (timed valid : Bool) (outcome : Outcome)
  | markBroken (i : Nat)
  | moveLease (i : Nat)
  | assignLease (i j : Nat)
  | destroyLease (i : Nat)
  | construct (level : Option IsolationLevel) (valid : Bool) (outcome work : Outcome)
  | setIsolationLevel (i : Nat) (answer : String → Outcome)
  | unwind (i : Nat)
  | exec (i : Nat) (outcome : Outcome)
  | execParams (i : Nat) (outcome : Outcome)
  | execPrepared (i : Nat) (outcome : Outcome)
  | commit (i : Nat) (outcome : Outcome)
  | rollback (i : Nat)
  | moveTransaction (i : Nat)
  | assignTransaction (i j : Nat)
  | destroyTransaction (i : Nat)

def ConnectionEvent.objects : ConnectionEvent → List Nat
  | .call c _ => [c]
  | .moveConnection c => [c]
  | .assignConnection c d => [c, d]
  | .destroyConnection c => [c]
  | _ => []

namespace TransactionSystem

/-- The object is idle in the pool or a private member of a transaction, so that the
program has no reference to it. -/
def hidden (s : TransactionSystem) (c : Nat) : Bool :=
  s.db.pool.state.connections.contains c ||
    s.transactions.any fun x =>
      x.any fun o => o.transaction.impl.any fun impl => impl.connection.connection == some c

/-- A program does not reach hidden objects, and does not destroy those of a lease. -/
def allows (s : TransactionSystem) (e : ConnectionEvent) : Bool :=
  e.objects.all (fun c => !s.hidden c) &&
    match e with
    | .destroyConnection c => !s.leases.any fun h => h.any (·.connection == some c)
    | _ => true

/-- Run a member function of a transaction whose constructor has returned. -/
def onTransaction (s : TransactionSystem) (i : Nat)
    (f : Transaction → (Database × Transaction) × Except Thrown Unit) :
    Option (TransactionSystem × Except Thrown Unit) :=
  match s.transactions[i]?.join with
  | some ⟨t, .ready⟩ =>
      some ({ s with
        db := (f t).1.1
        transactions := s.transactions.set i (some ⟨(f t).1.2, .ready⟩) }, (f t).2)
  | _ => none

def next (cfg : PoolConfig) (s : TransactionSystem) :
    TransactionEvent → Option (TransactionSystem × Except Thrown Unit)
  | .connection e =>
      if s.allows e then
        (s.db.core.next e).map fun r => ({ s with db := { s.db with core := r.1 } }, r.2)
      else none
  | .acquire timed valid outcome =>
      match s.db.acquire cfg timed valid outcome with
      | none => none
      | some (db, .error e) => some ({ s with db := db }, .error e)
      | some (db, .ok h) => some ({ s with db := db, leases := s.leases ++ [some h] }, .ok ())
  | .markBroken i =>
      s.leases[i]?.join.map fun h =>
        ({ s with
          db := (s.db.markBroken h).1
          leases := s.leases.set i (some (s.db.markBroken h).2) }, .ok ())
  | .moveLease i =>
      s.leases[i]?.join.map fun h =>
        ({ s with leases := s.leases.set i (some h.movedFrom) ++ [some h] }, .ok ())
  | .assignLease i j =>
      match s.leases[i]?.join, s.leases[j]?.join with
      | some target, some source =>
          if i = j then some (s, .ok ())
          else
            some ({ s with
              db := s.db.release target
              leases := (s.leases.set i (some source)).set j (some source.movedFrom) }, .ok ())
      | _, _ => none
  | .destroyLease i =>
      s.leases[i]?.join.map fun h =>
        ({ s with db := s.db.release h, leases := s.leases.set i none }, .ok ())
  | .construct level valid outcome work =>
      match TransactionImpl.make cfg s.db valid outcome work with
      | none => none
      | some (db, .error e) => some ({ s with db := db }, .error e)
      | some (db, .ok impl) =>
          some ({ s with
            db := db
            transactions := s.transactions ++
              [some ⟨⟨some impl⟩, level.elim .ready .initialising⟩] }, .ok ())
  | .setIsolationLevel i answer =>
      match s.transactions[i]?.join with
      | some ⟨t, .initialising level⟩ =>
          let r := t.setIsolationLevel s.db level answer
          some ({ s with
            db := r.1.1
            transactions := s.transactions.set i
              (some ⟨r.1.2, if r.2.isOk then .ready else .unwinding⟩) }, r.2)
      | _ => none
  | .unwind i =>
      match s.transactions[i]?.join with
      | some ⟨t, .unwinding⟩ =>
          some ({ s with db := t.reset s.db, transactions := s.transactions.set i none }, .ok ())
      | _ => none
  | .exec i outcome => s.onTransaction i fun t => t.exec s.db outcome
  | .execParams i outcome => s.onTransaction i fun t => t.execParams s.db outcome
  | .execPrepared i outcome => s.onTransaction i fun t => t.execPrepared s.db outcome
  | .commit i outcome => s.onTransaction i fun t => t.commit s.db outcome
  | .rollback i => s.onTransaction i fun t => t.rollback s.db
  | .moveTransaction i =>
      match s.transactions[i]?.join with
      | some ⟨t, .ready⟩ =>
          some ({ s with
            transactions := s.transactions.set i (some ⟨⟨none⟩, .ready⟩) ++ [some ⟨t, .ready⟩] }, .ok ())
      | _ => none
  | .assignTransaction i j =>
      match s.transactions[i]?.join, s.transactions[j]?.join with
      | some ⟨target, .ready⟩, some ⟨source, .ready⟩ =>
          if i = j then some (s, .ok ())
          else
            some ({ s with
              db := target.reset s.db
              transactions := (s.transactions.set i (some ⟨source, .ready⟩)).set j
                (some ⟨⟨none⟩, .ready⟩) }, .ok ())
      | _, _ => none
  | .destroyTransaction i =>
      match s.transactions[i]?.join with
      | some ⟨t, .ready⟩ =>
          some ({ s with db := t.destroy s.db, transactions := s.transactions.set i none }, .ok ())
      | _ => none

def Start (cfg : PoolConfig) (s : TransactionSystem) : Prop :=
  s.db.core = .start ∧ PoolState.create cfg = .ok s.db.pool.state ∧ s.db.pool.cond = .empty ∧
    s.db.pool.nextConnection = 0 ∧ s.leases = [] ∧ s.transactions = []

end TransactionSystem

def transactionMachine (cfg : PoolConfig) :
    Machine TransactionSystem TransactionEvent (Except Thrown Unit) where
  init := TransactionSystem.Start cfg
  next := TransactionSystem.next cfg

end Rtl.Db
