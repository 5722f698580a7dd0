import Rtl.Base.Machine
import Rtl.Base.ListUpdate
import Rtl.Db.Errors

/-! # Connections and their transactions

A `Connection` and every `ConnectionTransaction` begun on it share one
`ConnectionState`, which owns the libpqxx connection and the flag
`transaction_active`. Shared pointers are positions in the list of all states, so a
state outlives every handle. How each call into libpqxx ends is chosen by the
environment, and so is the moment at which a link goes down.
-/

namespace Rtl.Db

open Rtl.Base

/-- `connection` is the owned `pqxx::connection`, if any, with the answer of its
`is_open`. -/
structure ConnectionState where
  connection : Option Bool
  transactionActive : Bool
  deriving Repr, DecidableEq

def setActive (states : List ConnectionState) (state : Option Nat) (active : Bool) :
    List ConnectionState :=
  match state with
  | none => states
  | some i => states.modify i fun s => { s with transactionActive := active }

/-! ## Transactions -/

/-- `impl` says whether the handle owns a `pqxx::work`. -/
structure ConnectionTransaction where
  state : Option Nat
  impl : Bool
  active : Bool
  deriving Repr, DecidableEq

/-- The member functions that speak to libpqxx or end the transaction. -/
inductive TransactionCall where
  | exec (outcome : Outcome)
  | execParams (outcome : Outcome)
  | execPrepared (outcome : Outcome)
  | commit (outcome : Outcome)
  | rollback

namespace ConnectionTransaction

def movedFrom : ConnectionTransaction := ⟨none, false, false⟩

def ensureActive (t : ConnectionTransaction) : Except Thrown Unit :=
  if t.state = none then .error (.logicError "Invalid transaction handle")
  else if !t.active || !t.impl then .error (.logicError "Transaction is not active")
  else .ok ()

/-- The flag is cleared whether or not this handle is the one that set it. -/
def finish (states : List ConnectionState) (t : ConnectionTransaction) :
    List ConnectionState × ConnectionTransaction :=
  (setActive states t.state false, { t with impl := false, active := false })

/-- An exception leaves the state as it was. -/
def begin (states : List ConnectionState) (t : ConnectionTransaction) (work : Outcome) :
    Except Thrown (List ConnectionState × ConnectionTransaction) :=
  match t.state.bind (states[·]?) with
  | none => .error (.logicError "Invalid transaction handle")
  | some s =>
      match s.connection with
      | none => .error (.connectionError "Connection state does not own a connection")
      | some isOpen =>
          if !isOpen then .error (.connectionError "Connection is not open")
          else if s.transactionActive then
            .error (.logicError "Connection already has an active transaction")
          else if t.active || t.impl then
            .error (.logicError "Transaction has already been started")
          else
            match translatePqxxExceptions work with
            | .error e => .error e
            | .ok () => .ok (setActive states t.state true, { t with impl := true, active := true })

def construct (states : List ConnectionState) (state : Option Nat) (work : Outcome) :
    Except Thrown (List ConnectionState × ConnectionTransaction) :=
  begin states ⟨state, false, false⟩ work

def execute (t : ConnectionTransaction) (outcome : Outcome) : Except Thrown Unit :=
  match t.ensureActive with
  | .error e => .error e
  | .ok () => translatePqxxExceptions outcome

def exec (t : ConnectionTransaction) (outcome : Outcome) : Except Thrown Unit := t.execute outcome

/-- Without parameters libpqxx is given the statement alone. -/
def execParams (t : ConnectionTransaction) (outcome : Outcome) : Except Thrown Unit :=
  t.execute outcome

def execPrepared (t : ConnectionTransaction) (outcome : Outcome) : Except Thrown Unit :=
  t.execute outcome

def commit (states : List ConnectionState) (t : ConnectionTransaction) (outcome : Outcome) :
    (List ConnectionState × ConnectionTransaction) × Except Thrown Unit :=
  match t.execute outcome with
  | .error e => ((states, t), .error e)
  | .ok () => (t.finish states, .ok ())

def rollback (states : List ConnectionState) (t : ConnectionTransaction) :
    (List ConnectionState × ConnectionTransaction) × Except Thrown Unit :=
  match t.ensureActive with
  | .error e => ((states, t), .error e)
  | .ok () => (t.finish states, .ok ())

def call (states : List ConnectionState) (t : ConnectionTransaction) :
    TransactionCall → (List ConnectionState × ConnectionTransaction) × Except Thrown Unit
  | .exec outcome => ((states, t), t.exec outcome)
  | .execParams outcome => ((states, t), t.execParams outcome)
  | .execPrepared outcome => ((states, t), t.execPrepared outcome)
  | .commit outcome => t.commit states outcome
  | .rollback => t.rollback states

end ConnectionTransaction

/-! ## Connections -/

structure Connection where
  connectionState : Option Nat
  deriving Repr, DecidableEq

/-- The outcomes of the three calls into libpqxx of a statement that runs in a
transaction of its own. -/
structure Single where
  work : Outcome
  exec : Outcome
  commit : Outcome

inductive ConnectionCall where
  | close
  | prepare (outcome : Outcome)
  | beginTransaction (work : Outcome)
  | exec (single : Single)
  | execParams (noParams : Bool) (single : Single)
  | execPrepared (single : Single)

namespace Connection

variable (states : List ConnectionState) (c : Connection)

def isOpen : Bool :=
  match c.connectionState.bind (states[·]?) with
  | none => false
  | some s => s.connection == some true

def close : List ConnectionState :=
  match c.connectionState with
  | none => states
  | some i => states.modify i fun s => { s with connection := none }

def ensureOpen : Except Thrown Unit :=
  if c.connectionState = none then .error (.logicError "Invalid connection handle")
  else if !c.isOpen states then .error (.connectionError "Connection is not open")
  else .ok ()

def beginTransaction (work : Outcome) :
    Except Thrown (List ConnectionState × ConnectionTransaction) :=
  match c.ensureOpen states with
  | .error e => .error e
  | .ok () => ConnectionTransaction.construct states c.connectionState work

/-- A local transaction: begun, used, committed, and destroyed on every way out. -/
def single (o : Single) : List ConnectionState × Except Thrown Unit :=
  match c.beginTransaction states o.work with
  | .error e => (states, .error e)
  | .ok (begun, tx) =>
      match tx.execute o.exec with
      | .error e => ((tx.finish begun).1, .error e)
      | .ok () =>
          let r := tx.commit begun o.commit
          ((r.1.2.finish r.1.1).1, r.2)

def exec (o : Single) : List ConnectionState × Except Thrown Unit := c.single states o

def execParams (noParams : Bool) (o : Single) : List ConnectionState × Except Thrown Unit :=
  match c.ensureOpen states with
  | .error e => (states, .error e)
  | .ok () => if noParams then c.exec states o else c.single states o

def execPrepared (o : Single) : List ConnectionState × Except Thrown Unit := c.single states o

def prepare (outcome : Outcome) : Except Thrown Unit :=
  match c.ensureOpen states with
  | .error e => .error e
  | .ok () => translatePqxxExceptions outcome

/-- The states afterwards, the transaction returned, and how the call ends. -/
def call : ConnectionCall →
    List ConnectionState × Option ConnectionTransaction × Except Thrown Unit
  | .close => (c.close states, none, .ok ())
  | .prepare outcome => (states, none, c.prepare states outcome)
  | .beginTransaction work =>
      match c.beginTransaction states work with
      | .error e => (states, none, .error e)
      | .ok (begun, tx) => (begun, some tx, .ok ())
  | .exec o => ((c.exec states o).1, none, (c.exec states o).2)
  | .execParams noParams o =>
      ((c.execParams states noParams o).1, none, (c.execParams states noParams o).2)
  | .execPrepared o => ((c.execPrepared states o).1, none, (c.execPrepared states o).2)

end Connection

/-- The constructor's `try_to_establish_connection`: every `pqxx::failure` becomes a
connection error, the logic errors of libpqxx pass. -/
def establish (valid : Bool) (outcome : Outcome) : Except Thrown Unit :=
  if !valid then .error (.dbError .configurationError "Invalid connection configuration" none)
  else
    match outcome with
    | .ok () => .ok ()
    | .error e =>
        match e.kind with
        | .conversionError | .argumentError | .usageError | .internalError | .uncaught =>
            .error (.passed e)
        | _ => .error (.connectionError e.what)

/-! ## The objects of a program -/

/-- A destroyed object leaves `none` behind, so positions stay valid. -/
structure ConnectionSystem where
  states : List ConnectionState
  connections : List (Option Connection)
  transactions : List (Option ConnectionTransaction)
  deriving Repr, DecidableEq

inductive ConnectionEvent where
  | connect (valid : Bool) (outcome : Outcome)
  | call (c : Nat) (call : ConnectionCall)
  | moveConnection (c : Nat)
  | assignConnection (c d : Nat)
  | destroyConnection (c : Nat)
  | transaction (t : Nat) (call : TransactionCall)
  | moveTransaction (t : Nat)
  | assignTransaction (t u : Nat)
  | destroyTransaction (t : Nat)
  | loseLink (i : Nat)

namespace ConnectionSystem

def connection? (s : ConnectionSystem) (c : Nat) : Option Connection := s.connections[c]?.join

def transaction? (s : ConnectionSystem) (t : Nat) : Option ConnectionTransaction :=
  s.transactions[t]?.join

def opened (s : ConnectionSystem) : ConnectionSystem :=
  { s with
    states := s.states ++ [⟨some true, false⟩]
    connections := s.connections ++ [some ⟨some s.states.length⟩] }

def next (s : ConnectionSystem) :
    ConnectionEvent → Option (ConnectionSystem × Except Thrown Unit)
  | .connect valid outcome =>
      match establish valid outcome with
      | .error e => some (s, .error e)
      | .ok () => some (s.opened, .ok ())
  | .call c call =>
      (s.connection? c).map fun x =>
        let r := x.call s.states call
        ({ s with
          states := r.1
          transactions := s.transactions ++ r.2.1.toList.map some }, r.2.2)
  | .moveConnection c =>
      (s.connection? c).map fun x =>
        ({ s with connections := s.connections.set c (some ⟨none⟩) ++ [some x] }, .ok ())
  | .assignConnection c d =>
      match s.connection? c, s.connection? d with
      | some _, some source =>
          -- moving a shared pointer onto itself keeps it
          if c = d then some (s, .ok ())
          else
            some ({ s with
              connections := (s.connections.set c (some source)).set d (some ⟨none⟩) }, .ok ())
      | _, _ => none
  | .destroyConnection c =>
      (s.connection? c).map fun _ => ({ s with connections := s.connections.set c none }, .ok ())
  | .transaction t call =>
      (s.transaction? t).map fun x =>
        let r := x.call s.states call
        ({ s with states := r.1.1, transactions := s.transactions.set t (some r.1.2) }, r.2)
  | .moveTransaction t =>
      (s.transaction? t).map fun x =>
        ({ s with transactions := s.transactions.set t (some .movedFrom) ++ [some x] }, .ok ())
  | .assignTransaction t u =>
      match s.transaction? t, s.transaction? u with
      | some target, some source =>
          if t = u then some (s, .ok ())
          else
            some ({ s with
              states := (target.finish s.states).1
              transactions := (s.transactions.set t (some source)).set u (some .movedFrom) }, .ok ())
      | _, _ => none
  | .destroyTransaction t =>
      (s.transaction? t).map fun x =>
        ({ s with states := (x.finish s.states).1, transactions := s.transactions.set t none },
          .ok ())
  | .loseLink i =>
      if i < s.states.length then
        some ({ s with
          states := s.states.modify i fun x => { x with connection := x.connection.map fun _ => false } },
          .ok ())
      else none

def start : ConnectionSystem := ⟨[], [], []⟩

end ConnectionSystem

def connectionMachine : Machine ConnectionSystem ConnectionEvent (Except Thrown Unit) where
  init := (· = .start)
  next := ConnectionSystem.next

/-! ## What the calls do -/

theorem setActive_setActive (states : List ConnectionState) (state : Option Nat) (a b : Bool) :
    setActive (setActive states state a) state b = setActive states state b := by
  cases state with
  | none => rfl
  | some i =>
      simp only [setActive, List.modify_modify_eq]
      rfl

theorem setActive_eq_self {states : List ConnectionState} {i : Nat} {x : ConnectionState}
    (h : states[i]? = some x) : setActive states (some i) x.transactionActive = states := by
  apply List.ext_getElem?
  intro j
  simp only [setActive, List.getElem?_modify]
  by_cases same : i = j
  · subst same
    rw [h]
    simp
  · simp [same]

namespace ConnectionTransaction

variable {states : List ConnectionState} {t : ConnectionTransaction}

theorem ensureActive_ok (h : t.ensureActive = .ok ()) :
    t.state ≠ none ∧ t.active = true ∧ t.impl = true := by
  unfold ensureActive at h
  split at h
  · cases h
  · next bound =>
      split at h
      · cases h
      · next going =>
          simp only [Bool.or_eq_true, Bool.not_eq_true', not_or, Bool.not_eq_false] at going
          exact ⟨bound, going⟩

/-- A transaction begins only on an open connection whose flag is down. -/
theorem construct_ok {state : Option Nat} {work : Outcome}
    {r : List ConnectionState × ConnectionTransaction}
    (h : construct states state work = .ok r) :
    ∃ i x, state = some i ∧ states[i]? = some x ∧ x.connection = some true ∧
      x.transactionActive = false ∧ r = (setActive states (some i) true, ⟨some i, true, true⟩) := by
  cases state with
  | none => simp [construct, begin] at h
  | some i =>
      simp only [construct, begin, Option.bind_some] at h
      cases at_i : states[i]? with
      | none => simp [at_i] at h
      | some x =>
          obtain ⟨connection, flag⟩ := x
          simp only [at_i] at h
          rcases connection with _ | isOpen
          · cases h
          · cases isOpen <;> cases flag <;> try cases h
            cases called : translatePqxxExceptions work with
            | error e => simp [called] at h
            | ok u =>
                simp only [called] at h
                cases h
                exact ⟨i, _, rfl, at_i, rfl, rfl, rfl⟩

/-- A call leaves everything as it is, or it finishes a transaction in progress. -/
theorem call_cases (states : List ConnectionState) (t : ConnectionTransaction)
    (call : TransactionCall) :
    (t.call states call).1 = (states, t) ∨
      (t.active = true ∧ (t.call states call).1 = t.finish states) := by
  cases call with
  | exec outcome => exact .inl rfl
  | execParams outcome => exact .inl rfl
  | execPrepared outcome => exact .inl rfl
  | commit outcome =>
      cases checked : t.ensureActive with
      | error e =>
          left
          simp [ConnectionTransaction.call, commit, execute, checked]
      | ok u =>
          cases called : translatePqxxExceptions outcome with
          | error e =>
              left
              simp [ConnectionTransaction.call, commit, execute, checked, called]
          | ok u =>
              right
              refine ⟨(ensureActive_ok checked).2.1, ?_⟩
              simp [ConnectionTransaction.call, commit, execute, checked, called]
  | rollback =>
      cases checked : t.ensureActive with
      | error e =>
          left
          simp [ConnectionTransaction.call, rollback, checked]
      | ok u =>
          right
          refine ⟨(ensureActive_ok checked).2.1, ?_⟩
          simp [ConnectionTransaction.call, rollback, checked]

/-- However a transaction ends, finishing it restores the flag it has set. -/
theorem finish_begun {i : Nat} {x : ConnectionState} (h : states[i]? = some x)
    (down : x.transactionActive = false) {t : ConnectionTransaction} (bound : t.state = some i) :
    (t.finish (setActive states (some i) true)).1 = states := by
  have same := setActive_eq_self h
  rw [down] at same
  rw [finish, bound, setActive_setActive, same]

theorem finish_finish_begun {i : Nat} {x : ConnectionState} (h : states[i]? = some x)
    (down : x.transactionActive = false) {t : ConnectionTransaction} (bound : t.state = some i) :
    ((t.finish (setActive states (some i) true)).2.finish
      (t.finish (setActive states (some i) true)).1).1 = states := by
  have same := setActive_eq_self h
  rw [down] at same
  rw [finish_begun h down bound]
  simp only [finish, bound, same]

end ConnectionTransaction

namespace Connection

variable {states : List ConnectionState} {c : Connection}

theorem beginTransaction_ok {work : Outcome} {r : List ConnectionState × ConnectionTransaction}
    (h : c.beginTransaction states work = .ok r) :
    ∃ i x, states[i]? = some x ∧ x.connection = some true ∧ x.transactionActive = false ∧
      r = (setActive states (some i) true, ⟨some i, true, true⟩) := by
  unfold beginTransaction at h
  split at h
  · cases h
  · obtain ⟨i, x, -, rest⟩ := ConnectionTransaction.construct_ok h
    exact ⟨i, x, rest⟩

/-- A statement that runs in a transaction of its own leaves no trace. -/
theorem single_states (states : List ConnectionState) (c : Connection) (o : Single) :
    (c.single states o).1 = states := by
  unfold single
  cases begun : c.beginTransaction states o.work with
  | error e => rfl
  | ok r =>
      obtain ⟨i, x, at_i, -, down, rfl⟩ := beginTransaction_ok begun
      have once := ConnectionTransaction.finish_begun (t := ⟨some i, true, true⟩) at_i down rfl
      have twice := ConnectionTransaction.finish_finish_begun (t := ⟨some i, true, true⟩) at_i down rfl
      simp only
      cases executed : (ConnectionTransaction.mk (some i) true true).execute o.exec with
      | error e => exact once
      | ok u =>
          simp only [ConnectionTransaction.commit]
          split
          · exact once
          · exact twice

/-- A call closes the connection, begins a transaction, or changes nothing. -/
theorem call_cases (states : List ConnectionState) (c : Connection) (call : ConnectionCall) :
    (call = .close ∧ (c.call states call).1 = c.close states ∧ (c.call states call).2.1 = none) ∨
    (call ≠ .close ∧ (c.call states call).1 = states ∧ (c.call states call).2.1 = none) ∨
    call ≠ .close ∧ ∃ i x, states[i]? = some x ∧ x.connection = some true ∧
      x.transactionActive = false ∧
      (c.call states call).1 = setActive states (some i) true ∧
      (c.call states call).2.1 = some ⟨some i, true, true⟩ := by
  cases call with
  | close => exact .inl ⟨rfl, rfl, rfl⟩
  | prepare outcome => exact .inr (.inl ⟨nofun, rfl, rfl⟩)
  | beginTransaction work =>
      right
      cases begun : c.beginTransaction states work with
      | error e =>
          left
          simp [Connection.call, begun]
      | ok r =>
          right
          obtain ⟨i, x, at_i, isOpen, down, rfl⟩ := beginTransaction_ok begun
          refine ⟨nofun, i, x, at_i, isOpen, down, ?_⟩
          simp [Connection.call, begun]
  | exec o => exact .inr (.inl ⟨nofun, single_states states c o, rfl⟩)
  | execParams noParams o =>
      refine .inr (.inl ⟨nofun, ?_, rfl⟩)
      simp only [Connection.call, execParams, exec]
      split
      · rfl
      · split <;> exact single_states states c o
  | execPrepared o => exact .inr (.inl ⟨nofun, single_states states c o, rfl⟩)

end Connection

/-! ## The steps of the system -/

/-- The handle on which `finish` runs without a check that its transaction is in
progress: the one destroyed, or the target of an assignment. -/
def ConnectionEvent.finishes : ConnectionEvent → Option Nat
  | .destroyTransaction t => some t
  | .assignTransaction t u => if t = u then none else some t
  | _ => none

def ConnectionEvent.closes : ConnectionEvent → Option Nat
  | .call c .close => some c
  | _ => none

theorem ConnectionEvent.closes_call {c : Nat} {call : ConnectionCall} (other : call ≠ .close) :
    (ConnectionEvent.call c call).closes = none := by
  cases call <;> first | rfl | exact absurd rfl other

namespace ConnectionSystem

inductive Step (s : ConnectionSystem) : ConnectionEvent → ConnectionSystem → Prop where
  | same {e : ConnectionEvent} (connections : List (Option Connection)) : e.finishes = none →
      e.closes = none → Step s e { s with connections := connections }
  | opens {valid : Bool} {outcome : Outcome} : Step s (.connect valid outcome) s.opened
  | closes {c : Nat} {x : Connection} : s.connection? c = some x →
      Step s (.call c .close) { s with states := x.close s.states }
  | loses {i : Nat} :
      Step s (.loseLink i) { s with
        states := s.states.modify i fun x => { x with connection := x.connection.map fun _ => false } }
  | begins {c : Nat} {call : ConnectionCall} {i : Nat} {x : ConnectionState} : call ≠ .close →
      s.states[i]? = some x → x.connection = some true → x.transactionActive = false →
      Step s (.call c call) { s with
        states := setActive s.states (some i) true
        transactions := s.transactions ++ [some ⟨some i, true, true⟩] }
  | finishes {t : Nat} {call : TransactionCall} {x : ConnectionTransaction} :
      s.transactions[t]? = some (some x) → x.active = true →
      Step s (.transaction t call) { s with
        states := setActive s.states x.state false
        transactions := s.transactions.set t (some { x with impl := false, active := false }) }
  | moves {t : Nat} {x : ConnectionTransaction} : s.transactions[t]? = some (some x) →
      Step s (.moveTransaction t) { s with
        transactions := s.transactions.set t (some .movedFrom) ++ [some x] }
  | assigns {t u : Nat} {target source : ConnectionTransaction} :
      s.transactions[t]? = some (some target) → s.transactions[u]? = some (some source) → t ≠ u →
      Step s (.assignTransaction t u) { s with
        states := setActive s.states target.state false
        transactions := (s.transactions.set t (some source)).set u (some .movedFrom) }
  | destroys {t : Nat} {x : ConnectionTransaction} : s.transactions[t]? = some (some x) →
      Step s (.destroyTransaction t) { s with
        states := setActive s.states x.state false
        transactions := s.transactions.set t none }

variable {s u : ConnectionSystem} {e : ConnectionEvent} {o : Except Thrown Unit}

theorem transaction?_eq_some {t : Nat} {x : ConnectionTransaction} :
    s.transaction? t = some x ↔ s.transactions[t]? = some (some x) := by
  simp [transaction?, Option.join_eq_some_iff]

/-- The steps of the code are among those listed. -/
theorem step_of_next (h : s.next e = some (u, o)) : Step s e u := by
  cases e with
  | connect valid outcome =>
      simp only [next] at h
      cases made : establish valid outcome with
      | error e =>
          simp only [made] at h
          cases h
          exact .same s.connections rfl rfl
      | ok r =>
          simp only [made] at h
          cases h
          exact .opens
  | call c call =>
      obtain ⟨x, at_c, h⟩ := Option.map_eq_some_iff.mp h
      cases h
      rcases x.call_cases s.states call with ⟨rfl, states, begun⟩ | ⟨other, states, begun⟩ |
        ⟨other, i, y, at_i, isOpen, down, states, begun⟩
      · rw [states, begun]
        simpa using Step.closes at_c
      · rw [states, begun]
        have calm := ConnectionEvent.closes_call (c := c) other
        simpa using Step.same (s := s) s.connections rfl calm
      · rw [states, begun]
        exact .begins other at_i isOpen down
  | moveConnection c =>
      obtain ⟨x, -, h⟩ := Option.map_eq_some_iff.mp h
      cases h
      exact .same _ rfl rfl
  | assignConnection c d =>
      simp only [next] at h
      split at h
      · split at h <;> cases h
        · exact .same s.connections rfl rfl
        · exact .same _ rfl rfl
      · cases h
  | destroyConnection c =>
      obtain ⟨x, -, h⟩ := Option.map_eq_some_iff.mp h
      cases h
      exact .same _ rfl rfl
  | transaction t call =>
      obtain ⟨x, at_t, h⟩ := Option.map_eq_some_iff.mp h
      have here := transaction?_eq_some.mp at_t
      cases h
      rcases x.call_cases s.states call with same | ⟨going, finished⟩
      · rw [same]
        have back : s.transactions.set t (some x) = s.transactions := by
          obtain ⟨inside, value⟩ := List.getElem?_eq_some_iff.mp here
          rw [← value, List.set_getElem_self]
        rw [back]
        exact .same s.connections rfl rfl
      · rw [finished]
        exact .finishes here going
  | moveTransaction t =>
      obtain ⟨x, at_t, h⟩ := Option.map_eq_some_iff.mp h
      cases h
      exact .moves (transaction?_eq_some.mp at_t)
  | assignTransaction t w =>
      simp only [next] at h
      split at h
      · next target source at_t at_w =>
          split at h <;> cases h
          · next self => exact .same s.connections (if_pos self) rfl
          · next apart =>
              exact .assigns (transaction?_eq_some.mp at_t) (transaction?_eq_some.mp at_w) apart
      · cases h
  | destroyTransaction t =>
      obtain ⟨x, at_t, h⟩ := Option.map_eq_some_iff.mp h
      cases h
      exact .destroys (transaction?_eq_some.mp at_t)
  | loseLink i =>
      simp only [next] at h
      split at h
      · cases h
        exact .loses
      · cases h

end ConnectionSystem

end Rtl.Db
