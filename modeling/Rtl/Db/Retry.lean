import Rtl.Base.ListUpdate
import Rtl.Db.Transaction
import Rtl.Db.LeaseConservation

/-! # Retrying a transaction

`TransactionHelper::with_retry` runs a callback in a fresh transaction until an
attempt is committed, repeating it after a serialization failure or a deadlock as
long as attempts are left. The transaction is constructed outside the `try`, so the
exceptions of its constructor are never retried.

A connection error of a statement or of the commit closes the connection before the
`pqxx::work` on it is destroyed (`Rtl.Db.WorkLifetime`). The destructor of such a work
touches a connection that is gone; here it is assumed to return and to do nothing, as it
does for a work that was committed or aborted.
-/

namespace Rtl.Db

open Rtl.Base

/-- What the handlers of `with_retry` catch, by class: the code of a bare `DbError` does not count. -/
def Thrown.retryable : Thrown → Bool
  | .dbError .serializationFailure _ _ => true
  | .dbError .deadlockDetected _ _ => true
  | _ => false

/-- All that is outside the helper's control in one attempt: how the connection is
made and the transaction begun, the statements of the callback and how it ends, and
the commit. `applied` says whether the server has applied a commit that throws. -/
structure Attempt (β : Type*) where
  valid : Bool
  outcome : Outcome
  work : Outcome
  answer : String → Outcome
  statements : List Outcome
  result : Except Thrown β
  commit : Outcome
  applied : Bool

inductive Tried (β : Type*) where
  | unbegun (e : Thrown)
  | failed (e : Thrown)
  | uncommitted (v : β) (e : Thrown) (applied : Bool)
  | committed (v : β)

/-- How the body of the loop is left: the function returns, an exception passes its
handlers, or a handler has caught one. -/
inductive Ending (β : Type*) where
  | returned (v : β)
  | escaped (e : Thrown)
  | caught (e : Thrown)

namespace TransactionHelper

variable {β : Type*}

/-- A callback that only executes statements. -/
def callback (db : Database) (t : Transaction) (statements : List Outcome) :
    Database × Transaction :=
  statements.foldl (fun r o => (r.2.exec r.1 o).1) (db, t)

/-- The `try` block. A commit that throws one of the two errors is rolled back by the
server. -/
def body (db : Database) (t : Transaction) (a : Attempt β) : (Database × Transaction) × Tried β :=
  let r := callback db t a.statements
  match a.result with
  | .error e => (r, .failed e)
  | .ok v =>
      match r.2.commit r.1 a.commit with
      | (r', .ok ()) => (r', .committed v)
      | (r', .error e) => (r', .uncommitted v e (a.applied && !e.retryable))

/-- The handlers for an exception of the `try` block; the transaction goes out of
scope on every way. -/
def handle (db : Database) (t : Transaction) (e : Thrown) : Database × Ending β :=
  if e.retryable then
    let r := if t.active then t.rollback db else ((db, t), .ok ())
    match r.2 with
    | .ok () => (r.1.2.destroy r.1.1, .caught e)
    | .error e' => (r.1.2.destroy r.1.1, .escaped e')
  else (t.destroy db, .escaped e)

/-- One turn of the loop; `none` while the constructor waits for a connection. -/
def attempt (cfg : PoolConfig) (level : IsolationLevel) (db : Database) (a : Attempt β) :
    Option (Database × Tried β × Ending β) :=
  match Transaction.construct db cfg level a.valid a.outcome a.work a.answer with
  | none => none
  | some (made, .error e) => some (made, .unbegun e, .escaped e)
  | some (made, .ok t) =>
      let b := body made t a
      match b.2 with
      | .committed v => some (b.1.2.destroy b.1.1, b.2, .returned v)
      | .unbegun e | .failed e | .uncommitted _ e _ =>
          let r := handle b.1.1 b.1.2 e
          some (r.1, b.2, r.2)

def loop (cfg : PoolConfig) (level : IsolationLevel) (maxRetries : Nat)
    (attempts : Nat → Attempt β) :
    Nat → Nat → Database → Option (Database × List (Tried β) × Except Thrown β)
  | 0, _, db => some (db, [], .error (.runtimeError "Failed"))
  | left + 1, i, db =>
      match attempt cfg level db (attempts i) with
      | none => none
      | some (db', t, .returned v) => some (db', [t], .ok v)
      | some (db', t, .escaped e) => some (db', [t], .error e)
      | some (db', t, .caught e) =>
          if i = maxRetries - 1 then some (db', [t], .error e)
          else
            (loop cfg level maxRetries attempts left (i + 1) db').map fun r =>
              (r.1, t :: r.2.1, r.2.2)

end TransactionHelper

/-! ## The pool behind the operations -/

structure Holding (cfg : PoolConfig) (active : Nat) (db : Database) : Prop where
  ok : db.pool.state.Ok cfg
  active : db.pool.state.activeConnections = active

section Pool

variable {cfg : PoolConfig} {db db' : Database} {n : Nat}

theorem Holding.setStates (held : Holding cfg n db) (states : List ConnectionState) :
    Holding cfg n (db.setStates states) :=
  ⟨held.ok, held.active⟩

theorem Holding.release (held : Holding cfg (n + 1) db) {h : Handle} (pool : h.poolState = true) :
    Holding cfg n (db.release h) := by
  have out : 0 < db.pool.state.activeConnections := by rw [held.active]; omega
  have state := (PoolSystem.returnConnection_state held.ok out (db.inspect h.connection) 0).2.2
  have ok := PoolSystem.Ok.returnConnection held.ok out (db.inspect h.connection) 0
  have same : (db.release h).pool = (db.pool.returnConnection (db.inspect h.connection) 0).1 := by
    simp [Database.release, pool, Database.discard]
  refine ⟨by rw [same]; exact ok, ?_⟩
  rw [same, state]
  simp [held.active]

/-- A connection has been given out, or the pool is as before. -/
theorem Holding.acquire (held : Holding cfg n db) {timed valid : Bool} {outcome : Outcome}
    {r : Except Thrown Handle} (h : db.acquire cfg timed valid outcome = some (db', r)) :
    (∃ handle, r = .ok handle ∧ handle.poolState = true ∧ Holding cfg (n + 1) db') ∨
      ∃ e, r = .error e ∧ Holding cfg n db' := by
  simp only [Database.acquire] at h
  split at h
  · next p c acquired =>
      cases h
      left
      refine ⟨_, rfl, rfl, ?_⟩
      have step := PoolSystem.step_of_acquire (s := db.numbered) held.ok acquired
      cases step with
      | acquires _ grab => exact ⟨held.ok.grab grab, by rw [grab.active, db.numbered_state, held.active]⟩
  · next p thrown =>
      have step := PoolSystem.step_of_acquire (s := db.numbered) held.ok thrown
      split at h
      · cases h
        right
        refine ⟨_, rfl, ?_⟩
        cases step with
        | creationThrows => exact ⟨held.ok, held.active⟩
      · cases h
  · next p e thrown =>
      have step := PoolSystem.step_of_acquire (s := db.numbered) held.ok thrown
      cases step
  · cases h

end Pool

/-! ## A transaction in progress -/

def InProgress (t : Transaction) : Prop :=
  ∃ h i, t.impl = some ⟨h, ⟨some i, true, true⟩⟩ ∧ h.poolState = true

namespace InProgress

variable {cfg : PoolConfig} {db : Database} {n : Nat} {t : Transaction}

theorem active (going : InProgress t) : t.active = true := by
  obtain ⟨h, i, impl, -⟩ := going
  simp [Transaction.active, impl]

/-- A connection error changes neither the pool nor the transaction. -/
theorem caught (going : InProgress t) {impl : TransactionImpl} (own : t.impl = some impl)
    (held : Holding cfg n db) (e : Thrown) :
    Holding cfg n (impl.caught db e).1 ∧ InProgress ⟨some (impl.caught db e).2⟩ := by
  obtain ⟨h, i, same, pool⟩ := going
  rw [own] at same
  cases same
  unfold TransactionImpl.caught
  split
  · refine ⟨?_, _, i, rfl, pool⟩
    unfold Database.markBroken
    split
    · exact held
    · exact held.setStates _
  · exact ⟨held, h, i, rfl, pool⟩

theorem execute (going : InProgress t) (held : Holding cfg n db) (o : Outcome) :
    Holding cfg n (t.execute db o).1.1 ∧ InProgress (t.execute db o).1.2 := by
  obtain ⟨h, i, impl, pool⟩ := id going
  unfold Transaction.execute
  simp only [impl]
  split
  · exact ⟨held, going⟩
  · exact going.caught impl held _

/-- Finishing the transaction and giving the lease back. -/
theorem destroyImpl {h : Handle} (pool : h.poolState = true) (tx : ConnectionTransaction)
    (held : Holding cfg (n + 1) db) : Holding cfg n (TransactionImpl.destroy db ⟨h, tx⟩) :=
  (held.setStates _).release pool

theorem destroy (going : InProgress t) (held : Holding cfg (n + 1) db) :
    Holding cfg n (t.destroy db) := by
  obtain ⟨h, i, impl, pool⟩ := going
  unfold Transaction.destroy
  simp only [impl]
  by_cases lost : h.connection = none
  · simp only [lost, if_true]
    refine destroyImpl ?_ _ (Holding.setStates ?_ _)
    · exact pool
    · simpa [Database.markBroken, lost] using held
  · simp only [lost, if_false]
    exact destroyImpl pool _ (held.setStates _)

theorem reset (going : InProgress t) (held : Holding cfg (n + 1) db) :
    Holding cfg n (t.reset db) := by
  obtain ⟨h, i, impl, pool⟩ := going
  simp only [Transaction.reset, impl]
  exact destroyImpl pool _ held

theorem rollback (going : InProgress t) (held : Holding cfg (n + 1) db) :
    ∃ db', t.rollback db = ((db', ⟨none⟩), .ok ()) ∧ Holding cfg n db' := by
  obtain ⟨h, i, impl, pool⟩ := going
  let states := setActive db.core.states (some i) false
  refine ⟨TransactionImpl.destroy (db.setStates states) ⟨h, ⟨some i, false, false⟩⟩, ?_,
    destroyImpl pool _ (held.setStates states)⟩
  simp [Transaction.rollback, impl, ConnectionTransaction.rollback,
    ConnectionTransaction.ensureActive, Transaction.ending, ConnectionTransaction.finish, states]

/-- A commit that returns has given the lease back; one that throws reports the error
of libpqxx and leaves the transaction in progress. -/
theorem commit (going : InProgress t) (held : Holding cfg (n + 1) db) (o : Outcome) :
    (o = .ok () ∧ ∃ db', t.commit db o = ((db', ⟨none⟩), .ok ()) ∧ Holding cfg n db') ∨
      ∃ e db' t', o = .error e ∧ t.commit db o = ((db', t'), .error e.translate) ∧
        Holding cfg (n + 1) db' ∧ InProgress t' := by
  obtain ⟨h, i, impl, pool⟩ := id going
  cases o with
  | ok u =>
      left
      let states := setActive db.core.states (some i) false
      refine ⟨rfl, TransactionImpl.destroy (db.setStates states) ⟨h, ⟨some i, false, false⟩⟩, ?_,
        destroyImpl pool _ (held.setStates states)⟩
      simp [Transaction.commit, impl, ConnectionTransaction.commit, ConnectionTransaction.execute,
        ConnectionTransaction.ensureActive, translatePqxxExceptions, Transaction.ending,
        ConnectionTransaction.finish, states]
  | error e =>
      right
      obtain ⟨held', going'⟩ := going.caught impl held e.translate
      refine ⟨e, _, _, rfl, ?_, held', going'⟩
      simp [Transaction.commit, impl, ConnectionTransaction.commit, ConnectionTransaction.execute,
        ConnectionTransaction.ensureActive, translatePqxxExceptions, Transaction.ending]

end InProgress

/-! ## One attempt -/

namespace Tried

variable {β : Type*}

def ending : Tried β → Ending β
  | .unbegun e => .escaped e
  | .failed e => if e.retryable then .caught e else .escaped e
  | .uncommitted _ e _ => if e.retryable then .caught e else .escaped e
  | .committed v => .returned v

def called : Tried β → Bool
  | .unbegun _ => false
  | _ => true

def isCommitted : Tried β → Bool
  | .committed _ => true
  | _ => false

def error : Tried β → Option Thrown
  | .unbegun e => some e
  | .failed e => some e
  | .uncommitted _ e _ => some e
  | .committed _ => none

def retries (t : Tried β) : Bool := t.called && t.error.any Thrown.retryable

def Reports (a : Attempt β) : Tried β → Prop
  | .unbegun _ => True
  | .failed e => a.result = .error e
  | .uncommitted v e applied => a.result = .ok v ∧ (∃ x, a.commit = .error x ∧ e = x.translate) ∧
      (applied = true → a.applied = true ∧ e.retryable = false)
  | .committed v => a.result = .ok v ∧ a.commit = .ok ()

end Tried

namespace TransactionHelper

variable {β : Type*} {cfg : PoolConfig} {db db' : Database} {n : Nat} {t : Transaction}
  {level : IsolationLevel}

end TransactionHelper

/-! ## All attempts -/

namespace Tried

variable {β : Type*} {t : Tried β} {e : Thrown}

theorem ending_returned {v : β} (h : t.ending = .returned v) : t = .committed v := by
  cases t with
  | unbegun e => cases h
  | failed e =>
      simp only [ending] at h
      split at h <;> cases h
  | uncommitted w e applied =>
      simp only [ending] at h
      split at h <;> cases h
  | committed w =>
      cases h
      rfl

theorem ending_escaped (h : t.ending = .escaped e) :
    t.error = some e ∧ t.retries = false ∧ t.isCommitted = false := by
  cases t with
  | unbegun x =>
      cases h
      exact ⟨rfl, rfl, rfl⟩
  | failed x =>
      simp only [ending] at h
      split at h
      · cases h
      · next stays =>
          cases h
          exact ⟨rfl, by simpa [retries, called, error] using stays, rfl⟩
  | uncommitted w x applied =>
      simp only [ending] at h
      split at h
      · cases h
      · next stays =>
          cases h
          exact ⟨rfl, by simpa [retries, called, error] using stays, rfl⟩
  | committed w => cases h

theorem ending_caught (h : t.ending = .caught e) :
    t.error = some e ∧ e.retryable = true ∧ t.retries = true ∧ t.isCommitted = false := by
  cases t with
  | unbegun x => cases h
  | failed x =>
      simp only [ending] at h
      split at h
      · next again =>
          cases h
          exact ⟨rfl, again, again, rfl⟩
      · cases h
  | uncommitted w x applied =>
      simp only [ending] at h
      split at h
      · next again =>
          cases h
          exact ⟨rfl, again, again, rfl⟩
      · cases h
  | committed w => cases h

end Tried

/-- The attempts of a call that has this many left, and its value or exception: the
last one returns, or throws what is not caught, or is the last one allowed. -/
inductive Attempted {β : Type*} : Nat → List (Tried β) → Except Thrown β → Prop where
  | returned {left : Nat} {t : Tried β} {v : β} : t.ending = .returned v →
      Attempted (left + 1) [t] (.ok v)
  | escaped {left : Nat} {t : Tried β} {e : Thrown} : t.ending = .escaped e →
      Attempted (left + 1) [t] (.error e)
  | exhausted {t : Tried β} {e : Thrown} : t.ending = .caught e → Attempted 1 [t] (.error e)
  | again {left : Nat} {t : Tried β} {e : Thrown} {ts : List (Tried β)} {r : Except Thrown β} :
      t.ending = .caught e → Attempted (left + 1) ts r → Attempted (left + 2) (t :: ts) r

namespace TransactionHelper

variable {β : Type*} {cfg : PoolConfig} {level : IsolationLevel} {attempts : Nat → Attempt β}
  {maxRetries n : Nat}

def Recorded (attempts : Nat → Attempt β) (i : Nat) (log : List (Tried β)) : Prop :=
  ∀ (k : Nat) (t : Tried β), log[k]? = some t → t.Reports (attempts (i + k))

theorem Recorded.single {i : Nat} {t : Tried β} (reports : t.Reports (attempts i)) :
    Recorded attempts i [t] := by
  rintro (_ | k) u at_k
  · cases at_k
    exact reports
  · cases at_k

theorem Recorded.cons {i : Nat} {t : Tried β} {ts : List (Tried β)}
    (reports : t.Reports (attempts i)) (rest : Recorded attempts (i + 1) ts) :
    Recorded attempts i (t :: ts) := by
  rintro (_ | k) u at_k
  · cases at_k
    exact reports
  · have there := rest k u (by simpa using at_k)
    rwa [show i + (k + 1) = i + 1 + k by omega]

end TransactionHelper

/-! ## The helper as a whole -/

section Shape

variable {β : Type*} {left : Nat} {log : List (Tried β)} {r : Except Thrown β}

/-- All attempts but the last have met one of the two errors, and the last one decides;
if it has met one too, no attempt is left. -/
structure Decided (left : Nat) (before : List (Tried β)) (last : Tried β) (r : Except Thrown β) :
    Prop where
  retried : ∀ t ∈ before, t.retries = true
  budget : before.length + 1 ≤ left
  exhausted : last.retries = true → before.length + 1 = left
  decides : (∃ v, last = .committed v ∧ r = .ok v) ∨
    ∃ e, last.error = some e ∧ last.isCommitted = false ∧ r = .error e

theorem Attempted.decided (attempted : Attempted left log r) :
    ∃ before last, log = before ++ [last] ∧ Decided left before last r := by
  induction attempted with
  | @returned left t v ended =>
      obtain rfl := Tried.ending_returned ended
      exact ⟨[], _, rfl, by simp, by simp, by simp [Tried.retries, Tried.error], .inl ⟨v, rfl, rfl⟩⟩
  | @escaped left t e ended =>
      obtain ⟨error, stays, unfinished⟩ := Tried.ending_escaped ended
      exact ⟨[], t, rfl, by simp, by simp, by simp [stays], .inr ⟨e, error, unfinished, rfl⟩⟩
  | @exhausted t e ended =>
      obtain ⟨error, -, -, unfinished⟩ := Tried.ending_caught ended
      exact ⟨[], t, rfl, by simp, by simp, by simp, .inr ⟨e, error, unfinished, rfl⟩⟩
  | @again left t e ts r ended _ ih =>
      obtain ⟨before, last, rfl, decided⟩ := ih
      obtain ⟨-, -, retries, -⟩ := Tried.ending_caught ended
      refine ⟨t :: before, last, rfl, ?_, ?_, ?_, decided.decides⟩
      · intro u mem
        rcases List.mem_cons.mp mem with rfl | old
        · exact retries
        · exact decided.retried u old
      · have budget := decided.budget
        simp only [List.length_cons]
        omega
      · intro again
        have full := decided.exhausted again
        simp only [List.length_cons]
        omega

variable {before : List (Tried β)} {last : Tried β}

end Shape

namespace TransactionHelper

variable {β : Type*} {maxRetries : Nat} {attempts : Nat → Attempt β} {log : List (Tried β)}
  {r : Except Thrown β}

end TransactionHelper

end Rtl.Db
