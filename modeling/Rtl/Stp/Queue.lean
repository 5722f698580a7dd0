import Rtl.Base.Machine
import Rtl.Base.CondVar
import Rtl.Stp.Container

/-! # The bounded multi-producer multi-consumer queue

`UnbMpMcTemplateQueue` guards its buffer by one mutex. Every stretch of code
between taking and releasing it is one step here; a wait on a condition variable
releases it and comes back as a later step. Notifications that the source sends
after unlocking are steps of their own and are owed until then. The wait loops
use the predicate overloads, so a thread that resumes evaluates its predicate
first and parks again if that is false.
-/

namespace Rtl.Stp

open Rtl.Base

/-- The source calls the first state `open`, a reserved word here. -/
inductive ContainerState where
  | opened
  | closing
  deriving Repr, DecidableEq

inductive PutResultErrorCode where
  | accepted
  | closed
  | full
  | timeout
  deriving Repr, DecidableEq

inductive TakeResultErrorCode where
  | item
  | timeout
  | closed
  deriving Repr, DecidableEq

structure TakeResult (α : Type*) where
  result : Option α := none
  erc : TakeResultErrorCode := .item
  deriving Repr, DecidableEq

/-- The members guarded by `m_mutex`; a bound of 0 means unbounded. -/
structure Queue (κ : Type*) where
  buffer : κ
  maxQueueSize : Nat
  state : ContainerState
  deriving Repr, DecidableEq

/-! ## Decisions taken while the mutex is held -/

namespace Queue

variable {κ α : Type*} (c : Container κ α) (q : Queue κ)

def full : Bool := decide (c.size q.buffer + 1 > q.maxQueueSize) && decide (q.maxQueueSize ≠ 0)

/-- The wait predicate of the producers. It is not the negation of `full`: with
the bound 0 the queue is never full, yet only closing makes the predicate true. -/
def notFullPredicate : Bool :=
  decide (q.state = .closing) || decide (c.size q.buffer < q.maxQueueSize)

def notEmptyPredicate : Bool :=
  decide (q.state = .closing) || !c.empty q.buffer

def Admits : Prop := q.maxQueueSize = 0 ∨ c.size q.buffer < q.maxQueueSize

instance : Decidable (q.Admits c) := inferInstanceAs (Decidable (_ ∨ _))

inductive Admission where
  | push
  | wait
  | result (code : PutResultErrorCode)
  deriving Repr, DecidableEq

def put : Admission :=
  if q.state ≠ .opened then .result .closed
  else if q.full c then .result .full
  else .push

/-- `put_wait` and `put_wait_for` up to their first wait. A full queue makes the
wait predicate false unless it is closing, and closing was excluded just before. -/
def putWait : Admission :=
  if q.state ≠ .opened then .result .closed
  else if q.full c then .wait
  else .push

/-- A producer that holds the mutex again after a wake-up: the predicate, then the
check for closing, then the loop condition. Only `put_wait_for` can time out. -/
def putWaitResumed (timed timedOut : Bool) : Admission :=
  if q.notFullPredicate c then
    if q.state = .closing then .result .closed
    else if q.full c then .wait
    else .push
  else if timed && timedOut then .result .timeout
  else .wait

inductive Removal where
  | pop
  | wait
  | result (code : TakeResultErrorCode)
  deriving Repr, DecidableEq

def tryTake : Removal :=
  if c.empty q.buffer = false then .pop
  else if q.state = .closing then .result .closed
  else .wait

def tryTakeResumed (timedOut : Bool) : Removal :=
  if q.notEmptyPredicate c then
    if q.state = .closing ∧ c.empty q.buffer = true then .result .closed
    else .pop
  else if timedOut then .result .timeout
  else .wait

/-- The deprecated `take` waits for an item only, whatever the state. -/
def take : Removal :=
  if c.empty q.buffer then .wait else .pop

end Queue

/-! ## Threads and their steps -/

/-- A `put_wait` or, when `timed`, a `put_wait_for` inside its wait. -/
structure Producer (α : Type*) where
  item : α
  timed : Bool
  deriving Repr, DecidableEq

/-- A `tryTake` or, when `deprecated`, a `take` inside its wait. -/
structure Taker (τ : Type*) where
  who : τ
  deprecated : Bool
  deriving Repr, DecidableEq

/-- The queue with the threads in its wait sets and the notifications still owed. -/
structure QueueState (κ α τ : Type*) where
  queue : Queue κ
  notFull : CondVar (Producer α)
  notEmpty : CondVar (Taker τ)
  /-- Calls of `tryTake` that have popped and unlocked, before `m_notFull.notify_one`. -/
  owedNotFull : Nat
  /-- Calls of `close` that have unlocked, before `m_notEmptyQueue.notify_all`. -/
  closingNotEmpty : Nat
  /-- Calls of `close` between their two notifications. -/
  closingNotFull : Nat
  deriving Repr, DecidableEq

inductive QueueEvent (α τ : Type*) where
  | put (x : α) (pick : Nat)
  | putWait (x : α) (pick : Nat)
  | putWaitFor (x : α) (pick : Nat)
  | producerWakes (k : Nat)
  | producerResumes (cause : Cause) (k : Nat) (timedOut : Bool) (pick : Nat)
  | tryTake (who : τ)
  | take (who : τ)
  | takerWakes (k : Nat)
  | takerResumes (cause : Cause) (k : Nat) (timedOut : Bool)
  | notifyNotFull (pick : Nat)
  | close
  | closeNotifiesNotEmpty
  | closeNotifiesNotFull
  | clear
  | setQueueMaxSize (n : Nat)
  deriving Repr, DecidableEq

/-- The call whose last critical section the step was, with its result. -/
inductive QueueOutput (α τ : Type*) where
  | silent
  | put (x : α) (code : PutResultErrorCode)
  | took (who : τ) (result : TakeResult α)
  deriving Repr, DecidableEq

namespace QueueState

variable {κ α τ : Type*} (c : Container κ α)

def start (bound : Nat) : QueueState κ α τ where
  queue := ⟨c.init, bound, .opened⟩
  notFull := .empty
  notEmpty := .empty
  owedNotFull := 0
  closingNotEmpty := 0
  closingNotFull := 0

/-- Carry out a producer's decision; a push notifies one consumer under the lock. -/
def produce (s : QueueState κ α τ) (p : Producer α) (pick : Nat) :
    Queue.Admission → QueueState κ α τ × QueueOutput α τ
  | .push =>
      ({ s with
          queue := { s.queue with buffer := c.push s.queue.buffer p.item }
          notEmpty := s.notEmpty.notifyOne pick }, .put p.item .accepted)
  | .wait => ({ s with notFull := s.notFull.park p }, .silent)
  | .result code => (s, .put p.item code)

/-- Carry out a consumer's decision. After a pop `tryTake` owes a notification on
`m_notFull`; `take` does not send one. -/
def consume (s : QueueState κ α τ) (t : Taker τ) :
    Queue.Removal → Option (QueueState κ α τ × QueueOutput α τ)
  | .pop =>
      match c.pop s.queue.buffer with
      | none => none
      | some (x, rest) =>
          some ({ s with
              queue := { s.queue with buffer := rest }
              owedNotFull := if t.deprecated then s.owedNotFull else s.owedNotFull + 1 },
            .took t.who { result := some x })
  | .wait => some ({ s with notEmpty := s.notEmpty.park t }, .silent)
  | .result code => some (s, .took t.who { erc := code })

def next (s : QueueState κ α τ) :
    QueueEvent α τ → Option (QueueState κ α τ × QueueOutput α τ)
  | .put x pick => some (s.produce c ⟨x, false⟩ pick (s.queue.put c))
  | .putWait x pick => some (s.produce c ⟨x, false⟩ pick (s.queue.putWait c))
  | .putWaitFor x pick => some (s.produce c ⟨x, true⟩ pick (s.queue.putWait c))
  | .producerWakes k =>
      (s.notFull.wake k).map fun cv => ({ s with notFull := cv }, .silent)
  | .producerResumes cause k timedOut pick =>
      match s.notFull.resume cause k with
      | none => none
      | some (p, cv) =>
          some ({ s with notFull := cv }.produce c p pick
            (s.queue.putWaitResumed c p.timed timedOut))
  | .tryTake who => s.consume c ⟨who, false⟩ (s.queue.tryTake c)
  | .take who => s.consume c ⟨who, true⟩ (s.queue.take c)
  | .takerWakes k =>
      (s.notEmpty.wake k).map fun cv => ({ s with notEmpty := cv }, .silent)
  | .takerResumes cause k timedOut =>
      match s.notEmpty.resume cause k with
      | none => none
      | some (t, cv) =>
          { s with notEmpty := cv }.consume c t
            (if t.deprecated then s.queue.take c else s.queue.tryTakeResumed c timedOut)
  | .notifyNotFull pick =>
      if s.owedNotFull = 0 then none
      else some ({ s with
          notFull := s.notFull.notifyOne pick
          owedNotFull := s.owedNotFull - 1 }, .silent)
  | .close =>
      some ({ s with
          queue := { s.queue with state := .closing }
          closingNotEmpty := s.closingNotEmpty + 1 }, .silent)
  | .closeNotifiesNotEmpty =>
      if s.closingNotEmpty = 0 then none
      else some ({ s with
          notEmpty := s.notEmpty.notifyAll
          closingNotEmpty := s.closingNotEmpty - 1
          closingNotFull := s.closingNotFull + 1 }, .silent)
  | .closeNotifiesNotFull =>
      if s.closingNotFull = 0 then none
      else some ({ s with
          notFull := s.notFull.notifyAll
          closingNotFull := s.closingNotFull - 1 }, .silent)
  | .clear =>
      some ({ s with queue := { s.queue with buffer := c.clear s.queue.buffer } }, .silent)
  | .setQueueMaxSize n =>
      some ({ s with queue := { s.queue with maxQueueSize := n } }, .silent)

end QueueState

/-- The queue with a bound that was set before any thread used it. -/
def queueMachine {κ α τ : Type*} (c : Container κ α) (bound : Nat) :
    Machine (QueueState κ α τ) (QueueEvent α τ) (QueueOutput α τ) where
  init s := s = QueueState.start c bound
  next := QueueState.next c

/-- The events of `put`, `put_wait`, `put_wait_for`, `tryTake` and `close` calls:
all but those of `take`, `clear` and `set_queue_max_size`. -/
def QueueEvent.isCore {α τ : Type*} : QueueEvent α τ → Bool
  | .take _ => false
  | .clear => false
  | .setQueueMaxSize _ => false
  | _ => true

/-! ## What a decision implies -/

namespace Queue

variable {κ α : Type*} {c : Container κ α} {q : Queue κ}

theorem full_eq_false_iff : q.full c = false ↔ q.Admits c := by
  simp only [full, Admits, Bool.and_eq_false_iff, decide_eq_false_iff_not]
  omega

theorem put_cases (a : Admission) (h : q.put c = a) :
    (a = .push ∧ q.state = .opened ∧ q.Admits c) ∨
    (a = .result .closed ∧ q.state = .closing) ∨
    (a = .result .full ∧ q.state = .opened ∧ ¬ q.Admits c) := by
  subst h
  unfold put
  cases hs : q.state with
  | closing => simp
  | opened =>
      cases hf : q.full c with
      | true => simp [← full_eq_false_iff, hf]
      | false => simpa using full_eq_false_iff.mp hf

theorem putWait_cases (a : Admission) (h : q.putWait c = a) :
    (a = .push ∧ q.state = .opened ∧ q.Admits c) ∨
    (a = .result .closed ∧ q.state = .closing) ∨
    (a = .wait ∧ q.state = .opened ∧ ¬ q.Admits c) := by
  subst h
  unfold putWait
  cases hs : q.state with
  | closing => simp
  | opened =>
      cases hf : q.full c with
      | true => simp [← full_eq_false_iff, hf]
      | false => simpa using full_eq_false_iff.mp hf

/-- A resumed producer pushes only into an open queue with room, and it parks
again only when its predicate is false. -/
theorem putWaitResumed_cases (timed timedOut : Bool) (a : Admission)
    (h : q.putWaitResumed c timed timedOut = a) :
    (a = .push ∧ q.state = .opened ∧ q.Admits c) ∨
    (a = .result .closed ∧ q.state = .closing) ∨
    ((a = .result .timeout ∨ a = .wait) ∧ q.state = .opened ∧
      q.maxQueueSize ≤ c.size q.buffer) := by
  subst h
  unfold putWaitResumed notFullPredicate
  cases hs : q.state with
  | closing => simp
  | opened =>
      by_cases hlt : c.size q.buffer < q.maxQueueSize
      · have hadm : q.Admits c := .inr hlt
        simp [hlt, full_eq_false_iff.mpr hadm, hadm]
      · cases timed <;> cases timedOut <;> simp [hlt] <;> omega

theorem tryTake_cases (r : Removal) (h : q.tryTake c = r) :
    (r = .pop ∧ c.empty q.buffer = false) ∨
    (r = .result .closed ∧ q.state = .closing ∧ c.empty q.buffer = true) ∨
    (r = .wait ∧ q.state = .opened ∧ c.empty q.buffer = true) := by
  subst h
  unfold tryTake
  cases hs : q.state <;> cases he : c.empty q.buffer <;> simp

theorem tryTakeResumed_cases (timedOut : Bool) (r : Removal)
    (h : q.tryTakeResumed c timedOut = r) :
    (r = .pop ∧ c.empty q.buffer = false) ∨
    (r = .result .closed ∧ q.state = .closing ∧ c.empty q.buffer = true) ∨
    ((r = .result .timeout ∨ r = .wait) ∧ q.state = .opened ∧ c.empty q.buffer = true) := by
  subst h
  unfold tryTakeResumed notEmptyPredicate
  cases hs : q.state <;> cases he : c.empty q.buffer <;> cases timedOut <;> simp

theorem take_cases (r : Removal) (h : q.take c = r) :
    (r = .pop ∧ c.empty q.buffer = false) ∨ (r = .wait ∧ c.empty q.buffer = true) := by
  subst h
  unfold take
  cases he : c.empty q.buffer <;> simp

end Queue

end Rtl.Stp
