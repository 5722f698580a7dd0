import Mathlib.Algebra.Group.Nat.Defs
import Rtl.Base.Machine

/-! # A timer with one pending wait

`RtlTimer` keeps one wait at a time. A loop on a thread of the executor waits for it
to be due or cancelled, takes its handler under the lock and submits it to the
executor after the lock is released. Every lock section is one step. The waits of
the loop may wake at any time, so a thread that waits and one that is about to look
at the predicate are in the same place.

The waits that were accepted are numbered, which the code does not do. A handler is
known by the number of its wait; `none` is an empty `std::function`.
-/

namespace Rtl.Stp

open Rtl.Base

inductive TimerResult where
  | expired
  | cancelled
  deriving Repr, DecidableEq

/-- Where `run_timer` is: at the outer wait, at the inner wait with what it has read,
between the release of the lock and the submission, or at its end. -/
inductive TimerLoop where
  | outer
  | inner (deadline : Int) (version : Nat)
  | dispatching (wait : Nat) (handler : Option Nat) (result : TimerResult)
  | returned
  deriving Repr, DecidableEq

/-- `version` counts all increments; `m_version` is that modulo `2 ^ 64`. -/
structure RtlTimer where
  handler : Option Nat
  expiry : Int
  pending : Bool
  cancelRequested : Bool
  stopping : Bool
  version : Nat
  executor : Bool
  loop : TimerLoop
  now : Int
  accepted : Nat
  deriving Repr, DecidableEq

/-- What `submit` does with a handler: `post` takes it, `post` refuses it and the future that nobody
keeps holds `TaskRejected`, or `submit` throws before it comes to `post`. -/
inductive SubmitAnswer where
  | posted
  | rejected
  | threw
  deriving Repr, DecidableEq

/-- What a step returns or does. A wait that is accepted, cancelled, dropped, selected
or submitted is named by its number. `async_wait` returns true with `waiting`, and
`cancel` with `cancelling`. -/
inductive TimerOutput where
  | quiet
  | waiting (wait : Nat) (callable : Bool)
  | notWaiting
  | cancelling (wait : Nat)
  | notCancelling
  | stopped (dropped : Option Nat)
  | selected (wait : Nat) (result : TimerResult)
  | submitted (wait : Nat) (result : TimerResult) (answer : SubmitAnswer)
  deriving Repr, DecidableEq

/-- `look` and `wake` are the loop at its outer and inner wait. `tick` moves the clock. -/
inductive TimerEvent where
  | expiresAt (timePoint : Int)
  | asyncWait (callable : Bool)
  | cancel
  | shutdown
  | tick (elapsed : Nat)
  | look
  | wake (timedOut : Bool)
  | dispatch (answer : SubmitAnswer)
  deriving Repr, DecidableEq

namespace RtlTimer

def versionModulus : Nat := 2 ^ 64

def last (s : RtlTimer) : Nat := s.accepted - 1

/-! ## Calls -/

def expiresAt (s : RtlTimer) (timePoint : Int) : RtlTimer :=
  { s with expiry := timePoint, version := s.version + 1 }

def asyncWait (s : RtlTimer) (callable : Bool) : RtlTimer × TimerOutput :=
  if s.stopping || s.pending then (s, .notWaiting)
  else
    ({ s with
      handler := if callable then some s.accepted else none
      pending := true
      cancelRequested := false
      version := s.version + 1
      accepted := s.accepted + 1 }, .waiting s.accepted callable)

def cancel (s : RtlTimer) : RtlTimer × TimerOutput :=
  if !s.pending then (s, .notCancelling)
  else ({ s with cancelRequested := true, version := s.version + 1 }, .cancelling s.last)

def shutdown (s : RtlTimer) : RtlTimer × TimerOutput :=
  if s.stopping then (s, .stopped none)
  else
    ({ s with stopping := true, pending := false, handler := none, version := s.version + 1 },
      .stopped (if s.pending then some s.last else none))

/-! ## The loop -/

def woken (s : RtlTimer) (version : Nat) : Bool :=
  s.stopping || !s.pending || s.cancelRequested ||
    s.version % versionModulus != version % versionModulus

def select (s : RtlTimer) (result : TimerResult) : RtlTimer × TimerOutput :=
  ({ s with
    pending := false
    cancelRequested := false
    handler := none
    loop := .dispatching s.last s.handler result }, .selected s.last result)

/-- The body of the inner loop after its wait; without a result it goes round again. -/
def settle (s : RtlTimer) (version : Nat) (wokeByStateChange : Bool) :
    Option (RtlTimer × TimerOutput) :=
  if s.stopping then some ({ s with loop := .returned }, .quiet)
  else if !s.pending then some ({ s with loop := .outer }, .quiet)
  else if s.cancelRequested then some (s.select .cancelled)
  else if s.version % versionModulus ≠ version % versionModulus then none
  else if !wokeByStateChange then some (s.select .expired)
  else none

/-- The inner loop from its head: read the deadline and the version, and wait. -/
def enter (s : RtlTimer) : RtlTimer × TimerOutput :=
  let parked := ({ s with loop := .inner s.expiry s.version }, .quiet)
  if s.woken s.version then (s.settle s.version true).getD parked else parked

/-- The outer wait and what follows it under the same lock. -/
def look (s : RtlTimer) : RtlTimer × TimerOutput :=
  if s.stopping then ({ s with loop := .returned }, .quiet)
  else if s.pending then s.enter
  else (s, .quiet)

/-- The inner wait wakes. Only a time-out ends it while the predicate is false. -/
def wake (s : RtlTimer) (version : Nat) (timedOut : Bool) : RtlTimer × TimerOutput :=
  if s.woken version then (s.settle version true).getD s.enter
  else if timedOut then (s.settle version false).getD s.enter
  else (s, .quiet)

/-- `run_handler_on_executor`; an exception of `submit` ends the loop. -/
def dispatch (s : RtlTimer) (handler : Option Nat) (result : TimerResult) (answer : SubmitAnswer) :
    RtlTimer × TimerOutput :=
  match handler with
  | none => ({ s with loop := .outer }, .quiet)
  | some wait =>
      if !s.executor then ({ s with loop := .outer }, .quiet)
      else
        ({ s with loop := if answer = .threw then .returned else .outer }, .submitted wait result answer)

def next (s : RtlTimer) : TimerEvent → Option (RtlTimer × TimerOutput)
  | .expiresAt timePoint => some (s.expiresAt timePoint, .quiet)
  | .asyncWait callable => some (s.asyncWait callable)
  | .cancel => some s.cancel
  | .shutdown => some s.shutdown
  | .tick elapsed => some ({ s with now := s.now + elapsed }, .quiet)
  | .look => if s.loop = .outer then some s.look else none
  | .wake timedOut =>
      match s.loop with
      | .inner deadline version =>
          -- a time-out is reported when the deadline has passed
          if timedOut = true ∧ s.now < deadline then none else some (s.wake version timedOut)
      | _ => none
  | .dispatch answer =>
      match s.loop with
      | .dispatching _ handler result => some (s.dispatch handler result answer)
      | _ => none

/-- A new timer; without an executor the loop is never started. -/
def start (now : Int) (executor : Bool) : RtlTimer where
  handler := none
  expiry := now
  pending := false
  cancelRequested := false
  stopping := false
  version := 0
  executor := executor
  loop := if executor then .outer else .returned
  now := now
  accepted := 0

end RtlTimer

def timerMachine : Machine RtlTimer TimerEvent TimerOutput where
  init s := ∃ now executor, s = .start now executor
  next := RtlTimer.next

/-! ## What a step can do -/

namespace RtlTimer

def AtWait (s : RtlTimer) : Prop := s.loop = .outer ∨ ∃ deadline version, s.loop = .inner deadline version

/-- What an expiry has seen: the deadline it waited for has passed, and the version it
has read is, modulo `2 ^ 64`, still the current one. -/
def Due (s : RtlTimer) : Prop :=
  ∃ deadline version, s.loop = .inner deadline version ∧ deadline ≤ s.now ∧
    s.version % versionModulus = version % versionModulus

/-- A selection is a cancellation exactly if one was requested. -/
structure Selects (s : RtlTimer) (result : TimerResult) : Prop where
  alive : s.stopping = false
  pending : s.pending = true
  atWait : s.AtWait
  cancelled : result = .cancelled ↔ s.cancelRequested = true
  due : result = .expired → s.Due

inductive Step (s : RtlTimer) : TimerEvent → TimerOutput → RtlTimer → Prop where
  | expires {timePoint : Int} :
      Step s (.expiresAt timePoint) .quiet { s with expiry := timePoint, version := s.version + 1 }
  | waits {callable : Bool} (alive : s.stopping = false) (free : s.pending = false) :
      Step s (.asyncWait callable) (.waiting s.accepted callable) { s with
        handler := if callable then some s.accepted else none
        pending := true
        cancelRequested := false
        version := s.version + 1
        accepted := s.accepted + 1 }
  | refuses {callable : Bool} : Step s (.asyncWait callable) .notWaiting s
  | cancels (pending : s.pending = true) :
      Step s .cancel (.cancelling s.last) { s with
        cancelRequested := true
        version := s.version + 1 }
  | notPending : Step s .cancel .notCancelling s
  | stops : Step s .shutdown (.stopped (if s.pending then some s.last else none)) { s with
      stopping := true
      pending := false
      handler := none
      version := s.version + 1 }
  | stopped : Step s .shutdown (.stopped none) s
  | ticks {elapsed : Nat} : Step s (.tick elapsed) .quiet { s with now := s.now + elapsed }
  | stays {e : TimerEvent} : Step s e .quiet s
  | leaves {e : TimerEvent} {loop : TimerLoop} (atWait : s.AtWait) (place : loop = .outer ∨ loop = .returned) :
      Step s e .quiet { s with loop := loop }
  | parks {e : TimerEvent} (atWait : s.AtWait) :
      Step s e .quiet { s with loop := .inner s.expiry s.version }
  | selects {e : TimerEvent} {result : TimerResult} (h : s.Selects result) :
      Step s e (.selected s.last result) { s with
        pending := false
        cancelRequested := false
        handler := none
        loop := .dispatching s.last s.handler result }
  | submits {answer : SubmitAnswer} {wait k : Nat} {result : TimerResult} {loop : TimerLoop}
      (at_hand : s.loop = .dispatching wait (some k) result)
      (place : loop = .outer ∨ loop = .returned) :
      Step s (.dispatch answer) (.submitted k result answer) { s with loop := loop }
  | skips {answer : SubmitAnswer} {wait : Nat} {handler : Option Nat} {result : TimerResult}
      (at_hand : s.loop = .dispatching wait handler result)
      (nothing : handler = none ∨ s.executor = false) :
      Step s (.dispatch answer) .quiet { s with loop := .outer }

variable {s u : RtlTimer} {e : TimerEvent} {o : TimerOutput}

theorem Step.of_selected {k : Nat} {result : TimerResult} (h : Step s e (.selected k result) u) :
    s.Selects result := by
  cases h with
  | selects h => exact h

/-- The body of the inner loop ends in one of the steps of the loop, or goes round. -/
theorem settle_cases (version : Nat) (woke : Bool) (atWait : s.AtWait)
    (due : woke = false → s.cancelRequested = false →
      s.version % versionModulus = version % versionModulus → s.Due) :
    s.settle version woke = none ∨
      ∃ r, s.settle version woke = some r ∧ ∀ e, Step s e r.2 r.1 := by
  unfold settle
  split
  · exact .inr ⟨_, rfl, fun e => .leaves atWait (.inr rfl)⟩
  · rename_i alive
    have alive' : s.stopping = false := by simpa using alive
    split
    · exact .inr ⟨_, rfl, fun e => .leaves atWait (.inl rfl)⟩
    · rename_i pending
      have pending' : s.pending = true := by simpa using pending
      split
      · rename_i asked
        exact .inr ⟨_, rfl, fun e => .selects ⟨alive', pending', atWait, by simp [asked], by simp⟩⟩
      · rename_i quiet
        have quiet' : s.cancelRequested = false := by simpa using quiet
        split
        · exact .inl rfl
        · rename_i same
          split
          · rename_i asleep
            have due' := due (by simpa using asleep) quiet' (by simpa using same)
            exact .inr ⟨_, rfl, fun e => .selects ⟨alive', pending', atWait, by simp [quiet'], fun _ => due'⟩⟩
          · exact .inl rfl

theorem step_enter (atWait : s.AtWait) (e : TimerEvent) : Step s e s.enter.2 s.enter.1 := by
  unfold enter
  simp only
  split
  · rcases settle_cases s.version true atWait (by simp) with none | ⟨r, some, step⟩
    · rw [none]
      exact .parks atWait
    · rw [some]
      exact step e
  · exact .parks atWait

theorem step_look (outer : s.loop = .outer) (e : TimerEvent) : Step s e s.look.2 s.look.1 := by
  have atWait : s.AtWait := .inl outer
  unfold look
  split
  · exact .leaves atWait (.inr rfl)
  · split
    · exact step_enter atWait e
    · exact .stays

theorem step_wake {deadline : Int} {version : Nat} {timedOut : Bool}
    (inner : s.loop = .inner deadline version) (passed : timedOut = true → deadline ≤ s.now)
    (e : TimerEvent) : Step s e (s.wake version timedOut).2 (s.wake version timedOut).1 := by
  have atWait : s.AtWait := .inr ⟨deadline, version, inner⟩
  unfold wake
  split
  · rcases settle_cases version true atWait (by simp) with none | ⟨r, some, step⟩
    · rw [none]
      exact step_enter atWait e
    · rw [some]
      exact step e
  · split
    · rename_i late
      rcases settle_cases version false atWait
        (fun _ _ same => ⟨deadline, version, inner, passed late, same⟩) with none | ⟨r, some, step⟩
      · rw [none]
        exact step_enter atWait e
      · rw [some]
        exact step e
    · exact .stays

theorem step_of_next (h : s.next e = some (u, o)) : Step s e o u := by
  cases e with
  | expiresAt timePoint =>
      cases h
      exact .expires
  | asyncWait callable =>
      simp only [next, asyncWait, Option.some.injEq] at h
      split at h
      · cases h
        exact .refuses
      · rename_i free
        simp only [Bool.or_eq_true, not_or, Bool.not_eq_true] at free
        cases h
        exact .waits free.1 free.2
  | cancel =>
      simp only [next, cancel, Option.some.injEq] at h
      split at h
      · cases h
        exact .notPending
      · rename_i pending
        cases h
        exact .cancels (by simpa using pending)
  | shutdown =>
      simp only [next, shutdown, Option.some.injEq] at h
      split at h
      · cases h
        exact .stopped
      · cases h
        exact .stops
  | tick elapsed =>
      cases h
      exact .ticks
  | look =>
      simp only [next] at h
      split at h
      · rename_i outer
        have step := step_look outer .look
        rwa [Option.some.inj h] at step
      · cases h
  | wake timedOut =>
      simp only [next] at h
      split at h
      · rename_i deadline version inner
        split at h
        · cases h
        · rename_i allowed
          have step := step_wake inner (by simpa using allowed) (.wake timedOut)
          rwa [Option.some.inj h] at step
      · cases h
  | dispatch answer =>
      simp only [next] at h
      split at h
      · rename_i wait handler result at_hand
        cases handler with
        | none =>
            cases h
            exact .skips at_hand (.inl rfl)
        | some k =>
            simp only [dispatch, Option.some.injEq] at h
            split at h
            · rename_i missing
              cases h
              exact .skips at_hand (.inr (by simpa using missing))
            · cases h
              refine .submits at_hand ?_
              split <;> simp
      · cases h

end RtlTimer

end Rtl.Stp
