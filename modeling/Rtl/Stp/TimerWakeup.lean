import Rtl.Stp.Timer

/-! # Waking the timer

`Rtl.Stp.Timer` lets the waits of the loop wake at any time. Here the loop's thread is in the wait set
of the condition variable or out of it, and the calls notify it only after they have left the lock. The
timer goes through the same steps, and no wake-up is lost: while the loop is in the wait set with nothing
left to notify it, it has nothing to do.
-/

namespace Rtl.Stp

open Rtl.Base

/-- The loop's thread is in the wait set, or it runs or is about to take the lock. -/
inductive LoopSeat where
  | parked
  | awake (timedOut : Bool)
  deriving Repr, DecidableEq

/-- `owed` counts the calls that have left the lock and have not yet called `notify_all`. -/
structure TimerThreads where
  timer : RtlTimer
  seat : LoopSeat
  owed : Nat
  deriving Repr, DecidableEq

inductive TimerCall where
  | expiresAt (timePoint : Int)
  | asyncWait (callable : Bool)
  | cancel
  | shutdown
  deriving Repr, DecidableEq

def TimerCall.event : TimerCall → TimerEvent
  | .expiresAt timePoint => .expiresAt timePoint
  | .asyncWait callable => .asyncWait callable
  | .cancel => .cancel
  | .shutdown => .shutdown

/-- `loop` is the next step of the loop's thread once it is awake. -/
inductive TimerThreadsEvent where
  | call (c : TimerCall)
  | notify
  | tick (elapsed : Nat)
  | spurious
  | timeOut
  | loop (answer : SubmitAnswer)
  deriving Repr, DecidableEq

/-- The call does not return before its `notify_all`. -/
def RtlTimer.notifies (s : RtlTimer) : TimerCall → Bool
  | .expiresAt _ => true
  | .asyncWait _ => !(s.stopping || s.pending)
  | .cancel => s.pending
  | .shutdown => !s.stopping

def RtlTimer.waitOver (s : RtlTimer) : Bool :=
  match s.loop with
  | .outer => s.stopping || s.pending
  | .inner _ version => s.woken version
  | .dispatching _ _ _ => false
  | .returned => false

/-- A wait that goes on puts the thread into the wait set. -/
def LoopSeat.after (old new : TimerLoop) : LoopSeat :=
  match new with
  | .inner _ _ => .parked
  | .outer => if old = .outer then .parked else .awake false
  | .dispatching _ _ _ => .awake false
  | .returned => .awake false

namespace TimerThreads

def loopEvent (s : TimerThreads) (answer : SubmitAnswer) : Option TimerEvent :=
  match s.timer.loop, s.seat with
  | .outer, .awake _ => some .look
  | .inner _ _, .awake timedOut => some (.wake timedOut)
  | .dispatching _ _ _, _ => some (.dispatch answer)
  | _, _ => none

def notified (s : TimerThreads) : LoopSeat :=
  match s.seat with
  | .parked => .awake false
  | .awake timedOut => .awake timedOut

def next (s : TimerThreads) : TimerThreadsEvent → Option (TimerThreads × TimerOutput)
  | .call c =>
      (s.timer.next c.event).map fun r =>
        ({ s with timer := r.1, owed := s.owed + (s.timer.notifies c).toNat }, r.2)
  | .notify =>
      if s.owed = 0 then none else some ({ s with owed := s.owed - 1, seat := s.notified }, .quiet)
  | .tick elapsed => (s.timer.next (.tick elapsed)).map fun r => ({ s with timer := r.1 }, r.2)
  | .spurious => if s.seat = .parked then some ({ s with seat := .awake false }, .quiet) else none
  | .timeOut =>
      match s.timer.loop with
      | .inner deadline _ =>
          if s.seat = .parked ∧ deadline ≤ s.timer.now then some ({ s with seat := .awake true }, .quiet)
          else none
      | _ => none
  | .loop answer =>
      match s.loopEvent answer with
      | none => none
      | some e =>
          (s.timer.next e).map fun r =>
            ({ s with timer := r.1, seat := .after s.timer.loop r.1.loop }, r.2)

def start (now : Int) (executor : Bool) : TimerThreads where
  timer := .start now executor
  seat := .awake false
  owed := 0

end TimerThreads

def timerThreadsMachine : Machine TimerThreads TimerThreadsEvent TimerOutput where
  init s := ∃ now executor, s = .start now executor
  next := TimerThreads.next

/-! ## The loop, step by step -/

namespace RtlTimer

variable {s u : RtlTimer} {o : TimerOutput}

/-- The head of the inner loop with a wait pending. -/
theorem enter_eq (alive : s.stopping = false) (pending : s.pending = true) :
    s.enter = if s.cancelRequested then s.select .cancelled
      else ({ s with loop := .inner s.expiry s.version }, .quiet) := by
  cases cancel : s.cancelRequested <;> simp [enter, woken, settle, alive, pending, cancel]

theorem look_eq (s : RtlTimer) :
    s.look = if s.stopping then ({ s with loop := .returned }, .quiet)
      else if s.pending then
        if s.cancelRequested then s.select .cancelled
        else ({ s with loop := .inner s.expiry s.version }, .quiet)
      else (s, .quiet) := by
  unfold look
  by_cases stopping : s.stopping = true
  · simp [stopping]
  · by_cases pending : s.pending = true
    · rw [if_neg stopping, if_neg stopping, if_pos pending, if_pos pending]
      exact enter_eq (by simpa using stopping) pending
    · simp [pending]

theorem wake_eq (s : RtlTimer) (version : Nat) (timedOut : Bool) :
    s.wake version timedOut =
      if s.stopping then ({ s with loop := .returned }, .quiet)
      else if s.pending = false then ({ s with loop := .outer }, .quiet)
      else if s.cancelRequested then s.select .cancelled
      else if s.version % versionModulus ≠ version % versionModulus then
        ({ s with loop := .inner s.expiry s.version }, .quiet)
      else if timedOut then s.select .expired
      else (s, .quiet) := by
  cases stopping : s.stopping with
  | true => simp [wake, woken, settle, stopping]
  | false =>
      cases pending : s.pending with
      | false => simp [wake, woken, settle, stopping, pending]
      | true =>
          cases cancel : s.cancelRequested with
          | true => simp [wake, woken, settle, stopping, pending, cancel]
          | false =>
              by_cases same : s.version % versionModulus = version % versionModulus
              · cases timedOut <;> simp [wake, woken, settle, stopping, pending, cancel, same]
              · simp [wake, woken, settle, stopping, pending, cancel, same,
                  enter_eq stopping pending]

theorem dispatch_eq (s : RtlTimer) (handler : Option Nat) (result : TimerResult) (answer : SubmitAnswer) :
    ∃ loop, (s.dispatch handler result answer).1 = { s with loop := loop } ∧
      (loop = .outer ∨ loop = .returned) ∧ (answer ≠ .threw → loop = .outer) := by
  unfold dispatch
  split
  · exact ⟨.outer, rfl, .inl rfl, fun _ => rfl⟩
  · split
    · exact ⟨.outer, rfl, .inl rfl, fun _ => rfl⟩
    · refine ⟨_, rfl, ?_, fun returns => if_neg returns⟩
      split
      · exact .inr rfl
      · exact .inl rfl

/-- A call does nothing to the loop, and nothing at all if it does not notify. -/
theorem next_call {c : TimerCall} (h : s.next c.event = some (u, o)) :
    u.loop = s.loop ∧ u.now = s.now ∧ (s.notifies c = false → u = s) ∧
      ((s.stopping = true → s.pending = false) → u.stopping = true → u.pending = false) := by
  cases c with
  | expiresAt timePoint =>
      cases h
      exact ⟨rfl, rfl, by simp [notifies], id⟩
  | asyncWait callable =>
      simp only [TimerCall.event, next, asyncWait, Option.some.injEq] at h
      split at h
      · cases h
        exact ⟨rfl, rfl, fun _ => rfl, id⟩
      · rename_i free
        cases h
        refine ⟨rfl, rfl, ?_, ?_⟩
        · simp_all [notifies]
        · intro _ stopping
          simp_all
  | cancel =>
      simp only [TimerCall.event, next, cancel, Option.some.injEq] at h
      split at h
      · cases h
        exact ⟨rfl, rfl, fun _ => rfl, id⟩
      · cases h
        exact ⟨rfl, rfl, by simp_all [notifies], id⟩
  | shutdown =>
      simp only [TimerCall.event, next, shutdown, Option.some.injEq] at h
      split at h
      · cases h
        exact ⟨rfl, rfl, fun _ => rfl, id⟩
      · cases h
        exact ⟨rfl, rfl, by simp_all [notifies], fun _ _ => rfl⟩

end RtlTimer

/-! ## No wake-up is lost -/

namespace TimerThreads

variable {s t : TimerThreads} {e : TimerThreadsEvent} {o : TimerOutput}

structure Attentive (s : TimerThreads) : Prop where
  stopped : s.timer.stopping = true → s.timer.pending = false
  /-- A loop in the wait set with nothing to notify it waits for what has not happened. -/
  notified : s.seat = .parked → s.owed = 0 → s.timer.waitOver = false
  parked : s.seat = .parked → s.timer.AtWait
  late : s.seat = .awake true → ∃ deadline version,
    s.timer.loop = .inner deadline version ∧ deadline ≤ s.timer.now

/-- Where the loop's thread is after a step of its own. -/
theorem Attentive.awake (seat : t.seat = .awake false)
    (stopped : t.timer.stopping = true → t.timer.pending = false) : t.Attentive := by
  refine ⟨stopped, ?_, ?_, ?_⟩ <;> simp [seat]

theorem Attentive.sits (seat : t.seat = .parked) (waits : t.timer.waitOver = false)
    (atWait : t.timer.AtWait) (stopped : t.timer.stopping = true → t.timer.pending = false) :
    t.Attentive :=
  ⟨stopped, fun _ _ => waits, fun _ => atWait, by simp [seat]⟩

theorem Attentive.look (attentive : s.Attentive) (outer : s.timer.loop = .outer) :
    ({ s with timer := s.timer.look.1, seat := .after s.timer.loop s.timer.look.1.loop } :
      TimerThreads).Attentive := by
  rw [RtlTimer.look_eq]
  by_cases stopping : s.timer.stopping = true
  · rw [if_pos stopping]
    exact .awake rfl attentive.stopped
  · by_cases pending : s.timer.pending = true
    · rw [if_neg stopping, if_pos pending]
      by_cases cancel : s.timer.cancelRequested = true
      · rw [if_pos cancel]
        exact .awake rfl fun _ => rfl
      · rw [if_neg cancel]
        refine .sits rfl ?_ (.inr ⟨_, _, rfl⟩) attentive.stopped
        simp_all [RtlTimer.waitOver, RtlTimer.woken]
    · rw [if_neg stopping, if_neg pending]
      refine .sits ?_ ?_ (.inl outer) attentive.stopped
      · simp [outer, LoopSeat.after]
      · simp_all [RtlTimer.waitOver]

theorem Attentive.wake (attentive : s.Attentive) {deadline : Int} {version : Nat}
    (inner : s.timer.loop = .inner deadline version) (timedOut : Bool) :
    ({ s with
        timer := (s.timer.wake version timedOut).1
        seat := .after s.timer.loop (s.timer.wake version timedOut).1.loop } :
          TimerThreads).Attentive := by
  rw [RtlTimer.wake_eq]
  by_cases stopping : s.timer.stopping = true
  · rw [if_pos stopping]
    exact .awake rfl attentive.stopped
  · rw [if_neg stopping]
    by_cases idle : s.timer.pending = false
    · rw [if_pos idle]
      refine .awake ?_ attentive.stopped
      simp [inner, LoopSeat.after]
    · rw [if_neg idle]
      by_cases cancel : s.timer.cancelRequested = true
      · rw [if_pos cancel]
        exact .awake rfl fun _ => rfl
      · rw [if_neg cancel]
        by_cases same : s.timer.version % RtlTimer.versionModulus = version % RtlTimer.versionModulus
        · rw [if_neg (not_not.mpr same)]
          by_cases late : timedOut = true
          · rw [if_pos late]
            exact .awake rfl fun _ => rfl
          · rw [if_neg late]
            refine .sits ?_ ?_ (.inr ⟨_, _, inner⟩) attentive.stopped
            · simp [inner, LoopSeat.after]
            · simp_all [RtlTimer.waitOver, RtlTimer.woken]
        · rw [if_pos same]
          refine .sits rfl ?_ (.inr ⟨_, _, rfl⟩) attentive.stopped
          simp_all [RtlTimer.waitOver, RtlTimer.woken]

inductive LoopStep (s : TimerThreads) (answer : SubmitAnswer) :
    TimerEvent → RtlTimer × TimerOutput → Prop where
  | look {timedOut : Bool} (outer : s.timer.loop = .outer) (seat : s.seat = .awake timedOut) :
      LoopStep s answer .look s.timer.look
  | wake {deadline : Int} {version : Nat} {timedOut : Bool}
      (inner : s.timer.loop = .inner deadline version)
      (seat : s.seat = .awake timedOut) (passed : timedOut = true → deadline ≤ s.timer.now) :
      LoopStep s answer (.wake timedOut) (s.timer.wake version timedOut)
  | dispatch {wait : Nat} {handler : Option Nat} {result : TimerResult}
      (at_hand : s.timer.loop = .dispatching wait handler result) :
      LoopStep s answer (.dispatch answer) (s.timer.dispatch handler result answer)

def afterLoop (s : TimerThreads) (timer : RtlTimer) : TimerThreads :=
  { s with timer := timer, seat := .after s.timer.loop timer.loop }

theorem next_loop_iff {answer : SubmitAnswer} :
    s.next (.loop answer) = some (t, o) ↔
      ∃ e r, LoopStep s answer e r ∧ s.timer.next e = some r ∧ t = s.afterLoop r.1 ∧ o = r.2 := by
  constructor
  · intro h
    simp only [next] at h
    split at h
    · cases h
    · rename_i e event
      obtain ⟨r, taken, same⟩ := Option.map_eq_some_iff.mp h
      cases same
      refine ⟨e, r, ?_, taken, rfl, rfl⟩
      unfold loopEvent at event
      split at event
      · rename_i outer seat
        cases event
        simp only [RtlTimer.next, outer, if_true, Option.some.injEq] at taken
        exact taken ▸ .look outer seat
      · rename_i inner seat
        cases event
        simp only [RtlTimer.next, inner] at taken
        split at taken
        · cases taken
        · rename_i allowed
          cases taken
          exact .wake inner seat (by simpa using allowed)
      · rename_i at_hand
        cases event
        simp only [RtlTimer.next, at_hand, Option.some.injEq] at taken
        exact taken ▸ .dispatch at_hand
      · cases event
  · rintro ⟨e, r, step, taken, rfl, rfl⟩
    have event : s.loopEvent answer = some e := by
      cases step with
      | look outer seat => simp [loopEvent, outer, seat]
      | wake inner seat => simp [loopEvent, inner, seat]
      | dispatch at_hand => simp [loopEvent, at_hand]
    simp [next, event, taken, afterLoop]

theorem LoopStep.next {answer : SubmitAnswer} {e : TimerEvent} {r : RtlTimer × TimerOutput}
    (step : LoopStep s answer e r) : s.next (.loop answer) = some (s.afterLoop r.1, r.2) := by
  refine next_loop_iff.mpr ⟨e, r, step, ?_, rfl, rfl⟩
  cases step with
  | look outer seat => simp [RtlTimer.next, outer]
  | wake inner seat passed =>
      simp only [RtlTimer.next, inner]
      rw [if_neg]
      intro early
      exact absurd (passed early.1) (by omega)
  | dispatch at_hand => simp [RtlTimer.next, at_hand]

theorem Attentive.next (attentive : s.Attentive) (h : s.next e = some (t, o)) : t.Attentive := by
  cases e with
  | call c =>
      obtain ⟨r, taken, same⟩ := Option.map_eq_some_iff.mp h
      obtain ⟨loop, now, silent, stopped⟩ := RtlTimer.next_call taken
      cases same
      refine ⟨stopped attentive.stopped, ?_, ?_, ?_⟩
      · intro seat none_owed
        cases notifies : s.timer.notifies c with
        | true => simp [notifies] at none_owed
        | false =>
            simp only [notifies, Bool.toNat_false, Nat.add_zero] at none_owed
            simpa only [silent notifies] using attentive.notified seat none_owed
      · simpa only [RtlTimer.AtWait, loop] using attentive.parked
      · simpa only [loop, now] using attentive.late
  | notify =>
      simp only [TimerThreads.next] at h
      split at h
      · cases h
      · cases h
        cases seat : s.seat with
        | parked => exact .awake (by simp [TimerThreads.notified, seat]) attentive.stopped
        | awake timedOut =>
            refine ⟨attentive.stopped, ?_, ?_, ?_⟩
            · simp [TimerThreads.notified, seat]
            · simp [TimerThreads.notified, seat]
            · simpa [TimerThreads.notified, seat] using attentive.late
  | tick elapsed =>
      cases h
      refine ⟨attentive.stopped, attentive.notified, attentive.parked, ?_⟩
      intro seat
      obtain ⟨deadline, version, inner, passed⟩ := attentive.late seat
      refine ⟨deadline, version, inner, ?_⟩
      show deadline ≤ s.timer.now + elapsed
      omega
  | spurious =>
      simp only [TimerThreads.next] at h
      split at h
      · cases h
        exact .awake rfl attentive.stopped
      · cases h
  | timeOut =>
      simp only [TimerThreads.next] at h
      split at h
      · rename_i deadline version inner
        split at h
        · rename_i passed
          cases h
          refine ⟨attentive.stopped, ?_, ?_, fun _ => ⟨deadline, version, inner, passed.2⟩⟩
          · simp
          · simp
        · cases h
      · cases h
  | loop answer =>
      obtain ⟨e, r, step, taken, rfl, rfl⟩ := next_loop_iff.mp h
      cases step with
      | look outer seat => exact attentive.look outer
      | wake inner seat => exact attentive.wake inner _
      | @dispatch wait handler result at_hand =>
          obtain ⟨loop, same, place, _⟩ := s.timer.dispatch_eq handler result answer
          rw [same]
          refine .awake ?_ attentive.stopped
          rcases place with rfl | rfl
          · simp [afterLoop, LoopSeat.after, at_hand]
          · rfl

theorem attentive_run {s₀ : TimerThreads}
    {ts : List (Transition TimerThreads TimerThreadsEvent TimerOutput)}
    (init : timerThreadsMachine.init s₀) (run : timerThreadsMachine.Run s₀ ts s) : s.Attentive := by
  refine run.invariant (I := Attentive) ?_ ?_
  · obtain ⟨now, executor, rfl⟩ := init
    exact .awake rfl fun stopping => by cases stopping
  · intro s e t o attentive h
    exact attentive.next h

end TimerThreads

/-! ## In every run -/

section Results

variable {s₀ s : TimerThreads} {ts : List (Transition TimerThreads TimerThreadsEvent TimerOutput)}

/-- What a caller or the executor sees of a step. -/
def TimerOutput.visible : TimerOutput → Option TimerOutput
  | .quiet => none
  | o => some o

def timerThreadsSimulation :
    Machine.Simulation timerThreadsMachine timerMachine (fun _ o => o.visible) (fun _ o => o.visible)
      (fun _ _ => True) where
  abs := TimerThreads.timer
  inv := fun _ => True
  init := by
    rintro s ⟨now, executor, rfl⟩
    exact ⟨⟨now, executor, rfl⟩, trivial⟩
  keeps := fun _ _ _ _ _ _ _ => trivial
  step := by
    intro s e t o _ _ h
    cases e with
    | call c =>
        obtain ⟨r, taken, same⟩ := Option.map_eq_some_iff.mp h
        cases same
        exact .inr ⟨c.event, r.2, taken, rfl⟩
    | notify =>
        simp only [timerThreadsMachine, TimerThreads.next] at h
        split at h
        · cases h
        · cases h
          exact .inl ⟨rfl, rfl⟩
    | tick elapsed =>
        cases h
        exact .inr ⟨.tick elapsed, .quiet, rfl, rfl⟩
    | spurious =>
        simp only [timerThreadsMachine, TimerThreads.next] at h
        split at h
        · cases h
          exact .inl ⟨rfl, rfl⟩
        · cases h
    | timeOut =>
        simp only [timerThreadsMachine, TimerThreads.next] at h
        split at h
        · split at h
          · cases h
            exact .inl ⟨rfl, rfl⟩
          · cases h
        · cases h
    | loop answer =>
        obtain ⟨e, r, _, taken, rfl, rfl⟩ := TimerThreads.next_loop_iff.mp h
        exact .inr ⟨e, r.2, taken, rfl⟩

/-- The threads take the timer through one of its runs, and no wake-up is lost: a loop in the wait set
with no notification under way waits for something that has not happened. -/
theorem timer_no_lost_wakeup (init : timerThreadsMachine.init s₀)
    (run : timerThreadsMachine.Run s₀ ts s) :
    (∃ us, timerMachine.Run s₀.timer us s.timer ∧
      Machine.observe (fun _ o => o.visible) us = Machine.observe (fun _ o => o.visible) ts) ∧
    (s.seat = .parked → s.owed = 0 → s.timer.waitOver = false) :=
  ⟨(timerThreadsSimulation.refines init run fun _ _ => trivial).2,
    (TimerThreads.attentive_run init run).notified⟩

/-- A wait is accepted and cancelled while the loop sleeps; one notification is still to come. -/
def cancelTrace : List TimerThreadsEvent :=
  [.loop .posted, .call (.expiresAt 10), .call (.asyncWait true), .notify, .notify, .loop .posted,
    .call .cancel]

theorem timer_no_lost_wakeup_cancelTrace :
    ∃ ts s, timerThreadsMachine.exec (.start 0 true) cancelTrace = some (ts, s) ∧
      s.seat = .parked ∧ s.timer.waitOver = true ∧ s.owed = 1 ∧
      (∃ us, timerMachine.Run (.start 0 true) us s.timer ∧
        Machine.observe (fun _ o => o.visible) us = Machine.observe (fun _ o => o.visible) ts) ∧
      (s.seat = .parked → s.owed = 0 → s.timer.waitOver = false) := by
  have h : timerThreadsMachine.exec (.start 0 true) cancelTrace = some (_, _) := rfl
  exact ⟨_, _, h, rfl, rfl, rfl, timer_no_lost_wakeup ⟨0, true, rfl⟩ (.of_exec h)⟩

end Results

end Rtl.Stp
