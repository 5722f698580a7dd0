import Rtl.Base.Leads
import Rtl.Stp.TimerWakeup

/-! # The timer goes on

No wake-up is lost, so the loop serves a wait, and ends after a shutdown, after a bounded number of
steps of its own and of notifications under way, in whatever order they come. Only the clock may
take as many steps as it likes.
-/

namespace Rtl.Stp

open Rtl.Base

/-- The steps of the loop, the notifications under way and the clock; `submit` does not throw. -/
def TimerThreadsEvent.own : TimerThreadsEvent → Prop
  | .notify | .tick _ | .timeOut | .loop .posted | .loop .rejected => True
  | .call _ | .spurious | .loop .threw => False

def TimerThreadsEvent.isTick : TimerThreadsEvent → Bool
  | .tick _ => true
  | .call _ | .notify | .spurious | .timeOut | .loop _ => false

theorem RtlTimer.stopping_of_next {s u : RtlTimer} {e : TimerEvent} {o : TimerOutput}
    (h : s.next e = some (u, o)) (stopping : s.stopping = true) : u.stopping = true := by
  cases step_of_next h <;> first | exact stopping | rfl

namespace TimerThreads

variable {s t : TimerThreads} {e : TimerThreadsEvent} {o : TimerOutput}

/-! ## Going on -/

abbrev Leads (goal : TimerThreads → Prop) (s : TimerThreads) : Prop :=
  timerThreadsMachine.Leads (fun _ => TimerThreadsEvent.own) goal s

theorem leads_step {goal : TimerThreads → Prop} (h : s.next e = some (t, o)) (ok : e.own)
    (later : Leads goal t) : Leads goal s :=
  Machine.Leads.step (m := timerThreadsMachine) h ok later

/-- Only the clock can wake the loop. -/
def AwaitsDeadline (s : TimerThreads) : Prop :=
  s.seat = .parked ∧ ∃ deadline version, s.timer.loop = .inner deadline version ∧ s.timer.now < deadline

/-- A loop that is not in the wait set takes its next step. -/
theorem Attentive.loop_steps (attentive : s.Attentive) (running : s.timer.loop ≠ .returned)
    (awake : s.seat ≠ .parked) : ∃ t o, s.next (.loop .posted) = some (t, o) := by
  cases seat : s.seat with
  | parked => exact absurd seat awake
  | awake timedOut =>
      cases place : s.timer.loop with
      | returned => exact absurd place running
      | outer => exact ⟨_, _, LoopStep.next (.look place seat)⟩
      | dispatching wait handler result => exact ⟨_, _, LoopStep.next (.dispatch place)⟩
      | inner deadline version =>
          have passed : timedOut = true → deadline ≤ s.timer.now := by
            intro late
            obtain ⟨d, v, inner, passed⟩ := attentive.late (late ▸ seat)
            rw [place] at inner
            cases inner
            exact passed
          exact ⟨_, _, LoopStep.next (.wake place seat passed)⟩

/-- A loop in the wait set that has something to do is notified. -/
theorem Attentive.notify (attentive : s.Attentive) (seat : s.seat = .parked)
    (ended : s.timer.waitOver = true) :
    s.next .notify = some ({ s with owed := s.owed - 1, seat := .awake false }, .quiet) := by
  have owed : s.owed ≠ 0 := by
    intro none_owed
    rw [attentive.notified seat none_owed] at ended
    cases ended
  simp [TimerThreads.next, owed, TimerThreads.notified, seat]

/-! ## Serving a wait -/

structure Pends (r s : RtlTimer) : Prop where
  alive : s.stopping = false
  pending : s.pending = true
  last : s.last = r.last
  handler : s.handler = r.handler
  cancelRequested : s.cancelRequested = r.cancelRequested
  running : s.loop ≠ .returned

def Served (r : RtlTimer) (s : TimerThreads) : Prop :=
  s.timer.loop = .dispatching r.last r.handler (if r.cancelRequested then .cancelled else .expired)

/-- How many steps, those of the clock apart, the loop and the notifications under way can take before
the wait is selected. -/
def toServe (s : TimerThreads) : Nat :=
  2 * s.owed +
    match s.timer.loop, s.seat with
    | .returned, _ => 0
    | .dispatching _ _ _, _ => 4
    | .outer, .parked => 2
    | .outer, .awake _ => 3
    | .inner _ version, .parked =>
        if s.timer.version % RtlTimer.versionModulus = version % RtlTimer.versionModulus then 2 else 4
    | .inner _ version, .awake timedOut =>
        if s.timer.version % RtlTimer.versionModulus = version % RtlTimer.versionModulus ∧ timedOut then 1
        else 3

/-- The wait of `r` is selected in `t`, or a step of cost `cost` has brought it nearer. -/
def Nears (r : RtlTimer) (cost : Nat) (s t : TimerThreads) : Prop :=
  Served r t ∨ Pends r t.timer ∧ cost + t.toServe ≤ s.toServe

variable {r : RtlTimer}

theorem toServe_le (s : TimerThreads) : s.toServe ≤ 2 * s.owed + 4 := by
  unfold toServe
  split <;> (try split) <;> omega

theorem toServe_pos (pends : Pends r s.timer) : 0 < s.toServe := by
  have running := pends.running
  unfold toServe
  split <;> (try split) <;> first | omega | contradiction

theorem Pends.moves (pends : Pends r s.timer) (now : Int) {loop : TimerLoop} (place : loop ≠ .returned) :
    Pends r { s.timer with now := now, loop := loop } :=
  ⟨pends.alive, pends.pending, pends.last, pends.handler, pends.cancelRequested, place⟩

theorem Pends.select {result : TimerResult} (pends : Pends r s.timer)
    (outcome : result = if r.cancelRequested then .cancelled else .expired) :
    Served r (s.afterLoop (s.timer.select result).1) := by
  simp only [Served, afterLoop, RtlTimer.select, pends.last, pends.handler, outcome]

theorem Pends.look (pends : Pends r s.timer) (outer : s.timer.loop = .outer) {timedOut : Bool}
    (seat : s.seat = .awake timedOut) : Nears r 1 s (s.afterLoop s.timer.look.1) := by
  rw [RtlTimer.look_eq, if_neg (by simp [pends.alive]), if_pos pends.pending]
  by_cases cancel : s.timer.cancelRequested = true
  · rw [if_pos cancel]
    exact .inl (pends.select (by simp [← pends.cancelRequested, cancel]))
  · rw [if_neg cancel]
    refine .inr ⟨pends.moves _ (by simp), ?_⟩
    simp only [toServe, afterLoop, LoopSeat.after, outer, seat, if_true]
    omega

theorem Pends.wake (pends : Pends r s.timer) {deadline : Int} {version : Nat} {timedOut : Bool}
    (inner : s.timer.loop = .inner deadline version) (seat : s.seat = .awake timedOut) :
    Nears r 1 s (s.afterLoop (s.timer.wake version timedOut).1) := by
  rw [RtlTimer.wake_eq, if_neg (by simp [pends.alive]), if_neg (by simp [pends.pending])]
  by_cases cancel : s.timer.cancelRequested = true
  · rw [if_pos cancel]
    exact .inl (pends.select (by simp [← pends.cancelRequested, cancel]))
  · rw [if_neg cancel]
    by_cases same : s.timer.version % RtlTimer.versionModulus = version % RtlTimer.versionModulus
    · rw [if_neg (not_not.mpr same)]
      cases timedOut with
      | true => exact .inl (pends.select (by simp [← pends.cancelRequested, cancel]))
      | false =>
          rw [if_neg Bool.false_ne_true]
          refine .inr ⟨pends, ?_⟩
          simp only [toServe, afterLoop, LoopSeat.after, inner, seat, same, Bool.false_eq_true, and_false,
            if_true, if_false]
          omega
    · rw [if_pos same]
      refine .inr ⟨pends.moves _ (by simp), ?_⟩
      simp only [toServe, afterLoop, LoopSeat.after, inner, seat, same, false_and, if_true, if_false]
      omega

/-- Every step of the loop, of a notification or of the clock keeps the wait until it selects it, and
only the clock does not bring the selection nearer. -/
theorem Pends.next (pends : Pends r s.timer) (own : e.own) (h : s.next e = some (t, o)) :
    Nears r (if e.isTick then 0 else 1) s t := by
  cases e with
  | call c => cases own
  | spurious => cases own
  | tick elapsed =>
      cases h
      exact .inr ⟨pends.moves _ pends.running, by simp [toServe, TimerThreadsEvent.isTick]⟩
  | notify =>
      simp only [TimerThreads.next] at h
      split at h
      · cases h
      · cases h
        refine .inr ⟨pends, ?_⟩
        cases place : s.timer.loop <;> cases seat : s.seat <;>
          simp only [toServe, TimerThreads.notified, TimerThreadsEvent.isTick, place, seat] <;>
          grind
  | timeOut =>
      simp only [TimerThreads.next] at h
      split at h
      · rename_i deadline version inner
        split at h
        · rename_i passed
          cases h
          refine .inr ⟨pends, ?_⟩
          simp only [toServe, TimerThreadsEvent.isTick, inner, passed.1]
          grind
        · cases h
      · cases h
  | loop answer =>
      obtain ⟨e, r, step, taken, rfl, rfl⟩ := next_loop_iff.mp h
      cases step with
      | look outer seat => exact pends.look outer seat
      | wake inner seat => exact pends.wake inner seat
      | @dispatch wait handler result at_hand =>
          obtain ⟨loop, same, _, returns⟩ := s.timer.dispatch_eq handler result answer
          rw [same, returns (by rintro rfl; cases own)]
          refine .inr ⟨pends.moves _ (by simp), ?_⟩
          simp only [toServe, afterLoop, LoopSeat.after, at_hand, TimerThreadsEvent.isTick, reduceCtorEq,
            Bool.false_eq_true, if_false]
          omega

/-- While the wait pends there is a step to take, or it is the clock's turn. -/
theorem Pends.goes_on (pends : Pends r s.timer) (attentive : s.Attentive) :
    (∃ e t o, e.own ∧ e.isTick = false ∧ s.next e = some (t, o)) ∨ s.AwaitsDeadline := by
  by_cases seat : s.seat = .parked
  · by_cases ended : s.timer.waitOver = true
    · exact .inl ⟨.notify, _, _, trivial, rfl, attentive.notify seat ended⟩
    · rcases attentive.parked seat with outer | ⟨deadline, version, inner⟩
      · simp [RtlTimer.waitOver, outer, pends.pending] at ended
      · by_cases passed : deadline ≤ s.timer.now
        · have late : s.next .timeOut = some ({ s with seat := .awake true }, .quiet) := by
            simp [TimerThreads.next, inner, seat, passed]
          exact .inl ⟨.timeOut, _, _, trivial, rfl, late⟩
        · exact .inr ⟨seat, deadline, version, inner, by omega⟩
  · obtain ⟨t, o, step⟩ := attentive.loop_steps pends.running seat
    exact .inl ⟨.loop .posted, t, o, trivial, rfl, step⟩

/-- The clock reaches the deadline, and the wait of the loop times out. -/
theorem AwaitsDeadline.times_out (awaits : s.AwaitsDeadline) :
    ∃ elapsed t u, s.next (.tick elapsed) = some (t, .quiet) ∧ t.next .timeOut = some (u, .quiet) := by
  obtain ⟨seat, deadline, version, inner, early⟩ := awaits
  refine ⟨(deadline - s.timer.now).toNat, _, { s with
    timer := { s.timer with now := s.timer.now + (deadline - s.timer.now).toNat }
    seat := .awake true }, rfl, ?_⟩
  simp only [TimerThreads.next, inner, seat, true_and]
  rw [if_pos (by omega)]

theorem Pends.serves (pends : Pends r s.timer) (attentive : s.Attentive) : Leads (Served r) s := by
  generalize size : s.toServe = n
  induction n using Nat.strongRecOn generalizing s with
  | ind n ih =>
      -- what comes after a step that is not the clock's
      have later {u v : TimerThreads} {e : TimerThreadsEvent} {o : TimerOutput} (pends : Pends r u.timer)
          (attentive : u.Attentive) (bound : u.toServe ≤ n) (own : e.own) (moves : e.isTick = false)
          (h : u.next e = some (v, o)) : Leads (Served r) u := by
        refine leads_step h own ?_
        rcases pends.next own h with served | ⟨still, nearer⟩
        · exact .here served
        · simp only [moves, Bool.false_eq_true, if_false] at nearer
          exact ih _ (by omega) still (attentive.next h) rfl
      rcases pends.goes_on attentive with ⟨e, t, o, own, moves, h⟩ | awaits
      · exact later pends attentive (Nat.le_of_eq size) own moves h
      · obtain ⟨elapsed, t, u, ticks, late⟩ := awaits.times_out
        refine leads_step ticks trivial ?_
        rcases pends.next (e := .tick elapsed) trivial ticks with served | ⟨still, bound⟩
        · exact .here served
        · simp only [TimerThreadsEvent.isTick, if_true, Nat.zero_add] at bound
          exact later still (attentive.next ticks) (by omega) (e := .timeOut) trivial rfl late

/-- Along a run of the loop, the notifications under way and the clock, the steps that are not the
clock's are few until the wait is selected. -/
theorem Pends.run (pends : Pends r s.timer)
    {us : List (Transition TimerThreads TimerThreadsEvent TimerOutput)}
    (run : timerThreadsMachine.Run s us t) (own : ∀ u ∈ us, u.event.own) :
    (∃ u ∈ us, Served r u.after) ∨
      Pends r t.timer ∧ us.countP (fun u => !u.event.isTick) + t.toServe ≤ s.toServe := by
  induction run with
  | refl => exact .inr ⟨pends, by simp⟩
  | snoc u run before takes ih =>
      rcases ih fun v mem => own v (by simp [mem]) with ⟨v, mem, served⟩ | ⟨still, bound⟩
      · exact .inl ⟨v, by simp [mem], served⟩
      · subst before
        rcases still.next (own u (by simp)) takes with served | ⟨kept, nearer⟩
        · exact .inl ⟨u, by simp, served⟩
        · refine .inr ⟨kept, ?_⟩
          rw [List.countP_append, List.countP_singleton]
          cases tick : u.event.isTick <;> simp [tick] at nearer ⊢ <;> omega

/-! ## Ending the loop -/

/-- The loop takes a step or leaves the wait set. -/
def stirs (u : Transition TimerThreads TimerThreadsEvent TimerOutput) : Bool :=
  match u.event with
  | .loop _ | .spurious | .timeOut => true
  | .notify => u.before.seat == .parked
  | .call _ | .tick _ => false

/-- How often a loop that is to stop can still stir. -/
def toEnd (s : TimerThreads) : Nat :=
  match s.timer.loop, s.seat with
  | .returned, _ => 0
  | .dispatching _ _ _, _ => 2
  | .outer, .parked | .inner _ _, .parked => 2
  | .outer, .awake _ | .inner _ _, .awake _ => 1

theorem toEnd_le (s : TimerThreads) : s.toEnd ≤ 2 := by
  unfold toEnd
  split <;> omega

theorem toEnd_eq_zero : s.toEnd = 0 ↔ s.timer.loop = .returned := by
  unfold toEnd
  split <;> simp_all

structure Ending (s : TimerThreads) : Prop where
  attentive : s.Attentive
  stopping : s.timer.stopping = true

theorem Ending.roused (ending : s.Ending) {owed : Nat} {timedOut : Bool} (seat : s.seat = .parked) :
    1 + ({ s with owed := owed, seat := .awake timedOut } : TimerThreads).toEnd ≤ s.toEnd := by
  rcases ending.attentive.parked seat with outer | ⟨deadline, version, inner⟩
  · simp [toEnd, outer, seat]
  · simp [toEnd, inner, seat]

theorem Ending.stir (ending : s.Ending) (running : s.timer.loop ≠ .returned) :
    ∃ e t o, e.own ∧ s.next e = some (t, o) ∧ stirs ⟨s, e, o, t⟩ = true := by
  by_cases seat : s.seat = .parked
  · have ended : s.timer.waitOver = true := by
      rcases ending.attentive.parked seat with outer | ⟨deadline, version, inner⟩
      · simp [RtlTimer.waitOver, outer, ending.stopping]
      · simp [RtlTimer.waitOver, inner, RtlTimer.woken, ending.stopping]
    exact ⟨.notify, _, _, trivial, ending.attentive.notify seat ended, by simp [stirs, seat]⟩
  · obtain ⟨t, o, step⟩ := ending.attentive.loop_steps running seat
    exact ⟨.loop .posted, t, o, trivial, step, rfl⟩

/-- Nothing keeps a loop that is to stop from ending. -/
theorem Ending.next (ending : s.Ending) (h : s.next e = some (t, o)) :
    t.Ending ∧ (if stirs ⟨s, e, o, t⟩ then 1 else 0) + t.toEnd ≤ s.toEnd := by
  have attentive := ending.attentive.next h
  cases e with
  | call c =>
      obtain ⟨r, taken, same⟩ := Option.map_eq_some_iff.mp h
      have loop := (RtlTimer.next_call taken).1
      have stopping := RtlTimer.stopping_of_next taken ending.stopping
      cases same
      exact ⟨⟨attentive, stopping⟩, by simp [stirs, toEnd, loop]⟩
  | tick elapsed =>
      cases h
      exact ⟨⟨attentive, ending.stopping⟩, by simp [stirs, toEnd]⟩
  | notify =>
      simp only [TimerThreads.next] at h
      split at h
      · cases h
      · cases h
        refine ⟨⟨attentive, ending.stopping⟩, ?_⟩
        cases seat : s.seat with
        | awake timedOut => simp [stirs, toEnd, TimerThreads.notified, seat]
        | parked =>
            simp only [stirs, TimerThreads.notified, seat, beq_self_eq_true, if_true]
            exact ending.roused seat
  | spurious =>
      simp only [TimerThreads.next] at h
      split at h
      · rename_i seat
        cases h
        exact ⟨⟨attentive, ending.stopping⟩, ending.roused seat⟩
      · cases h
  | timeOut =>
      simp only [TimerThreads.next] at h
      split at h
      · split at h
        · rename_i passed
          cases h
          exact ⟨⟨attentive, ending.stopping⟩, ending.roused passed.1⟩
        · cases h
      · cases h
  | loop answer =>
      obtain ⟨e, r, step, taken, rfl, rfl⟩ := next_loop_iff.mp h
      refine ⟨⟨attentive, RtlTimer.stopping_of_next taken ending.stopping⟩, ?_⟩
      cases step with
      | look outer seat =>
          rw [RtlTimer.look_eq, if_pos ending.stopping]
          simp [stirs, toEnd, afterLoop, outer, seat]
      | wake inner seat =>
          rw [RtlTimer.wake_eq, if_pos ending.stopping]
          simp [stirs, toEnd, afterLoop, inner, seat]
      | @dispatch wait handler result at_hand =>
          obtain ⟨loop, same, place, _⟩ := s.timer.dispatch_eq handler result answer
          rw [same]
          rcases place with rfl | rfl <;> simp [stirs, toEnd, afterLoop, LoopSeat.after, at_hand]

theorem Ending.ends (ending : s.Ending) : Leads (fun t => t.timer.loop = .returned) s := by
  refine Machine.Leads.bind (Machine.Leads.descend (I := Ending) (μ := toEnd) ?_ ending) ?_
  · intro s ending running
    obtain ⟨e, t, o, own, h, stirs⟩ := ending.stir (mt toEnd_eq_zero.mpr running)
    obtain ⟨kept, nearer⟩ := ending.next h
    rw [if_pos stirs] at nearer
    exact ⟨e, t, o, h, own, kept, by omega⟩
  · intro t ⟨_, ended⟩
    exact .here (toEnd_eq_zero.mp ended)

theorem Ending.run (ending : s.Ending)
    {us : List (Transition TimerThreads TimerThreadsEvent TimerOutput)}
    (run : timerThreadsMachine.Run s us t) : t.Ending ∧ us.countP stirs + t.toEnd ≤ s.toEnd :=
  ⟨run.invariant (I := Ending) ending fun _ _ _ _ ending h => (ending.next h).1,
    run.countP_le (I := Ending) ending fun _ ending takes => ending.next takes⟩

end TimerThreads

/-! ## In every run -/

section Results

variable {s₀ s : TimerThreads} {ts : List (Transition TimerThreads TimerThreadsEvent TimerOutput)}

/-- A pending wait is served: the steps of the loop, the notifications under way and the clock lead to
its selection, with the result that was asked for. In whatever order they come, once there have been
`2 * s.owed + 4` of them apart from the clock's, the wait has been selected, and until then there is one
to take unless the loop sleeps until the deadline. -/
theorem timer_serves_wait (init : timerThreadsMachine.init s₀) (run : timerThreadsMachine.Run s₀ ts s)
    (pending : s.timer.pending = true) (running : s.timer.loop ≠ .returned) :
    TimerThreads.Leads (TimerThreads.Served s.timer) s ∧
    ∀ us t, timerThreadsMachine.Run s us t → (∀ u ∈ us, u.event.own) →
      (∃ u ∈ us, TimerThreads.Served s.timer u.after) ∨
        us.countP (fun u => !u.event.isTick) < 2 * s.owed + 4 ∧
          ((∃ e v o, e.own ∧ e.isTick = false ∧ t.next e = some (v, o)) ∨ t.AwaitsDeadline) := by
  have attentive := TimerThreads.attentive_run init run
  have alive : s.timer.stopping = false := by
    by_contra stopping
    have idle := attentive.stopped (by simpa using stopping)
    rw [pending] at idle
    cases idle
  have pends : TimerThreads.Pends s.timer s.timer := ⟨alive, pending, rfl, rfl, rfl, running⟩
  refine ⟨pends.serves attentive, fun us t later own => ?_⟩
  refine (pends.run later own).imp_right fun ⟨still, bound⟩ => ?_
  have few := s.toServe_le
  have more := TimerThreads.toServe_pos still
  exact ⟨by omega, still.goes_on (TimerThreads.attentive_run init (run.trans later))⟩

theorem timer_serves_wait_cancelTrace :
    ∃ ts s, timerThreadsMachine.exec (.start 0 true) cancelTrace = some (ts, s) ∧
      TimerThreads.Leads (TimerThreads.Served s.timer) s ∧
      ∀ us t, timerThreadsMachine.Run s us t → (∀ u ∈ us, u.event.own) →
        (∃ u ∈ us, TimerThreads.Served s.timer u.after) ∨
          us.countP (fun u => !u.event.isTick) < 2 * s.owed + 4 ∧
            ((∃ e v o, e.own ∧ e.isTick = false ∧ t.next e = some (v, o)) ∨ t.AwaitsDeadline) := by
  have h : timerThreadsMachine.exec (.start 0 true) cancelTrace = some (_, _) := rfl
  exact ⟨_, _, h, timer_serves_wait ⟨0, true, rfl⟩ (.of_exec h) rfl (by decide)⟩

/-- After a shutdown the loop ends by its own steps and the notifications under way, so that the
destructor, which waits for it, returns. Whatever else happens, it takes a step or leaves the wait set
at most twice more, and until it has ended it can. -/
theorem timer_shutdown_ends_loop (init : timerThreadsMachine.init s₀)
    (run : timerThreadsMachine.Run s₀ ts s) (stopping : s.timer.stopping = true) :
    TimerThreads.Leads (fun t => t.timer.loop = .returned) s ∧
    ∀ us t, timerThreadsMachine.Run s us t → us.countP TimerThreads.stirs ≤ 2 ∧
      (t.timer.loop = .returned ∨
        ∃ e v o, e.own ∧ t.next e = some (v, o) ∧ TimerThreads.stirs ⟨t, e, o, v⟩ = true) := by
  have ending : s.Ending := ⟨TimerThreads.attentive_run init run, stopping⟩
  refine ⟨ending.ends, fun us t later => ?_⟩
  obtain ⟨still, bound⟩ := ending.run later
  have few := s.toEnd_le
  exact ⟨by omega, or_iff_not_imp_left.mpr still.stir⟩

/-- The shutdown comes while the loop sleeps at its outer wait. -/
def sleepyShutdown : List TimerThreadsEvent := [.loop .posted, .call .shutdown]

theorem timer_shutdown_ends_loop_sleepyShutdown :
    ∃ ts s, timerThreadsMachine.exec (.start 0 true) sleepyShutdown = some (ts, s) ∧ s.seat = .parked ∧
      TimerThreads.Leads (fun t => t.timer.loop = .returned) s ∧
      ∀ us t, timerThreadsMachine.Run s us t → us.countP TimerThreads.stirs ≤ 2 ∧
        (t.timer.loop = .returned ∨
          ∃ e v o, e.own ∧ t.next e = some (v, o) ∧ TimerThreads.stirs ⟨t, e, o, v⟩ = true) := by
  have h : timerThreadsMachine.exec (.start 0 true) sleepyShutdown = some (_, _) := rfl
  exact ⟨_, _, h, rfl, timer_shutdown_ends_loop ⟨0, true, rfl⟩ (.of_exec h) rfl⟩

end Results

end Rtl.Stp
