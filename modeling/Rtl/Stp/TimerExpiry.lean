import Rtl.Stp.Timer

/-! # No early expiry

The loop waits for the deadline it has read and compares the version it has read with
the current one before it lets a wait expire. The comparison is modulo `2 ^ 64`: it
tells every change of the deadline as long as fewer than `2 ^ 64` changes are made
while the loop waits.
-/

namespace Rtl.Stp

open Rtl.Base

namespace RtlTimer

variable {s u : RtlTimer} {e : TimerEvent} {o : TimerOutput}

/-- What the waiting loop has read is still true unless the version has moved on. -/
def ReadsCurrent (s : RtlTimer) : Prop :=
  ∀ deadline version, s.loop = .inner deadline version →
    version ≤ s.version ∧ (version = s.version → deadline = s.expiry)

/-- Fewer than `2 ^ 64` changes since the waiting loop has read the version. -/
def FewChanges (s : RtlTimer) : Prop :=
  ∀ deadline version, s.loop = .inner deadline version → s.version < version + versionModulus

theorem ReadsCurrent.bump (reads : s.ReadsCurrent) (loop : u.loop = s.loop)
    (version : u.version = s.version + 1) : u.ReadsCurrent := by
  intro deadline read inner
  rw [loop] at inner
  have old := (reads deadline read inner).1
  rw [version]
  constructor
  · omega
  · intro same
    omega

theorem ReadsCurrent.step (reads : s.ReadsCurrent) (h : Step s e o u) : u.ReadsCurrent := by
  cases h with
  | expires => exact reads.bump rfl rfl
  | waits => exact reads.bump rfl rfl
  | refuses => exact reads
  | cancels => exact reads.bump rfl rfl
  | notPending => exact reads
  | stops => exact reads.bump rfl rfl
  | stopped => exact reads
  | ticks => exact reads
  | stays => exact reads
  | leaves _ place =>
      rintro deadline version inner
      rcases place with rfl | rfl <;> cases inner
  | parks =>
      rintro deadline version inner
      cases inner
      exact ⟨Nat.le_refl _, fun _ => rfl⟩
  | selects =>
      rintro deadline version inner
      cases inner
  | submits _ place =>
      rintro deadline version inner
      rcases place with rfl | rfl <;> cases inner
  | skips =>
      rintro deadline version inner
      cases inner

theorem ReadsCurrent.expiry_le (reads : s.ReadsCurrent) (few : s.FewChanges) (due : s.Due) :
    s.expiry ≤ s.now := by
  obtain ⟨deadline, version, inner, passed, same⟩ := due
  obtain ⟨le, current⟩ := reads deadline version inner
  have lt := few deadline version inner
  have equal : version = s.version := by
    simp only [versionModulus] at lt same
    omega
  rw [← current equal]
  exact passed

end RtlTimer

/-- Whenever the loop selects a wait as expired, the clock has reached the deadline set
last, provided fewer than `2 ^ 64` changes are made while the loop waits. -/
theorem timer_never_expires_early {s₀ s : RtlTimer}
    {ts : List (Transition RtlTimer TimerEvent TimerOutput)} (init : timerMachine.init s₀)
    (run : timerMachine.Run s₀ ts s) (few : ∀ t ∈ ts, t.before.FewChanges) :
    ∀ t ∈ ts, ∀ k, t.output = .selected k .expired → t.before.expiry ≤ t.before.now := by
  intro t ht k selected
  obtain ⟨us, _, before, takes⟩ := run.mem_prefix ht
  have reads : t.before.ReadsCurrent := by
    apply before.invariant
    · obtain ⟨now, executor, rfl⟩ := init
      intro deadline version inner
      cases executor <;> cases inner
    · intro s e t o reads h
      exact reads.step (RtlTimer.step_of_next h)
  have step := RtlTimer.step_of_next takes
  rw [selected] at step
  exact reads.expiry_le (few t ht) (step.of_selected.due rfl)

/-- The deadline is moved to a later time while the loop waits for the earlier one. -/
def postponed : List TimerEvent :=
  [.expiresAt 10, .asyncWait true, .look, .expiresAt 20, .tick 10, .wake true, .tick 10, .wake true]

theorem postponed_not_early :
    ∃ ts s, timerMachine.exec (.start 0 true) postponed = some (ts, s) ∧
      s.loop = .dispatching 0 (some 0) .expired ∧ s.now = 20 ∧
      ∀ t ∈ ts, ∀ k, t.output = .selected k .expired → t.before.expiry ≤ t.before.now := by
  have h : timerMachine.exec (.start 0 true) postponed = some (_, _) := rfl
  refine ⟨_, _, h, rfl, rfl, timer_never_expires_early ⟨0, true, rfl⟩ (Machine.Run.of_exec h) ?_⟩
  intro t ht deadline version inner
  simp only [List.mem_cons, List.not_mem_nil, or_false] at ht
  rcases ht with rfl | rfl | rfl | rfl | rfl | rfl | rfl | rfl <;> cases inner <;> decide

/-! ## When the version comes round -/

/-- The same deadline set again and again. -/
theorem run_expiresAt (s : RtlTimer) (timePoint : Int) (n : Nat) :
    ∃ ts, timerMachine.Run s ts { s with expiry := timePoint, version := s.version + (n + 1) } := by
  induction n with
  | zero => exact ⟨_, Machine.Run.refl.step (e := .expiresAt timePoint) (o := .quiet) rfl⟩
  | succ n ih =>
      obtain ⟨ts, run⟩ := ih
      exact ⟨_, run.step (e := .expiresAt timePoint) (o := .quiet) rfl⟩

/-- The first wait is pending, and the loop waits for the deadline 10 with version 2. -/
def waitingForTen (expiry : Int) (version : Nat) (now : Int) : RtlTimer where
  handler := some 0
  expiry := expiry
  pending := true
  cancelRequested := false
  stopping := false
  version := version
  executor := true
  loop := .inner 10 2
  now := now
  accepted := 1

/-- With `2 ^ 64` changes while the loop waits the version it compares with has come
round: the wait expires at the deadline read first, before the one set last. -/
theorem timer_expires_early_after_version_wraps :
    ∃ ts s t, timerMachine.Run (.start 0 true) ts s ∧ t ∈ ts ∧ t.output = .selected 0 .expired ∧
      t.before.now < t.before.expiry := by
  have parked : ∃ ts, timerMachine.exec (.start 0 true) [.expiresAt 10, .asyncWait true, .look] =
      some (ts, waitingForTen 10 2 0) := ⟨_, rfl⟩
  obtain ⟨first, parked⟩ := parked
  obtain ⟨second, changed⟩ := run_expiresAt (waitingForTen 10 2 0) 20 (2 ^ 64 - 1)
  have round : timerMachine.next (waitingForTen 20 (2 + 2 ^ 64) 10) (.wake true) =
      some (((waitingForTen 20 (2 + 2 ^ 64) 10).select .expired).1, .selected 0 .expired) := rfl
  have late : timerMachine.Run (.start 0 true) _ (waitingForTen 20 (2 + 2 ^ 64) 10) :=
    ((Machine.Run.of_exec parked).trans changed).step (e := .tick 10) (o := .quiet) rfl
  exact ⟨_, _, _, late.step round, List.mem_append_right _ List.mem_cons_self, rfl, by decide⟩

end Rtl.Stp
