import Rtl.Coro.Refinement

/-! # When the runner is destroyed

`sync_wait` destroys the runner and the shared state as soon as it has seen the flag. The
runner sets the flag before it notifies and suspends, so that it may still be running. It is
not if the caller looks at the flag only before it is set or after the runner has
suspended, and that is so whenever no coroutine of the nest leaves the thread of the caller.
-/

namespace Rtl.Coro

open Rtl.Base

universe u v

variable {ν : Type u} {ε : Type v} {k : TaskKind}

namespace SyncWait

/-- The runner and the state are destroyed after the runner has notified and come to its
final suspension only. -/
def FreedInTime (s : SyncWait ν ε k) : Prop :=
  s.runnerLive = false ∨ s.stateLive = false → s.isDone .runner = true

/-- The caller destroys the runner while it is still running. -/
def destroysRunning (s : SyncWait ν ε k) : CoroEvent → Bool
  | .wait =>
      match s.wait with
      | .destroyRunner _ => !s.isDone .runner
      | _ => false
  | _ => false

/-- The caller sees the flag while the runner is still running. -/
def seesDoneEarly (s : SyncWait ν ε k) : CoroEvent → Bool
  | .wait =>
      match s.wait with
      | .check => s.state.done && !s.isDone .runner
      | _ => false
  | _ => false

end SyncWait

/-! ## The runner and the caller -/

section Steps

variable {s s' : SyncWait ν ε k} {e : CoroEvent} {o : CoroOutput} {y y' : Sync ν ε k}

/-- The steps that change the runner or the caller; the nest leaves both alone. -/
inductive SyncStep (y y' : Sync ν ε k) (e : CoroEvent) : Prop where
  | nest (same : y' = y)
  | runner (step : RunnerStep y y')
  | caller (event : e = .wait) (step : CallerStep y y')
  | wakes (pc : y.wait = .blocked) (next : y' = { y with wait := .lock })

theorem syncStep_of_step (h : s.step e = some (s', o)) : SyncStep s.sync s'.sync e := by
  cases e with
  | run t answer =>
      simp only [SyncWait.step] at h
      split at h
      · exact .runner (runRunner_step h)
      · exact .nest (SyncWait.runFrame_sync h)
      · cases h
  | execute t j => exact .nest (SyncWait.execute_sync h)
  | wait => exact .caller rfl (stepWait_step h)
  | wake =>
      simp only [SyncWait.step] at h
      split at h
      · next blocked =>
          cases h
          exact .wakes blocked rfl
      · cases h

/-- A runner that takes a step has not come to its end. -/
theorem RunnerStep.not_isFinal (step : RunnerStep y y') : y.runner.isFinal = false := by
  cases step with
  | begins pc next | resumes value pc next | locks value pc free next | stores value pc next
  | unlocks pc next | notifies pc next | ends pc next =>
      rw [pc]
      rfl

/-- If the runner is at its end whenever the caller has come to some point, this does not change
when the runner takes a step. -/
theorem RunnerStep.keeps {q : WaitPc ν ε k → Bool} (step : RunnerStep y y')
    (notified : ∀ pc, q pc.notified = q pc) (ended : q y.wait = true → y.runner.isFinal = true) :
    q y'.wait = true → y'.runner.isFinal = true := by
  have same : q y'.wait = q y.wait := by
    rcases step.wait with same | woken
    · rw [same]
    · rw [woken, notified]
  intro there
  cases step.not_isFinal.symm.trans (ended (same ▸ there))

end Steps

/-! ## The step that destroys the runner -/

def WaitPc.hasDestroyed : WaitPc ν ε k → Bool
  | .destroyState _ => true
  | .returned _ => true
  | .undefined => true
  | _ => false

theorem WaitPc.notified_hasDestroyed (pc : WaitPc ν ε k) :
    pc.notified.hasDestroyed = pc.hasDestroyed := by
  cases pc <;> rfl

section Destroying

variable {s s' : SyncWait ν ε k} {e : CoroEvent} {o : CoroOutput} {y y' : Sync ν ε k}

/-- Only a runner at its end has been destroyed. -/
structure DestroyInv (y : Sync ν ε k) : Prop where
  freed : y.runnerLive = false ∨ y.stateLive = false → y.wait.hasDestroyed = true
  ended : y.wait.hasDestroyed = true → y.runner.isFinal = true

theorem DestroyInv.runner (inv : DestroyInv y) (step : RunnerStep y y') : DestroyInv y' := by
  refine ⟨?_, step.keeps WaitPc.notified_hasDestroyed inv.ended⟩
  cases step with
  | notifies pc next =>
      rw [next, WaitPc.notified_hasDestroyed]
      exact inv.freed
  | begins pc next | resumes value pc next | locks value pc free next | stores value pc next
  | unlocks pc next | ends pc next =>
      rw [next]
      exact inv.freed

theorem DestroyInv.caller (inv : DestroyInv y) (step : CallerStep y y')
    (guard : ∀ value, y.wait = .destroyRunner value → y.runner.isFinal = true) : DestroyInv y' := by
  obtain ⟨freed, ended⟩ := inv
  cases step with
  | calls pc next | comesBack pc next | locks pc free next | leaves pc stored next
  | parks pc early next | unlocks value pc next =>
      rw [pc] at freed
      rw [next]
      exact ⟨freed, by simp [WaitPc.hasDestroyed]⟩
  | destroysRunner value pc final next =>
      rw [next]
      exact ⟨fun _ => rfl, fun _ => final⟩
  | breaks value pc running next => cases running.symm.trans (guard value pc)
  | destroysState value pc next =>
      rw [pc] at ended
      rw [next]
      exact ⟨fun _ => rfl, ended⟩

theorem DestroyInv.step (inv : DestroyInv s.sync) (guard : s.destroysRunning e = false)
    (h : s.step e = some (s', o)) : DestroyInv s'.sync := by
  cases syncStep_of_step h with
  | nest same =>
      rw [same]
      exact inv
  | runner step => exact inv.runner step
  | caller event step =>
      refine inv.caller step ?_
      intro value pc
      have waits : s.wait = .destroyRunner value := pc
      have final : s.runner.isFinal = true := by
        simpa [event, SyncWait.destroysRunning, waits, SyncWait.isDone] using guard
      exact final
  | wakes pc next =>
      obtain ⟨freed, _⟩ := inv
      rw [pc] at freed
      rw [next]
      exact ⟨freed, by simp [WaitPc.hasDestroyed]⟩

theorem DestroyInv.freedInTime (inv : DestroyInv s.sync) : s.FreedInTime :=
  fun freed => inv.ended (inv.freed freed)

/-- What the caller does in the step that destroys a running runner. -/
theorem destroysRunning_step (running : s.destroysRunning e = true) (h : s.step e = some (s', o)) :
    s'.wait = .undefined ∧ s'.runnerLive = false ∧ s'.isDone .runner = false := by
  cases e with
  | wait =>
      simp only [SyncWait.destroysRunning] at running
      split at running
      · next value pc =>
          have unfinished : s.isDone .runner = false := by simpa using running
          simp only [SyncWait.step, SyncWait.stepWait, pc, unfinished, Bool.false_eq_true, if_false,
            Option.some.injEq, Prod.mk.injEq] at h
          obtain ⟨rfl, _⟩ := h
          exact ⟨rfl, rfl, unfinished⟩
      · cases running
  | _ => cases running

/-- A caller becomes undefined in this step only. -/
theorem isUndefined_step (defined : s.wait.isUndefined = false) (guard : s.destroysRunning e = false)
    (h : s.step e = some (s', o)) : s'.wait.isUndefined = false := by
  have notified : ∀ pc : WaitPc ν ε k, pc.notified.isUndefined = pc.isUndefined := by
    intro pc
    cases pc <;> rfl
  have same : ∀ u : SyncWait ν ε k, u.sync.wait = u.wait := fun _ => rfl
  rw [← same] at defined ⊢
  cases syncStep_of_step h with
  | nest unchanged =>
      rw [unchanged]
      exact defined
  | runner step =>
      rcases step.wait with unchanged | woken
      · rw [unchanged]
        exact defined
      · rw [woken, notified]
        exact defined
  | caller event step =>
      cases step with
      | breaks value pc running next =>
          have waits : s.wait = .destroyRunner value := pc
          have unfinished : s.runner.isFinal = false := running
          simp [event, SyncWait.destroysRunning, waits, SyncWait.isDone, unfinished] at guard
      | calls pc next | comesBack pc next | locks pc free next | leaves pc stored next
      | parks pc early next | unlocks value pc next | destroysRunner value pc final next
      | destroysState value pc next =>
          rw [next]
          rfl
  | wakes pc next =>
      rw [next]
      rfl

end Destroying

/-! ## A caller that looks late enough -/

section Leaving

variable {s s' : SyncWait ν ε k} {e : CoroEvent} {o : CoroOutput} {y y' : Sync ν ε k}

def LeavesLate (y : Sync ν ε k) : Prop := y.wait.value.isSome = true → y.runner.isFinal = true

theorem LeavesLate.caller (late : LeavesLate y) (step : CallerStep y y')
    (guard : y.wait = .check → y.state.done = true → y.runner.isFinal = true) : LeavesLate y' := by
  unfold LeavesLate at late ⊢
  cases step with
  | calls pc next | comesBack pc next | locks pc free next | parks pc early next
  | breaks value pc running next =>
      rw [next]
      simp [WaitPc.value]
  | leaves pc stored next =>
      rw [next]
      exact fun _ => guard pc stored
  | unlocks value pc next | destroysRunner value pc final next | destroysState value pc next =>
      rw [pc] at late
      rw [next]
      exact late

theorem LeavesLate.step (late : LeavesLate s.sync) (guard : s.seesDoneEarly e = false)
    (h : s.step e = some (s', o)) : LeavesLate s'.sync := by
  cases syncStep_of_step h with
  | nest same =>
      rw [same]
      exact late
  | runner step =>
      exact step.keeps (q := fun pc => pc.value.isSome) (fun pc => by rw [WaitPc.notified_value]) late
  | caller event step =>
      refine late.caller step ?_
      intro check stored
      have waits : s.wait = .check := check
      have done : s.state.done = true := stored
      have final : s.runner.isFinal = true := by
        simpa [event, SyncWait.seesDoneEarly, waits, done, SyncWait.isDone] using guard
      exact final
  | wakes pc next =>
      unfold LeavesLate
      rw [next]
      simp [WaitPc.value]

theorem LeavesLate.not_destroysRunning (late : LeavesLate s.sync) (e : CoroEvent) :
    s.destroysRunning e = false := by
  cases e with
  | wait =>
      simp only [SyncWait.destroysRunning]
      split
      · next value pc =>
          have final : s.runner.isFinal = true := by
            apply late
            rw [SyncWait.sync, pc]
            rfl
          simp [SyncWait.isDone, final]
      · rfl
  | _ => rfl

end Leaving

/-! ## A nest that stays on the thread of the caller -/

section Staying

variable {s s' : SyncWait ν ε k} {t i : Nat} {e : CoroEvent} {o : CoroOutput}

/-- No post has been accepted, and the threads of the executor have nothing to do. -/
structure Stays (s : SyncWait ν ε k) : Prop where
  pending : s.pending = []
  idle : ∀ t x, t ≠ 0 → s.running[t]? = some x → x = none

theorem Touches.stays (touches : Touches 0 s s') (stays : Stays s) (rejected : true ∉ s'.posts) :
    Stays s' := by
  have pending := touches.pending.resolve_right rejected
  rw [stays.pending] at pending
  refine ⟨List.subset_nil.mp pending, ?_⟩
  intro t x other found
  rcases touches.running with same | ⟨y, set⟩
  · exact stays.idle t x other (same ▸ found)
  · rw [set, List.getElem?_set_ne (Ne.symm other)] at found
    exact stays.idle t x other found

theorem Stays.step (stays : Stays s) (h : s.step e = some (s', o)) (rejected : true ∉ s'.posts) :
    Stays s' := by
  cases e with
  | run t answer =>
      simp only [SyncWait.step] at h
      by_cases here : t = 0
      · subst here
        split at h
        · exact (touches_runRunner h).stays stays rejected
        · exact (touches_runFrame h).stays stays rejected
        · cases h
      · split at h
        · next found => cases stays.idle t _ here found
        · next found => cases stays.idle t _ here found
        · cases h
  | execute t j =>
      simp only [SyncWait.step, SyncWait.execute, stays.pending] at h
      split at h
      · next found => cases found
      · cases h
  | wait => exact (touches_stepWait h).stays stays rejected
  | wake =>
      simp only [SyncWait.step] at h
      split at h <;> cases h
      exact ⟨stays.pending, stays.idle⟩

end Staying

section Runs

variable {body : Body ν ε k false} {moreWorkers : Nat} {s s' : SyncWait ν ε k}
  {ts : List (Transition (SyncWait ν ε k) CoroEvent CoroOutput)}

theorem posts_of_run (run : (coroMachine ν ε k).Run s ts s') : ∃ l, s'.posts = s.posts ++ l := by
  refine run.invariant (I := fun u => ∃ l, u.posts = s.posts ++ l) ⟨[], by simp⟩ ?_
  intro u e v o old h
  obtain ⟨l, before⟩ := old
  obtain ⟨m, after⟩ := step_posts (step_of_next h)
  exact ⟨l ++ m, by rw [after, before, List.append_assoc]⟩

theorem stays_of_run (run : (coroMachine ν ε k).Run (.start moreWorkers body) ts s)
    (rejected : true ∉ s.posts) :
    Stays s := by
  revert rejected
  refine run.invariant (I := fun s => true ∉ s.posts → Stays s) ?_ ?_
  · intro _
    refine ⟨rfl, ?_⟩
    intro t x _ found
    exact (List.mem_replicate.mp (List.mem_of_getElem? found)).2
  · intro s e s' o stays h rejected
    obtain ⟨l, posts⟩ := step_posts (step_of_next h)
    refine (stays ?_).step (step_of_next h) rejected
    intro accepted
    exact rejected (posts ▸ List.mem_append_left _ accepted)

/-- When the caller looks at the flag and the nest has stayed on its thread, the runner is
done. -/
theorem isFinal_of_stays (run : (coroMachine ν ε k).Run (.start moreWorkers body) ts s)
    (rejected : true ∉ s.posts)
    (check : s.wait = .check) : s.runner.isFinal = true := by
  have stays := stays_of_run run rejected
  have agrees : Agrees (fun _ => false) s.posts := by
    intro i v found
    cases v with
    | false => rfl
    | true => exact (rejected (List.mem_of_getElem? found)).elim
  obtain ⟨n, inv⟩ := runInv_of_run run agrees
  have nothing : ∀ {h : Handle} {posted : Option Handle}, ¬ s.Active (some h) posted := by
    intro h posted active
    obtain ⟨t, thread⟩ := active.thread
    by_cases here : t = 0
    · have resuming := inv.nest.caller h (here ▸ thread)
      rw [check] at resuming
      cases resuming
    · cases stays.idle t _ here thread
  cases inv.nest.later (by rw [check]; rfl) with
  | begun active | frame active | back active | settled active | stored active =>
      exact (nothing active).elim
  | posted active =>
      have none := active.2
      rw [stays.pending] at none
      cases none
  | ended _ pc =>
      rw [pc]
      rfl

theorem not_seesDoneEarly_of_stays (run : (coroMachine ν ε k).Run (.start moreWorkers body) ts s)
    (rejected : true ∉ s.posts) (e : CoroEvent) : s.seesDoneEarly e = false := by
  cases e with
  | wait =>
      simp only [SyncWait.seesDoneEarly]
      split
      · next check => simp [SyncWait.isDone, isFinal_of_stays run rejected check]
      · rfl
  | _ => rfl

/-- In a run in which no post has been accepted the caller never sees the flag early. -/
theorem seesDoneEarly_of_rejected (run : (coroMachine ν ε k).Run (.start moreWorkers body) ts s)
    (rejected : true ∉ s.posts) : ∀ t ∈ ts, t.before.seesDoneEarly t.event = false := by
  intro t mem
  obtain ⟨us, vs, rfl⟩ := List.append_of_mem mem
  obtain ⟨before, takes, after⟩ := run.at
  obtain ⟨l, posts⟩ := posts_of_run after
  obtain ⟨m, step⟩ := step_posts (step_of_next takes)
  refine not_seesDoneEarly_of_stays before ?_ t.event
  intro accepted
  refine rejected ?_
  rw [posts, step]
  exact List.mem_append_left _ (List.mem_append_left _ accepted)

/-- A caller that does not see the flag early does not destroy a running runner. -/
theorem destroysRunning_of_late (run : (coroMachine ν ε k).Run (.start moreWorkers body) ts s)
    (late : ∀ t ∈ ts, t.before.seesDoneEarly t.event = false) :
    ∀ t ∈ ts, t.before.destroysRunning t.event = false := by
  intro t mem
  obtain ⟨us, sub, first, _⟩ := run.mem_prefix mem
  have leaves : LeavesLate t.before.sync := by
    refine first.invariant_of_guard (I := fun s => LeavesLate s.sync)
      (G := fun s e => s.seesDoneEarly e = false) (fun u before => late u (sub.subset before)) ?_
      fun s e s' o leaves guard h => leaves.step guard (step_of_next h)
    simp [LeavesLate, SyncWait.start, SyncWait.sync, WaitPc.value]
  exact leaves.not_destroysRunning t.event

/-- Where no post has been accepted, or the caller does not see the flag early, the runner is not
destroyed while it runs. -/
theorem destroysRunning_of_guard (run : (coroMachine ν ε k).Run (.start moreWorkers body) ts s)
    (guard : (∀ t ∈ ts, t.before.seesDoneEarly t.event = false) ∨ true ∉ s.posts) :
    ∀ t ∈ ts, t.before.destroysRunning t.event = false := by
  rcases guard with late | rejected
  · exact destroysRunning_of_late run late
  · exact destroysRunning_of_late run (seesDoneEarly_of_rejected run rejected)

/-- The runner and the shared state are destroyed only after the runner has notified and come to its
final suspension, throughout a run, if and only if the caller does not come to destroy the
runner while it is running. This is so in every run in which the caller does not see the
flag while the runner is still running, and in every run in which no post has been accepted. -/
theorem sync_wait_frees_in_time (run : (coroMachine ν ε k).Run (.start moreWorkers body) ts s) :
    ((∀ v, Machine.Visits (.start moreWorkers body) ts v → v.FreedInTime) ↔
      ∀ t ∈ ts, t.before.destroysRunning t.event = false) ∧
    ((∀ t ∈ ts, t.before.seesDoneEarly t.event = false) ∨ true ∉ s.posts →
      ∀ v, Machine.Visits (.start moreWorkers body) ts v → v.FreedInTime) := by
  have exactly : (∀ v, Machine.Visits (.start moreWorkers body) ts v → v.FreedInTime) ↔
      ∀ t ∈ ts, t.before.destroysRunning t.event = false := by
    apply run.always_iff_guard (I := fun s => DestroyInv s.sync) (P := SyncWait.FreedInTime)
      (G := fun s e => s.destroysRunning e = false)
    · exact ⟨by simp [SyncWait.start, SyncWait.sync],
        by simp [SyncWait.start, SyncWait.sync, WaitPc.hasDestroyed]⟩
    · intro s e s' o inv guard h
      exact inv.step guard (step_of_next h)
    · intro s inv
      exact inv.freedInTime
    · intro s e s' o _ running h freed
      obtain ⟨_, destroyed, unfinished⟩ :=
        destroysRunning_step ((Bool.not_eq_false _).mp running) (step_of_next h)
      cases unfinished.symm.trans (freed (.inl destroyed))
  exact ⟨exactly, fun guard => exactly.mpr (destroysRunning_of_guard run guard)⟩

end Runs

def scheduledTask : Body Nat String .value false := .schedule ⟨true⟩ (.coReturn (7 : Nat))

/-- The post is rejected, and the task ends on the thread of the caller. -/
theorem sync_wait_frees_in_time_rejected : ∃ ts s,
    (coroMachine Nat String .value).exec (.start 0 scheduledTask)
        [[.wait], List.replicate 9 (.run 0 .refused), List.replicate 6 .wait].flatten = some (ts, s) ∧
      s.wait = .returned (.throws scheduleRejected) ∧ s.runnerLive = false ∧ s.stateLive = false ∧
      ∀ v, Machine.Visits (.start 0 scheduledTask) ts v → v.FreedInTime := by
  have h : (coroMachine Nat String .value).exec (.start 0 scheduledTask)
    [[.wait], List.replicate 9 (.run 0 .refused), List.replicate 6 .wait].flatten = some (_, _) := rfl
  have rejected : true ∉ [false] := by simp
  exact ⟨_, _, h, rfl, rfl, rfl, (sync_wait_frees_in_time (.of_exec h)).2 (.inr rejected)⟩

/-- The runner has set the flag on the executor thread, and the caller looks at it before the
runner notifies. -/
def earlyLook : List CoroEvent :=
  [[.wait, .run 0 .refused, .run 0 .accepted, .wait, .execute 1 0], List.replicate 6 (.run 1 .refused),
    List.replicate 4 .wait].flatten

theorem sync_wait_frees_running_runner : ∃ ts s,
    (coroMachine Nat String .value).exec (.start 0 scheduledTask) earlyLook = some (ts, s) ∧
      s.runnerLive = false ∧ s.running[1]? = some (some .runner) ∧ s.runner = .notify ∧
      s.wait = .undefined ∧ ¬ s.FreedInTime := by
  refine ⟨_, _, rfl, rfl, rfl, rfl, rfl, ?_⟩
  intro freed
  cases freed (.inl rfl)

end Rtl.Coro
