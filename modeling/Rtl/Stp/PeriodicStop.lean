import Rtl.Stp.PoolDrain

/-! # Periodic workers stop with the pool

A periodic worker loads the pool state before its wait and after it, and starts its
callback without loading it again. Once the state is no longer running, a worker that has
passed the second load starts its callback once more and then finds out; every other worker
starts none. The callback that may still be started is the potential that the bound is
counted against.
-/

namespace Rtl.Stp

open Rtl.Base

def CloserPhase.shutdownDone : CloserPhase → Bool
  | .lock => false
  | .store => false
  | .notify => false
  | .close => false
  | .notifyNotEmpty => false
  | .notifyNotFull => false
  | _ => true

namespace Pool

variable {s t : Pool} {o : PoolOutput} {opt : ThreadPoolOptions}

/-- The callbacks that the worker starts before it loads the pool state again. -/
def pending (s : Pool) (i : Nat) : Nat :=
  if s.periodic[i]? = some .starting then 1 else 0

/-! ## What a step does to the periodic workers -/

inductive Moves (opt : ThreadPoolOptions) (s t : Pool) (o : PoolOutput) : Prop where
  | stay : t.periodic = s.periodic → t.periodicCount = s.periodicCount →
      (∀ i, o ≠ .periodicStarted i) → Moves opt s t o
  | create : s.poolState = .running → s.periodicCount < opt.maxPeriodicTasks →
      t.periodic = s.periodic ++ [.top] → t.periodicCount = s.periodicCount + 1 →
      (∀ i, o ≠ .periodicStarted i) → Moves opt s t o
  | move {i : Nat} {pc pc' : PeriodicPc} : s.periodic[i]? = some pc →
      t.periodic = s.periodic.set i pc' → t.periodicCount = s.periodicCount →
      (pc' = .starting → s.poolState = .running) → (pc' = .exited → s.poolState ≠ .running) →
      (∀ j, o = .periodicStarted j → j = i ∧ pc = .starting ∧ pc' = .invoking) → Moves opt s t o

theorem PeriodicStep.moves (h : s.PeriodicStep t o) (inv : s.Inv) : Moves opt s t o := by
  cases h with
  | load here ways running =>
      rcases ways with ⟨rfl, rfl⟩ | ⟨rfl, rfl⟩
      · exact .move here rfl rfl nofun nofun nofun
      · exact .move here rfl rfl (fun _ => running) nofun nofun
  | exit here _ halted => exact .move here rfl rfl nofun (fun _ => halted) nofun
  | ready here => exact .move here rfl rfl nofun nofun nofun
  | sleep here _ => exact .move here rfl rfl nofun nofun nofun
  | wakes _ => exact .stay rfl rfl nofun
  | resumes hr =>
      have leaves := (CondVar.resume_spec hr).2.1
      have asleep := inv.sleepers.pc_of_mem (leaves.mem_iff.mpr (List.mem_cons_self ..))
      exact .move asleep rfl rfl nofun nofun nofun
  | again _ _ => exact .stay rfl rfl nofun
  | start here =>
      refine .move here rfl rfl nofun nofun ?_
      intro j same
      cases same
      exact ⟨rfl, rfl, rfl⟩
  | finish here => exact .move here rfl rfl nofun nofun nofun

theorem PeriodicPut.moves (h : PeriodicPut opt s t o) : Moves opt s t o := by
  cases h with
  | refused _ => exact .stay rfl rfl (by simp)
  | added running room => exact .create running room rfl rfl (by simp)

theorem shutdownReturns_moves {k : Nat} {c : Closer} (h : s.shutdownReturns k c = (t, o)) :
    t.periodicCount = s.periodicCount ∧ (∀ i, o ≠ .periodicStarted i) ∧
    ∃ phase', t.closers = s.closers.set k { c with phase := phase' } ∧
      phase'.shutdownDone = true := by
  simp only [shutdownReturns] at h
  split at h
  · cases h
    exact ⟨rfl, by simp, .joinLock, rfl, rfl⟩
  · cases h
    exact ⟨rfl, by simp, .returned, rfl, rfl⟩

/-- A closing call leaves the periodic workers alone. It comes back from `shutdown_graceful`
at its end, or when it finds the pool state no longer running. -/
theorem closerStep_moves {k : Nat} {c : Closer} {phase : CloserPhase}
    (h : s.closerStep k c phase = some (t, o)) :
    t.periodicCount = s.periodicCount ∧ (∀ i, o ≠ .periodicStarted i) ∧
    ∃ phase', t.closers = s.closers.set k { c with phase := phase' } ∧
      (o ≠ .shutdownReturned ∧ phase'.shutdownDone = phase.shutdownDone ∨
        phase'.shutdownDone = true ∧ (phase = .notifyNotFull ∨ s.poolState ≠ .running)) := by
  cases phase with
  | lock =>
      simp only [closerStep] at h
      split at h
      · cases h
      · split at h
        · next halted =>
            obtain ⟨count, quiet, phase', closers, done⟩ := shutdownReturns_moves (Option.some.inj h)
            exact ⟨count, quiet, phase', closers, .inr ⟨done, .inr halted⟩⟩
        · cases h
          exact ⟨rfl, by simp, .store, rfl, .inl ⟨by simp, rfl⟩⟩
  | store =>
      cases h
      exact ⟨rfl, by simp, .notify, rfl, .inl ⟨by simp, rfl⟩⟩
  | notify =>
      cases h
      exact ⟨rfl, by simp, .close, rfl, .inl ⟨by simp, rfl⟩⟩
  | close =>
      simp only [closerStep, Option.map_eq_some_iff] at h
      obtain ⟨r, _, h⟩ := h
      cases h
      exact ⟨rfl, by simp, .notifyNotEmpty, rfl, .inl ⟨by simp, rfl⟩⟩
  | notifyNotEmpty =>
      simp only [closerStep, Option.map_eq_some_iff] at h
      obtain ⟨r, _, h⟩ := h
      cases h
      exact ⟨rfl, by simp, .notifyNotFull, rfl, .inl ⟨by simp, rfl⟩⟩
  | notifyNotFull =>
      simp only [closerStep, Option.map_eq_some_iff] at h
      obtain ⟨r, _, h⟩ := h
      obtain ⟨count, quiet, phase', closers, done⟩ := shutdownReturns_moves h
      exact ⟨count, quiet, phase', closers, .inr ⟨done, .inl rfl⟩⟩
  | joinLock =>
      simp only [closerStep] at h
      split at h
      · cases h
      · split at h
        · cases h
          exact ⟨rfl, by simp, .returned, rfl, .inl ⟨by simp, rfl⟩⟩
        · cases h
          exact ⟨rfl, by simp, .joinPeriodic 0, rfl, .inl ⟨by simp, rfl⟩⟩
  | joinPeriodic i =>
      simp only [closerStep] at h
      split at h
      · simp only [Option.map_eq_some_iff] at h
        obtain ⟨_, _, h⟩ := h
        cases h
        exact ⟨rfl, by simp, .joinPeriodic (i + 1), rfl, .inl ⟨by simp, rfl⟩⟩
      · cases h
        exact ⟨rfl, by simp, .joinActive 0, rfl, .inl ⟨by simp, rfl⟩⟩
  | joinActive i =>
      simp only [closerStep] at h
      split at h
      · simp only [Option.map_eq_some_iff] at h
        obtain ⟨_, _, h⟩ := h
        cases h
        exact ⟨rfl, by simp, .joinActive (i + 1), rfl, .inl ⟨by simp, rfl⟩⟩
      · cases h
        exact ⟨rfl, by simp, .stop, rfl, .inl ⟨by simp, rfl⟩⟩
  | stop =>
      cases h
      exact ⟨rfl, by simp, .leave, rfl, .inl ⟨by simp, rfl⟩⟩
  | leave =>
      cases h
      exact ⟨rfl, by simp, .returned, rfl, .inl ⟨by simp, rfl⟩⟩
  | returned => cases h

theorem Step.moves {e : PoolEvent} (h : Step opt s e t o) (inv : s.Inv) : Moves opt s t o := by
  cases h with
  | put _ => exact .stay rfl rfl nofun
  | call _ _ => exact .stay rfl rfl nofun
  | putPeriodic hput => exact (putPeriodic_put hput).moves
  | task _ => exact .stay rfl rfl nofun
  | closer _ hc =>
      obtain ⟨count, quiet, _⟩ := closerStep_moves hc
      exact .stay (closerStep_frame hc).periodic count quiet
  | periodic step => exact step.moves inv

/-- `catch (...) { continue; }`, and the end of the loop body. -/
theorem top_of_finish {i : Nat} {throws : Bool}
    (h : s.next opt (.periodicFinish i throws) = some (t, o)) : t.periodic[i]? = some .top := by
  simp only [next] at h
  split at h
  · next invoking =>
      cases h
      exact List.getElem?_set_self (List.getElem?_eq_some_iff.mp invoking.1).1
  · cases h

/-! ## What follows for the workers -/

namespace Moves

theorem count (h : Moves opt s t o) (count : s.periodic.length = s.periodicCount)
    (bound : s.periodicCount ≤ opt.maxPeriodicTasks) :
    t.periodic.length = t.periodicCount ∧ t.periodicCount ≤ opt.maxPeriodicTasks := by
  cases h with
  | stay periodic same _ => rw [periodic, same]; exact ⟨count, bound⟩
  | create _ room periodic next _ =>
      rw [periodic, next, List.length_append, List.length_singleton]
      omega
  | move _ periodic same _ _ _ => rw [periodic, same, List.length_set]; exact ⟨count, bound⟩

/-- Workers are only created while the pool is running. -/
theorem length_of_halted (h : Moves opt s t o) (halted : s.poolState ≠ .running) :
    t.periodic.length = s.periodic.length := by
  cases h with
  | stay periodic _ _ => rw [periodic]
  | create running _ _ _ _ => exact absurd running halted
  | move _ periodic _ _ _ _ => rw [periodic, List.length_set]

/-- A worker that starts its callback pays with what was pending, and nothing gets pending
when the pool is not running. -/
theorem pending_of_halted (h : Moves opt s t o) (halted : s.poolState ≠ .running) (i : Nat) :
    (if o = .periodicStarted i then 1 else 0) + t.pending i ≤ s.pending i := by
  cases h with
  | stay periodic _ quiet =>
      rw [if_neg (quiet i)]
      simp only [pending, periodic]
      omega
  | create running _ _ _ _ => exact absurd running halted
  | @move j pc pc' here periodic _ arrives _ starts =>
      unfold pending
      rw [periodic]
      by_cases mine : j = i
      · subst mine
        have bound := (List.getElem?_eq_some_iff.mp here).1
        rw [List.getElem?_set_self bound, here]
        have later : ¬ some pc' = some PeriodicPc.starting :=
          fun same => halted (arrives (Option.some.inj same))
        rw [if_neg later]
        split
        · next started => rw [if_pos (congrArg some (starts j started).2.1)]
        · omega
      · have other : o ≠ .periodicStarted i := fun started => mine (starts i started).1.symm
        rw [if_neg other, List.getElem?_set_ne mine]
        omega

theorem not_started_of_exited (h : Moves opt s t o) (exited : ∀ pc ∈ s.periodic, pc = .exited)
    (i : Nat) : o ≠ .periodicStarted i := by
  cases h with
  | stay _ _ quiet => exact quiet i
  | create _ _ _ _ quiet => exact quiet i
  | move here _ _ _ _ starts =>
      intro started
      obtain ⟨_, starting, _⟩ := starts i started
      have gone := exited _ (List.mem_of_getElem? here)
      rw [starting] at gone
      cases gone

/-- No worker ends while the pool is running. -/
theorem alive (h : Moves opt s t o) (running : s.poolState = .running)
    (alive : ∀ pc ∈ s.periodic, pc ≠ .exited) : ∀ pc ∈ t.periodic, pc ≠ .exited := by
  cases h with
  | stay periodic _ _ => rw [periodic]; exact alive
  | create _ _ periodic _ _ =>
      intro pc mem
      rw [periodic, List.mem_append, List.mem_singleton] at mem
      rcases mem with mem | rfl
      · exact alive pc mem
      · nofun
  | move _ periodic _ _ exits _ =>
      intro pc mem
      rw [periodic] at mem
      rcases List.mem_or_eq_of_mem_set mem with mem | rfl
      · exact alive pc mem
      · exact fun exited => exits exited running

end Moves

/-! ## Whole runs -/

structure PeriodicInv (opt : ThreadPoolOptions) (s : Pool) : Prop where
  inv : s.Inv
  ledger : ∃ notes, Ledger notes s.tasks.tokens s.tasks.nextTask
  count : s.periodic.length = s.periodicCount
  bound : s.periodicCount ≤ opt.maxPeriodicTasks
  alive : s.poolState = .running → ∀ pc ∈ s.periodic, pc ≠ .exited
  done : ∀ c ∈ s.closers, c.phase.shutdownDone = true → s.poolState ≠ .running

theorem Step.not_running {e : PoolEvent} (h : Step opt s e t o) (inv : s.Inv)
    (halted : s.poolState ≠ .running) : t.poolState ≠ .running := by
  rcases h.poolState inv with same | ⟨running, _⟩ | ⟨_, stopped⟩
  · rw [same]; exact halted
  · exact absurd running halted
  · rw [stopped]; nofun

/-- A call is past `shutdown_graceful` only when the pool is no longer running. -/
theorem Step.done {e : PoolEvent} (h : Step opt s e t o) (inv : s.Inv)
    (done : ∀ c ∈ s.closers, c.phase.shutdownDone = true → s.poolState ≠ .running) :
    ∀ c ∈ t.closers, c.phase.shutdownDone = true → t.poolState ≠ .running := by
  have kept := h.not_running inv
  cases h with
  | put _ => exact done
  | call join _ =>
      intro c mem past
      rcases List.mem_append.mp mem with mem | mem
      · exact done c mem past
      · rw [List.mem_singleton.mp mem] at past
        cases past
  | putPeriodic hput =>
      obtain ⟨_, state, closers⟩ := (putPeriodic_put hput).frame
      rw [closers, state]
      exact done
  | task _ => exact done
  | @closer k c t o hk hc =>
      obtain ⟨_, _, phase', closers, ways⟩ := closerStep_moves hc
      intro c' mem past'
      apply kept
      rw [closers] at mem
      rcases List.mem_or_eq_of_mem_set mem with mem | rfl
      · exact done c' mem past'
      · rcases ways with ⟨_, same⟩ | ⟨_, last | halted⟩
        · exact done c (List.mem_of_getElem? hk) (same ▸ past')
        · have fact := inv.control.facts k c hk
          rw [last] at fact
          exact inv.control.not_running fact.1
        · exact halted
  | periodic step =>
      rw [step.tasks.2.1, step.tasks.2.2]
      exact done

theorem Step.shutdownReturned {e : PoolEvent} (h : Step opt s e t .shutdownReturned) :
    ∃ c ∈ t.closers, c.phase.shutdownDone = true := by
  cases h with
  | putPeriodic hput => exact absurd rfl (putPeriodic_put hput).quiet.2.2
  | @closer k c t o hk hc =>
      obtain ⟨_, _, phase', closers, ⟨other, _⟩ | ⟨done, _⟩⟩ := closerStep_moves hc
      · exact absurd rfl other
      · refine ⟨{ c with phase := phase' }, ?_, done⟩
        rw [closers]
        exact List.mem_set (List.getElem?_eq_some_iff.mp hk).1 _
  | periodic step => cases step

theorem start_periodicInv (opt : ThreadPoolOptions) :
    (start opt.setupThreads).PeriodicInv opt.setupThreads := by
  have init : (poolMachine opt).init (start opt.setupThreads) := rfl
  obtain ⟨inv, ledger⟩ := run_inv init Machine.Run.refl
  exact ⟨inv, ⟨_, ledger⟩, rfl, Nat.zero_le _, fun _ => nofun, nofun⟩

theorem PeriodicInv.step {e : PoolEvent} (h : s.PeriodicInv opt)
    (next : s.next opt e = some (t, o)) : t.PeriodicInv opt := by
  have step := next_step next
  obtain ⟨notes, ledger⟩ := h.ledger
  obtain ⟨inv, ledger⟩ := step.inv h.inv ledger
  have moves := step.moves h.inv
  obtain ⟨count, bound⟩ := moves.count h.count h.bound
  refine ⟨inv, ⟨_, ledger⟩, count, bound, ?_, step.done h.inv h.done⟩
  intro running
  have before : s.poolState = .running := by
    by_contra halted
    exact step.not_running h.inv halted running
  exact moves.alive before (h.alive before)

theorem periodicInv_of_run {s₀ : Pool} {ts : List (Transition Pool PoolEvent PoolOutput)}
    (init : (poolMachine opt).init s₀) (run : (poolMachine opt).Run s₀ ts s) :
    s.PeriodicInv opt.setupThreads := by
  refine run.invariant ?_ fun s e t o h next => h.step next
  rw [show s₀ = start opt.setupThreads from init]
  exact start_periodicInv opt

theorem PeriodicInv.halted_step {e : PoolEvent} (h : s.PeriodicInv opt)
    (halted : s.poolState ≠ .running) (next : s.next opt e = some (t, o)) :
    t.PeriodicInv opt ∧ t.poolState ≠ .running :=
  ⟨h.step next, (next_step next).not_running h.inv halted⟩

section Onward

variable {ws : List (Transition Pool PoolEvent PoolOutput)}

theorem length_of_halted_run (h : s.PeriodicInv opt.setupThreads) (halted : s.poolState ≠ .running)
    (run : (poolMachine opt).Run s ws t) : t.periodic.length = s.periodic.length := by
  have kept := run.invariant
    (I := fun v => (v.PeriodicInv opt.setupThreads ∧ v.poolState ≠ .running) ∧
      v.periodic.length = s.periodic.length) ⟨⟨h, halted⟩, rfl⟩ ?_
  · exact kept.2
  · rintro v e w o ⟨⟨inv, halted⟩, same⟩ next
    have moves := (next_step next).moves inv.inv
    exact ⟨inv.halted_step halted next, (moves.length_of_halted halted).trans same⟩

/-- The starts of a worker in a run of a pool that is not running. -/
theorem started_le_pending (h : s.PeriodicInv opt.setupThreads) (halted : s.poolState ≠ .running)
    (run : (poolMachine opt).Run s ws t) (i : Nat) :
    ws.countP (fun u => u.output = .periodicStarted i) ≤ s.pending i := by
  have paid := run.countP_le (I := fun v => v.PeriodicInv opt.setupThreads ∧ v.poolState ≠ .running)
    (p := fun u => u.output = .periodicStarted i) (μ := fun v => v.pending i) ⟨h, halted⟩ ?_
  · omega
  · rintro u ⟨inv, halted⟩ takes
    have moves := (next_step takes).moves inv.inv
    refine ⟨inv.halted_step halted takes, ?_⟩
    have pays := moves.pending_of_halted halted i
    simpa using pays

theorem pending_le_one (s : Pool) (i : Nat) : s.pending i ≤ 1 := by
  unfold pending
  split <;> omega

/-- When the pool has stopped, its workers have ended. -/
theorem not_started_of_stopped (h : s.PeriodicInv opt.setupThreads) (stopped : s.poolState = .stopped)
    (run : (poolMachine opt).Run s ws t) {u : Transition Pool PoolEvent PoolOutput} (mem : u ∈ ws)
    (i : Nat) : u.output ≠ .periodicStarted i := by
  obtain ⟨vs, _, before, takes⟩ := run.mem_prefix mem
  have kept := before.invariant
    (I := fun v => v.PeriodicInv opt.setupThreads ∧ v.poolState = .stopped) ⟨h, stopped⟩ ?_
  · obtain ⟨inv, stopped⟩ := kept
    have exited := exitedBelow_length.mp (inv.inv.control.stopped stopped).2.1
    exact ((next_step takes).moves inv.inv).not_started_of_exited exited i
  · rintro v e w o ⟨inv, stopped⟩ next
    refine ⟨inv.step next, ?_⟩
    rcases (next_step next).poolState inv.inv with same | ⟨running, _⟩ | ⟨_, stopped⟩
    · exact same.trans stopped
    · rw [stopped] at running
      cases running
    · exact stopped

end Onward

end Pool

/-- There are never more periodic workers than the options allow. After a call has come back
from `shutdown_graceful`, by itself or inside `join`, none is created and each one starts its
callback at most once, and after `join` has returned none does. A callback leads back to the
top of its loop whether it throws or not, and while the pool is running no worker has ended. -/
theorem periodic_workers_stop (opt : ThreadPoolOptions) {s₀ s : Pool}
    {ts : List (Transition Pool PoolEvent PoolOutput)} (init : (poolMachine opt).init s₀)
    (run : (poolMachine opt).Run s₀ ts s) :
    (∀ v, Machine.Visits s₀ ts v → v.periodic.length ≤ opt.setupThreads.maxPeriodicTasks) ∧
    (∀ us t ws, ts = us ++ t :: ws →
      t.output = .shutdownReturned ∨ (∃ c ∈ t.after.closers, c.phase.shutdownDone = true) →
      (∀ u ∈ ws, u.after.periodic.length = t.after.periodic.length) ∧
      ∀ i, ws.countP (fun u => u.output = .periodicStarted i) ≤ 1) ∧
    (∀ us t ws, ts = us ++ t :: ws → t.output = .joinReturned →
      ∀ u ∈ ws, ∀ i, u.output ≠ .periodicStarted i) ∧
    (∀ t ∈ ts, ∀ i throws, t.event = .periodicFinish i throws →
      t.after.periodic[i]? = some .top) ∧
    ∀ v, Machine.Visits s₀ ts v → v.poolState = .running → ∀ pc ∈ v.periodic, pc ≠ .exited := by
  refine ⟨?_, ?_, ?_, ?_, ?_⟩
  · intro v visits
    obtain ⟨us, _, before⟩ := run.visits_run visits
    have inv := Pool.periodicInv_of_run init before
    rw [inv.count]
    exact inv.bound
  · rintro us t ws rfl back
    obtain ⟨before, takes, onward⟩ := run.at
    have inv := Pool.periodicInv_of_run init (Machine.Run.snoc t before rfl takes)
    have halted : t.after.poolState ≠ .running := by
      obtain ⟨c, mem, past⟩ : ∃ c ∈ t.after.closers, c.phase.shutdownDone = true := by
        rcases back with returned | past
        · have step := Pool.next_step takes
          rw [returned] at step
          exact step.shutdownReturned
        · exact past
      exact inv.done c mem past
    constructor
    · intro u mem
      obtain ⟨vs, _, upto⟩ := onward.visits_run (.inr ⟨u, mem, rfl⟩)
      exact Pool.length_of_halted_run inv halted upto
    · intro i
      exact (Pool.started_le_pending inv halted onward i).trans (Pool.pending_le_one _ i)
  · rintro us t ws rfl returned u mem i
    obtain ⟨before, takes, onward⟩ := run.at
    have inv := Pool.periodicInv_of_run init (Machine.Run.snoc t before rfl takes)
    have step := Pool.next_step takes
    rw [returned] at step
    have stopped := step.joinReturned (Pool.periodicInv_of_run init before).inv
    exact Pool.not_started_of_stopped inv stopped onward mem i
  · intro t mem i throws finish
    obtain ⟨_, _, _, takes⟩ := run.mem_prefix mem
    unfold Machine.Takes at takes
    rw [finish] at takes
    have next : t.before.next opt.setupThreads (.periodicFinish i throws) = some (t.after, t.output) :=
      takes
    exact Pool.top_of_finish next
  · intro v visits
    obtain ⟨us, _, before⟩ := run.visits_run visits
    exact (Pool.periodicInv_of_run init before).alive

/-- Room for one periodic worker. Its callback throws once while the pool is running. The
worker has passed the second load again when the pool is shut down, so that its callback is
started once more before the worker ends. -/
def lastCallbackTrace : List PoolEvent :=
  [.putPeriodic 5, .putPeriodic 5, .periodicTop 0, .periodicLock 0, .periodicWakes 0,
    .periodicResumes .woken 0 true, .periodicCheck 0, .periodicStart 0, .periodicFinish 0 true,
    .periodicTop 0, .periodicLock 0, .periodicWakes 0, .periodicResumes .woken 0 true,
    .periodicCheck 0, .shutdownGraceful, .closer 0, .closer 0, .closer 0, .closer 0, .closer 0,
    .closer 0, .periodicStart 0, .putPeriodic 5, .periodicFinish 0 true, .periodicTop 0, .join,
    .closer 1, .closer 1, .closer 1, .closer 1, .task (.take 0), .closer 1, .closer 1, .closer 1,
    .closer 1]

def lastCallbackOptions : ThreadPoolOptions := { workersCount := 1, maxPeriodicTasks := 1 }

theorem periodic_workers_stop_last_callback :
    ∃ ts s, (poolMachine lastCallbackOptions).exec (Pool.start lastCallbackOptions.setupThreads)
        lastCallbackTrace = some (ts, s) ∧
      (ts.map (·.output)).filter (fun o => o ≠ .silent ∧ o ≠ .notes []) =
        [.periodicRefused taskRejected, .periodicStarted 0, .periodicFinished 0, .shutdownReturned,
          .periodicStarted 0, .periodicRefused threadPoolStopped, .periodicFinished 0,
          .joinReturned] ∧
      s.periodic = [.exited] ∧
      (∀ v, Machine.Visits (Pool.start lastCallbackOptions.setupThreads) ts v →
        v.periodic.length ≤ 1) ∧
      ∀ us t ws, ts = us ++ t :: ws → t.output = .shutdownReturned →
        ∀ i, ws.countP (fun u => u.output = .periodicStarted i) ≤ 1 := by
  have h : (poolMachine lastCallbackOptions).exec (Pool.start lastCallbackOptions.setupThreads)
    lastCallbackTrace = some (_, _) := rfl
  obtain ⟨bound, once, _⟩ := periodic_workers_stop lastCallbackOptions rfl (Machine.Run.of_exec h)
  refine ⟨_, _, h, rfl, rfl, bound, ?_⟩
  intro us t ws split returned
  exact (once us t ws split (.inl returned)).2

end Rtl.Stp
