import Rtl.Stp.PoolControl

/-! # Invariant of the whole pool

The invariants of the callables, of the closing calls and of the sleeping periodic
workers together, along every step. With them the ledger of the callables is kept
over whole runs, and the work that is left decreases once the queue is closed.
-/

namespace Rtl.Stp

open Rtl.Base

structure Tasks.Closes (s t : Tasks) : Prop where
  workers : t.workers = s.workers
  calls : t.calls = s.calls
  nextTask : t.nextTask = s.nextTask
  buffer : t.queue.queue.buffer = s.queue.queue.buffer
  owed : t.queue.owedNotFull = s.queue.owedNotFull
  closing : s.queue.queue.state = .closing → t.queue.queue.state = .closing
  notFull : t.queue.notFull.waiting.Perm s.queue.notFull.waiting
  notEmpty : t.queue.notEmpty.waiting.Perm s.queue.notEmpty.waiting
  notFullRank : t.queue.notFull.rank ≤ s.queue.notFull.rank
  notEmptyRank : t.queue.notEmpty.rank ≤ s.queue.notEmpty.rank

namespace Tasks.Closes

variable {s t : Tasks}

theorem same : Closes s s :=
  ⟨rfl, rfl, rfl, rfl, rfl, id, .rfl, .rfl, Nat.le_refl _, Nat.le_refl _⟩

theorem close {r : Tasks × List Note} (h : s.queueStep .close = some r) : Closes s r.1 := by
  cases h
  exact ⟨rfl, rfl, rfl, rfl, rfl, fun _ => rfl, .rfl, .rfl, Nat.le_refl _, Nat.le_refl _⟩

theorem notifyNotEmpty {r : Tasks × List Note} (h : s.queueStep .closeNotifiesNotEmpty = some r) :
    Closes s r.1 := by
  simp only [queueStep, QueueState.next, Option.map_eq_some_iff] at h
  obtain ⟨q, hq, rfl⟩ := h
  split at hq
  · cases hq
  · cases hq
    exact ⟨rfl, rfl, rfl, rfl, rfl, id, .rfl, s.queue.notEmpty.notifyAll_waiting, Nat.le_refl _,
      s.queue.notEmpty.rank_notifyAll⟩

theorem notifyNotFull {r : Tasks × List Note} (h : s.queueStep .closeNotifiesNotFull = some r) :
    Closes s r.1 := by
  simp only [queueStep, QueueState.next, Option.map_eq_some_iff] at h
  obtain ⟨q, hq, rfl⟩ := h
  split at hq
  · cases hq
  · cases hq
    exact ⟨rfl, rfl, rfl, rfl, rfl, id, s.queue.notFull.notifyAll_waiting, .rfl,
      s.queue.notFull.rank_notifyAll, Nat.le_refl _⟩

theorem inv (h : Closes s t) (inv : s.Inv) : t.Inv := by
  constructor
  · rw [h.workers]
    exact inv.takers.perm h.notEmpty
  · intro c
    rw [(h.notFull.map _).count_eq, h.calls]
    exact inv.producers c
  · intro exited
    rw [h.workers] at exited
    rw [h.buffer]
    exact ⟨h.closing (inv.drained exited).1, (inv.drained exited).2⟩
  · rw [h.calls, h.nextTask]
    exact inv.fresh
  · rw [h.calls]
    exact inv.nested

theorem effect (h : Closes s t) : Tasks.Effect s t [] := by
  refine .still ?_ h.nextTask
  simp only [tokens, h.calls, h.workers, h.buffer, producerTokens_perm h.notFull]

theorem work_le (h : Closes s t) : t.work ≤ s.work := by
  have notFull := h.notFullRank
  have notEmpty := h.notEmptyRank
  simp only [work, h.calls, h.workers, h.buffer, h.owed]
  omega

end Tasks.Closes

namespace Pool

variable {s t : Pool} {o : PoolOutput} {opt : ThreadPoolOptions}

def log : PoolOutput → List Note
  | .notes l => l
  | _ => []

def closerWeight (s : Pool) : CloserPhase → Nat
  | .lock => 11 + s.tasks.workers.length + s.periodic.length
  | .store => 10 + s.tasks.workers.length + s.periodic.length
  | .notify => 9 + s.tasks.workers.length + s.periodic.length
  | .close => 8 + s.tasks.workers.length + s.periodic.length
  | .notifyNotEmpty => 7 + s.tasks.workers.length + s.periodic.length
  | .notifyNotFull => 6 + s.tasks.workers.length + s.periodic.length
  | .joinLock => 5 + s.tasks.workers.length + s.periodic.length
  | .joinPeriodic i => 4 + s.tasks.workers.length + (s.periodic.length - i)
  | .joinActive i => 3 + (s.tasks.workers.length - i)
  | .stop => 2
  | .leave => 1
  | .returned => 0

/-- A step of the closing call `k`, which was in `phase`, as others see it. -/
structure CloserFrame (s t : Pool) (k : Nat) (c : Closer) (phase : CloserPhase) (o : PoolOutput) :
    Prop where
  closes : Tasks.Closes s.tasks t.tasks
  periodic : t.periodic = s.periodic
  waits : t.cv.waiting.Perm s.cv.waiting
  rank : t.cv.rank ≤ s.cv.rank
  quiet : log o = []
  state : t.poolState = s.poolState ∨ (phase = .store ∧ t.poolState = .stopping) ∨
    (phase = .stop ∧ t.poolState = .stopped)
  joined : o = .joinReturned → t.poolState = s.poolState ∧ (phase = .leave ∨ s.poolState = .stopped)
  later : ∃ phase', t.closers = s.closers.set k { c with phase := phase' } ∧
    s.closerWeight phase' < s.closerWeight phase

/-- Steps that leave callables, periodic workers and pool state alone. -/
theorem CloserFrame.still {k : Nat} {c : Closer} {phase phase' : CloserPhase}
    (tasks : t.tasks = s.tasks) (periodic : t.periodic = s.periodic) (cv : t.cv = s.cv)
    (state : t.poolState = s.poolState) (quiet : log o = [])
    (joined : o = .joinReturned → phase = .leave ∨ s.poolState = .stopped)
    (closers : t.closers = s.closers.set k { c with phase := phase' })
    (lt : s.closerWeight phase' < s.closerWeight phase) : CloserFrame s t k c phase o where
  closes := tasks ▸ .same
  periodic := periodic
  waits := cv ▸ .rfl
  rank := cv ▸ Nat.le_refl _
  quiet := quiet
  state := .inl state
  joined h := ⟨state, joined h⟩
  later := ⟨phase', closers, lt⟩

theorem shutdownReturns_frame (k : Nat) (c : Closer) (phase : CloserPhase)
    (closes : Tasks.Closes s.tasks t.tasks) (periodic : t.periodic = s.periodic) (cv : t.cv = s.cv)
    (state : t.poolState = s.poolState) (closers : t.closers = s.closers)
    (lt : s.closerWeight .joinLock < s.closerWeight phase) :
    CloserFrame s (t.shutdownReturns k c).1 k c phase (t.shutdownReturns k c).2 := by
  simp only [shutdownReturns]
  split
  · refine ⟨closes, periodic, cv ▸ .rfl, cv ▸ Nat.le_refl _, rfl, .inl state, ?_,
      .joinLock, by simp only [setPhase, closers], lt⟩
    intro h
    cases h
  · refine ⟨closes, periodic, cv ▸ .rfl, cv ▸ Nat.le_refl _, rfl, .inl state, ?_,
      .returned, by simp only [setPhase, closers], ?_⟩
    · intro h
      cases h
    · simp only [closerWeight] at lt ⊢
      omega

theorem closerStep_frame {k : Nat} {c : Closer} {phase : CloserPhase}
    (h : s.closerStep k c phase = some (t, o)) : CloserFrame s t k c phase o := by
  cases phase with
  | lock =>
      simp only [closerStep] at h
      split at h
      · cases h
      · split at h
        · have frame := shutdownReturns_frame (s := s) (t := s) k c .lock
            .same rfl rfl rfl rfl (by simp only [closerWeight]; omega)
          rw [Option.some.inj h] at frame
          exact frame
        · cases h
          exact .still rfl rfl rfl rfl rfl (by simp) rfl (by simp only [closerWeight]; omega)
  | store =>
      cases h
      exact ⟨.same, rfl, .rfl, Nat.le_refl _, rfl, .inr (.inl ⟨rfl, rfl⟩), by simp,
        .notify, rfl, by simp only [closerWeight]; omega⟩
  | notify =>
      cases h
      exact ⟨.same, rfl, s.cv.notifyAll_waiting, s.cv.rank_notifyAll, rfl, .inl rfl, by simp,
        .close, rfl, by simp only [closerWeight]; omega⟩
  | close =>
      simp only [closerStep, Option.map_eq_some_iff] at h
      obtain ⟨r, hr, h⟩ := h
      cases h
      exact ⟨.close hr, rfl, .rfl, Nat.le_refl _, rfl, .inl rfl, by simp,
        .notifyNotEmpty, rfl, by simp only [closerWeight]; omega⟩
  | notifyNotEmpty =>
      simp only [closerStep, Option.map_eq_some_iff] at h
      obtain ⟨r, hr, h⟩ := h
      cases h
      exact ⟨.notifyNotEmpty hr, rfl, .rfl, Nat.le_refl _, rfl, .inl rfl, by simp,
        .notifyNotFull, rfl, by simp only [closerWeight]; omega⟩
  | notifyNotFull =>
      simp only [closerStep, Option.map_eq_some_iff] at h
      obtain ⟨r, hr, h⟩ := h
      have frame := shutdownReturns_frame (s := s)
        (t := { s with tasks := r.1, mtx := none }) k c .notifyNotFull (.notifyNotFull hr) rfl rfl rfl rfl
        (by simp only [closerWeight]; omega)
      rw [h] at frame
      exact frame
  | joinLock =>
      simp only [closerStep] at h
      split at h
      · cases h
      · split at h
        · next stopped =>
            cases h
            exact .still rfl rfl rfl rfl rfl (fun _ => .inr stopped) rfl
              (by simp only [closerWeight]; omega)
        · cases h
          exact .still rfl rfl rfl rfl rfl (by simp) rfl (by simp only [closerWeight]; omega)
  | joinPeriodic i =>
      simp only [closerStep] at h
      split at h
      · simp only [Option.map_eq_some_iff] at h
        obtain ⟨flags, _, h⟩ := h
        cases h
        exact .still rfl rfl rfl rfl rfl (by simp) rfl (by simp only [closerWeight]; omega)
      · cases h
        exact .still rfl rfl rfl rfl rfl (by simp) rfl (by simp only [closerWeight]; omega)
  | joinActive i =>
      simp only [closerStep] at h
      split at h
      · simp only [Option.map_eq_some_iff] at h
        obtain ⟨flags, _, h⟩ := h
        cases h
        exact .still rfl rfl rfl rfl rfl (by simp) rfl (by simp only [closerWeight]; omega)
      · cases h
        exact .still rfl rfl rfl rfl rfl (by simp) rfl (by simp only [closerWeight]; omega)
  | stop =>
      cases h
      exact ⟨.same, rfl, .rfl, Nat.le_refl _, rfl, .inr (.inr ⟨rfl, rfl⟩), by simp,
        .leave, rfl, by simp only [closerWeight]; omega⟩
  | leave =>
      cases h
      exact .still rfl rfl rfl rfl rfl (fun _ => .inl rfl) rfl (by simp only [closerWeight]; omega)
  | returned => cases h

structure Inv (s : Pool) : Prop where
  tasks : s.tasks.Inv
  control : s.Control
  sleepers : Seated s.cv.waiting s.periodic .sleeping
  staffed : 0 < s.tasks.workers.length

theorem start_inv (opt : ThreadPoolOptions) (staffed : 0 < opt.workersCount) :
    (start opt).Inv := by
  have empty : ∀ {β : Type} (i : Nat) (x : β), ([] : List β)[i]? ≠ some x := by simp
  refine ⟨⟨⟨?_, ?_⟩, ?_, ?_, ?_, ?_⟩, ⟨⟨?_, ?_, ?_, ?_, ?_, rfl, ?_⟩, ?_, ?_, ?_, ?_, ?_⟩, ?_, ?_⟩
  · simp [start, Tasks.start, QueueState.start, CondVar.empty, CondVar.waiting]
  · intro w
    simp [start, Tasks.start, QueueState.start, CondVar.empty, CondVar.waiting,
      List.getElem?_replicate]
  · intro c
    rfl
  · intro exited
    simp [start, Tasks.start] at exited
  · intro k hk
    cases hk
  · intro k hk
    cases hk
  · intro _ closed
    cases closed
  · intro ne
    exact absurd rfl ne
  · intro stopped
    cases stopped
  · simp [start, Tasks.start]
  · intro i hi
    simp [start, List.getElem?_replicate] at hi
  · intro i hi
    exact absurd hi (empty i _)
  · intro k c hk
    exact absurd hk (empty k c)
  · intro k hk
    cases hk
  · intro k c hk
    exact absurd hk (empty k c)
  · intro k hk
    cases hk
  · intro k c hk
    exact absurd hk (empty k c)
  · intro i
    rfl
  · simpa [start, Tasks.start] using staffed

/-! ## Steps of the threads that do not close -/

/-- A step of the callables alone. -/
theorem tasks_inv {tasks : Tasks} (inv : s.Inv) (inner : tasks.Inv)
    (settles : Settles s { s with tasks := tasks }) : ({ s with tasks := tasks } : Pool).Inv where
  tasks := inner
  control := settles.control inv.control rfl rfl rfl rfl rfl
  sleepers := inv.sleepers
  staffed := settles.workers ▸ inv.staffed

theorem put_settles {tasks : Tasks} {caller : Caller} {running : Bool} {notes : List Note}
    (h : s.tasks.put caller running = some (tasks, notes)) :
    Settles s { s with tasks := tasks } := by
  simp only [Tasks.put] at h
  split at h
  · split at h <;> cases h <;> exact ⟨rfl, rfl, rfl, rfl, rfl, fun _ => id, rfl, fun _ => id⟩
  · cases h

theorem step_settles {tasks : Tasks} {notes : List Note} (inv : s.Inv)
    (h : s.tasks.Step tasks notes) : Settles s { s with tasks := tasks } := by
  obtain ⟨state, notEmpty, notFull, size⟩ := h.frame
  exact ⟨rfl, state, notEmpty, notFull, size, fun _ => h.exited inv.tasks.takers, rfl, fun _ => id⟩

/-- A periodic worker that has not exited moves on. -/
theorem setPeriodic_inv {i : Nat} {pc : PeriodicPc} {pc' : PeriodicPc} {cv : CondVar Nat}
    (inv : s.Inv) (h : s.periodic[i]? = some pc) (alive : pc ≠ .exited)
    (sleepers : Seated cv.waiting (s.periodic.set i pc') .sleeping) :
    ({ s with cv := cv }.setPeriodic i pc').Inv := by
  have settles : Settles s ({ s with cv := cv }.setPeriodic i pc') := by
    refine ⟨rfl, rfl, rfl, rfl, rfl, fun _ => id, List.length_set, ?_⟩
    intro j hj
    have differ : i ≠ j := by
      intro same
      rw [← same, h] at hj
      exact alive (Option.some.inj hj)
    exact (List.getElem?_set_ne differ).trans hj
  exact ⟨inv.tasks, settles.control inv.control rfl rfl rfl rfl rfl, sleepers, inv.staffed⟩

/-- A new closing call. -/
theorem call_inv (inv : s.Inv) (join : Bool) :
    ({ s with closers := s.closers ++ [⟨join, .lock⟩] } : Pool).Inv := by
  have ctl := inv.control
  refine ⟨inv.tasks, ⟨⟨ctl.running, ctl.closing, ctl.stopped, ctl.joinable, ctl.joined,
    ctl.periodicJoinable, ctl.periodicJoined⟩, ?_, ?_, ?_, ?_, ?_⟩, inv.sleepers, inv.staffed⟩
  · intro k c hk
    rcases concat_at.mp hk with old | ⟨rfl, rfl⟩
    · exact ctl.owner k c old
    · simp only [CloserPhase.locked, Bool.false_eq_true, iff_false]
      intro owns
      exact absurd (ctl.owned _ owns) (Nat.lt_irrefl _)
  · intro k hk
    have lt := ctl.owned k hk
    simp only [List.length_append, List.length_singleton]
    omega
  · intro k c hk
    rcases concat_at.mp hk with old | ⟨rfl, rfl⟩
    · exact ctl.joinOwner k c old
    · simp only [CloserPhase.joining, Bool.false_eq_true, iff_false]
      intro owns
      exact absurd (ctl.joinOwned _ owns) (Nat.lt_irrefl _)
  · intro k hk
    have lt := ctl.joinOwned k hk
    simp only [List.length_append, List.length_singleton]
    omega
  · intro k c hk
    rcases concat_at.mp hk with old | ⟨_, rfl⟩
    · exact ctl.facts k c old
    · trivial

/-- While the pool is running no closing call is past its store. -/
theorem Control.early (ctl : s.Control) (running : s.poolState = .running) {k : Nat} {c : Closer}
    (hk : s.closers[k]? = some c) : c.phase = .lock ∨ c.phase = .store ∨ c.phase = .returned := by
  have fact := ctl.facts k c hk
  have opened := ctl.running running
  have clash : ∀ {state : PoolState}, s.poolState = state → state = .running := by
    intro state h
    exact h.symm.trans running
  cases hp : c.phase with
  | lock => exact .inl rfl
  | store => exact .inr (.inl rfl)
  | returned => exact .inr (.inr rfl)
  | notify =>
      rw [hp] at fact
      cases clash fact.1
  | close =>
      rw [hp] at fact
      cases clash fact.1
  | leave =>
      rw [hp] at fact
      cases clash fact
  | notifyNotEmpty =>
      rw [hp] at fact
      exact absurd fact.1 opened
  | notifyNotFull =>
      rw [hp] at fact
      exact absurd fact.1 opened
  | joinLock =>
      rw [hp] at fact
      exact absurd fact opened
  | joinPeriodic i =>
      rw [hp] at fact
      exact absurd fact.1 opened
  | joinActive i =>
      rw [hp] at fact
      exact absurd fact.1 opened
  | stop =>
      rw [hp] at fact
      exact absurd fact.1 opened

inductive PeriodicPut (opt : ThreadPoolOptions) (s : Pool) : Pool → PoolOutput → Prop where
  | refused (error : ThreadPoolError) : PeriodicPut opt s s (.periodicRefused error)
  | added : s.poolState = .running → s.periodicCount < opt.maxPeriodicTasks →
      PeriodicPut opt s { s with
        periodic := s.periodic ++ [.top]
        periodicJoinable := s.periodicJoinable ++ [true]
        periodicCount := s.periodicCount + 1 } .silent

theorem putPeriodic_put {intervalMs : Nat} (h : s.putPeriodic opt intervalMs = some (t, o)) :
    PeriodicPut opt s t o := by
  simp only [putPeriodic] at h
  split at h
  · cases h
  · split at h
    · cases h
      exact .refused threadPoolStopped
    · next running =>
        split at h
        · cases h
          exact .refused taskRejected
        · next room =>
            split at h
            · cases h
              exact .refused taskRejected
            · cases h
              exact .added (by simpa using running) (Nat.lt_of_not_le room)

theorem PeriodicPut.inv (h : PeriodicPut opt s t o) (inv : s.Inv) : t.Inv := by
  cases h with
  | refused _ => exact inv
  | added running _ =>
      have ctl := inv.control
      refine ⟨inv.tasks, ⟨⟨ctl.running, ctl.closing, ?_, ctl.joinable, ctl.joined, ?_, ?_⟩,
        ctl.owner, ctl.owned, ctl.joinOwner, ctl.joinOwned, ?_⟩, ?_, inv.staffed⟩
      · intro stopped
        have clash : PoolState.running = .stopped := running.symm.trans stopped
        cases clash
      · simpa using ctl.periodicJoinable
      · intro i hi
        rcases concat_at.mp hi with old | ⟨_, clash⟩
        · exact concat_at.mpr (.inl (ctl.periodicJoined i old))
        · cases clash
      · intro k c hk
        rcases ctl.early running hk with phase | phase | phase
        · rw [phase]
          trivial
        · rw [phase]
          exact running
        · rw [phase]
          trivial
      · exact inv.sleepers.concat (by decide)

theorem PeriodicPut.frame (h : PeriodicPut opt s t o) :
    t.tasks = s.tasks ∧ t.poolState = s.poolState ∧ t.closers = s.closers := by
  cases h <;> exact ⟨rfl, rfl, rfl⟩

/-- Nothing is written about callables, and no closing call comes back. -/
theorem PeriodicPut.quiet (h : PeriodicPut opt s t o) :
    log o = [] ∧ o ≠ .joinReturned ∧ o ≠ .shutdownReturned := by
  cases h <;> exact ⟨rfl, by simp, by simp⟩

theorem closer_inv {k : Nat} {c : Closer} (inv : s.Inv) (hk : s.closers[k]? = some c)
    (h : s.closerStep k c c.phase = some (t, o)) : t.Inv := by
  have frame := closerStep_frame h
  refine ⟨frame.closes.inv inv.tasks, closerStep_control inv.control hk h, ?_, ?_⟩
  · rw [frame.periodic]
    exact inv.sleepers.perm frame.waits
  · rw [frame.closes.workers]
    exact inv.staffed

/-! ## Steps of periodic workers -/

inductive PeriodicStep (s : Pool) : Pool → PoolOutput → Prop where
  | load {i : Nat} {pc pc' : PeriodicPc} : s.periodic[i]? = some pc →
      (pc = .top ∧ pc' = .locking ∨ pc = .checking ∧ pc' = .starting) →
      s.poolState = .running → PeriodicStep s (s.setPeriodic i pc') .silent
  | exit {i : Nat} {pc : PeriodicPc} : s.periodic[i]? = some pc → (pc = .top ∨ pc = .checking) →
      s.poolState ≠ .running → PeriodicStep s (s.setPeriodic i .exited) .silent
  | ready {i : Nat} : s.periodic[i]? = some .locking →
      PeriodicStep s (s.setPeriodic i .checking) .silent
  | sleep {i : Nat} : s.periodic[i]? = some .locking → s.poolState ≠ .stopping →
      PeriodicStep s ({ s with cv := s.cv.park i }.setPeriodic i .sleeping) .silent
  | wakes {k : Nat} {cv : CondVar Nat} : s.cv.wake k = some cv →
      PeriodicStep s { s with cv := cv } .silent
  | resumes {cause : Cause} {k i : Nat} {cv : CondVar Nat} : s.cv.resume cause k = some (i, cv) →
      PeriodicStep s ({ s with cv := cv }.setPeriodic i .checking) .silent
  | again {cause : Cause} {k i : Nat} {cv : CondVar Nat} : s.cv.resume cause k = some (i, cv) →
      s.poolState ≠ .stopping → PeriodicStep s { s with cv := cv.park i } .silent
  | start {i : Nat} : s.periodic[i]? = some .starting →
      PeriodicStep s (s.setPeriodic i .invoking) (.periodicStarted i)
  | finish {i : Nat} : s.periodic[i]? = some .invoking →
      PeriodicStep s (s.setPeriodic i .top) (.periodicFinished i)

theorem PeriodicStep.inv (h : s.PeriodicStep t o) (inv : s.Inv) : t.Inv := by
  cases h with
  | load here ways running =>
      rcases ways with ⟨rfl, rfl⟩ | ⟨rfl, rfl⟩
      · exact setPeriodic_inv inv here (by decide) (inv.sleepers.set here (by decide) (by decide))
      · exact setPeriodic_inv inv here (by decide) (inv.sleepers.set here (by decide) (by decide))
  | exit here ways _ =>
      rcases ways with rfl | rfl
      · exact setPeriodic_inv inv here (by decide) (inv.sleepers.set here (by decide) (by decide))
      · exact setPeriodic_inv inv here (by decide) (inv.sleepers.set here (by decide) (by decide))
  | ready here =>
      exact setPeriodic_inv inv here (by decide) (inv.sleepers.set here (by decide) (by decide))
  | sleep here _ =>
      exact setPeriodic_inv inv here (by decide)
        (inv.sleepers.sit here (by decide) (s.cv.park_waiting _))
  | @wakes k cv hw =>
      have settles : Settles s { s with cv := cv } :=
        ⟨rfl, rfl, rfl, rfl, rfl, fun _ => id, rfl, fun _ => id⟩
      exact ⟨inv.tasks, settles.control inv.control rfl rfl rfl rfl rfl,
        inv.sleepers.perm (CondVar.wake_waiting hw), inv.staffed⟩
  | resumes hr =>
      have leaves := (CondVar.resume_spec hr).2.1
      have asleep := inv.sleepers.pc_of_mem (leaves.mem_iff.mpr (List.mem_cons_self ..))
      exact setPeriodic_inv inv asleep (by decide) (inv.sleepers.rise leaves (by decide))
  | @again cause k i cv hr _ =>
      have leaves := (CondVar.resume_spec hr).2.1
      have settles : Settles s { s with cv := cv.park i } :=
        ⟨rfl, rfl, rfl, rfl, rfl, fun _ => id, rfl, fun _ => id⟩
      exact ⟨inv.tasks, settles.control inv.control rfl rfl rfl rfl rfl,
        inv.sleepers.perm ((cv.park_waiting i).trans leaves.symm), inv.staffed⟩
  | start here =>
      exact setPeriodic_inv inv here (by decide) (inv.sleepers.set here (by decide) (by decide))
  | finish here =>
      exact setPeriodic_inv inv here (by decide) (inv.sleepers.set here (by decide) (by decide))

theorem PeriodicStep.tasks (h : s.PeriodicStep t o) :
    t.tasks = s.tasks ∧ t.poolState = s.poolState ∧ t.closers = s.closers := by
  cases h <;> exact ⟨rfl, rfl, rfl⟩

/-- Periodic workers write nothing about callables, and no call of `join` returns. -/
theorem PeriodicStep.quiet (h : s.PeriodicStep t o) : log o = [] ∧ o ≠ .joinReturned := by
  cases h <;> exact ⟨rfl, nofun⟩

/-! ## Every step -/

inductive Step (opt : ThreadPoolOptions) (s : Pool) : PoolEvent → Pool → PoolOutput → Prop where
  | put {caller : Caller} {tasks : Tasks} {notes : List Note} :
      s.tasks.put caller (s.poolState = .running) = some (tasks, notes) →
      Step opt s (.put caller) { s with tasks := tasks } (.notes notes)
  | call {e : PoolEvent} (join : Bool) : e.isCall = true →
      Step opt s e { s with closers := s.closers ++ [⟨join, .lock⟩] } .silent
  | putPeriodic {intervalMs : Nat} {t : Pool} {o : PoolOutput} :
      s.putPeriodic opt intervalMs = some (t, o) → Step opt s (.putPeriodic intervalMs) t o
  | task {e : TaskEvent} {tasks : Tasks} {notes : List Note} :
      s.tasks.next opt.rejectionPolicy e = some (tasks, notes) →
      Step opt s (.task e) { s with tasks := tasks } (.notes notes)
  | closer {k : Nat} {c : Closer} {t : Pool} {o : PoolOutput} : s.closers[k]? = some c →
      s.closerStep k c c.phase = some (t, o) → Step opt s (.closer k) t o
  | periodic {e : PoolEvent} {t : Pool} {o : PoolOutput} : s.PeriodicStep t o → Step opt s e t o

theorem next_step {e : PoolEvent} (h : s.next opt e = some (t, o)) : Step opt s e t o := by
  cases e with
  | put caller =>
      simp only [next] at h
      split at h
      · simp only [Option.map_eq_some_iff] at h
        obtain ⟨⟨tasks, l⟩, hput, h⟩ := h
        cases h
        exact .put hput
      · cases h
  | shutdownGraceful =>
      cases h
      exact .call false rfl
  | join =>
      cases h
      exact .call true rfl
  | putPeriodic intervalMs => exact .putPeriodic h
  | task e =>
      simp only [next, Option.map_eq_some_iff] at h
      obtain ⟨⟨tasks, l⟩, hnext, h⟩ := h
      cases h
      exact .task hnext
  | closer k =>
      simp only [next] at h
      cases hk : s.closers[k]? with
      | none => simp [hk] at h
      | some c =>
          simp only [hk] at h
          exact .closer hk h
  | periodicTop i =>
      simp only [next, afterLoad] at h
      split at h
      · next top =>
          cases h
          split
          · next halted => exact .periodic (.exit top (.inl rfl) halted)
          · next running => exact .periodic (.load top (.inl ⟨rfl, rfl⟩) (by simpa using running))
      · cases h
  | periodicLock i =>
      simp only [next] at h
      split at h
      · next locking =>
          split at h
          · cases h
            exact .periodic (.ready locking.1)
          · next unstopping =>
              cases h
              exact .periodic (.sleep locking.1 unstopping)
      · cases h
  | periodicWakes k =>
      simp only [next, Option.map_eq_some_iff] at h
      obtain ⟨cv, hw, h⟩ := h
      cases h
      exact .periodic (.wakes hw)
  | periodicResumes cause k timedOut =>
      simp only [next] at h
      split at h
      · cases h
      · cases hr : s.cv.resume cause k with
        | none => simp [hr] at h
        | some r =>
            simp only [hr] at h
            split at h
            · cases h
              exact .periodic (.resumes hr)
            · next stay =>
                cases h
                exact .periodic (.again hr fun stopping => stay (.inl stopping))
  | periodicCheck i =>
      simp only [next, afterLoad] at h
      split at h
      · next checking =>
          cases h
          split
          · next halted => exact .periodic (.exit checking (.inr rfl) halted)
          · next running =>
              exact .periodic (.load checking (.inr ⟨rfl, rfl⟩) (by simpa using running))
      · cases h
  | periodicStart i =>
      simp only [next] at h
      split at h
      · next starting =>
          cases h
          exact .periodic (.start starting)
      · cases h
  | periodicFinish i throws =>
      simp only [next] at h
      split at h
      · next invoking =>
          cases h
          exact .periodic (.finish invoking.1)
      · cases h

/-- One step keeps the invariant and the ledger of the callables. -/
theorem Step.inv {e : PoolEvent} {notes : List Note} (h : Step opt s e t o) (inv : s.Inv)
    (ledger : Ledger notes s.tasks.tokens s.tasks.nextTask) :
    t.Inv ∧ Ledger (notes ++ log o) t.tasks.tokens t.tasks.nextTask := by
  cases h with
  | put hput =>
      have inner := Tasks.put_inv inv.tasks ledger.fresh hput
      exact ⟨tasks_inv inv inner (put_settles hput), ledger.step (Tasks.put_effect hput)⟩
  | call join _ => exact ⟨call_inv inv join, (List.append_nil notes).symm ▸ ledger⟩
  | putPeriodic hput =>
      have put := putPeriodic_put hput
      rw [put.quiet.1, List.append_nil, put.frame.1]
      exact ⟨put.inv inv, ledger⟩
  | task hnext =>
      have step := Tasks.next_step inv.tasks.takers.tryTakers hnext
      exact ⟨tasks_inv inv (step.inv inv.tasks) (step_settles inv step),
        ledger.step (step.effect inv.tasks.takers)⟩
  | closer hk hc =>
      have frame := closerStep_frame hc
      have kept := ledger.step frame.closes.effect
      rw [frame.quiet]
      exact ⟨closer_inv inv hk hc, kept⟩
  | periodic step =>
      rw [step.quiet.1, List.append_nil, step.tasks.1]
      exact ⟨step.inv inv, ledger⟩

/-- The pool state only moves forward, one level at a time. -/
theorem Step.poolState {e : PoolEvent} (h : Step opt s e t o) (inv : s.Inv) :
    t.poolState = s.poolState ∨ (s.poolState = .running ∧ t.poolState = .stopping) ∨
      (s.poolState = .stopping ∧ t.poolState = .stopped) := by
  cases h with
  | put _ => exact .inl rfl
  | call _ _ => exact .inl rfl
  | putPeriodic hput => exact .inl (putPeriodic_put hput).frame.2.1
  | task _ => exact .inl rfl
  | @closer k c t o hk hc =>
      have fact := inv.control.facts k c hk
      rcases (closerStep_frame hc).state with same | ⟨phase, after⟩ | ⟨phase, after⟩
      · exact .inl same
      · rw [phase] at fact
        exact .inr (.inl ⟨fact, after⟩)
      · rw [phase] at fact
        exact .inr (.inr ⟨fact.2.1, after⟩)
  | periodic step => exact .inl step.tasks.2.1

/-- A `join` returns in the state stopped. -/
theorem Step.joinReturned {e : PoolEvent} (h : Step opt s e t .joinReturned) (inv : s.Inv) :
    t.poolState = .stopped := by
  cases h with
  | putPeriodic hput => exact absurd rfl (putPeriodic_put hput).quiet.2.1
  | @closer k c t o hk hc =>
      have fact := inv.control.facts k c hk
      obtain ⟨same, phase | stopped⟩ := (closerStep_frame hc).joined rfl
      · rw [phase] at fact
        exact same.trans fact
      · exact same.trans stopped
  | periodic step => exact absurd rfl step.quiet.2

end Pool

end Rtl.Stp
