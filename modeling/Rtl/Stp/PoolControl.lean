import Rtl.Stp.TaskProgress
import Rtl.Stp.ThreadPool

/-! # Control of the pool: states, mutexes, closing calls

The pool state moves from running over stopping to stopped. Between the store of
`stopping` and the closing of the queue the caller holds `m_mtx`; the store of
`stopped` comes after every thread was joined, under `m_joinMtx`. What a closing
call may rely on is written down per phase, and no step of another thread takes
it away.
-/

namespace Rtl.Stp

open Rtl.Base

def ExitedBelow {β : Type*} (pcs : List β) (exited : β) (n : Nat) : Prop :=
  ∀ i < n, pcs[i]? = some exited

def CloserPhase.locked : CloserPhase → Bool
  | .store => true
  | .notify => true
  | .close => true
  | .notifyNotEmpty => true
  | .notifyNotFull => true
  | _ => false

def CloserPhase.joining : CloserPhase → Bool
  | .joinPeriodic _ => true
  | .joinActive _ => true
  | .stop => true
  | .leave => true
  | _ => false

namespace Pool

def closed (s : Pool) : Prop := s.tasks.queue.queue.state = .closing

/-- What a closing call knows in each of its phases. -/
def Fact (s : Pool) : CloserPhase → Prop
  | .lock => True
  | .store => s.poolState = .running
  | .notify => s.poolState = .stopping ∧ ¬ s.closed
  | .close => s.poolState = .stopping ∧ ¬ s.closed
  | .notifyNotEmpty => s.closed ∧ s.tasks.queue.closingNotEmpty ≠ 0
  | .notifyNotFull => s.closed ∧ s.tasks.queue.closingNotFull ≠ 0
  | .joinLock => s.closed
  | .joinPeriodic i => s.closed ∧ s.poolState = .stopping ∧ ExitedBelow s.periodic .exited i
  | .joinActive i => s.closed ∧ s.poolState = .stopping ∧
      ExitedBelow s.periodic .exited s.periodic.length ∧ ExitedBelow s.tasks.workers .exited i
  | .stop => s.closed ∧ s.poolState = .stopping ∧
      ExitedBelow s.periodic .exited s.periodic.length ∧
      ExitedBelow s.tasks.workers .exited s.tasks.workers.length
  | .leave => s.poolState = .stopped
  | .returned => True

/-- The pool state against the queue and the threads. -/
structure Levels (s : Pool) : Prop where
  running : s.poolState = .running → ¬ s.closed
  closing : s.poolState ≠ .running → s.mtx = none → s.closed
  stopped : s.poolState = .stopped → s.closed ∧
    ExitedBelow s.periodic .exited s.periodic.length ∧
    ExitedBelow s.tasks.workers .exited s.tasks.workers.length
  joinable : s.joinable.length = s.tasks.workers.length
  joined : ∀ i : Nat, s.joinable[i]? = some false → s.tasks.workers[i]? = some .exited
  periodicJoinable : s.periodicJoinable.length = s.periodic.length
  periodicJoined : ∀ i : Nat, s.periodicJoinable[i]? = some false → s.periodic[i]? = some .exited

structure Control (s : Pool) : Prop extends Levels s where
  owner : ∀ (k : Nat) (c : Closer), s.closers[k]? = some c →
    (s.mtx = some k ↔ c.phase.locked = true)
  owned : ∀ k, s.mtx = some k → k < s.closers.length
  joinOwner : ∀ (k : Nat) (c : Closer), s.closers[k]? = some c →
    (s.joinMtx = some k ↔ c.phase.joining = true)
  joinOwned : ∀ k, s.joinMtx = some k → k < s.closers.length
  facts : ∀ (k : Nat) (c : Closer), s.closers[k]? = some c → s.Fact c.phase

variable {s t : Pool}

theorem Control.not_running (ctl : s.Control) (closed : s.closed) : s.poolState ≠ .running :=
  fun running => ctl.running running closed

/-- Threads may exit and callables may move; everything a closing call relies on
stays as it is. -/
structure Settles (s t : Pool) : Prop where
  poolState : t.poolState = s.poolState
  queueState : t.tasks.queue.queue.state = s.tasks.queue.queue.state
  closingNotEmpty : t.tasks.queue.closingNotEmpty = s.tasks.queue.closingNotEmpty
  closingNotFull : t.tasks.queue.closingNotFull = s.tasks.queue.closingNotFull
  workers : t.tasks.workers.length = s.tasks.workers.length
  exited : ∀ i : Nat, s.tasks.workers[i]? = some .exited → t.tasks.workers[i]? = some .exited
  periodic : t.periodic.length = s.periodic.length
  periodicExited : ∀ i : Nat, s.periodic[i]? = some .exited → t.periodic[i]? = some .exited

theorem Settles.closed_iff (h : Settles s t) : t.closed ↔ s.closed := by
  unfold closed
  rw [h.queueState]

theorem Settles.workersBelow (h : Settles s t) {n : Nat}
    (below : ExitedBelow s.tasks.workers .exited n) : ExitedBelow t.tasks.workers .exited n :=
  fun i hi => h.exited i (below i hi)

theorem Settles.periodicBelow (h : Settles s t) {n : Nat}
    (below : ExitedBelow s.periodic .exited n) : ExitedBelow t.periodic .exited n :=
  fun i hi => h.periodicExited i (below i hi)

theorem Settles.fact (h : Settles s t) {phase : CloserPhase} (fact : s.Fact phase) :
    t.Fact phase := by
  cases phase with
  | lock => trivial
  | store => exact h.poolState.trans fact
  | notify => exact ⟨h.poolState.trans fact.1, fun c => fact.2 (h.closed_iff.mp c)⟩
  | close => exact ⟨h.poolState.trans fact.1, fun c => fact.2 (h.closed_iff.mp c)⟩
  | notifyNotEmpty => exact ⟨h.closed_iff.mpr fact.1, h.closingNotEmpty ▸ fact.2⟩
  | notifyNotFull => exact ⟨h.closed_iff.mpr fact.1, h.closingNotFull ▸ fact.2⟩
  | joinLock => exact h.closed_iff.mpr fact
  | joinPeriodic i =>
      exact ⟨h.closed_iff.mpr fact.1, h.poolState.trans fact.2.1, h.periodicBelow fact.2.2⟩
  | joinActive i =>
      refine ⟨h.closed_iff.mpr fact.1, h.poolState.trans fact.2.1, ?_, h.workersBelow fact.2.2.2⟩
      rw [h.periodic]
      exact h.periodicBelow fact.2.2.1
  | stop =>
      refine ⟨h.closed_iff.mpr fact.1, h.poolState.trans fact.2.1, ?_, ?_⟩
      · rw [h.periodic]
        exact h.periodicBelow fact.2.2.1
      · rw [h.workers]
        exact h.workersBelow fact.2.2.2
  | leave => exact h.poolState.trans fact
  | returned => trivial

/-- A step of a thread that is no closing call. -/
theorem Settles.control (h : Settles s t) (ctl : s.Control) (mtx : t.mtx = s.mtx)
    (joinMtx : t.joinMtx = s.joinMtx) (closers : t.closers = s.closers)
    (joinable : t.joinable = s.joinable) (periodicJoinable : t.periodicJoinable = s.periodicJoinable) :
    t.Control where
  running hr := fun c => ctl.running (h.poolState ▸ hr) (h.closed_iff.mp c)
  closing hs hm := h.closed_iff.mpr (ctl.closing (h.poolState ▸ hs) (mtx ▸ hm))
  stopped hs := by
    obtain ⟨closed, periodic, workers⟩ := ctl.stopped (h.poolState ▸ hs)
    rw [h.periodic, h.workers]
    exact ⟨h.closed_iff.mpr closed, h.periodicBelow periodic, h.workersBelow workers⟩
  owner k c hk := by
    rw [mtx]
    exact ctl.owner k c (closers ▸ hk)
  owned k hk := by
    rw [closers]
    exact ctl.owned k (mtx ▸ hk)
  joinOwner k c hk := by
    rw [joinMtx]
    exact ctl.joinOwner k c (closers ▸ hk)
  joinOwned k hk := by
    rw [closers]
    exact ctl.joinOwned k (joinMtx ▸ hk)
  facts k c hk := h.fact (ctl.facts k c (closers ▸ hk))
  joinable := by
    rw [joinable, h.workers]
    exact ctl.joinable
  joined i hi := h.exited i (ctl.joined i (joinable ▸ hi))
  periodicJoinable := by
    rw [periodicJoinable, h.periodic]
    exact ctl.periodicJoinable
  periodicJoined i hi := h.periodicExited i (ctl.periodicJoined i (periodicJoinable ▸ hi))

/-! ## Steps of closing calls -/

section Closers

variable {k : Nat} {c : Closer} {phase : CloserPhase}

/-- Closing call `k` goes to its next phase after `s` has become `t`. -/
theorem Control.advance (ctl : s.Control) (hk : s.closers[k]? = some c)
    (closers : t.closers = s.closers) (levels : t.Levels)
    (mine : t.mtx = some k ↔ phase.locked = true)
    (theirs : ∀ j, j ≠ k → (t.mtx = some j ↔ s.mtx = some j))
    (joinMine : t.joinMtx = some k ↔ phase.joining = true)
    (joinTheirs : ∀ j, j ≠ k → (t.joinMtx = some j ↔ s.joinMtx = some j))
    (fact : t.Fact phase)
    (facts : ∀ (j : Nat) (d : Closer), j ≠ k → s.closers[j]? = some d → t.Fact d.phase) :
    (t.setPhase k c phase).Control := by
  have bound : k < s.closers.length := (List.getElem?_eq_some_iff.mp hk).1
  have entries : ∀ (j : Nat) (d : Closer), (t.setPhase k c phase).closers[j]? = some d →
      (j = k ∧ d.phase = phase) ∨ (j ≠ k ∧ s.closers[j]? = some d) := by
    intro j d hj
    simp only [setPhase, closers] at hj
    by_cases same : k = j
    · subst same
      rw [set_at hk] at hj
      cases hj
      exact .inl ⟨rfl, rfl⟩
    · rw [List.getElem?_set_ne same] at hj
      exact .inr ⟨Ne.symm same, hj⟩
  have size : (t.setPhase k c phase).closers.length = s.closers.length := by
    simp [setPhase, closers]
  refine ⟨⟨levels.running, levels.closing, levels.stopped, levels.joinable, levels.joined,
    levels.periodicJoinable, levels.periodicJoined⟩, ?_, ?_, ?_, ?_, ?_⟩
  · intro j d hj
    rcases entries j d hj with ⟨rfl, hp⟩ | ⟨ne, old⟩
    · rw [hp]
      exact mine
    · exact (theirs j ne).trans (ctl.owner j d old)
  · intro j hj
    rw [size]
    by_cases same : j = k
    · rw [same]
      exact bound
    · exact ctl.owned j ((theirs j same).mp hj)
  · intro j d hj
    rcases entries j d hj with ⟨rfl, hp⟩ | ⟨ne, old⟩
    · rw [hp]
      exact joinMine
    · exact (joinTheirs j ne).trans (ctl.joinOwner j d old)
  · intro j hj
    rw [size]
    by_cases same : j = k
    · rw [same]
      exact bound
    · exact ctl.joinOwned j ((joinTheirs j same).mp hj)
  · intro j d hj
    rcases entries j d hj with ⟨_, hp⟩ | ⟨ne, old⟩
    · rw [hp]
      exact fact
    · exact facts j d ne old

/-- A phase change in which the closing call only looks at the state. -/
theorem Control.look (ctl : s.Control) (hk : s.closers[k]? = some c)
    (locked : c.phase.locked = phase.locked) (joining : c.phase.joining = phase.joining)
    (fact : s.Fact phase) : (s.setPhase k c phase).Control := by
  refine ctl.advance hk rfl ctl.toLevels ?_ (fun _ _ => Iff.rfl) ?_ (fun _ _ => Iff.rfl) fact ?_
  · rw [← locked]
    exact ctl.owner k c hk
  · rw [← joining]
    exact ctl.joinOwner k c hk
  · intro j d _ hj
    exact ctl.facts j d hj

/-- While `k` holds `m_mtx`, no other closing call is between lock and unlock. -/
theorem Control.alone (ctl : s.Control) (mine : s.mtx = some k) {j : Nat} {d : Closer}
    (ne : j ≠ k) (hj : s.closers[j]? = some d) : d.phase.locked = false := by
  rw [Bool.eq_false_iff]
  intro locked
  have theirs := (ctl.owner j d hj).mpr locked
  rw [mine] at theirs
  exact ne (Option.some.inj theirs).symm

theorem Control.joinAlone (ctl : s.Control) (mine : s.joinMtx = some k) {j : Nat} {d : Closer}
    (ne : j ≠ k) (hj : s.closers[j]? = some d) : d.phase.joining = false := by
  rw [Bool.eq_false_iff]
  intro joining
  have theirs := (ctl.joinOwner j d hj).mpr joining
  rw [mine] at theirs
  exact ne (Option.some.inj theirs).symm

/-- A fact of a phase outside `m_mtx` needs nothing of the notifications. -/
theorem Fact.outside {phase : CloserPhase} (fact : s.Fact phase) (free : phase.locked = false)
    (closed : s.closed → t.closed) (state : t.poolState = s.poolState)
    (workers : t.tasks.workers = s.tasks.workers) (periodic : t.periodic = s.periodic) :
    t.Fact phase := by
  cases phase with
  | lock => trivial
  | store => cases free
  | notify => cases free
  | close => cases free
  | notifyNotEmpty => cases free
  | notifyNotFull => cases free
  | joinLock => exact closed fact
  | joinPeriodic i =>
      simp only [Fact, state, periodic]
      exact ⟨closed fact.1, fact.2⟩
  | joinActive i =>
      simp only [Fact, state, periodic, workers]
      exact ⟨closed fact.1, fact.2⟩
  | stop =>
      simp only [Fact, state, periodic, workers]
      exact ⟨closed fact.1, fact.2⟩
  | leave => exact state.trans fact
  | returned => trivial

theorem shutdownReturns_control (ctl : s.Control) (hk : s.closers[k]? = some c)
    (closers : t.closers = s.closers) (levels : t.Levels) (mine : t.mtx ≠ some k)
    (theirs : ∀ j, j ≠ k → (t.mtx = some j ↔ s.mtx = some j))
    (joinMtx : t.joinMtx = s.joinMtx) (free : c.phase.joining = false) (closed : t.closed)
    (facts : ∀ (j : Nat) (d : Closer), j ≠ k → s.closers[j]? = some d → t.Fact d.phase) :
    (t.shutdownReturns k c).1.Control := by
  have joinMine : t.joinMtx ≠ some k := by
    rw [joinMtx]
    intro h
    rw [(ctl.joinOwner k c hk).mp h] at free
    cases free
  simp only [shutdownReturns]
  split
  · refine ctl.advance hk closers levels ?_ theirs ?_ ?_ closed facts
    · simp [CloserPhase.locked, mine]
    · simp [CloserPhase.joining, joinMine]
    · intro j _
      rw [joinMtx]
  · refine ctl.advance hk closers levels ?_ theirs ?_ ?_ trivial facts
    · simp [CloserPhase.locked, mine]
    · simp [CloserPhase.joining, joinMine]
    · intro j _
      rw [joinMtx]

/-- Joining thread `i` waits for it, unless it was joined before. -/
theorem joinThread_spec {β : Type*} [DecidableEq β] {flags flags' : List Bool} {pcs : List β}
    {exited : β} {i : Nat} (bound : i < pcs.length) (size : flags.length = pcs.length)
    (joined : ∀ j : Nat, flags[j]? = some false → pcs[j]? = some exited)
    (h : joinThread flags i (pcs[i]? == some exited) = some flags') :
    pcs[i]? = some exited ∧ flags'.length = pcs.length ∧
      ∀ j : Nat, flags'[j]? = some false → pcs[j]? = some exited := by
  simp only [joinThread] at h
  by_cases flag : flags[i]? = some true
  · rw [if_pos flag] at h
    split at h
    · next out =>
        cases h
        have gone : pcs[i]? = some exited := by simpa using out
        refine ⟨gone, by simpa using size, ?_⟩
        intro j hj
        by_cases same : i = j
        · exact same ▸ gone
        · rw [List.getElem?_set_ne same] at hj
          exact joined j hj
    · cases h
  · rw [if_neg flag] at h
    cases h
    refine ⟨?_, size, joined⟩
    have inside : i < flags.length := by omega
    rw [List.getElem?_eq_getElem inside] at flag
    apply joined
    rw [List.getElem?_eq_getElem inside]
    cases hf : flags[i] with
    | true => exact absurd (by rw [hf]) flag
    | false => rfl

theorem exitedBelow_succ {β : Type*} {pcs : List β} {exited : β} {n : Nat}
    (below : ExitedBelow pcs exited n) (h : pcs[n]? = some exited) :
    ExitedBelow pcs exited (n + 1) := by
  intro i hi
  by_cases last : i = n
  · rw [last]
    exact h
  · exact below i (by omega)

variable {o : PoolOutput} (ctl : s.Control) (hk : s.closers[k]? = some c)

include ctl hk

theorem lock_control (hp : c.phase = .lock) (h : s.closerStep k c .lock = some (t, o)) :
    t.Control := by
  have free : s.mtx ≠ some k := by
    simp [ctl.owner k c hk, hp, CloserPhase.locked]
  simp only [closerStep, ne_eq, ite_not] at h
  split at h
  · next unlocked =>
      split at h
      · next running =>
          cases h
          refine ctl.advance hk rfl ⟨ctl.running, ?_, ctl.stopped, ctl.joinable, ctl.joined,
            ctl.periodicJoinable, ctl.periodicJoined⟩ ?_ ?_ ?_ (fun _ _ => Iff.rfl) running ?_
          · intro _ clash
            cases clash
          · simp [CloserPhase.locked]
          · intro j ne
            simp [unlocked, Ne.symm ne]
          · rw [ctl.joinOwner k c hk, hp]
            rfl
          · intro j d _ hj
            exact ctl.facts j d hj
      · next stopping =>
          have control := shutdownReturns_control ctl hk rfl ctl.toLevels free
            (fun _ _ => Iff.rfl) rfl (by rw [hp]; rfl) (ctl.closing stopping unlocked)
            fun j d _ hj => ctl.facts j d hj
          rw [Option.some.inj h] at control
          exact control
  · cases h

/-- After `stopping` is stored nobody can have been past `shutdown_graceful`. -/
theorem store_control (hp : c.phase = .store) (h : s.closerStep k c .store = some (t, o)) :
    t.Control := by
  have mine : s.mtx = some k := (ctl.owner k c hk).mpr (by rw [hp]; rfl)
  have running : s.poolState = .running := by
    have fact := ctl.facts k c hk
    rw [hp] at fact
    exact fact
  have opened := ctl.running running
  cases h
  refine ctl.advance hk rfl ⟨?_, ?_, ?_, ctl.joinable, ctl.joined, ctl.periodicJoinable,
    ctl.periodicJoined⟩ ?_ (fun _ _ => Iff.rfl) ?_ (fun _ _ => Iff.rfl) ⟨rfl, opened⟩ ?_
  · intro hs
    cases hs
  · intro _ unlocked
    have clash : some k = none := mine.symm.trans unlocked
    cases clash
  · intro hs
    cases hs
  · simp [CloserPhase.locked, mine]
  · rw [ctl.joinOwner k c hk, hp]
    rfl
  · intro j d ne hj
    have theirs := ctl.facts j d hj
    have free := ctl.alone mine ne hj
    generalize d.phase = phase at theirs free ⊢
    cases phase with
    | lock => trivial
    | joinLock => exact absurd theirs opened
    | joinPeriodic i => exact absurd theirs.1 opened
    | joinActive i => exact absurd theirs.1 opened
    | stop => exact absurd theirs.1 opened
    | leave => exact absurd (ctl.stopped theirs).1 opened
    | returned => trivial
    | store => cases free
    | notify => cases free
    | close => cases free
    | notifyNotEmpty => cases free
    | notifyNotFull => cases free

theorem notify_control (hp : c.phase = .notify) (h : s.closerStep k c .notify = some (t, o)) :
    t.Control := by
  have fact := ctl.facts k c hk
  rw [hp] at fact
  cases h
  refine ctl.advance hk rfl ⟨ctl.running, ctl.closing, ctl.stopped, ctl.joinable, ctl.joined,
    ctl.periodicJoinable, ctl.periodicJoined⟩ ?_ (fun _ _ => Iff.rfl) ?_ (fun _ _ => Iff.rfl) fact ?_
  · rw [ctl.owner k c hk, hp]
    rfl
  · rw [ctl.joinOwner k c hk, hp]
    rfl
  · intro j d _ hj
    exact ctl.facts j d hj

theorem close_control (hp : c.phase = .close) (h : s.closerStep k c .close = some (t, o)) :
    t.Control := by
  have mine : s.mtx = some k := (ctl.owner k c hk).mpr (by rw [hp]; rfl)
  have fact := ctl.facts k c hk
  rw [hp] at fact
  cases h
  refine ctl.advance hk rfl ⟨?_, ?_, ?_, ctl.joinable, ctl.joined, ctl.periodicJoinable,
    ctl.periodicJoined⟩ ?_ (fun _ _ => Iff.rfl) ?_ (fun _ _ => Iff.rfl)
    ⟨rfl, Nat.succ_ne_zero _⟩ ?_
  · intro running
    have clash : PoolState.stopping = .running := fact.1.symm.trans running
    cases clash
  · intro _ unlocked
    have clash : some k = none := mine.symm.trans unlocked
    cases clash
  · intro hs
    exact ⟨rfl, (ctl.stopped hs).2⟩
  · simp [CloserPhase.locked, mine]
  · rw [ctl.joinOwner k c hk, hp]
    rfl
  · intro j d ne hj
    exact Fact.outside (ctl.facts j d hj) (ctl.alone mine ne hj) (fun _ => rfl) rfl rfl rfl

theorem notifyNotEmpty_control (hp : c.phase = .notifyNotEmpty)
    (h : s.closerStep k c .notifyNotEmpty = some (t, o)) : t.Control := by
  have mine : s.mtx = some k := (ctl.owner k c hk).mpr (by rw [hp]; rfl)
  have fact := ctl.facts k c hk
  rw [hp] at fact
  simp only [closerStep, Tasks.queueStep, QueueState.next, if_neg fact.2, Option.map_some,
    Option.some.injEq] at h
  cases h
  refine ctl.advance hk rfl ⟨ctl.running, ctl.closing, ctl.stopped, ctl.joinable, ctl.joined,
    ctl.periodicJoinable, ctl.periodicJoined⟩ ?_ (fun _ _ => Iff.rfl) ?_ (fun _ _ => Iff.rfl)
    ⟨fact.1, Nat.succ_ne_zero _⟩ ?_
  · simp [CloserPhase.locked, mine]
  · rw [ctl.joinOwner k c hk, hp]
    rfl
  · intro j d ne hj
    exact Fact.outside (ctl.facts j d hj) (ctl.alone mine ne hj) id rfl rfl rfl

theorem notifyNotFull_control (hp : c.phase = .notifyNotFull)
    (h : s.closerStep k c .notifyNotFull = some (t, o)) : t.Control := by
  have mine : s.mtx = some k := (ctl.owner k c hk).mpr (by rw [hp]; rfl)
  have fact := ctl.facts k c hk
  rw [hp] at fact
  simp only [closerStep, Tasks.queueStep, QueueState.next, if_neg fact.2, Option.map_some,
    Option.some.injEq] at h
  have control := shutdownReturns_control (t := { s with
      tasks := { s.tasks with queue := { s.tasks.queue with
        notFull := s.tasks.queue.notFull.notifyAll
        closingNotFull := s.tasks.queue.closingNotFull - 1 } }
      mtx := none }) ctl hk rfl ⟨ctl.running, fun _ _ => fact.1, ctl.stopped, ctl.joinable,
    ctl.joined, ctl.periodicJoinable, ctl.periodicJoined⟩ (by simp) ?_ rfl (by rw [hp]; rfl) fact.1 ?_
  · rw [h] at control
    exact control
  · intro j ne
    simp [mine, Ne.symm ne]
  · intro j d ne hj
    exact Fact.outside (ctl.facts j d hj) (ctl.alone mine ne hj) id rfl rfl rfl

theorem joinLock_control (hp : c.phase = .joinLock)
    (h : s.closerStep k c .joinLock = some (t, o)) : t.Control := by
  have closed : s.closed := by
    have fact := ctl.facts k c hk
    rw [hp] at fact
    exact fact
  simp only [closerStep, ne_eq, ite_not] at h
  split at h
  · next free =>
      split at h
      · cases h
        exact ctl.look hk (by rw [hp]; rfl) (by rw [hp]; rfl) trivial
      · next unstopped =>
          have stopping : s.poolState = .stopping := by
            cases hs : s.poolState with
            | running => exact absurd hs (ctl.not_running closed)
            | stopping => rfl
            | stopped => exact absurd hs unstopped
          cases h
          refine ctl.advance hk rfl ⟨ctl.running, ctl.closing, ctl.stopped, ctl.joinable,
            ctl.joined, ctl.periodicJoinable, ctl.periodicJoined⟩ ?_ (fun _ _ => Iff.rfl) ?_ ?_
            ⟨closed, stopping, fun i hi => absurd hi (Nat.not_lt_zero i)⟩ ?_
          · rw [ctl.owner k c hk, hp]
            rfl
          · simp [CloserPhase.joining]
          · intro j ne
            simp [free, Ne.symm ne]
          · intro j d _ hj
            exact ctl.facts j d hj
  · cases h

theorem joinPeriodic_control {i : Nat} (hp : c.phase = .joinPeriodic i)
    (h : s.closerStep k c (.joinPeriodic i) = some (t, o)) : t.Control := by
  have fact := ctl.facts k c hk
  rw [hp] at fact
  simp only [closerStep] at h
  split at h
  · next bound =>
      simp only [Option.map_eq_some_iff] at h
      obtain ⟨flags, hj, h⟩ := h
      obtain ⟨gone, size, joined⟩ := joinThread_spec bound ctl.periodicJoinable ctl.periodicJoined hj
      cases h
      refine ctl.advance hk rfl ⟨ctl.running, ctl.closing, ctl.stopped, ctl.joinable, ctl.joined,
        size, joined⟩ ?_ (fun _ _ => Iff.rfl) ?_ (fun _ _ => Iff.rfl)
        ⟨fact.1, fact.2.1, exitedBelow_succ fact.2.2 gone⟩ ?_
      · rw [ctl.owner k c hk, hp]
        rfl
      · rw [ctl.joinOwner k c hk, hp]
        rfl
      · intro j d _ hj
        exact ctl.facts j d hj
  · next done =>
      cases h
      refine ctl.look hk (by rw [hp]; rfl) (by rw [hp]; rfl) ⟨fact.1, fact.2.1, ?_, ?_⟩
      · intro j hj
        exact fact.2.2 j (by omega)
      · intro j hj
        exact absurd hj (Nat.not_lt_zero j)

theorem joinActive_control {i : Nat} (hp : c.phase = .joinActive i)
    (h : s.closerStep k c (.joinActive i) = some (t, o)) : t.Control := by
  have fact := ctl.facts k c hk
  rw [hp] at fact
  simp only [closerStep] at h
  split at h
  · next bound =>
      simp only [Option.map_eq_some_iff] at h
      obtain ⟨flags, hj, h⟩ := h
      obtain ⟨gone, size, joined⟩ := joinThread_spec bound ctl.joinable ctl.joined hj
      cases h
      refine ctl.advance hk rfl ⟨ctl.running, ctl.closing, ctl.stopped, size, joined,
        ctl.periodicJoinable, ctl.periodicJoined⟩ ?_ (fun _ _ => Iff.rfl) ?_ (fun _ _ => Iff.rfl)
        ⟨fact.1, fact.2.1, fact.2.2.1, exitedBelow_succ fact.2.2.2 gone⟩ ?_
      · rw [ctl.owner k c hk, hp]
        rfl
      · rw [ctl.joinOwner k c hk, hp]
        rfl
      · intro j d _ hj
        exact ctl.facts j d hj
  · next done =>
      cases h
      refine ctl.look hk (by rw [hp]; rfl) (by rw [hp]; rfl)
        ⟨fact.1, fact.2.1, fact.2.2.1, ?_⟩
      intro j hj
      exact fact.2.2.2 j (by omega)

/-- When `stopped` is stored every other closing call is outside both mutexes or
past the closing of the queue. -/
theorem stop_control (hp : c.phase = .stop) (h : s.closerStep k c .stop = some (t, o)) :
    t.Control := by
  have mine : s.joinMtx = some k := (ctl.joinOwner k c hk).mpr (by rw [hp]; rfl)
  have fact := ctl.facts k c hk
  rw [hp] at fact
  have stopping : s.poolState = .stopping := fact.2.1
  cases h
  refine ctl.advance hk rfl ⟨?_, ?_, ?_, ctl.joinable, ctl.joined, ctl.periodicJoinable,
    ctl.periodicJoined⟩ ?_ (fun _ _ => Iff.rfl) ?_ (fun _ _ => Iff.rfl) rfl ?_
  · intro hs
    cases hs
  · intro _ _
    exact fact.1
  · intro _
    exact ⟨fact.1, fact.2.2⟩
  · rw [ctl.owner k c hk, hp]
    rfl
  · simp [CloserPhase.joining, mine]
  · intro j d ne hj
    have theirs := ctl.facts j d hj
    have free := ctl.joinAlone mine ne hj
    generalize d.phase = phase at theirs free ⊢
    cases phase with
    | lock => trivial
    | store =>
        have clash : PoolState.stopping = .running := stopping.symm.trans theirs
        cases clash
    | notify => exact absurd fact.1 theirs.2
    | close => exact absurd fact.1 theirs.2
    | notifyNotEmpty => exact theirs
    | notifyNotFull => exact theirs
    | joinLock => exact theirs
    | returned => trivial
    | joinPeriodic i => cases free
    | joinActive i => cases free
    | stop => cases free
    | leave => cases free

theorem leave_control (hp : c.phase = .leave) (h : s.closerStep k c .leave = some (t, o)) :
    t.Control := by
  have mine : s.joinMtx = some k := (ctl.joinOwner k c hk).mpr (by rw [hp]; rfl)
  cases h
  refine ctl.advance hk rfl ⟨ctl.running, ctl.closing, ctl.stopped, ctl.joinable, ctl.joined,
    ctl.periodicJoinable, ctl.periodicJoined⟩ ?_ (fun _ _ => Iff.rfl) ?_ ?_ trivial ?_
  · rw [ctl.owner k c hk, hp]
    rfl
  · simp [CloserPhase.joining]
  · intro j ne
    simp [mine, Ne.symm ne]
  · intro j d _ hj
    exact ctl.facts j d hj

theorem closerStep_control (h : s.closerStep k c c.phase = some (t, o)) : t.Control := by
  cases hp : c.phase with
  | lock => exact lock_control ctl hk hp (hp ▸ h)
  | store => exact store_control ctl hk hp (hp ▸ h)
  | notify => exact notify_control ctl hk hp (hp ▸ h)
  | close => exact close_control ctl hk hp (hp ▸ h)
  | notifyNotEmpty => exact notifyNotEmpty_control ctl hk hp (hp ▸ h)
  | notifyNotFull => exact notifyNotFull_control ctl hk hp (hp ▸ h)
  | joinLock => exact joinLock_control ctl hk hp (hp ▸ h)
  | joinPeriodic i => exact joinPeriodic_control ctl hk hp (hp ▸ h)
  | joinActive i => exact joinActive_control ctl hk hp (hp ▸ h)
  | stop => exact stop_control ctl hk hp (hp ▸ h)
  | leave => exact leave_control ctl hk hp (hp ▸ h)
  | returned =>
      rw [hp] at h
      cases h

end Closers

end Pool

end Rtl.Stp
