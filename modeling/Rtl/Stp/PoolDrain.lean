import Rtl.Base.Leads
import Rtl.Stp.PoolRuns

/-! # The pool runs every accepted callable exactly once

Over every run a callable whose `put` returned a future is started exactly once or
still waits for a worker, and one whose `put` threw is never started. When a `join`
returns, the queue is empty, the workers have exited and what was accepted has
finished. A worker can always go on to the callable at the head of the queue. Once the
queue is closed a run without new calls ends after a bounded number of steps, and only
with everything done.
-/

namespace Rtl.Stp

open Rtl.Base

namespace Pool

variable {s t : Pool} {o : PoolOutput} {opt : ThreadPoolOptions}

/-! ## Work left -/

def periodicWeight : PeriodicPc → Nat
  | .top => 1
  | .locking => 2
  | .sleeping => 2
  | .checking => 1
  | .starting => 3
  | .invoking => 2
  | .exited => 0

def work (s : Pool) : Nat :=
  s.tasks.work + s.cv.rank + (s.periodic.map periodicWeight).sum +
    (s.closers.map fun c => s.closerWeight c.phase).sum

theorem closerWeight_congr (workers : t.tasks.workers.length = s.tasks.workers.length)
    (periodic : t.periodic.length = s.periodic.length) : t.closerWeight = s.closerWeight := by
  funext phase
  cases phase <;> simp only [closerWeight, workers, periodic]

/-- In a closed pool a periodic worker that is still there sees `stopping`. -/
theorem Inv.stopping (inv : s.Inv) (closed : s.closed) {i : Nat} {pc : PeriodicPc}
    (h : s.periodic[i]? = some pc) (alive : pc ≠ .exited) : s.poolState = .stopping := by
  cases hs : s.poolState with
  | running => exact absurd hs (inv.control.not_running closed)
  | stopping => rfl
  | stopped =>
      have out := (inv.control.stopped hs).2.1 i (List.getElem?_eq_some_iff.mp h).1
      rw [h] at out
      exact absurd (Option.some.inj out) alive

theorem setPeriodic_work {i : Nat} {pc pc' : PeriodicPc} {cv : CondVar Nat}
    (h : s.periodic[i]? = some pc) (rank : cv.rank ≤ s.cv.rank)
    (lt : periodicWeight pc' < periodicWeight pc) :
    ({ s with cv := cv }.setPeriodic i pc').work < s.work := by
  have swap := sum_map_set periodicWeight pc' h
  have same : ({ s with cv := cv }.setPeriodic i pc').closerWeight = s.closerWeight :=
    closerWeight_congr rfl (by simp [setPeriodic])
  simp only [work, same]
  simp only [setPeriodic]
  omega

theorem PeriodicStep.work_lt (h : s.PeriodicStep t o) (inv : s.Inv) (closed : s.closed) :
    t.work < s.work := by
  cases h with
  | load here ways running => exact absurd running (inv.control.not_running closed)
  | exit here ways _ =>
      rcases ways with rfl | rfl
      · exact setPeriodic_work here (Nat.le_refl _) (by decide)
      · exact setPeriodic_work here (Nat.le_refl _) (by decide)
  | ready here => exact setPeriodic_work here (Nat.le_refl _) (by decide)
  | sleep here unstopping => exact absurd (inv.stopping closed here (by decide)) unstopping
  | @wakes k cv hw =>
      have less := CondVar.rank_wake hw
      have same : ({ s with cv := cv } : Pool).closerWeight = s.closerWeight :=
        closerWeight_congr rfl rfl
      simp only [work, same]
      omega
  | resumes hr =>
      have leaves := (CondVar.resume_spec hr).2.1
      have asleep := inv.sleepers.pc_of_mem (leaves.mem_iff.mpr (List.mem_cons_self ..))
      exact setPeriodic_work asleep (Nat.le_of_lt (CondVar.rank_resume hr)) (by decide)
  | again hr unstopping =>
      have leaves := (CondVar.resume_spec hr).2.1
      have asleep := inv.sleepers.pc_of_mem (leaves.mem_iff.mpr (List.mem_cons_self ..))
      exact absurd (inv.stopping closed asleep (by decide)) unstopping
  | start here => exact setPeriodic_work here (Nat.le_refl _) (by decide)
  | finish here => exact setPeriodic_work here (Nat.le_refl _) (by decide)

theorem Step.work_lt {e : PoolEvent} (h : Step opt s e t o) (inv : s.Inv) (closed : s.closed)
    (own : e.isCall = false) : t.work < s.work := by
  cases h with
  | put _ => cases own
  | call _ call =>
      rw [call] at own
      cases own
  | putPeriodic _ => cases own
  | @task e tasks notes hnext =>
      have step := Tasks.next_step inv.tasks.takers.tryTakers hnext
      have less := step.work_lt inv.tasks.takers closed
      have same : ({ s with tasks := tasks } : Pool).closerWeight = s.closerWeight :=
        closerWeight_congr step.frame.2.2.2 rfl
      simp only [work, same]
      omega
  | @closer k c t o hk hc =>
      have frame := closerStep_frame hc
      obtain ⟨phase', closers, less⟩ := frame.later
      have same : t.closerWeight = s.closerWeight :=
        closerWeight_congr (by rw [frame.closes.workers]) (by rw [frame.periodic])
      have tasks := frame.closes.work_le
      have rank := frame.rank
      have swap := sum_map_set (fun c => s.closerWeight c.phase) { c with phase := phase' } hk
      simp only [work, same, closers, frame.periodic]
      simp only at swap
      omega
  | periodic step => exact step.work_lt inv closed

/-! ## Some thread can go on -/

def CanStep (opt : ThreadPoolOptions) (s : Pool) : Prop :=
  ∃ e : PoolEvent, e.isCall = false ∧ (s.next opt e).isSome = true

theorem canStep_of_closer {k : Nat} {c : Closer} (hk : s.closers[k]? = some c)
    (h : (s.closerStep k c c.phase).isSome = true) : s.CanStep opt := by
  refine ⟨.closer k, rfl, ?_⟩
  simp only [next, hk]
  exact h

/-- The owner of `m_mtx` never waits. -/
theorem canStep_of_locked (ctl : s.Control) {k : Nat} {c : Closer} (hk : s.closers[k]? = some c)
    (locked : c.phase.locked = true) : s.CanStep opt := by
  apply canStep_of_closer hk
  have fact := ctl.facts k c hk
  generalize c.phase = phase at locked fact ⊢
  cases phase with
  | store => rfl
  | notify => rfl
  | close => rfl
  | notifyNotEmpty =>
      simp only [closerStep, Tasks.queueStep, QueueState.next, if_neg fact.2]
      rfl
  | notifyNotFull =>
      simp only [closerStep, Tasks.queueStep, QueueState.next, if_neg fact.2]
      rfl
  | _ => cases locked

theorem joinThread_exited (flags : List Bool) (i : Nat) : (joinThread flags i true).isSome = true := by
  simp only [joinThread]
  split <;> rfl

/-- The owner of `m_joinMtx` does not wait once every thread has exited. -/
theorem canStep_of_joining {k : Nat} {c : Closer} (hk : s.closers[k]? = some c)
    (joining : c.phase.joining = true)
    (periodic : ExitedBelow s.periodic .exited s.periodic.length)
    (workers : ExitedBelow s.tasks.workers .exited s.tasks.workers.length) : s.CanStep opt := by
  apply canStep_of_closer hk
  generalize c.phase = phase at joining ⊢
  cases phase with
  | joinPeriodic i =>
      simp only [closerStep]
      split
      · next bound =>
          rw [periodic i bound]
          simpa using joinThread_exited s.periodicJoinable i
      · rfl
  | joinActive i =>
      simp only [closerStep]
      split
      · next bound =>
          rw [workers i bound]
          simpa using joinThread_exited s.joinable i
      · rfl
  | stop => rfl
  | leave => rfl
  | _ => cases joining

/-- A periodic worker that has not exited, when no put call is in progress. -/
theorem canStep_of_periodic (inv : s.Inv) (free : s.mtx = none) (calls : s.tasks.calls = [])
    {i : Nat} {pc : PeriodicPc} (h : s.periodic[i]? = some pc) (alive : pc ≠ .exited) :
    s.CanStep opt := by
  cases pc with
  | top => exact ⟨.periodicTop i, rfl, by simp [next, h]⟩
  | locking =>
      refine ⟨.periodicLock i, rfl, ?_⟩
      simp only [next, h, free, and_self, if_true]
      split <;> rfl
  | sleeping =>
      have waits := inv.sleepers.mem_of_pc h
      rcases CondVar.enabled_of_waiting waits with ⟨k, cv, hw⟩ | ⟨cause, k, cv, hr⟩
      · exact ⟨.periodicWakes k, rfl, by simp [next, hw]⟩
      · refine ⟨.periodicResumes cause k true, rfl, ?_⟩
        simp [next, free, hr]
  | checking => exact ⟨.periodicCheck i, rfl, by simp [next, h]⟩
  | starting => exact ⟨.periodicStart i, rfl, by simp [next, h]⟩
  | invoking => exact ⟨.periodicFinish i false, rfl, by simp [next, h, calls]⟩
  | exited => exact absurd rfl alive

structure Done (s : Pool) : Prop where
  calls : s.tasks.calls = []
  workers : ∀ pc ∈ s.tasks.workers, pc = .exited
  periodic : ∀ pc ∈ s.periodic, pc = .exited
  closers : ∀ c ∈ s.closers, c.phase = .returned

theorem exitedBelow_length {β : Type*} {pcs : List β} {exited : β} :
    ExitedBelow pcs exited pcs.length ↔ ∀ pc ∈ pcs, pc = exited := by
  constructor
  · intro below pc mem
    obtain ⟨i, hi⟩ := List.mem_iff_getElem?.mp mem
    have out := below i (List.getElem?_eq_some_iff.mp hi).1
    rw [hi] at out
    exact Option.some.inj out
  · intro all i hi
    rw [List.getElem?_eq_getElem hi, all _ (List.getElem_mem hi)]

/-- A call of `shutdown` or `join` that holds no mutex only waits for one. -/
theorem closerStep_of_free {k : Nat} {c : Closer} {phase : CloserPhase} (free : s.mtx = none)
    (joinFree : s.joinMtx = none) (locked : phase.locked ≠ true) (joining : phase.joining ≠ true)
    (back : phase ≠ .returned) : (s.closerStep k c phase).isSome = true := by
  cases phase with
  | lock =>
      simp only [closerStep, free, ne_eq, not_true_eq_false, if_false]
      split <;> rfl
  | joinLock =>
      simp only [closerStep, joinFree, ne_eq, not_true_eq_false, if_false]
      split <;> rfl
  | returned => exact absurd rfl back
  | store | notify | close | notifyNotEmpty | notifyNotFull => exact absurd rfl locked
  | joinPeriodic | joinActive | stop | leave => exact absurd rfl joining

/-- A pool in which no thread can take a step has nothing left to do. -/
theorem done_of_stuck (opt : ThreadPoolOptions) (inv : s.Inv) (stuck : ¬ s.CanStep opt) : s.Done := by
  have ctl := inv.control
  have free : s.mtx = none := by
    cases hm : s.mtx with
    | none => rfl
    | some k =>
        have hk := List.getElem?_eq_getElem (ctl.owned k hm)
        exact absurd (canStep_of_locked ctl hk ((ctl.owner k _ hk).mp hm)) stuck
  have idle : ∀ busy : s.tasks.calls ≠ [] ∨ ∃ pc ∈ s.tasks.workers, pc ≠ .exited, False := by
    intro busy
    obtain ⟨e, he⟩ := Tasks.canStep opt.rejectionPolicy inv.tasks busy
    exact stuck ⟨.task e, rfl, by simpa [next] using he⟩
  have calls : s.tasks.calls = [] := by
    by_contra some
    exact idle (.inl some)
  have workers : ∀ pc ∈ s.tasks.workers, pc = .exited := by
    intro pc mem
    by_contra alive
    exact idle (.inr ⟨pc, mem, alive⟩)
  have periodic : ∀ pc ∈ s.periodic, pc = .exited := by
    intro pc mem
    by_contra alive
    obtain ⟨i, hi⟩ := List.mem_iff_getElem?.mp mem
    exact stuck (canStep_of_periodic inv free calls hi alive)
  refine ⟨calls, workers, periodic, ?_⟩
  have joinFree : s.joinMtx = none := by
    cases hj : s.joinMtx with
    | none => rfl
    | some k =>
        have hk := List.getElem?_eq_getElem (ctl.joinOwned k hj)
        exact absurd (canStep_of_joining hk ((ctl.joinOwner k _ hk).mp hj)
          (exitedBelow_length.mpr periodic) (exitedBelow_length.mpr workers)) stuck
  intro c mem
  obtain ⟨k, hk⟩ := List.mem_iff_getElem?.mp mem
  have locked : c.phase.locked ≠ true := by
    intro locked
    have owns := (ctl.owner k c hk).mpr locked
    rw [free] at owns
    cases owns
  have joining : c.phase.joining ≠ true := by
    intro joining
    have owns := (ctl.joinOwner k c hk).mpr joining
    rw [joinFree] at owns
    cases owns
  by_contra waits
  exact stuck (canStep_of_closer hk (closerStep_of_free free joinFree locked joining waits))

end Pool

/-! ## Counting tokens -/

namespace Tasks

theorem count_callTokens (calls : List PutCall) (c : Nat) {σ : Spot} (hl : σ ≠ .loaded)
    (hi : σ ≠ .inline) : (callTokens calls).count (c, σ) = 0 := by
  induction calls with
  | nil => rfl
  | cons k calls ih =>
      rw [callTokens_cons, Multiset.count_add, ih]
      cases hp : k.phase <;> simp [PutCall.tokens, hp, hl, hi]

theorem workerTokens_cons (pc : WorkerPc) (workers : List WorkerPc) :
    workerTokens (pc :: workers) = pc.tokens + workerTokens workers := by
  simp [workerTokens]

theorem count_workerTokens_held (workers : List WorkerPc) (c : Nat) :
    (workerTokens workers).count (c, .held) = workers.count (.holding c) := by
  induction workers with
  | nil => rfl
  | cons pc workers ih =>
      rw [workerTokens_cons, Multiset.count_add, ih, List.count_cons]
      cases pc with
      | holding d =>
          by_cases same : d = c
          · simp [WorkerPc.tokens, same, Nat.add_comm]
          · simp [WorkerPc.tokens, same, Ne.symm same]
      | running d => simp [WorkerPc.tokens]
      | looping => simp [WorkerPc.tokens]
      | taking => simp [WorkerPc.tokens]
      | exited => simp [WorkerPc.tokens]

theorem count_workerTokens_buffered (workers : List WorkerPc) (c : Nat) :
    (workerTokens workers).count (c, .buffered) = 0 := by
  induction workers with
  | nil => rfl
  | cons pc workers ih =>
      rw [workerTokens_cons, Multiset.count_add, ih]
      cases pc <;> simp [WorkerPc.tokens]

theorem workerTokens_exited {workers : List WorkerPc} (h : ∀ pc ∈ workers, pc = .exited) :
    workerTokens workers = 0 := by
  induction workers with
  | nil => rfl
  | cons pc workers ih =>
      rw [workerTokens_cons, h pc (by simp), ih fun pc mem => h pc (by simp [mem])]
      rfl

/-- With every worker gone and the queue empty only put calls hold callables. -/
theorem spot_of_drained {s : Tasks} {c : Nat} {σ : Spot} (h : ∀ pc ∈ s.workers, pc = .exited)
    (buffer : s.queue.queue.buffer = []) (mem : (c, σ) ∈ s.tokens) :
    σ = .loaded ∨ σ = .inline ∨ σ = .blocked := by
  by_contra out
  simp only [not_or] at out
  have calls := count_callTokens s.calls c out.1 out.2.1
  have producers : (c, σ) ∉ producerTokens s.queue.notFull := by
    simp only [producerTokens, Multiset.mem_coe, List.mem_map, not_exists, not_and]
    intro p _ same
    exact out.2.2 (Prod.mk.inj same).2.symm
  simp only [tokens, workerTokens_exited h, buffer, Multiset.mem_add] at mem
  rcases mem with ((call | producer) | buffered) | worker
  · exact absurd call (Multiset.count_eq_zero.mp calls)
  · exact producers producer
  · simp [bufferTokens] at buffered
  · simp at worker

theorem count_buffered (s : Tasks) (c : Nat) :
    s.tokens.count (c, .buffered) = s.queue.queue.buffer.count c := by
  have producers : (producerTokens s.queue.notFull).count (c, .buffered) = 0 := by
    simp [producerTokens]
  have buffer : (bufferTokens s.queue.queue.buffer).count (c, .buffered) =
      s.queue.queue.buffer.count c := by
    have injective : Function.Injective fun c : Nat => (c, Spot.buffered) :=
      fun _ _ h => (Prod.mk.inj h).1
    rw [← Multiset.coe_count]
    exact Multiset.count_map_eq_count' _ (s.queue.queue.buffer : Multiset Nat) injective c
  simp only [tokens, Multiset.count_add, count_callTokens s.calls c (σ := .buffered) (by decide)
    (by decide), producers, buffer, count_workerTokens_buffered]
  omega

theorem count_held (s : Tasks) (c : Nat) :
    s.tokens.count (c, .held) = s.workers.count (.holding c) := by
  have producers : (producerTokens s.queue.notFull).count (c, .held) = 0 := by
    simp [producerTokens]
  have buffer : (bufferTokens s.queue.queue.buffer).count (c, .held) = 0 := by
    simp [bufferTokens]
  simp only [tokens, Multiset.count_add, count_callTokens s.calls c (σ := .held) (by decide)
    (by decide), producers, buffer, count_workerTokens_held]
  omega

end Tasks

namespace Ledger

variable {log : List Note} {s : Tasks} {c : Nat}

/-- Each callable is in one of the three situations of the ledger. -/
theorem cases_on {tokens : Multiset (Nat × Spot)} {nextTask : Nat}
    (ledger : Ledger log tokens nextTask) (c : Nat) :
    (∃ σ : Spot, (c, σ) ∈ tokens ∧ about c log = σ.notes) ∨
    (c ∉ tokens.map Prod.fst ∧ (Settled (about c log) ∨ about c log = [])) := by
  by_cases mem : c ∈ tokens.map Prod.fst
  · obtain ⟨x, hx, rfl⟩ := Multiset.mem_map.mp mem
    exact .inl ⟨x.2, hx, ledger.placed x hx⟩
  · by_cases born : c < nextTask
    · exact .inr ⟨mem, .inl (ledger.settled c born mem)⟩
    · exact .inr ⟨mem, .inr (ledger.unborn c (by omega))⟩

/-- One token, so none at another spot. -/
theorem count_of_mem {tokens : Multiset (Nat × Spot)} {nextTask : Nat}
    (ledger : Ledger log tokens nextTask) {σ : Spot} (mem : (c, σ) ∈ tokens) (σ' : Spot) :
    tokens.count (c, σ') = if σ' = σ then 1 else 0 := by
  obtain ⟨rest, rfl⟩ := Multiset.exists_cons_of_mem mem
  have single := ledger.single
  rw [Multiset.map_cons, Multiset.nodup_cons] at single
  have absent : (c, σ') ∉ rest := fun h => single.1 (Multiset.mem_map.mpr ⟨_, h, rfl⟩)
  rw [Multiset.count_cons, Multiset.count_eq_zero.mpr absent]
  simp [Prod.ext_iff]

theorem count_of_absent {tokens : Multiset (Nat × Spot)} (absent : c ∉ tokens.map Prod.fst)
    (σ : Spot) : tokens.count (c, σ) = 0 := by
  rw [Multiset.count_eq_zero]
  exact fun h => absent (Multiset.mem_map.mpr ⟨_, h, rfl⟩)

/-- A callable whose put returned a future has been started once, or it is in the
queue or in the hands of a worker; if it never was in the queue it has finished. -/
theorem once_of_future (ledger : Ledger log s.tokens s.nextTask) (future : .future ∈ about c log) :
    (about c log).count .started + s.queue.queue.buffer.count c +
      s.workers.count (.holding c) = 1 ∧
    (.enqueued ∉ about c log → (about c log).count .finished = 1) := by
  rw [← s.count_buffered, ← s.count_held]
  rcases ledger.cases_on c with ⟨σ, mem, history⟩ | ⟨absent, settled | unborn⟩
  · rw [ledger.count_of_mem mem, ledger.count_of_mem mem, history]
    rw [history] at future
    cases σ <;> simp [Spot.notes] at future ⊢
  · rw [count_of_absent absent, count_of_absent absent]
    rcases settled with ⟨error, history⟩ | history | history
    · simp [history] at future
    · rw [history]
      decide
    · rw [history]
      decide
  · rw [unborn] at future
    cases future

theorem never_of_threw (ledger : Ledger log s.tokens s.nextTask) {error : ThreadPoolError}
    (threw : .threw error ∈ about c log) : .started ∉ about c log := by
  rcases ledger.cases_on c with ⟨σ, _, history⟩ | ⟨_, settled | unborn⟩
  · rw [history] at threw
    cases σ <;> simp [Spot.notes] at threw
  · rcases settled with ⟨error', history⟩ | history | history
    · simp [history]
    · simp [history] at threw
    · simp [history] at threw
  · rw [unborn] at threw
    cases threw

/-- With every worker gone and the queue empty, what was accepted has finished. -/
theorem finished_of_drained (ledger : Ledger log s.tokens s.nextTask)
    (workers : ∀ pc ∈ s.workers, pc = .exited) (buffer : s.queue.queue.buffer = [])
    (accepted : .enqueued ∈ about c log ∨ .future ∈ about c log) :
    (about c log).count .started = 1 ∧ (about c log).count .finished = 1 := by
  rcases ledger.cases_on c with ⟨σ, mem, history⟩ | ⟨_, settled | unborn⟩
  · rw [history] at accepted
    rcases Tasks.spot_of_drained workers buffer mem with rfl | rfl | rfl
    · simp [Spot.notes] at accepted
    · simp [Spot.notes] at accepted
    · simp [Spot.notes] at accepted
  · rcases settled with ⟨error, history⟩ | history | history
    · simp [history] at accepted
    · rw [history]
      decide
    · rw [history]
      decide
  · simp [unborn] at accepted

end Ledger

/-! ## Whole runs -/

def history (c : Nat) (ts : List (Transition Pool PoolEvent PoolOutput)) : List NoteKind :=
  about c (ts.flatMap fun t => Pool.log t.output)

theorem Pool.run_inv {opt : ThreadPoolOptions} {s₀ s : Pool}
    {ts : List (Transition Pool PoolEvent PoolOutput)} (init : (poolMachine opt).init s₀)
    (run : (poolMachine opt).Run s₀ ts s) :
    s.Inv ∧ Ledger (ts.flatMap fun t => Pool.log t.output) s.tasks.tokens s.tasks.nextTask := by
  refine run.history (H := fun ts s => s.Inv ∧
    Ledger (ts.flatMap fun t => Pool.log t.output) s.tasks.tokens s.tasks.nextTask) ?_ ?_
  · rw [show s₀ = Pool.start opt.setupThreads from init]
    refine ⟨Pool.start_inv _ ?_, ?_⟩
    · simp only [ThreadPoolOptions.setupThreads]
      omega
    · have none : (Pool.start opt.setupThreads).tasks.tokens = 0 := by
        simp [Pool.start, Tasks.start, QueueState.start, Tasks.tokens, Tasks.callTokens,
          Tasks.producerTokens, Tasks.bufferTokens, Tasks.workerTokens, CondVar.empty,
          CondVar.waiting, WorkerPc.tokens, dequeOps, frontPopping]
      rw [none]
      exact Ledger.start
  · rintro ts s e t o ⟨inv, ledger⟩ h
    have step := (Pool.next_step h).inv inv ledger
    simpa using step

theorem Pool.closed_step {opt : ThreadPoolOptions} {s t : Pool} {e : PoolEvent} {o : PoolOutput}
    (h : Pool.Step opt s e t o)
    (takers : Tasks.Takers s.tasks.queue.notEmpty s.tasks.workers) (closed : s.closed) :
    t.closed := by
  cases h with
  | put hput => exact (Pool.put_settles hput).closed_iff.mpr closed
  | call _ _ => exact closed
  | putPeriodic hput =>
      unfold Pool.closed
      rw [(Pool.putPeriodic_put hput).frame.1]
      exact closed
  | task hnext => exact (Tasks.next_step takers.tryTakers hnext).frame.1.trans closed
  | closer hk hc => exact (Pool.closerStep_frame hc).closes.closing closed
  | periodic step =>
      unfold Pool.closed
      rw [step.tasks.1]
      exact closed

/-- When the state is stopped the workers are gone and the queue is empty. -/
theorem Pool.Inv.drained {s : Pool} (inv : s.Inv) (workers : ∀ pc ∈ s.tasks.workers, pc = .exited) :
    s.tasks.queue.queue.buffer = [] := by
  have bound := inv.staffed
  have first := List.getElem_mem bound
  rw [workers _ first] at first
  exact (inv.tasks.drained first).2

/-- What the workers can do about the callable `c` at the head of the queue: none has exited, one
that has none in its hands can take it, and the others can go on with theirs, unless it is inside a
`put` of its own. -/
structure Pool.Attended (opt : ThreadPoolOptions) (s : Pool) (c : Nat) (rest : List Nat) : Prop where
  present : .exited ∉ s.tasks.workers
  takes : ∀ w, s.tasks.workers[w]? = some .looping ∨ s.tasks.workers[w]? = some .taking →
    (poolMachine opt).Leads (fun _ e => e.isCall = false) (fun t => t.tasks.Taken w c rest) s
  starts : ∀ w d, s.tasks.workers[w]? = some (.holding d) →
    ∃ t, (poolMachine opt).next s (.task (.start w)) = some (t, .notes [⟨d, .started⟩])
  finishes : ∀ w d, s.tasks.workers[w]? = some (.running d) → s.tasks.calling d = false →
    ∃ t, (poolMachine opt).next s (.task (.finish w)) = some (t, .notes [⟨d, .finished⟩])

theorem Pool.next_task {opt : ThreadPoolOptions} {s : Pool} {e : TaskEvent} {t : Tasks} {notes : List Note}
    (h : s.tasks.next opt.setupThreads.rejectionPolicy e = some (t, notes)) :
    (poolMachine opt).next s (.task e) = some ({ s with tasks := t }, .notes notes) := by
  simp only [poolMachine, Pool.next, h, Option.map_some]

theorem Pool.Inv.attended (opt : ThreadPoolOptions) {s : Pool} (inv : s.Inv) {c : Nat} {rest : List Nat}
    (buffer : s.tasks.queue.queue.buffer = c :: rest) : s.Attended opt c rest := by
  refine ⟨?_, ?_, ?_, ?_⟩
  · intro exited
    have empty := (inv.tasks.drained exited).2
    rw [buffer] at empty
    cases empty
  · rintro w (looping | taking)
    · obtain ⟨t, _, takes, taken⟩ :=
        Tasks.taken_of_looping opt.setupThreads.rejectionPolicy looping buffer
      exact .step (Pool.next_task takes) rfl (.here taken)
    · rcases Tasks.taken_of_taking opt.setupThreads.rejectionPolicy inv.tasks taking buffer with
        ⟨e, t, _, takes, taken⟩ | ⟨k, u, _, wakes, e, t, _, takes, taken⟩
      · exact .step (Pool.next_task takes) rfl (.here taken)
      · exact .step (Pool.next_task wakes) rfl (.step (Pool.next_task takes) rfl (.here taken))
  · intro w d holding
    exact ⟨_, Pool.next_task (by simp only [Tasks.next, holding]; rfl)⟩
  · intro w d running idle
    exact ⟨_, Pool.next_task (by simp only [Tasks.next, running, idle, Bool.false_eq_true, if_false]; rfl)⟩

/-- For every run of a pool: a callable whose put returned a future is started
exactly once, or is in the queue or held by a worker that will start it, and one
run by its caller has finished; a callable whose put threw is never started; the
state only moves from running to stopping to stopped; when a `join` returns, the
state is stopped, the queue is empty, the workers have exited and everything
accepted was run once and has finished. Whatever is at the head of the queue, open or
closed, a worker can take it as soon as it is done with what it has in its hands. From
a state with a closed queue every run without further calls is bounded, and it can only
end with every call returned, every thread exited and everything accepted finished. -/
theorem thread_pool_exactly_once_and_drain (opt : ThreadPoolOptions) {s₀ s : Pool}
    {ts : List (Transition Pool PoolEvent PoolOutput)} (init : (poolMachine opt).init s₀)
    (run : (poolMachine opt).Run s₀ ts s) :
    (∀ c, .future ∈ history c ts →
      (history c ts).count .started + s.tasks.queue.queue.buffer.count c +
        s.tasks.workers.count (.holding c) = 1 ∧
      (.enqueued ∉ history c ts → (history c ts).count .finished = 1)) ∧
    (∀ c error, .threw error ∈ history c ts → .started ∉ history c ts) ∧
    (∀ t ∈ ts, t.after.poolState = t.before.poolState ∨
      (t.before.poolState = .running ∧ t.after.poolState = .stopping) ∨
      (t.before.poolState = .stopping ∧ t.after.poolState = .stopped)) ∧
    (∀ us t vs, ts = us ++ t :: vs → t.output = .joinReturned →
      t.after.poolState = .stopped ∧ t.after.tasks.queue.queue.buffer = [] ∧
      (∀ pc ∈ t.after.tasks.workers, pc = .exited) ∧
      ∀ c, .enqueued ∈ history c (us ++ [t]) ∨ .future ∈ history c (us ++ [t]) →
        (history c (us ++ [t])).count .started = 1 ∧
        (history c (us ++ [t])).count .finished = 1) ∧
    (∀ c rest, s.tasks.queue.queue.buffer = c :: rest → s.Attended opt c rest) ∧
    (s.closed → ∀ us v, (poolMachine opt).Run s us v → (∀ t ∈ us, t.event.isCall = false) →
      us.length ≤ s.work ∧
      ((∀ e : PoolEvent, e.isCall = false → (poolMachine opt).next v e = none) →
        v.Done ∧ v.tasks.queue.queue.buffer = [] ∧
        ∀ c, .enqueued ∈ history c (ts ++ us) ∨ .future ∈ history c (ts ++ us) →
          (history c (ts ++ us)).count .started = 1 ∧
          (history c (ts ++ us)).count .finished = 1)) := by
  obtain ⟨inv, ledger⟩ := Pool.run_inv init run
  refine ⟨fun c => ledger.once_of_future, fun c error => ledger.never_of_threw, ?_, ?_,
    fun c rest => inv.attended opt, ?_⟩
  · intro t ht
    obtain ⟨us, _, before, takes⟩ := run.mem_prefix ht
    exact (Pool.next_step takes).poolState (Pool.run_inv init before).1
  · rintro us t vs rfl returned
    obtain ⟨before, takes, _⟩ := run.at
    have after := Machine.Run.snoc t before rfl takes
    obtain ⟨invAfter, ledgerAfter⟩ := Pool.run_inv init after
    have step := Pool.next_step takes
    rw [returned] at step
    have stopped := step.joinReturned (Pool.run_inv init before).1
    have workers := Pool.exitedBelow_length.mp (invAfter.control.stopped stopped).2.2
    have buffer := invAfter.drained workers
    exact ⟨stopped, buffer, workers, fun c => ledgerAfter.finished_of_drained workers buffer⟩
  · intro closed us v onward own
    obtain ⟨invV, ledgerV⟩ := Pool.run_inv init (run.trans onward)
    constructor
    · have bound := onward.length_le (G := fun _ e => e.isCall = false) (μ := Pool.work)
        (I := fun s => s.Inv ∧ s.closed ∧ ∃ notes, Ledger notes s.tasks.tokens s.tasks.nextTask)
        own ⟨inv, closed, _, ledger⟩ ?_
      · omega
      · rintro s e t o ⟨inv, closed, notes, ledger⟩ own h
        have step := Pool.next_step h
        obtain ⟨kept, books⟩ := step.inv inv ledger
        exact ⟨⟨kept, Pool.closed_step step inv.tasks.takers closed, _, books⟩, step.work_lt inv closed own⟩
    · intro stuck
      have done : v.Done := by
        apply Pool.done_of_stuck opt.setupThreads invV
        rintro ⟨e, own, enabled⟩
        rw [show v.next opt.setupThreads e = none from stuck e own] at enabled
        cases enabled
      have buffer := invV.drained done.workers
      exact ⟨done, buffer, fun c => ledgerV.finished_of_drained done.workers buffer⟩

/-- One worker, room for one callable, and the caller runs what does not fit: the
second callable is run by its caller, the first by the worker, then `join` waits
for the worker and returns. -/
def joinedPoolTrace : List PoolEvent :=
  [.put .outside, .task (.submit 0 0), .put .outside, .task (.submit 1 0),
    .task (.finishInline 1), .task (.take 0), .task (.start 0), .join, .closer 0, .closer 0,
    .closer 0, .closer 0, .put .outside, .task (.finish 0), .task (.take 0), .closer 0, .closer 0,
    .closer 0, .closer 0, .closer 0, .closer 0, .closer 0, .closer 0]

def joinedPoolOptions : ThreadPoolOptions :=
  { workersCount := 1, maxQueueSize := 1, rejectionPolicy := .callerRuns }

theorem thread_pool_exactly_once_and_drain_joined :
    ∃ ts s, (poolMachine joinedPoolOptions).exec (Pool.start joinedPoolOptions.setupThreads)
        joinedPoolTrace = some (ts, s) ∧
      history 0 ts = [.enqueued, .future, .started, .finished] ∧
      history 1 ts = [.started, .finished, .future] ∧
      history 2 ts = [.threw threadPoolStopped] ∧ (ts.map (·.output)).getLast? = some .joinReturned ∧
      (∀ c, .future ∈ history c ts →
        (history c ts).count .started + s.tasks.queue.queue.buffer.count c +
          s.tasks.workers.count (.holding c) = 1) ∧
      ∀ us t vs, ts = us ++ t :: vs → t.output = .joinReturned → t.after.poolState = .stopped := by
  refine ⟨_, _, rfl, rfl, rfl, rfl, rfl, ?_⟩
  have h : (poolMachine joinedPoolOptions).exec (Pool.start joinedPoolOptions.setupThreads)
    joinedPoolTrace = some (_, _) := rfl
  have all := thread_pool_exactly_once_and_drain joinedPoolOptions rfl (Machine.Run.of_exec h)
  refine ⟨fun c future => (all.1 c future).1, ?_⟩
  intro us t vs split returned
  exact (all.2.2.2.1 us t vs split returned).1

end Rtl.Stp
