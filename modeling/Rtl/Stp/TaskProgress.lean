import Rtl.Stp.TaskLedger

/-! # Progress of put calls and workers

As long as a put call is in progress or a worker has not exited, some thread can
take a step: calls made by running callables are nested along growing numbers, so
a call that waits for an inner one leads to one that does not. Once the queue is
closed every step uses up some of a finite amount of work.
-/

namespace Rtl.Stp

open Rtl.Base

namespace Tasks

variable {s t : Tasks} {notes : List Note} {policy : RejectionPolicy}

/-! ## Invariant -/

structure Inv (s : Tasks) : Prop where
  takers : Takers s.queue.notEmpty s.workers
  producers : ∀ c, (s.queue.notFull.waiting.map (·.item)).count c =
    s.calls.countP (·.isAt c .queued)
  drained : .exited ∈ s.workers → s.queue.queue.state = .closing ∧ s.queue.queue.buffer = []
  fresh : ∀ k ∈ s.calls, k.task < s.nextTask
  nested : ∀ k ∈ s.calls, ∀ c, k.caller = .task c → c < k.task

theorem Producing.frame {k : PutCall} {q : QueueState (List Nat) Nat Nat} (h : s.Producing k q) :
    k ∈ s.calls ∧ q.notFull.rank ≤ s.queue.notFull.rank ∧
      q = { s.queue with notFull := q.notFull } := by
  cases h with
  | loaded mem phase => exact ⟨mem, Nat.le_refl _, rfl⟩
  | resumed mem phase item hr => exact ⟨mem, Nat.le_of_lt (CondVar.rank_resume hr), rfl⟩

theorem Taking.frame {w : Nat} {q : QueueState (List Nat) Nat Nat} (h : s.Taking w q) :
    q.notEmpty.rank ≤ s.queue.notEmpty.rank ∧ q = { s.queue with notEmpty := q.notEmpty } := by
  cases h with
  | looping _ => exact ⟨Nat.le_refl _, rfl⟩
  | resumed _ hr => exact ⟨Nat.le_of_lt (CondVar.rank_resume hr), rfl⟩

/-- The part of the queue that only `close` changes, and the number of workers. -/
theorem Step.frame (h : s.Step t notes) :
    t.queue.queue.state = s.queue.queue.state ∧
    t.queue.closingNotEmpty = s.queue.closingNotEmpty ∧
    t.queue.closingNotFull = s.queue.closingNotFull ∧
    t.workers.length = s.workers.length := by
  cases h with
  | push pick producing opened =>
      rw [producing.frame.2.2]
      exact ⟨rfl, rfl, rfl, rfl⟩
  | block timed producing opened =>
      rw [producing.frame.2.2]
      exact ⟨rfl, rfl, rfl, rfl⟩
  | refuse error producing =>
      rw [producing.frame.2.2]
      exact ⟨rfl, rfl, rfl, rfl⟩
  | inline producing opened =>
      rw [producing.frame.2.2]
      exact ⟨rfl, rfl, rfl, rfl⟩
  | finishInline mem phase => exact ⟨rfl, rfl, rfl, rfl⟩
  | pop taking hb =>
      rw [taking.frame.2]
      exact ⟨rfl, rfl, rfl, List.length_set⟩
  | exit taking closing empty =>
      rw [taking.frame.2]
      exact ⟨rfl, rfl, rfl, List.length_set⟩
  | timeout taking opened =>
      rw [taking.frame.2]
      exact ⟨rfl, rfl, rfl, List.length_set⟩
  | wait taking opened =>
      rw [taking.frame.2]
      exact ⟨rfl, rfl, rfl, List.length_set⟩
  | producerWakes hw => exact ⟨rfl, rfl, rfl, rfl⟩
  | takerWakes hw => exact ⟨rfl, rfl, rfl, rfl⟩
  | notifyNotFull pick owed => exact ⟨rfl, rfl, rfl, rfl⟩
  | start holding => exact ⟨rfl, rfl, rfl, List.length_set⟩
  | finish running => exact ⟨rfl, rfl, rfl, List.length_set⟩

/-- A worker that has exited stays so. -/
theorem Step.exited (h : s.Step t notes) (takers : Takers s.queue.notEmpty s.workers) {i : Nat}
    (hi : s.workers[i]? = some .exited) : t.workers[i]? = some .exited := by
  have other : ∀ {w : Nat} {pc : WorkerPc} (pc' : WorkerPc), s.workers[w]? = some pc →
      pc ≠ .exited → (s.workers.set w pc')[i]? = some .exited := by
    intro w pc pc' hw ne
    have differ : w ≠ i := by
      intro same
      rw [same, hi] at hw
      exact ne (Option.some.inj hw).symm
    rw [List.getElem?_set_ne differ]
    exact hi
  have idle : ∀ {w : Nat} {q : QueueState (List Nat) Nat Nat} (pc : WorkerPc), s.Taking w q →
      (s.workers.set w pc)[i]? = some .exited := by
    intro w q pc taking
    rcases taking.pc takers with h | h
    · exact other pc h (by decide)
    · exact other pc h (by decide)
  cases h with
  | push pick producing opened => exact hi
  | block timed producing opened => exact hi
  | refuse error producing => exact hi
  | inline producing opened => exact hi
  | finishInline mem phase => exact hi
  | pop taking hb => exact idle _ taking
  | exit taking closing empty => exact idle _ taking
  | timeout taking opened => exact idle _ taking
  | wait taking opened => exact idle _ taking
  | producerWakes hw => exact hi
  | takerWakes hw => exact hi
  | notifyNotFull pick owed => exact hi
  | start holding => exact other _ holding (by simp)
  | finish running => exact other _ running (by simp)

/-- The wait set without the producer that holds the mutex, against the calls
without it. -/
theorem Producing.producers {k : PutCall} {q : QueueState (List Nat) Nat Nat}
    (h : s.Producing k q) (inv : s.Inv) (c : Nat) :
    (q.notFull.waiting.map (·.item)).count c = (s.calls.erase k).countP (·.isAt c .queued) := by
  have balance := inv.producers c
  cases h with
  | loaded mem phase =>
      rw [balance, List.countP_erase]
      simp [PutCall.isAt, phase]
  | @resumed cause j p cv mem phase item hr =>
      have perm := (CondVar.resume_spec hr).2.1
      rw [(perm.map _).count_eq, List.map_cons, List.count_cons, item] at balance
      rw [List.countP_erase]
      have positive : k.isAt c .queued = true → 0 < s.calls.countP (·.isAt c .queued) := by
        intro queued
        exact List.countP_pos_iff.mpr ⟨k, mem, queued⟩
      by_cases same : k.task = c
      · simp [PutCall.isAt, phase, same, mem] at balance positive ⊢
        omega
      · simp [PutCall.isAt, phase, same] at balance ⊢
        omega

theorem Step.producers (h : s.Step t notes) (inv : s.Inv) (c : Nat) :
    (t.queue.notFull.waiting.map (·.item)).count c = t.calls.countP (·.isAt c .queued) := by
  cases h with
  | push pick producing opened => exact producing.producers inv c
  | @block k q timed producing opened =>
      have perm := q.notFull.park_waiting ⟨k.task, timed⟩
      rw [(perm.map _).count_eq, List.map_cons, List.count_cons, producing.producers inv c,
        List.countP_cons]
      simp [PutCall.isAt]
  | refuse error producing => exact producing.producers inv c
  | inline producing opened =>
      rw [producing.producers inv c, List.countP_cons]
      simp [PutCall.isAt]
  | finishInline mem phase =>
      rw [inv.producers c, List.countP_erase]
      simp [PutCall.isAt, phase]
  | pop taking hb =>
      rw [taking.frame.2]
      exact inv.producers c
  | exit taking closing empty =>
      rw [taking.frame.2]
      exact inv.producers c
  | timeout taking opened =>
      rw [taking.frame.2]
      exact inv.producers c
  | wait taking opened =>
      rw [taking.frame.2]
      exact inv.producers c
  | producerWakes hw =>
      rw [((CondVar.wake_waiting hw).map _).count_eq]
      exact inv.producers c
  | takerWakes hw => exact inv.producers c
  | notifyNotFull pick owed =>
      rw [((s.queue.notFull.notifyOne_waiting pick).map _).count_eq]
      exact inv.producers c
  | start holding => exact inv.producers c
  | finish running => exact inv.producers c

/-- An exited worker saw a closed and empty queue, and such a queue stays so. -/
theorem Step.drained (h : s.Step t notes) (inv : s.Inv) (exited : .exited ∈ t.workers) :
    t.queue.queue.state = .closing ∧ t.queue.queue.buffer = [] := by
  have before : ∀ {w : Nat} {pc : WorkerPc}, pc ≠ .exited → .exited ∈ s.workers.set w pc →
      s.queue.queue.state = .closing ∧ s.queue.queue.buffer = [] := by
    intro w pc ne mem
    rcases List.mem_or_eq_of_mem_set mem with old | new
    · exact inv.drained old
    · exact absurd new.symm ne
  cases h with
  | push pick producing opened =>
      have closing := (inv.drained exited).1
      rw [producing.frame.2.2] at opened
      rw [show s.queue.queue.state = .opened from opened] at closing
      cases closing
  | block timed producing opened =>
      rw [producing.frame.2.2]
      exact inv.drained exited
  | refuse error producing =>
      rw [producing.frame.2.2]
      exact inv.drained exited
  | inline producing opened =>
      rw [producing.frame.2.2]
      exact inv.drained exited
  | finishInline mem phase => exact inv.drained exited
  | pop taking hb =>
      have empty := (before (by simp) exited).2
      rw [taking.frame.2] at hb
      rw [show s.queue.queue.buffer = _ from hb] at empty
      cases empty
  | exit taking closing empty => exact ⟨closing, empty⟩
  | timeout taking opened =>
      rw [taking.frame.2]
      exact before (by decide) exited
  | wait taking opened =>
      rw [taking.frame.2]
      exact before (by decide) exited
  | producerWakes hw => exact inv.drained exited
  | takerWakes hw => exact inv.drained exited
  | notifyNotFull pick owed => exact inv.drained exited
  | start holding => exact before (by simp) exited
  | finish running => exact before (by decide) exited

/-- The calls after a step are calls from before, perhaps in another phase. -/
theorem Step.calls (h : s.Step t notes) :
    t.nextTask = s.nextTask ∧
    ∀ k ∈ t.calls, ∃ k' ∈ s.calls, k'.task = k.task ∧ k'.caller = k.caller := by
  have kept : ∀ k ∈ s.calls, ∃ k' ∈ s.calls, k'.task = k.task ∧ k'.caller = k.caller :=
    fun k hk => ⟨k, hk, rfl, rfl⟩
  have erased : ∀ {j : PutCall}, ∀ k ∈ s.calls.erase j,
      ∃ k' ∈ s.calls, k'.task = k.task ∧ k'.caller = k.caller :=
    fun k hk => kept k (List.mem_of_mem_erase hk)
  have renamed : ∀ {j : PutCall} {phase : PutPhase}, j ∈ s.calls →
      ∀ k ∈ { j with phase := phase } :: s.calls.erase j,
        ∃ k' ∈ s.calls, k'.task = k.task ∧ k'.caller = k.caller := by
    intro j phase mem k hk
    rcases List.mem_cons.mp hk with rfl | old
    · exact ⟨j, mem, rfl, rfl⟩
    · exact erased k old
  cases h with
  | push pick producing opened => exact ⟨rfl, erased⟩
  | block timed producing opened => exact ⟨rfl, renamed producing.frame.1⟩
  | refuse error producing => exact ⟨rfl, erased⟩
  | inline producing opened => exact ⟨rfl, renamed producing.frame.1⟩
  | finishInline mem phase => exact ⟨rfl, erased⟩
  | pop taking hb => exact ⟨rfl, kept⟩
  | exit taking closing empty => exact ⟨rfl, kept⟩
  | timeout taking opened => exact ⟨rfl, kept⟩
  | wait taking opened => exact ⟨rfl, kept⟩
  | producerWakes hw => exact ⟨rfl, kept⟩
  | takerWakes hw => exact ⟨rfl, kept⟩
  | notifyNotFull pick owed => exact ⟨rfl, kept⟩
  | start holding => exact ⟨rfl, kept⟩
  | finish running => exact ⟨rfl, kept⟩

theorem Step.inv (h : s.Step t notes) (inv : s.Inv) : t.Inv := by
  obtain ⟨sameNext, origin⟩ := h.calls
  constructor
  · exact h.takers inv.takers
  · exact h.producers inv
  · exact h.drained inv
  · intro k hk
    obtain ⟨k', mem, task, _⟩ := origin k hk
    rw [sameNext, ← task]
    exact inv.fresh k' mem
  · intro k hk c caller
    obtain ⟨k', mem, task, sameCaller⟩ := origin k hk
    rw [← task]
    exact inv.nested k' mem c (sameCaller.trans caller)

/-- A running callable has a number already, so calls it makes get larger ones. -/
theorem caller_born {c : Nat} (born : ∀ x ∈ s.tokens, x.1 < s.nextTask)
    (may : s.mayCall (.task c) = true) : c < s.nextTask := by
  simp only [mayCall, Bool.and_eq_true, Bool.or_eq_true, List.contains_iff_mem, List.any_eq_true]
    at may
  rcases may.1 with running | ⟨k, mem, inline⟩
  · obtain ⟨w, hw⟩ := List.mem_iff_getElem?.mp running
    have token := workerTokens_set .looping hw
    apply born (c, .running)
    simp only [WorkerPc.tokens, zero_add] at token
    simp [tokens, ← token]
  · obtain ⟨rfl, phase⟩ := isAt_eq_true.mp inline
    apply born (k.task, .inline)
    simp [tokens, callTokens_erase mem, PutCall.tokens, phase]

theorem put_inv {caller : Caller} {running : Bool} (inv : s.Inv)
    (born : ∀ x ∈ s.tokens, x.1 < s.nextTask) (h : s.put caller running = some (t, notes)) :
    t.Inv := by
  simp only [put] at h
  by_cases may : s.mayCall caller = true
  · rw [if_pos may] at h
    cases running with
    | true =>
        cases h
        constructor
        · exact inv.takers
        · intro c
          rw [inv.producers c, List.countP_cons]
          simp [PutCall.isAt]
        · exact inv.drained
        · intro k hk
          rcases List.mem_cons.mp hk with rfl | old
          · exact Nat.lt_succ_self _
          · exact Nat.lt_succ_of_lt (inv.fresh k old)
        · intro k hk c hc
          rcases List.mem_cons.mp hk with rfl | old
          · apply caller_born born
            rw [show caller = .task c from hc] at may
            exact may
          · exact inv.nested k old c hc
    | false =>
        cases h
        refine ⟨inv.takers, inv.producers, inv.drained, ?_, inv.nested⟩
        intro k hk
        exact Nat.lt_succ_of_lt (inv.fresh k hk)
  · rw [if_neg may] at h
    cases h

/-! ## Work left -/

/-- The steps a worker takes until its next look at the queue. -/
def weight : WorkerPc → Nat
  | .looping => 1
  | .taking => 1
  | .holding _ => 3
  | .running _ => 2
  | .exited => 0

/-- A bound on the steps until every thread is done, for a closed queue: a queued
callable costs a pop with its notification, a start and a finish. -/
def work (s : Tasks) : Nat :=
  s.calls.length + s.queue.notFull.rank + s.queue.notEmpty.rank + 4 * s.queue.queue.buffer.length +
    s.queue.owedNotFull + (s.workers.map weight).sum

theorem Taking.weight {w : Nat} {q : QueueState (List Nat) Nat Nat} (h : s.Taking w q)
    (takers : Takers s.queue.notEmpty s.workers) (pc : WorkerPc) :
    1 + ((s.workers.set w pc).map weight).sum = Tasks.weight pc + (s.workers.map weight).sum := by
  rcases h.pc takers with idle | idle
  · exact sum_map_set Tasks.weight pc idle
  · exact sum_map_set Tasks.weight pc idle

theorem Step.work_lt (h : s.Step t notes) (takers : Takers s.queue.notEmpty s.workers)
    (closing : s.queue.queue.state = .closing) : t.work < s.work := by
  have shut : ∀ {q : QueueState (List Nat) Nat Nat}, q.queue = s.queue.queue →
      q.queue.state = .opened → False := by
    intro q same opened
    rw [same, closing] at opened
    cases opened
  cases h with
  | push pick producing opened => exact (shut producing.same.1 opened).elim
  | block timed producing opened => exact (shut producing.same.1 opened).elim
  | inline producing opened => exact (shut producing.same.1 opened).elim
  | timeout taking opened => exact (shut taking.same.1 opened).elim
  | wait taking opened => exact (shut taking.same.1 opened).elim
  | @refuse k q error producing =>
      obtain ⟨mem, rank, same⟩ := producing.frame
      have fewer := List.length_erase_of_mem mem
      have some := List.length_pos_of_mem mem
      rw [same]
      simp only [work] at *
      omega
  | finishInline mem phase =>
      have fewer := List.length_erase_of_mem mem
      have some := List.length_pos_of_mem mem
      simp only [work] at *
      omega
  | @pop w x rest q taking hb =>
      have swap := taking.weight takers (.holding x)
      obtain ⟨rank, same⟩ := taking.frame
      rw [taking.same.1] at hb
      rw [same]
      simp only [work, popped, hb, List.length_cons, weight] at *
      omega
  | @exit w q taking _ _ =>
      have swap := taking.weight takers .exited
      obtain ⟨rank, same⟩ := taking.frame
      rw [same]
      simp only [work, weight] at *
      omega
  | producerWakes hw =>
      have rank := CondVar.rank_wake hw
      simp only [work]
      omega
  | takerWakes hw =>
      have rank := CondVar.rank_wake hw
      simp only [work]
      omega
  | notifyNotFull pick owed =>
      have rank := s.queue.notFull.rank_notifyOne pick
      simp only [work]
      omega
  | @start w c holding =>
      have swap := sum_map_set weight (.running c) holding
      simp only [work, weight] at *
      omega
  | @finish w c running =>
      have swap := sum_map_set weight .looping running
      simp only [work, weight] at *
      omega

/-! ## Some thread can go on -/

def CanStep (policy : RejectionPolicy) (s : Tasks) : Prop := ∃ e, (s.next policy e).isSome = true

theorem find_of_isAt {k : PutCall} {c : Nat} {phase : PutPhase} (mem : k ∈ s.calls)
    (is : k.isAt c phase = true) : ∃ k', s.calls.find? (·.isAt c phase) = some k' := by
  rw [← Option.isSome_iff_exists, List.find?_isSome]
  exact ⟨k, mem, is⟩

theorem canStep_of_loaded {k : PutCall} (mem : k ∈ s.calls) (phase : k.phase = .loaded) :
    s.CanStep policy := by
  obtain ⟨k', found⟩ := find_of_isAt mem (isAt_eq_true.mpr ⟨rfl, phase⟩)
  obtain ⟨timed, a, _, hq⟩ := putEvent_next policy s.queue k.task 0
  refine ⟨.submit k.task 0, ?_⟩
  simp only [next, found, hq, Option.map_some]
  rfl

theorem canStep_of_queued (inv : s.Inv) {k : PutCall} (mem : k ∈ s.calls)
    (phase : k.phase = .queued) : s.CanStep policy := by
  have is : k.isAt k.task .queued = true := isAt_eq_true.mpr ⟨rfl, phase⟩
  have parked : 0 < (s.queue.notFull.waiting.map (·.item)).count k.task := by
    rw [inv.producers]
    exact List.countP_pos_iff.mpr ⟨k, mem, is⟩
  obtain ⟨p, waits, item⟩ := List.mem_map.mp (List.count_pos_iff.mp parked)
  rcases CondVar.enabled_of_waiting waits with ⟨j, cv, hw⟩ | ⟨cause, j, cv, hr⟩
  · refine ⟨.producerWakes j, ?_⟩
    simp only [next, queueStep, QueueState.next, hw, Option.map_some]
    rfl
  · obtain ⟨k', found⟩ := find_of_isAt mem is
    refine ⟨.producerResumes cause j false 0, ?_⟩
    rw [← item] at found
    simp only [next, QueueState.next, hr, found, Option.map_some]
    rfl

/-- By induction on how far the call's number is from the next one: an inline run
that waits for a call of its own leads to that call. -/
theorem canStep_of_call (inv : s.Inv) {k : PutCall} (mem : k ∈ s.calls) : s.CanStep policy := by
  induction h : s.nextTask - k.task using Nat.strongRecOn generalizing k with
  | _ n ih =>
      cases phase : k.phase with
      | loaded => exact canStep_of_loaded mem phase
      | queued => exact canStep_of_queued inv mem phase
      | inline =>
          by_cases calling : s.calling k.task = true
          · obtain ⟨inner, innerMem, caller⟩ := List.any_eq_true.mp calling
            have larger := inv.nested inner innerMem k.task (by simpa using caller)
            have fresh := inv.fresh inner innerMem
            exact ih (s.nextTask - inner.task) (by omega) innerMem rfl
          · obtain ⟨k', found⟩ := find_of_isAt mem (isAt_eq_true.mpr ⟨rfl, phase⟩)
            refine ⟨.finishInline k.task, ?_⟩
            simp only [next, found, calling, Bool.false_eq_true, if_false]
            rfl

theorem consume_tryTake (q : QueueState (List Nat) Nat Nat) (w : Nat) (r : Queue.Removal)
    (ways : r = .pop → q.queue.buffer ≠ []) :
    ∃ r', q.consume (dequeOps Nat).toContainer ⟨w, false⟩ r = some r' := by
  cases r with
  | pop =>
      cases hb : q.queue.buffer with
      | nil => exact absurd hb (ways rfl)
      | cons x rest =>
          simp only [QueueState.consume, hb]
          exact ⟨_, rfl⟩
  | wait => exact ⟨_, rfl⟩
  | result code => exact ⟨_, rfl⟩

theorem nonempty_of_pop {b : List Nat} (h : (dequeOps Nat).empty b = false) : b ≠ [] := by
  rintro rfl
  cases h

theorem canStep_of_looping {w : Nat} (looping : s.workers[w]? = some .looping) :
    s.CanStep policy := by
  have ways : s.queue.queue.tryTake (dequeOps Nat).toContainer = .pop → s.queue.queue.buffer ≠ [] := by
    intro hp
    rcases Queue.tryTake_cases _ hp with ⟨_, some⟩ | ⟨h, _⟩ | ⟨h, _⟩
    · exact nonempty_of_pop some
    · cases h
    · cases h
  obtain ⟨r, hr⟩ := consume_tryTake s.queue w _ ways
  refine ⟨.take w, ?_⟩
  simp only [next, looping, if_true, QueueState.next, hr, Option.map_some]
  rfl

theorem canStep_of_taking (inv : s.Inv) {w : Nat} (taking : s.workers[w]? = some .taking) :
    s.CanStep policy := by
  obtain ⟨t, mem, who⟩ := List.mem_map.mp (inv.takers.seated.mem_of_pc taking)
  have undeprecated := inv.takers.tryTakers t mem
  rcases CondVar.enabled_of_waiting mem with ⟨j, cv, hw⟩ | ⟨cause, j, cv, hr⟩
  · refine ⟨.takerWakes j, ?_⟩
    simp only [next, queueStep, QueueState.next, hw, Option.map_some]
    rfl
  · have ways : s.queue.queue.tryTakeResumed (dequeOps Nat).toContainer false = .pop →
        s.queue.queue.buffer ≠ [] := by
      intro hp
      rcases Queue.tryTakeResumed_cases false _ hp with ⟨_, some⟩ | ⟨h, _⟩ | ⟨h | h, _⟩
      · exact nonempty_of_pop some
      · cases h
      · cases h
      · cases h
    obtain ⟨r, hc⟩ := consume_tryTake { s.queue with notEmpty := cv } t.who _ ways
    refine ⟨.takerResumes cause j false, ?_⟩
    have same : t = ⟨t.who, false⟩ := by rw [← undeprecated]
    rw [same] at hr
    simp only [next, hr, QueueState.next, Bool.false_eq_true, if_false, hc, Option.map_some]
    rfl

/-- A put call in progress or a worker that has not exited is never stuck for good. -/
theorem canStep (policy : RejectionPolicy) (inv : s.Inv) (busy : s.calls ≠ [] ∨ ∃ pc ∈ s.workers, pc ≠ .exited) :
    s.CanStep policy := by
  by_cases calls : s.calls = []
  · obtain ⟨pc, mem, ne⟩ := busy.resolve_left fun h => h calls
    obtain ⟨w, hw⟩ := List.mem_iff_getElem?.mp mem
    cases pc with
    | looping => exact canStep_of_looping hw
    | taking => exact canStep_of_taking inv hw
    | holding c =>
        refine ⟨.start w, ?_⟩
        simp only [next, hw]
        rfl
    | running c =>
        refine ⟨.finish w, ?_⟩
        simp only [next, hw, calling, calls, List.any_nil, Bool.false_eq_true, if_false]
        rfl
    | exited => exact absurd rfl ne
  · obtain ⟨k, mem⟩ := List.exists_mem_of_ne_nil _ calls
    exact canStep_of_call inv mem

/-! ## What is in the buffer can be taken -/

structure Taken (w c : Nat) (rest : List Nat) (s : Tasks) : Prop where
  holding : s.workers[w]? = some (.holding c)
  buffer : s.queue.queue.buffer = rest

theorem taken_of_looping (policy : RejectionPolicy) {w c : Nat} {rest : List Nat}
    (looping : s.workers[w]? = some .looping) (buffer : s.queue.queue.buffer = c :: rest) :
    ∃ t notes, s.next policy (.take w) = some (t, notes) ∧ Taken w c rest t := by
  have inside := (List.getElem?_eq_some_iff.mp looping).1
  have decided : s.queue.queue.tryTake (dequeOps Nat).toContainer = .pop := by
    simp [Queue.tryTake, buffer, dequeOps, frontPopping]
  simp only [next, looping, if_true, QueueState.next, decided, QueueState.consume, buffer]
  exact ⟨_, _, rfl, List.getElem?_set_self inside, rfl⟩

theorem taken_of_resume (policy : RejectionPolicy) {w c : Nat} {rest : List Nat} {cause : Cause} {j : Nat}
    {cv : CondVar (Taker Nat)} (inside : w < s.workers.length)
    (resumes : s.queue.notEmpty.resume cause j = some (⟨w, false⟩, cv))
    (buffer : s.queue.queue.buffer = c :: rest) :
    ∃ t notes, s.next policy (.takerResumes cause j false) = some (t, notes) ∧ Taken w c rest t := by
  have decided : s.queue.queue.tryTakeResumed (dequeOps Nat).toContainer false = .pop := by
    simp [Queue.tryTakeResumed, Queue.notEmptyPredicate, buffer, dequeOps, frontPopping]
  simp only [next, QueueState.next, resumes, Bool.false_eq_true, if_false, decided, QueueState.consume,
    buffer]
  exact ⟨_, _, rfl, List.getElem?_set_self inside, rfl⟩

/-- A worker inside `tryTake` takes the lock again, at once or after a time-out, and takes the head. -/
theorem taken_of_taking (policy : RejectionPolicy) (inv : s.Inv) {w c : Nat} {rest : List Nat}
    (taking : s.workers[w]? = some .taking) (buffer : s.queue.queue.buffer = c :: rest) :
    (∃ e t notes, s.next policy e = some (t, notes) ∧ Taken w c rest t) ∨
      ∃ k u notes, s.next policy (.takerWakes k) = some (u, notes) ∧
        ∃ e t notes, u.next policy e = some (t, notes) ∧ Taken w c rest t := by
  have inside := (List.getElem?_eq_some_iff.mp taking).1
  obtain ⟨t, mem, who⟩ := List.mem_map.mp (inv.takers.seated.mem_of_pc taking)
  have same : t = ⟨w, false⟩ := by rw [← inv.takers.tryTakers t mem, ← who]
  rw [same] at mem
  rcases CondVar.resumes_of_waiting mem with ⟨k, cv, wakes, j, cv', resumes⟩ | ⟨cause, j, cv, resumes⟩
  · have woken : s.next policy (.takerWakes k) =
        some ({ s with queue := { s.queue with notEmpty := cv } }, []) := by
      simp only [next, queueStep, QueueState.next, wakes, Option.map_some]
    exact .inr ⟨k, _, _, woken, _, taken_of_resume policy inside resumes buffer⟩
  · exact .inl ⟨_, taken_of_resume policy inside resumes buffer⟩

end Tasks

end Rtl.Stp
