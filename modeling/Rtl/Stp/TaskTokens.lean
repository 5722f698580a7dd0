import Rtl.Stp.Tasks
import Mathlib.Algebra.Order.Group.Multiset

/-! # Every callable is in one place

The steps of put calls, queue and workers are listed once. Then each callable that
has not come to its end is a token in exactly one place: a put call that has not
asked the queue yet, a blocked producer, an inline run, the buffer, or a worker. A
step moves at most one token, and the place of a token determines what has
happened to its callable so far.
-/

namespace Rtl.Stp

open Rtl.Base

namespace Tasks

/-! ## What a step can do -/

def pushed (q : QueueState (List Nat) Nat Nat) (x pick : Nat) : QueueState (List Nat) Nat Nat :=
  { q with
    queue := { q.queue with buffer := q.queue.buffer ++ [x] }
    notEmpty := q.notEmpty.notifyOne pick }

def popped (q : QueueState (List Nat) Nat Nat) (rest : List Nat) : QueueState (List Nat) Nat Nat :=
  { q with queue := { q.queue with buffer := rest }, owedNotFull := q.owedNotFull + 1 }

/-- The put call `k` holds the mutex of the queue, which without `k` is `q`. -/
inductive Producing (s : Tasks) (k : PutCall) : QueueState (List Nat) Nat Nat → Prop where
  | loaded : k ∈ s.calls → k.phase = .loaded → Producing s k s.queue
  | resumed {cause : Cause} {j : Nat} {p : Producer Nat} {cv : CondVar (Producer Nat)} :
      k ∈ s.calls → k.phase = .queued → p.item = k.task →
      s.queue.notFull.resume cause j = some (p, cv) → Producing s k { s.queue with notFull := cv }

/-- Worker `w` holds the mutex of the queue, which without `w` is `q`. -/
inductive Taking (s : Tasks) (w : Nat) : QueueState (List Nat) Nat Nat → Prop where
  | looping : s.workers[w]? = some .looping → Taking s w s.queue
  | resumed {cause : Cause} {j : Nat} {t : Taker Nat} {cv : CondVar (Taker Nat)} :
      t.who = w → s.queue.notEmpty.resume cause j = some (t, cv) →
      Taking s w { s.queue with notEmpty := cv }

inductive Step (s : Tasks) : Tasks → List Note → Prop where
  | push {k : PutCall} {q : QueueState (List Nat) Nat Nat} (pick : Nat) :
      s.Producing k q → q.queue.state = .opened →
      Step s { s with queue := pushed q k.task pick, calls := s.calls.erase k }
        [⟨k.task, .enqueued⟩, ⟨k.task, .future⟩]
  | block {k : PutCall} {q : QueueState (List Nat) Nat Nat} (timed : Bool) :
      s.Producing k q → q.queue.state = .opened →
      Step s { s with
        queue := { q with notFull := q.notFull.park ⟨k.task, timed⟩ }
        calls := { k with phase := .queued } :: s.calls.erase k } []
  | refuse {k : PutCall} {q : QueueState (List Nat) Nat Nat} (error : ThreadPoolError) :
      s.Producing k q →
      Step s { s with queue := q, calls := s.calls.erase k } [⟨k.task, .threw error⟩]
  | inline {k : PutCall} {q : QueueState (List Nat) Nat Nat} :
      s.Producing k q → q.queue.state = .opened →
      Step s { s with queue := q, calls := { k with phase := .inline } :: s.calls.erase k }
        [⟨k.task, .started⟩]
  | finishInline {k : PutCall} : k ∈ s.calls → k.phase = .inline →
      Step s { s with calls := s.calls.erase k } [⟨k.task, .finished⟩, ⟨k.task, .future⟩]
  | pop {w x : Nat} {rest : List Nat} {q : QueueState (List Nat) Nat Nat} :
      s.Taking w q → q.queue.buffer = x :: rest →
      Step s { s with queue := popped q rest, workers := s.workers.set w (.holding x) } []
  | exit {w : Nat} {q : QueueState (List Nat) Nat Nat} :
      s.Taking w q → q.queue.state = .closing → q.queue.buffer = [] →
      Step s { s with queue := q, workers := s.workers.set w .exited } []
  | timeout {w : Nat} {q : QueueState (List Nat) Nat Nat} :
      s.Taking w q → q.queue.state = .opened →
      Step s { s with queue := q, workers := s.workers.set w .looping } []
  | wait {w : Nat} {q : QueueState (List Nat) Nat Nat} :
      s.Taking w q → q.queue.state = .opened →
      Step s { s with
        queue := { q with notEmpty := q.notEmpty.park ⟨w, false⟩ }
        workers := s.workers.set w .taking } []
  | producerWakes {k : Nat} {cv : CondVar (Producer Nat)} : s.queue.notFull.wake k = some cv →
      Step s { s with queue := { s.queue with notFull := cv } } []
  | takerWakes {k : Nat} {cv : CondVar (Taker Nat)} : s.queue.notEmpty.wake k = some cv →
      Step s { s with queue := { s.queue with notEmpty := cv } } []
  | notifyNotFull (pick : Nat) : 0 < s.queue.owedNotFull →
      Step s { s with queue := { s.queue with
        notFull := s.queue.notFull.notifyOne pick
        owedNotFull := s.queue.owedNotFull - 1 } } []
  | start {w c : Nat} : s.workers[w]? = some (.holding c) →
      Step s { s with workers := s.workers.set w (.running c) } [⟨c, .started⟩]
  | finish {w c : Nat} : s.workers[w]? = some (.running c) →
      Step s { s with workers := s.workers.set w .looping } [⟨c, .finished⟩]

variable {s t : Tasks} {notes : List Note}

def decidedIn (state : ContainerState) : Queue.Admission → Prop
  | .push => state = .opened
  | .wait => state = .opened
  | .result .accepted => False
  | .result .full => state = .opened
  | .result _ => True

theorem continuePut_step {policy : RejectionPolicy} {k : PutCall} {p : Producer Nat} {pick : Nat}
    {q q' : QueueState (List Nat) Nat Nat} {a : Queue.Admission} {o : QueueOutput Nat Nat}
    (producing : s.Producing k q) (item : p.item = k.task) (decided : decidedIn q.queue.state a)
    (h : q.produce (dequeOps Nat).toContainer p pick a = (q', o))
    (hk : continuePut { s with queue := q', calls := s.calls.erase k } policy k o = (t, notes)) :
    s.Step t notes := by
  obtain ⟨x, timed⟩ := p
  cases item
  cases a with
  | push =>
      cases h
      simp only [continuePut, reduceCtorEq, and_false, if_false] at hk
      cases hk
      exact .push pick producing decided
  | wait =>
      cases h
      cases hk
      exact .block timed producing decided
  | result code =>
      cases h
      cases code with
      | accepted => exact decided.elim
      | closed =>
          simp only [continuePut, reduceCtorEq, and_false, if_false] at hk
          cases hk
          exact .refuse _ producing
      | timeout =>
          simp only [continuePut, reduceCtorEq, and_false, if_false] at hk
          cases hk
          exact .refuse _ producing
      | full =>
          by_cases inline : policy = .callerRuns
          · simp only [continuePut, inline, and_self, if_true] at hk
            cases hk
            exact .inline producing decided
          · simp only [continuePut, inline, false_and, if_false] at hk
            cases hk
            exact .refuse _ producing

theorem putWait_decidedIn {c : Container (List Nat) Nat} (q : Queue (List Nat)) :
    decidedIn q.state (q.putWait c) := by
  rcases Queue.putWait_cases (c := c) (q := q) _ rfl with ⟨hp, hs, _⟩ | ⟨hp, _⟩ | ⟨hp, hs, _⟩
  · rw [hp]
    exact hs
  · rw [hp]
    trivial
  · rw [hp]
    exact hs

theorem put_decidedIn {c : Container (List Nat) Nat} (q : Queue (List Nat)) :
    decidedIn q.state (q.put c) := by
  rcases Queue.put_cases (c := c) (q := q) _ rfl with ⟨hp, hs, _⟩ | ⟨hp, _⟩ | ⟨hp, hs, _⟩
  · rw [hp]
    exact hs
  · rw [hp]
    trivial
  · rw [hp]
    exact hs

theorem putWaitResumed_decidedIn {c : Container (List Nat) Nat} (q : Queue (List Nat))
    (timed timedOut : Bool) : decidedIn q.state (q.putWaitResumed c timed timedOut) := by
  rcases Queue.putWaitResumed_cases (c := c) (q := q) timed timedOut _ rfl with
    ⟨hp, hs, _⟩ | ⟨hp, _⟩ | ⟨hp | hp, hs, _⟩
  · rw [hp]
    exact hs
  · rw [hp]
    trivial
  · rw [hp]
    trivial
  · rw [hp]
    exact hs

/-- The call that `put` makes on the queue, whatever the policy. -/
theorem putEvent_next (policy : RejectionPolicy) (q : QueueState (List Nat) Nat Nat) (c pick : Nat) :
    ∃ timed a, decidedIn q.queue.state a ∧
      q.next (dequeOps Nat).toContainer (putEvent c pick policy) =
        some (q.produce (dequeOps Nat).toContainer ⟨c, timed⟩ pick a) := by
  cases policy with
  | throwException => exact ⟨false, _, put_decidedIn _, rfl⟩
  | block => exact ⟨false, _, putWait_decidedIn _, rfl⟩
  | blockFor => exact ⟨true, _, putWait_decidedIn _, rfl⟩
  | callerRuns => exact ⟨false, _, put_decidedIn _, rfl⟩

/-- The ways of a worker that holds the mutex. -/
theorem continueTake_step {w : Nat} {q q' : QueueState (List Nat) Nat Nat} {r : Queue.Removal}
    {o : QueueOutput Nat Nat} (taking : s.Taking w q)
    (ways : r = .pop ∨ (r = .result .closed ∧ q.queue.state = .closing ∧ q.queue.buffer = []) ∨
      ((r = .result .timeout ∨ r = .wait) ∧ q.queue.state = .opened))
    (h : q.consume (dequeOps Nat).toContainer ⟨w, false⟩ r = some (q', o)) :
    s.Step (continueTake { s with queue := q' } w o) [] := by
  rcases ways with rfl | ⟨rfl, closing, empty⟩ | ⟨rfl | rfl, opened⟩
  · simp only [QueueState.consume] at h
    cases hb : q.queue.buffer with
    | nil =>
        rw [hb] at h
        cases h
    | cons x rest =>
        rw [hb] at h
        cases h
        exact .pop taking hb
  · cases h
    exact .exit taking closing empty
  · cases h
    exact .timeout taking opened
  · cases h
    exact .wait taking opened

theorem isAt_eq_true {k : PutCall} {c : Nat} {phase : PutPhase} :
    k.isAt c phase = true ↔ k.task = c ∧ k.phase = phase := by
  simp [PutCall.isAt]

theorem find_isAt {c : Nat} {phase : PutPhase} {k : PutCall}
    (h : s.calls.find? (·.isAt c phase) = some k) :
    k ∈ s.calls ∧ k.task = c ∧ k.phase = phase := by
  have found := List.find?_some h
  exact ⟨List.mem_of_find?_eq_some h, isAt_eq_true.mp found⟩

/-- Inversion of `next`. The workers only use `tryTake`, so no taker is `deprecated`. -/
theorem next_step {policy : RejectionPolicy} {e : TaskEvent}
    (tryTakers : ∀ t ∈ s.queue.notEmpty.waiting, t.deprecated = false)
    (h : s.next policy e = some (t, notes)) : s.Step t notes := by
  cases e with
  | submit c pick =>
      simp only [next] at h
      cases hf : s.calls.find? (·.isAt c .loaded) with
      | none => simp [hf] at h
      | some k =>
          obtain ⟨mem, task, phase⟩ := find_isAt hf
          obtain ⟨timed, a, decided, hq⟩ := putEvent_next policy s.queue c pick
          simp only [hf, hq, Option.map_some, Option.some.injEq] at h
          exact continuePut_step (.loaded mem phase) task.symm decided rfl h
  | producerWakes k =>
      simp only [next, queueStep, Option.map_eq_some_iff, QueueState.next] at h
      obtain ⟨r, ⟨cv, hw, rfl⟩, h⟩ := h
      cases h
      exact .producerWakes hw
  | producerResumes cause k timedOut pick =>
      simp only [next] at h
      cases hr : s.queue.notFull.resume cause k with
      | none => simp [hr] at h
      | some r =>
          simp only [hr] at h
          cases hf : s.calls.find? (·.isAt r.1.item .queued) with
          | none => simp [hf] at h
          | some call =>
              obtain ⟨mem, task, phase⟩ := find_isAt hf
              simp only [hf, QueueState.next, hr, Option.map_some, Option.some.injEq] at h
              exact continuePut_step (.resumed mem phase task.symm hr) task.symm
                (putWaitResumed_decidedIn _ _ _) rfl h
  | finishInline c =>
      simp only [next] at h
      cases hf : s.calls.find? (·.isAt c .inline) with
      | none => simp [hf] at h
      | some k =>
          obtain ⟨mem, rfl, phase⟩ := find_isAt hf
          simp only [hf] at h
          split at h
          · cases h
          · cases h
            exact .finishInline mem phase
  | take w =>
      simp only [next] at h
      split at h
      · next looping =>
          simp only [Option.map_eq_some_iff] at h
          obtain ⟨r, hr, h⟩ := h
          cases h
          refine continueTake_step (.looping looping) ?_ hr
          rcases Queue.tryTake_cases _ rfl with ⟨hp, _⟩ | ⟨hp, closing, empty⟩ | ⟨hp, opened, _⟩
          · exact .inl hp
          · exact .inr (.inl ⟨hp, closing, List.isEmpty_iff.mp empty⟩)
          · exact .inr (.inr ⟨.inr hp, opened⟩)
      · cases h
  | takerWakes k =>
      simp only [next, queueStep, Option.map_eq_some_iff, QueueState.next] at h
      obtain ⟨r, ⟨cv, hw, rfl⟩, h⟩ := h
      cases h
      exact .takerWakes hw
  | takerResumes cause k timedOut =>
      simp only [next] at h
      cases hr : s.queue.notEmpty.resume cause k with
      | none => simp [hr] at h
      | some r =>
          obtain ⟨⟨who, deprecated⟩, cv⟩ := r
          have mem : ⟨who, deprecated⟩ ∈ s.queue.notEmpty.waiting :=
            (CondVar.resume_spec hr).2.1.mem_iff.mpr (by simp)
          have undeprecated := tryTakers _ mem
          simp only at undeprecated
          subst undeprecated
          simp only [hr, QueueState.next, Option.map_eq_some_iff] at h
          obtain ⟨r, hc, h⟩ := h
          cases h
          refine continueTake_step (.resumed rfl hr) ?_ hc
          rcases Queue.tryTakeResumed_cases timedOut _ rfl with
            ⟨hp, _⟩ | ⟨hp, closing, empty⟩ | ⟨hp, opened, _⟩
          · exact .inl hp
          · exact .inr (.inl ⟨hp, closing, List.isEmpty_iff.mp empty⟩)
          · exact .inr (.inr ⟨hp, opened⟩)
  | notifyNotFull pick =>
      simp only [next, queueStep, QueueState.next, Option.map_eq_some_iff] at h
      obtain ⟨r, hr, h⟩ := h
      split at hr
      · cases hr
      · cases hr
        cases h
        exact .notifyNotFull pick (by omega)
  | start w =>
      simp only [next] at h
      split at h
      · next holding =>
          cases h
          exact .start holding
      · cases h
  | finish w =>
      simp only [next] at h
      split at h
      · next running =>
          split at h
          · cases h
          · cases h
            exact .finish running
      · cases h

end Tasks

/-! ## Tokens -/

inductive Spot where
  | loaded
  | blocked
  | inline
  | buffered
  | held
  | running
  deriving Repr, DecidableEq

def Spot.notes : Spot → List NoteKind
  | .loaded => []
  | .blocked => []
  | .inline => [.started]
  | .buffered => [.enqueued, .future]
  | .held => [.enqueued, .future]
  | .running => [.enqueued, .future, .started]

/-- The complete histories: an exception and nothing else, a run by a worker, or
a run by the caller. -/
def Settled (kinds : List NoteKind) : Prop :=
  (∃ error, kinds = [.threw error]) ∨ kinds = [.enqueued, .future, .started, .finished] ∨
    kinds = [.started, .finished, .future]

/-- A blocked call is counted in the wait set of the queue instead. -/
def PutCall.tokens (k : PutCall) : Multiset (Nat × Spot) :=
  match k.phase with
  | .loaded => {(k.task, .loaded)}
  | .queued => 0
  | .inline => {(k.task, .inline)}

def WorkerPc.tokens : WorkerPc → Multiset (Nat × Spot)
  | .holding c => {(c, .held)}
  | .running c => {(c, .running)}
  | _ => 0

namespace Tasks

def callTokens (calls : List PutCall) : Multiset (Nat × Spot) := (calls.map PutCall.tokens).sum

def producerTokens (cv : CondVar (Producer Nat)) : Multiset (Nat × Spot) :=
  cv.waiting.map fun p => (p.item, Spot.blocked)

def bufferTokens (buffer : List Nat) : Multiset (Nat × Spot) :=
  buffer.map fun c => (c, Spot.buffered)

def workerTokens (workers : List WorkerPc) : Multiset (Nat × Spot) :=
  (workers.map WorkerPc.tokens).sum

def tokens (s : Tasks) : Multiset (Nat × Spot) :=
  callTokens s.calls + producerTokens s.queue.notFull + bufferTokens s.queue.queue.buffer +
    workerTokens s.workers

theorem callTokens_cons (k : PutCall) (calls : List PutCall) :
    callTokens (k :: calls) = k.tokens + callTokens calls := by
  simp [callTokens]

theorem callTokens_erase {k : PutCall} {calls : List PutCall} (mem : k ∈ calls) :
    callTokens calls = k.tokens + callTokens (calls.erase k) :=
  (List.sum_map_erase PutCall.tokens mem).symm

theorem producerTokens_perm {cv cv' : CondVar (Producer Nat)} (h : cv'.waiting.Perm cv.waiting) :
    producerTokens cv' = producerTokens cv :=
  Multiset.coe_eq_coe.mpr (h.map _)

theorem producerTokens_cons {cv cv' : CondVar (Producer Nat)} {p : Producer Nat}
    (h : cv.waiting.Perm (p :: cv'.waiting)) :
    producerTokens cv = {(p.item, .blocked)} + producerTokens cv' :=
  Multiset.coe_eq_coe.mpr (h.map _)

theorem bufferTokens_snoc (buffer : List Nat) (x : Nat) :
    bufferTokens (buffer ++ [x]) = {(x, .buffered)} + bufferTokens buffer := by
  rw [add_comm]
  simp [bufferTokens, ← Multiset.coe_add]

theorem workerTokens_set {workers : List WorkerPc} {w : Nat} {pc : WorkerPc} (pc' : WorkerPc)
    (h : workers[w]? = some pc) :
    pc.tokens + workerTokens (workers.set w pc') = pc'.tokens + workerTokens workers :=
  sum_map_set WorkerPc.tokens pc' h

/-! ## What a step does to the tokens -/

variable {s t : Tasks} {notes : List Note}

/-- Every taker in the wait set is a worker inside `tryTake`, and every such
worker is there once. -/
structure Takers (cv : CondVar (Taker Nat)) (workers : List WorkerPc) : Prop where
  tryTakers : ∀ t ∈ cv.waiting, t.deprecated = false
  seated : Seated (cv.waiting.map (·.who)) workers .taking

theorem Takers.taking_of_mem {cv : CondVar (Taker Nat)} {workers : List WorkerPc} {t : Taker Nat}
    {w : Nat} (takers : Takers cv workers) (mem : t ∈ cv.waiting) (who : t.who = w) :
    workers[w]? = some .taking := by
  rw [← who]
  exact takers.seated.pc_of_mem (List.mem_map_of_mem mem)

/-- At most one token is born, moved or taken away, and the notes of the step are
about it: they lead from the notes of the old spot to those of the new one. -/
inductive Effect (s t : Tasks) : List Note → Prop where
  | still : t.tokens = s.tokens → t.nextTask = s.nextTask → Effect s t []
  | refused : t.tokens = s.tokens → t.nextTask = s.nextTask + 1 →
      Effect s t [⟨s.nextTask, .threw threadPoolStopped⟩]
  | born : t.tokens = {(s.nextTask, .loaded)} + s.tokens → t.nextTask = s.nextTask + 1 →
      Effect s t []
  | moved (c : Nat) (σ σ' : Spot) (rest : Multiset (Nat × Spot)) (kinds : List NoteKind) :
      s.tokens = {(c, σ)} + rest → t.tokens = {(c, σ')} + rest → t.nextTask = s.nextTask →
      σ'.notes = σ.notes ++ kinds → Effect s t (kinds.map (Note.mk c))
  | left (c : Nat) (σ : Spot) (kinds : List NoteKind) :
      s.tokens = {(c, σ)} + t.tokens → t.nextTask = s.nextTask →
      Settled (σ.notes ++ kinds) → Effect s t (kinds.map (Note.mk c))

theorem put_effect {caller : Caller} {running : Bool} (h : s.put caller running = some (t, notes)) :
    Effect s t notes := by
  simp only [put] at h
  split at h
  · cases running with
    | true =>
        cases h
        refine .born ?_ rfl
        simp only [tokens, callTokens_cons, PutCall.tokens]
        abel
    | false =>
        cases h
        exact .refused rfl rfl
  · cases h

/-- A producer's token before it holds the mutex. -/
theorem producing_tokens {k : PutCall} {q : QueueState (List Nat) Nat Nat} (h : s.Producing k q) :
    ∃ σ : Spot, σ.notes = [] ∧
      s.tokens = {(k.task, σ)} + { s with queue := q, calls := s.calls.erase k }.tokens := by
  cases h with
  | loaded mem phase =>
      refine ⟨.loaded, rfl, ?_⟩
      simp only [tokens, callTokens_erase mem, PutCall.tokens, phase]
      abel
  | resumed mem phase item hr =>
      refine ⟨.blocked, rfl, ?_⟩
      have waits := producerTokens_cons (CondVar.resume_spec hr).2.1
      simp only [tokens, callTokens_erase mem, PutCall.tokens, phase, waits, item]
      abel

theorem Taking.same {w : Nat} {q : QueueState (List Nat) Nat Nat} (h : s.Taking w q) :
    q.queue = s.queue.queue ∧ q.notFull = s.queue.notFull := by
  cases h with
  | looping _ => exact ⟨rfl, rfl⟩
  | resumed _ _ => exact ⟨rfl, rfl⟩

theorem Taking.pc {w : Nat} {q : QueueState (List Nat) Nat Nat} (h : s.Taking w q)
    (takers : Takers s.queue.notEmpty s.workers) : s.workers[w]? = some .looping ∨ s.workers[w]? = some .taking := by
  cases h with
  | looping looping => exact .inl looping
  | resumed who hr =>
      have mem := (CondVar.resume_spec hr).2.1.mem_iff.mpr (List.mem_cons_self ..)
      exact .inr (takers.taking_of_mem mem who)

/-- A worker inside `tryTake` carries no token. -/
theorem Taking.workerTokens {w : Nat} {q : QueueState (List Nat) Nat Nat} (h : s.Taking w q)
    (takers : Takers s.queue.notEmpty s.workers) (pc : WorkerPc) :
    Tasks.workerTokens (s.workers.set w pc) = pc.tokens + Tasks.workerTokens s.workers := by
  rcases h.pc takers with idle | idle
  · rw [← workerTokens_set pc idle]
    exact (zero_add _).symm
  · rw [← workerTokens_set pc idle]
    exact (zero_add _).symm

theorem Taking.still {w : Nat} {q : QueueState (List Nat) Nat Nat} (h : s.Taking w q)
    (takers : Takers s.queue.notEmpty s.workers) {pc : WorkerPc} (idle : pc.tokens = 0) :
    { s with queue := q, workers := s.workers.set w pc }.tokens = s.tokens := by
  simp only [tokens, h.workerTokens takers, idle, h.same, zero_add]

theorem Takers.perm {cv cv' : CondVar (Taker Nat)} {workers : List WorkerPc}
    (takers : Takers cv workers) (perm : cv'.waiting.Perm cv.waiting) : Takers cv' workers := by
  constructor
  · intro t ht
    exact takers.tryTakers t (perm.mem_iff.mp ht)
  · exact takers.seated.perm (perm.map _)

theorem Takers.set {cv : CondVar (Taker Nat)} {workers : List WorkerPc} {w : Nat}
    {pc pc' : WorkerPc} (takers : Takers cv workers) (h : workers[w]? = some pc)
    (out : pc ≠ .taking) (out' : pc' ≠ .taking) : Takers cv (workers.set w pc') :=
  ⟨takers.tryTakers, takers.seated.set h out out'⟩

/-- Worker `w` enters the wait set. -/
theorem Takers.park {cv : CondVar (Taker Nat)} {workers : List WorkerPc} {w : Nat}
    (takers : Takers cv workers) (h : workers[w]? = some .looping) :
    Takers (cv.park ⟨w, false⟩) (workers.set w .taking) := by
  have perm := cv.park_waiting ⟨w, false⟩
  constructor
  · intro t ht
    rcases List.mem_cons.mp (perm.mem_iff.mp ht) with rfl | old
    · rfl
    · exact takers.tryTakers t old
  · exact takers.seated.sit h (by decide) (perm.map _)

/-- Without the worker that holds the mutex. -/
theorem Taking.takers {w : Nat} {q : QueueState (List Nat) Nat Nat} (h : s.Taking w q)
    (takers : Takers s.queue.notEmpty s.workers) {pc : WorkerPc} (out : pc ≠ .taking) :
    Takers q.notEmpty (s.workers.set w pc) := by
  cases h with
  | looping looping => exact takers.set looping (by decide) out
  | resumed who hr =>
      have perm := (CondVar.resume_spec hr).2.1
      constructor
      · intro u hu
        exact takers.tryTakers u (perm.mem_iff.mpr (List.mem_cons_of_mem _ hu))
      · rw [← who]
        exact takers.seated.rise (perm.map _) out

theorem Step.effect (takers : Takers s.queue.notEmpty s.workers) (h : s.Step t notes) : Effect s t notes := by
  cases h with
  | @push k q pick producing opened =>
      obtain ⟨σ, quiet, before⟩ := producing_tokens producing
      refine .moved k.task σ .buffered _ [.enqueued, .future] before ?_ rfl (by rw [quiet]; rfl)
      simp only [tokens, pushed, bufferTokens_snoc]
      abel
  | @block k q timed producing opened =>
      obtain ⟨σ, quiet, before⟩ := producing_tokens producing
      refine .moved k.task σ .blocked _ [] before ?_ rfl (by rw [quiet]; rfl)
      simp only [tokens, callTokens_cons, PutCall.tokens,
        producerTokens_cons (q.notFull.park_waiting _)]
      abel
  | @refuse k q error producing =>
      obtain ⟨σ, quiet, before⟩ := producing_tokens producing
      refine .left k.task σ [.threw error] before rfl (.inl ⟨error, ?_⟩)
      rw [quiet]
      rfl
  | @inline k q producing opened =>
      obtain ⟨σ, quiet, before⟩ := producing_tokens producing
      refine .moved k.task σ .inline _ [.started] before ?_ rfl (by rw [quiet]; rfl)
      simp only [tokens, callTokens_cons, PutCall.tokens]
      abel
  | @finishInline k mem phase =>
      refine .left k.task .inline [.finished, .future] ?_ rfl (.inr (.inr rfl))
      simp only [tokens, callTokens_erase mem, PutCall.tokens, phase]
      abel
  | @pop w x rest q taking hb =>
      rw [taking.same.1] at hb
      refine .moved x .buffered .held
        (callTokens s.calls + producerTokens s.queue.notFull + bufferTokens rest +
          workerTokens s.workers) [] ?_ ?_ rfl rfl
      · simp only [tokens, hb, bufferTokens, List.map_cons, ← Multiset.cons_coe,
          ← Multiset.singleton_add]
        abel
      · simp only [tokens, popped, taking.same.2, taking.workerTokens takers, WorkerPc.tokens]
        abel
  | exit taking closing empty => exact .still (taking.still takers rfl) rfl
  | timeout taking opened => exact .still (taking.still takers rfl) rfl
  | wait taking opened => exact .still (taking.still takers rfl) rfl
  | producerWakes hw =>
      refine .still ?_ rfl
      simp only [tokens, producerTokens_perm (CondVar.wake_waiting hw)]
  | takerWakes hw => exact .still rfl rfl
  | notifyNotFull pick owed =>
      refine .still ?_ rfl
      simp only [tokens, producerTokens_perm (s.queue.notFull.notifyOne_waiting pick)]
  | @start w c holding =>
      have out := workerTokens_set .looping holding
      have back := workerTokens_set (.running c) (set_at (y := .looping) holding)
      simp only [WorkerPc.tokens, zero_add, List.set_set] at out back
      refine .moved c .held .running (callTokens s.calls + producerTokens s.queue.notFull +
        bufferTokens s.queue.queue.buffer + workerTokens (s.workers.set w .looping)) [.started]
        ?_ ?_ rfl rfl
      · simp only [tokens, ← out]
        abel
      · simp only [tokens, back]
        abel
  | @finish w c running =>
      have swap := workerTokens_set .looping running
      simp only [WorkerPc.tokens, zero_add] at swap
      refine .left c .running [.finished] ?_ rfl (.inr (.inl rfl))
      simp only [tokens, ← swap]
      abel

theorem Producing.same {k : PutCall} {q : QueueState (List Nat) Nat Nat} (h : s.Producing k q) :
    q.queue = s.queue.queue ∧ q.notEmpty = s.queue.notEmpty := by
  cases h with
  | loaded _ _ => exact ⟨rfl, rfl⟩
  | resumed _ _ _ _ => exact ⟨rfl, rfl⟩

theorem Step.takers (h : s.Step t notes) (takers : Takers s.queue.notEmpty s.workers) :
    Takers t.queue.notEmpty t.workers := by
  cases h with
  | @push k q pick producing opened =>
      apply takers.perm
      rw [← producing.same.2]
      exact q.notEmpty.notifyOne_waiting pick
  | block timed producing opened => exact producing.same.2 ▸ takers
  | refuse error producing => exact producing.same.2 ▸ takers
  | inline producing opened => exact producing.same.2 ▸ takers
  | finishInline mem phase => exact takers
  | pop taking hb => exact taking.takers takers (by simp)
  | exit taking closing empty => exact taking.takers takers (by decide)
  | timeout taking opened => exact taking.takers takers (by decide)
  | @wait w q taking opened =>
      have looping : (s.workers.set w .looping)[w]? = some .looping := by
        rcases taking.pc takers with h | h <;> exact set_at h
      have back := (taking.takers takers (by decide)).park looping
      rw [List.set_set] at back
      exact back
  | producerWakes hw => exact takers
  | takerWakes hw => exact takers.perm (CondVar.wake_waiting hw)
  | notifyNotFull pick owed => exact takers
  | start holding => exact takers.set holding (by simp) (by simp)
  | finish running => exact takers.set running (by simp) (by simp)

end Tasks

end Rtl.Stp
