import Mathlib.Algebra.GroupWithZero.Nat
import Mathlib.Algebra.Order.BigOperators.Group.List
import Mathlib.Algebra.Order.Group.Nat
import Rtl.Stp.StaticThreadPool

/-! # Joining the static pool

Every put notifies one sleeping worker, so that while a worker sleeps in the wait set there is a
notified one for each entry of the buffer. Every empty task ends one worker. Together they let
`joinAll` end: its own steps and those of the workers lead to its return, and there are boundedly
many of them. The tasks are taken in the order in which they were put, and those that are still in the
buffer when `joinAll` returns are never run.
-/

namespace Rtl.Stp

open Rtl.Base

/-- The steps that count: those of `joinAll` and of the workers, apart from a worker that wakes up to
an empty buffer. -/
def StaticPoolEvent.progress (o : StaticPoolOutput) : StaticPoolEvent → Bool
  | .worker _ | .joinStep _ => true
  | .resume _ _ => o != .silent
  | .put _ _ | .joinAll | .wake _ => false

/-- An upper bound of the steps a worker still has to take once the flag is set. -/
def StaticWorkerAt.toGo : StaticWorkerAt → Nat
  | .done => 0
  | .check => 1
  | .running _ => 2
  | .asleep => 3
  | .take => 4
  | .lookEmpty => 5
  | .recheck => 6

def JoinAt.toGo (vector : Nat) : JoinAt → Nat
  | .put left => left + vector + 2
  | .join k => vector - k + 1
  | .idle | .release | .joined => 0

/-- A worker that may take one more entry although the flag is set. -/
def StaticWorkerAt.inBody : StaticWorkerAt → Bool
  | .recheck | .lookEmpty | .take | .asleep => true
  | .check | .running _ | .done => false

def StaticPoolOutput.puts : StaticPoolOutput → Option (Option Nat)
  | .put item => some item
  | .silent | .took _ => none

def StaticPoolOutput.takes : StaticPoolOutput → Option (Option Nat)
  | .took item => some item
  | .silent | .put _ => none

namespace StaticThreadPool

variable {s t : StaticThreadPool} {w : Nat}

/-! ## What a step does -/

/-- Taking, as a relation: with the lock in hand a worker outside the wait sleeps or goes on. -/
theorem take_cases (s : StaticThreadPool) (w : Nat) :
    (s.buffer = [] ∧ s.take w =
      ({ s with notEmpty := s.notEmpty.park w, workers := s.workers.set w .asleep }, .silent)) ∨
    ∃ item rest, s.buffer = item :: rest ∧
      s.take w = ({ s with buffer := rest, workers := s.workers.set w (withTask item) },
        .took item) := by
  unfold take
  cases s.buffer with
  | nil => exact .inl ⟨rfl, rfl⟩
  | cons item rest => exact .inr ⟨item, rest, rfl, rfl⟩

inductive PoolMove (s : StaticThreadPool) :
    StaticPoolEvent → StaticThreadPool → StaticPoolOutput → Prop where
  | put (item : Option Nat) (pick : Nat) : PoolMove s (.put item pick) (s.put item pick) (.put item)
  | joinAll : PoolMove s .joinAll { s with joiner := .release } .silent
  | release {pick : Nat} (at_ : s.joiner = .release) :
      PoolMove s (.joinStep pick)
        { s with releaseAllWorkers := true, joiner := .put s.threadCount } .silent
  | putEmpty {left pick : Nat} (at_ : s.joiner = .put (left + 1)) :
      PoolMove s (.joinStep pick) { s.put none pick with joiner := .put left } (.put none)
  | allPut {pick : Nat} (at_ : s.joiner = .put 0) :
      PoolMove s (.joinStep pick) { s with joiner := .join 0 } .silent
  | join {k pick : Nat} (at_ : s.joiner = .join k) (inside : k < s.vector)
      (done : s.workers[k]? = some .done) :
      PoolMove s (.joinStep pick) { s with joiner := .join (k + 1) } .silent
  | joined {k pick : Nat} (at_ : s.joiner = .join k) (all : s.vector ≤ k) :
      PoolMove s (.joinStep pick) { s with vector := 0, joiner := .joined } .silent
  | walk {w : Nat} {pc pc' : StaticWorkerAt} (at_w : s.workers[w]? = some pc)
      (leaves : pc ≠ .asleep ∧ pc ≠ .done) (enters : pc' ≠ .asleep)
      (order : s.releaseAllWorkers = true → pc' = .done ∨ (pc = .recheck ∧ pc' = .lookEmpty) ∨
        (pc = .lookEmpty ∧ pc' = .take) ∨ ((∃ task, pc = .running task) ∧ pc' = .check)) :
      PoolMove s (.worker w) { s with workers := s.workers.set w pc' } .silent
  | sleep {w : Nat} (at_w : s.workers[w]? = some .take) (empty : s.buffer = []) :
      PoolMove s (.worker w)
        { s with notEmpty := s.notEmpty.park w, workers := s.workers.set w .asleep } .silent
  | pop {w : Nat} {item : Option Nat} {rest : List (Option Nat)} (at_w : s.workers[w]? = some .take)
      (front : s.buffer = item :: rest) :
      PoolMove s (.worker w) { s with buffer := rest, workers := s.workers.set w (withTask item) }
        (.took item)
  | wake {k : Nat} {cv : CondVar Nat} (woken : s.notEmpty.wake k = some cv) :
      PoolMove s (.wake k) { s with notEmpty := cv } .silent
  | again {k w : Nat} {cause : Cause} {cv : CondVar Nat}
      (resumed : s.notEmpty.resume cause k = some (w, cv)) (empty : s.buffer = []) :
      PoolMove s (.resume cause k)
        { s with notEmpty := cv.park w, workers := s.workers.set w .asleep } .silent
  | rise {k w : Nat} {cause : Cause} {cv : CondVar Nat} {item : Option Nat} {rest : List (Option Nat)}
      (resumed : s.notEmpty.resume cause k = some (w, cv)) (front : s.buffer = item :: rest) :
      PoolMove s (.resume cause k)
        { s with notEmpty := cv, buffer := rest, workers := s.workers.set w (withTask item) }
          (.took item)

theorem workerStep_move {at_ : StaticWorkerAt} {o : StaticPoolOutput}
    (at_w : s.workers[w]? = some at_) (h : s.workerStep w at_ = some (t, o)) :
    PoolMove s (.worker w) t o := by
  cases at_ with
  | check =>
      cases h
      refine .walk at_w (by simp) ?_ ?_
      · split <;> simp
      · intro released
        simp [released]
  | recheck =>
      cases h
      refine .walk at_w (by simp) ?_ ?_
      · split <;> simp
      · intro released
        simp [released]
  | lookEmpty =>
      cases h
      refine .walk at_w (by simp) ?_ ?_
      · split <;> simp
      · intro _
        split <;> simp
  | take =>
      simp only [workerStep, Option.some.injEq] at h
      rcases take_cases s w with ⟨empty, result⟩ | ⟨item, rest, front, result⟩
      · rw [result] at h
        cases h
        exact .sleep at_w empty
      · rw [result] at h
        cases h
        exact .pop at_w front
  | asleep | done => cases h
  | running task =>
      cases h
      exact .walk at_w (by simp) (by simp) (by simp)

theorem joinStep_move {pick : Nat} {o : StaticPoolOutput}
    (h : s.joinStep pick s.joiner = some (t, o)) : PoolMove s (.joinStep pick) t o := by
  cases at_ : s.joiner with
  | idle | joined => simp [at_, joinStep] at h
  | release =>
      rw [at_] at h
      cases h
      exact .release at_
  | put left =>
      rw [at_] at h
      cases left with
      | zero =>
          cases h
          exact .allPut at_
      | succ left =>
          cases h
          exact .putEmpty at_
  | join k =>
      rw [at_] at h
      simp only [joinStep] at h
      split at h
      · rename_i inside
        split at h
        · rename_i done
          cases h
          exact .join at_ inside done
        · cases h
      · rename_i all
        cases h
        exact .joined at_ (by omega)

theorem next_move {e : StaticPoolEvent} {o : StaticPoolOutput} (h : s.next e = some (t, o)) :
    PoolMove s e t o := by
  cases e with
  | put task pick =>
      cases h
      exact .put task pick
  | joinAll =>
      simp only [next] at h
      split at h
      · cases h
        exact .joinAll
      · cases h
  | joinStep pick => exact joinStep_move h
  | worker w =>
      simp only [next] at h
      split at h
      · cases h
      · rename_i at_w
        exact workerStep_move at_w h
  | wake k =>
      obtain ⟨cv, woken, same⟩ := Option.map_eq_some_iff.mp h
      cases same
      exact .wake woken
  | resume cause k =>
      simp only [next] at h
      split at h
      · cases h
      · rename_i w cv resumed
        rcases take_cases { s with notEmpty := cv } w with ⟨empty, result⟩ | ⟨item, rest, front, result⟩
        · rw [result] at h
          cases h
          exact .again resumed empty
        · rw [result] at h
          cases h
          exact .rise resumed front

/-! ## Sleeping workers -/

/-- The threads inside the wait are the sleeping workers, and while one of them is in the wait set
the others have a notification for each entry of the buffer. -/
structure Wakeful (s : StaticThreadPool) : Prop where
  seated : Seated s.notEmpty.waiting s.workers .asleep
  covered : s.notEmpty.parked ≠ [] → s.buffer.length ≤ s.notEmpty.notified.length

theorem withTask_ne_asleep (item : Option Nat) : withTask item ≠ .asleep := by
  cases item <;> simp [withTask]

theorem Wakeful.put (wakeful : s.Wakeful) (item : Option Nat) (pick : Nat) :
    (s.put item pick).Wakeful where
  seated := wakeful.seated.perm (s.notEmpty.notifyOne_waiting pick)
  covered := by
    intro some_parked
    have before := wakeful.covered
    rcases s.notEmpty.notifyOne_cases pick with ⟨none_parked, same⟩ | ⟨i, rest, parked, moved⟩
    · simp only [StaticThreadPool.put, same] at some_parked
      exact absurd none_parked some_parked
    · have nonempty : s.notEmpty.parked ≠ [] := by
        intro none_parked
        simpa [none_parked] using parked.length_eq
      have enough := before nonempty
      simp only [StaticThreadPool.put, moved, List.length_append, List.length_singleton]
      omega

theorem Wakeful.asleep (wakeful : s.Wakeful) {k : Nat} {cause : Cause} {cv : CondVar Nat}
    (resumed : s.notEmpty.resume cause k = some (w, cv)) : s.workers[w]? = some .asleep :=
  wakeful.seated.pc_of_mem ((CondVar.resume_spec resumed).2.1.mem_iff.mpr (List.mem_cons_self ..))

theorem PoolMove.wakeful {e : StaticPoolEvent} {o : StaticPoolOutput} (move : PoolMove s e t o)
    (wakeful : s.Wakeful) : t.Wakeful := by
  cases move with
  | put item pick => exact wakeful.put item pick
  | putEmpty => exact ⟨(wakeful.put none _).seated, (wakeful.put none _).covered⟩
  | joinAll | release | allPut | join | joined => exact ⟨wakeful.seated, wakeful.covered⟩
  | walk at_w leaves enters => exact ⟨wakeful.seated.set at_w leaves.1 enters, wakeful.covered⟩
  | @sleep w at_w empty =>
      refine ⟨wakeful.seated.sit at_w (by simp) (s.notEmpty.park_waiting w), ?_⟩
      simp [empty]
  | pop at_w front =>
      refine ⟨wakeful.seated.set at_w (by simp) (withTask_ne_asleep _), ?_⟩
      intro some_parked
      have enough := wakeful.covered some_parked
      simp only [front, List.length_cons] at enough
      simp only
      omega
  | wake woken =>
      refine ⟨wakeful.seated.perm (CondVar.wake_waiting woken), ?_⟩
      intro _
      obtain ⟨i, rest, parked, rfl⟩ := CondVar.wake_spec woken
      refine wakeful.covered ?_
      intro none_parked
      simpa [none_parked] using parked.length_eq
  | @again k w cause cv resumed empty =>
      refine ⟨?_, by simp [empty]⟩
      have leaves := (CondVar.resume_spec resumed).2.1
      rw [set_self_at (wakeful.asleep resumed)]
      exact wakeful.seated.perm ((cv.park_waiting w).trans leaves.symm)
  | rise resumed front =>
      obtain ⟨same, leaves, fewer⟩ := CondVar.resume_spec resumed
      refine ⟨wakeful.seated.rise leaves (withTask_ne_asleep _), ?_⟩
      intro some_parked
      have enough := wakeful.covered (same ▸ some_parked)
      simp only [front, List.length_cons] at enough
      simp only
      split at fewer <;> omega

/-- A worker that sleeps while the buffer has an entry can be resumed, or another one can. -/
theorem Wakeful.resumes (wakeful : s.Wakeful) (sleeps : s.workers[w]? = some .asleep)
    (some_entry : s.buffer ≠ []) :
    ∃ cause k v cv, s.notEmpty.resume cause k = some (v, cv) := by
  have waits := wakeful.seated.mem_of_pc sleeps
  have entries := List.length_pos_iff.mpr some_entry
  by_cases parked : s.notEmpty.parked = []
  · rcases CondVar.enabled_of_waiting waits with ⟨k, cv, woken⟩ | ⟨cause, k, cv, resumed⟩
    · obtain ⟨i, rest, moved, _⟩ := CondVar.wake_spec woken
      simp [parked] at moved
    · exact ⟨cause, k, w, cv, resumed⟩
  · have enough := wakeful.covered parked
    have first : s.notEmpty.notified[0]? = some (s.notEmpty.notified.get ⟨0, by omega⟩) :=
      List.getElem?_eq_getElem (by omega)
    exact ⟨.notified, 0, _, _, by simp only [CondVar.resume, pickAt, first]; rfl⟩

/-! ## Ended workers -/

/-- A step leaves the workers alone, or one of them that has not ended goes on. -/
def WorkersMove (s t : StaticThreadPool) : Prop :=
  t.workers = s.workers ∨
    ∃ w pc pc', s.workers[w]? = some pc ∧ pc ≠ .done ∧ t.workers = s.workers.set w pc'

theorem PoolMove.workers {e : StaticPoolEvent} {o : StaticPoolOutput} (move : PoolMove s e t o)
    (wakeful : s.Wakeful) : WorkersMove s t := by
  cases move with
  | put | putEmpty | joinAll | release | allPut | join | joined | wake => exact .inl rfl
  | walk at_w leaves => exact .inr ⟨_, _, _, at_w, leaves.2, rfl⟩
  | sleep at_w | pop at_w => exact .inr ⟨_, _, _, at_w, by simp, rfl⟩
  | again resumed | rise resumed => exact .inr ⟨_, _, _, wakeful.asleep resumed, by simp, rfl⟩

theorem WorkersMove.length (move : WorkersMove s t) : t.workers.length = s.workers.length := by
  rcases move with same | ⟨w, pc, pc', _, _, moved⟩
  · rw [same]
  · rw [moved, List.length_set]

theorem WorkersMove.done (move : WorkersMove s t) {i : Nat} (ended : s.workers[i]? = some .done) :
    t.workers[i]? = some .done := by
  rcases move with same | ⟨w, pc, pc', at_w, going, moved⟩
  · rw [same]
    exact ended
  · have other : w ≠ i := by
      intro same
      rw [same, ended] at at_w
      exact going (Option.some.inj at_w).symm
    rw [moved, List.getElem?_set_ne other]
    exact ended

def ended (s : StaticThreadPool) : Nat := s.workers.countP (· == .done)

/-- The empty tasks in the buffer and the workers that have ended. -/
def provided (s : StaticThreadPool) : Nat := s.buffer.countP (·.isNone) + s.ended

theorem ended_set {pc : StaticWorkerAt} (pc' : StaticWorkerAt) (at_w : s.workers[w]? = some pc)
    (going : pc ≠ .done) :
    (s.workers.set w pc').countP (· == .done) = (pc' == .done).toNat + s.ended := by
  have counted := countP_set_at (· == .done) pc' at_w
  simp only [beq_eq_false_iff_ne.mpr going, Bool.toNat_false] at counted
  unfold ended
  omega

theorem provided_pop {pc : StaticWorkerAt} {item : Option Nat} {rest : List (Option Nat)}
    (at_w : s.workers[w]? = some pc) (going : pc ≠ .done) (front : s.buffer = item :: rest) :
    rest.countP (·.isNone) + (s.workers.set w (withTask item)).countP (· == .done) = s.provided := by
  rw [ended_set _ at_w going, provided, front, List.countP_cons]
  cases item with
  | none => simp [withTask]; omega
  | some task => simp [withTask]

/-- An empty task is put in, and it leaves the buffer only to end a worker. -/
theorem PoolMove.provided {e : StaticPoolEvent} {o : StaticPoolOutput} (move : PoolMove s e t o)
    (wakeful : s.Wakeful) : s.provided + (if o = .put none then 1 else 0) ≤ t.provided := by
  cases move with
  | put item pick =>
      simp only [StaticThreadPool.provided, StaticThreadPool.put, ended, List.countP_append]
      cases item with
      | none =>
          simp only [List.countP_singleton, Option.isNone_none, if_true]
          omega
      | some task => simp
  | putEmpty =>
      simp only [StaticThreadPool.provided, StaticThreadPool.put, ended, List.countP_append]
      simp only [List.countP_singleton, Option.isNone_none, if_true]
      omega
  | joinAll | release | allPut | join | joined | wake => exact Nat.le_refl _
  | @walk w pc pc' at_w leaves =>
      have more := ended_set pc' at_w leaves.2
      simp only [StaticThreadPool.provided, ended, reduceCtorEq, if_false] at more ⊢
      omega
  | sleep at_w =>
      have more := ended_set .asleep at_w (by simp)
      simp only [StaticThreadPool.provided, ended, reduceCtorEq, if_false] at more ⊢
      omega
  | again resumed =>
      rw [StaticThreadPool.provided, StaticThreadPool.provided, ended, ended,
        set_self_at (wakeful.asleep resumed)]
      simp
  | pop at_w front => exact Nat.le_of_eq (provided_pop at_w (by simp) front).symm
  | rise resumed front =>
      exact Nat.le_of_eq (provided_pop (wakeful.asleep resumed) (by simp) front).symm

/-! ## The invariant -/

/-- What a call of `joinAll` has done by the time it is where it is: the flag is set before the first
empty task is put, and with those still to be put there is one for each worker. -/
def JoinSound (s : StaticThreadPool) : JoinAt → Prop
  | .idle | .release => True
  | .put left => s.releaseAllWorkers = true ∧ s.workers.length ≤ left + s.provided
  | .join k => s.releaseAllWorkers = true ∧ s.workers.length ≤ s.provided ∧
      ∀ i < k, i < s.vector → s.workers[i]? = some .done
  | .joined => s.releaseAllWorkers = true ∧ ∀ pc ∈ s.workers, pc = .done

structure Sound (s : StaticThreadPool) : Prop where
  wakeful : s.Wakeful
  size : s.workers.length = s.threadCount
  /-- The vector is cleared only after every thread was joined. -/
  vector : s.vector = s.workers.length ∨ (s.vector = 0 ∧ ∀ pc ∈ s.workers, pc = .done)
  joiner : s.JoinSound s.joiner

theorem WorkersMove.all_done (move : WorkersMove s t) (all : ∀ pc ∈ s.workers, pc = .done) :
    ∀ pc ∈ t.workers, pc = .done := by
  intro pc mem
  obtain ⟨i, inside, rfl⟩ := List.mem_iff_getElem.mp mem
  have before : s.workers[i]? = some .done := by
    rw [move.length] at inside
    rw [List.getElem?_eq_getElem inside, all _ (List.getElem_mem inside)]
  have after := move.done before
  rw [List.getElem?_eq_getElem inside] at after
  exact Option.some.inj after

/-- A step of another thread keeps what a call of `joinAll` relies on. -/
theorem JoinSound.keep {j : JoinAt} (sound : s.JoinSound j) (move : WorkersMove s t)
    (grows : s.provided ≤ t.provided) (released : t.releaseAllWorkers = s.releaseAllWorkers)
    (vector : t.vector = s.vector) : t.JoinSound j := by
  have length := move.length
  cases j with
  | idle | release => trivial
  | put left =>
      obtain ⟨set, enough⟩ := sound
      exact ⟨released.trans set, by omega⟩
  | join k =>
      obtain ⟨set, enough, joined⟩ := sound
      refine ⟨released.trans set, by omega, ?_⟩
      intro i below inside
      exact move.done (joined i below (by omega))
  | joined =>
      obtain ⟨set, all⟩ := sound
      exact ⟨released.trans set, move.all_done all⟩

/-- Once every thread in the vector is joined, every worker has ended. -/
theorem Sound.all_joined (sound : s.Sound) {k : Nat} (at_ : s.joiner = .join k) (all : s.vector ≤ k) :
    ∀ pc ∈ s.workers, pc = .done := by
  rcases sound.vector with full | ⟨_, done⟩
  · have joined := sound.joiner
    rw [at_] at joined
    intro pc mem
    obtain ⟨i, inside, rfl⟩ := List.mem_iff_getElem.mp mem
    have ended := joined.2.2 i (by omega) (by omega)
    rw [List.getElem?_eq_getElem inside] at ended
    exact Option.some.inj ended
  · exact done

theorem PoolMove.joinSound {e : StaticPoolEvent} {o : StaticPoolOutput} (move : PoolMove s e t o)
    (sound : s.Sound) : t.JoinSound t.joiner := by
  have workers := move.workers sound.wakeful
  have grows := move.provided sound.wakeful
  have before := sound.joiner
  cases move with
  | put | walk | sleep | pop | wake | again | rise =>
      exact before.keep workers (by omega) rfl rfl
  | joinAll => trivial
  | release => exact ⟨rfl, by simp only [sound.size]; omega⟩
  | @putEmpty left pick at_ =>
      rw [at_] at before
      simp only [if_true] at grows
      refine ⟨before.1, ?_⟩
      calc s.workers.length ≤ left + 1 + s.provided := before.2
        _ = left + (s.provided + 1) := by omega
        _ ≤ _ := Nat.add_le_add_left grows left
  | allPut at_ =>
      rw [at_] at before
      exact ⟨before.1, Nat.le_trans before.2 (by simp [StaticThreadPool.provided, ended]), by simp⟩
  | @join k pick at_ inside done =>
      rw [at_] at before
      refine ⟨before.1, before.2.1, ?_⟩
      intro i below fits
      by_cases last : i = k
      · exact last ▸ done
      · exact before.2.2 i (by omega) fits
  | joined at_ all =>
      have ended := sound.all_joined at_ all
      rw [at_] at before
      exact ⟨before.1, ended⟩

theorem PoolMove.sound {e : StaticPoolEvent} {o : StaticPoolOutput} (move : PoolMove s e t o)
    (sound : s.Sound) : t.Sound where
  wakeful := move.wakeful sound.wakeful
  size := by
    have length := (move.workers sound.wakeful).length
    cases move <;> exact length.trans sound.size
  vector := by
    have workers := move.workers sound.wakeful
    have length := workers.length
    cases move with
    | joined at_ all => exact .inr ⟨rfl, sound.all_joined at_ all⟩
    | _ =>
        rcases sound.vector with full | ⟨cleared, done⟩
        · exact .inl (full.trans length.symm)
        · exact .inr ⟨cleared, workers.all_done done⟩
  joiner := move.joinSound sound

theorem start_sound (threadCount : Nat) : (start threadCount).Sound where
  wakeful := by
    refine ⟨?_, by simp [start, CondVar.empty]⟩
    intro i
    have awake : (List.replicate threadCount StaticWorkerAt.check)[i]? ≠ some .asleep := by
      intro h
      simpa using List.eq_of_mem_replicate (List.mem_of_getElem? h)
    simp [start, CondVar.empty, CondVar.waiting, awake]
  size := by simp [start]
  vector := by simp [start]
  joiner := trivial

theorem sound_run {threadCount : Nat} {s₀ : StaticThreadPool}
    {ts : List (Transition StaticThreadPool StaticPoolEvent StaticPoolOutput)}
    (init : (staticPoolMachine threadCount).init s₀)
    (run : (staticPoolMachine threadCount).Run s₀ ts s) :
    s.Sound ∧ s.threadCount = threadCount := by
  have first : s₀ = .start threadCount := init
  refine run.invariant (I := fun s => s.Sound ∧ s.threadCount = threadCount) ?_ ?_
  · rw [first]
    exact ⟨start_sound threadCount, rfl⟩
  · intro s e t o held h
    have move := next_move h
    refine ⟨move.sound held.1, ?_⟩
    cases move <;> exact held.2

/-! ## The return of `joinAll` -/

def rank (s : StaticThreadPool) : Nat := (s.workers.map (·.toGo)).sum + s.joiner.toGo s.vector

/-- `joinAll` has set the flag and was not called again. -/
def Releasing (s : StaticThreadPool) : Prop :=
  s.Sound ∧ s.joiner ≠ .idle ∧ s.joiner ≠ .release

theorem Releasing.released (releasing : s.Releasing) : s.releaseAllWorkers = true := by
  obtain ⟨sound, not_idle, not_release⟩ := releasing
  have joiner := sound.joiner
  cases at_ : s.joiner with
  | idle => exact absurd at_ not_idle
  | release => exact absurd at_ not_release
  | put | join | joined =>
      rw [at_] at joiner
      exact joiner.1

theorem toGo_withTask (item : Option Nat) : (withTask item).toGo ≤ 2 := by
  cases item <;> simp [withTask, StaticWorkerAt.toGo]

theorem toGo_set {pc pc' : StaticWorkerAt} (at_w : s.workers[w]? = some pc) (less : pc'.toGo < pc.toGo) :
    ((s.workers.set w pc').map (·.toGo)).sum < (s.workers.map (·.toGo)).sum := by
  have swapped := sum_map_set (·.toGo) pc' at_w
  omega

/-- Once the flag is set every step that counts brings `joinAll` closer to its return, and no other
step takes it further away. -/
theorem PoolMove.rank {e : StaticPoolEvent} {o : StaticPoolOutput} (move : PoolMove s e t o)
    (releasing : s.Releasing) (same_call : e ≠ .joinAll) : (e.progress o).toNat + t.rank ≤ s.rank := by
  cases move with
  | put | wake => simp [StaticThreadPool.rank, StaticThreadPool.put, StaticPoolEvent.progress]
  | joinAll => exact absurd rfl same_call
  | release at_ => exact absurd at_ releasing.2.2
  | putEmpty at_ | allPut at_ | join at_ | joined at_ =>
      simp only [StaticThreadPool.rank, at_, JoinAt.toGo, StaticThreadPool.put, StaticPoolEvent.progress,
        Bool.toNat_true]
      omega
  | @walk w pc pc' at_w leaves enters order =>
      have less : pc'.toGo < pc.toGo := by
        rcases order releasing.released with rfl | ⟨rfl, rfl⟩ | ⟨rfl, rfl⟩ | ⟨⟨task, rfl⟩, rfl⟩
        · cases pc <;> simp_all [StaticWorkerAt.toGo]
        · decide
        · decide
        · exact Nat.lt_succ_self 1
      have fewer := toGo_set at_w less
      simp only [StaticThreadPool.rank, StaticPoolEvent.progress, Bool.toNat_true]
      omega
  | sleep at_w =>
      have less : StaticWorkerAt.asleep.toGo < StaticWorkerAt.take.toGo := by decide
      have fewer := toGo_set at_w less
      simp only [StaticThreadPool.rank, StaticPoolEvent.progress, Bool.toNat_true]
      omega
  | @pop w item rest at_w front =>
      have fewer := toGo_set at_w (Nat.lt_of_le_of_lt (toGo_withTask item) (by decide))
      simp only [StaticThreadPool.rank, StaticPoolEvent.progress, Bool.toNat_true]
      omega
  | again resumed =>
      simp [StaticThreadPool.rank, StaticPoolEvent.progress,
        set_self_at (releasing.1.wakeful.asleep resumed)]
  | @rise k w cause cv item rest resumed front =>
      have fewer := toGo_set (releasing.1.wakeful.asleep resumed)
        (Nat.lt_of_le_of_lt (toGo_withTask item) (by decide))
      have counted := Bool.toNat_le (StaticPoolOutput.took item != .silent)
      simp only [StaticThreadPool.rank, StaticPoolEvent.progress]
      omega

theorem PoolMove.releasing {e : StaticPoolEvent} {o : StaticPoolOutput} (move : PoolMove s e t o)
    (releasing : s.Releasing) (same_call : e ≠ .joinAll) : t.Releasing := by
  refine ⟨move.sound releasing.1, ?_⟩
  cases move with
  | put | walk | sleep | pop | wake | again | rise => exact releasing.2
  | joinAll => exact absurd rfl same_call
  | release | putEmpty | allPut | join | joined => simp

/-- A worker that has not ended while `joinAll` joins the threads has an entry to take. -/
theorem Sound.entry_left (sound : s.Sound) {k : Nat} {pc : StaticWorkerAt} (at_ : s.joiner = .join k)
    (at_w : s.workers[w]? = some pc) (going : pc ≠ .done) : s.buffer ≠ [] := by
  intro empty
  have joining := sound.joiner
  rw [at_] at joining
  have enough := joining.2.1
  simp only [provided, empty, List.countP_nil, Nat.zero_add, ended] at enough
  have all := List.countP_eq_length.mp (Nat.le_antisymm List.countP_le_length enough)
  exact going (by simpa using all pc (List.mem_of_getElem? at_w))

/-- A worker that has not ended while `joinAll` joins the threads can take a step, or another can. -/
theorem Sound.worker_goes_on (sound : s.Sound) {k : Nat} {pc : StaticWorkerAt} (at_ : s.joiner = .join k)
    (at_w : s.workers[w]? = some pc) (going : pc ≠ .done) :
    ∃ e t o, s.next e = some (t, o) ∧ e.progress o = true := by
  cases pc with
  | done => exact absurd rfl going
  | asleep =>
      have some_entry := sound.entry_left at_ at_w going
      obtain ⟨cause, j, v, cv, resumed⟩ := sound.wakeful.resumes at_w some_entry
      rcases take_cases { s with notEmpty := cv } v with ⟨empty, _⟩ | ⟨item, rest, front, result⟩
      · exact absurd empty some_entry
      · exact ⟨.resume cause j, _, .took item, by simp only [next, resumed]; rw [result], rfl⟩
  | check | recheck | lookEmpty | take | running =>
      exact ⟨.worker w, _, _, by simp only [next, at_w, workerStep]; rfl, rfl⟩

theorem Sound.joinAll_goes_on (sound : s.Sound) (called : s.joiner ≠ .idle)
    (going : s.joiner ≠ .joined) :
    ∃ e t o, s.next e = some (t, o) ∧ e.progress o = true := by
  cases at_ : s.joiner with
  | idle => exact absurd at_ called
  | joined => exact absurd at_ going
  | release => exact ⟨.joinStep 0, _, _, by simp only [next, at_, joinStep]; rfl, rfl⟩
  | put left =>
      cases left with
      | zero => exact ⟨.joinStep 0, _, _, by simp only [next, at_, joinStep]; rfl, rfl⟩
      | succ left => exact ⟨.joinStep 0, _, _, by simp only [next, at_, joinStep]; rfl, rfl⟩
  | join k =>
      by_cases inside : k < s.vector
      · by_cases done : s.workers[k]? = some .done
        · exact ⟨.joinStep 0, _, _, by simp only [next, at_, joinStep, inside, done, if_true]; rfl, rfl⟩
        · have fits : k < s.workers.length := by
            rcases sound.vector with full | ⟨cleared, _⟩ <;> omega
          have at_k := List.getElem?_eq_getElem fits
          refine sound.worker_goes_on at_ at_k ?_
          intro ended
          exact done (at_k.trans (congrArg some ended))
      · exact ⟨.joinStep 0, _, _, by simp only [next, at_, joinStep, inside, if_false]; rfl, rfl⟩

theorem rank_le (sound : s.Sound) (at_ : s.joiner = .put s.threadCount) :
    s.rank ≤ 8 * s.threadCount + 2 := by
  have weights : (s.workers.map (·.toGo)).sum ≤ s.workers.length * 6 := by
    have each : ∀ n ∈ s.workers.map (·.toGo), n ≤ 6 := by
      intro n mem
      obtain ⟨pc, _, rfl⟩ := List.mem_map.mp mem
      cases pc <;> simp [StaticWorkerAt.toGo]
    simpa using List.sum_le_card_nsmul _ 6 each
  have size := sound.size
  have vector : s.vector ≤ s.workers.length := by
    rcases sound.vector with full | ⟨cleared, _⟩ <;> omega
  simp only [rank, at_, JoinAt.toGo]
  omega

/-! ## The tasks left behind -/

theorem PoolMove.inBody {e : StaticPoolEvent} {o : StaticPoolOutput} (move : PoolMove s e t o)
    (wakeful : s.Wakeful) (released : s.releaseAllWorkers = true) :
    t.releaseAllWorkers = true ∧
      (if o.takes.isSome then 1 else 0) + t.workers.countP (·.inBody) ≤ s.workers.countP (·.inBody) := by
  cases move with
  | put | joinAll | putEmpty | allPut | join | joined | wake =>
      exact ⟨released, by simp [StaticPoolOutput.takes, StaticThreadPool.put]⟩
  | release => exact ⟨rfl, by simp [StaticPoolOutput.takes]⟩
  | @walk w pc pc' at_w leaves enters order =>
      have swapped := countP_set_at (·.inBody) pc' at_w
      refine ⟨released, ?_⟩
      rcases order released with rfl | ⟨rfl, rfl⟩ | ⟨rfl, rfl⟩ | ⟨⟨task, rfl⟩, rfl⟩ <;>
        simp [StaticPoolOutput.takes, StaticWorkerAt.inBody] at swapped ⊢ <;> omega
  | sleep at_w =>
      have swapped := countP_set_at (·.inBody) .asleep at_w
      refine ⟨released, ?_⟩
      simp [StaticPoolOutput.takes, StaticWorkerAt.inBody] at swapped ⊢
      omega
  | again resumed =>
      refine ⟨released, ?_⟩
      simp [StaticPoolOutput.takes, set_self_at (wakeful.asleep resumed)]
  | @pop w item rest at_w front =>
      have swapped := countP_set_at (·.inBody) (withTask item) at_w
      refine ⟨released, ?_⟩
      cases item <;>
        simp [StaticPoolOutput.takes, StaticWorkerAt.inBody, withTask] at swapped ⊢ <;> omega
  | @rise k w cause cv item rest resumed front =>
      have swapped := countP_set_at (·.inBody) (withTask item) (wakeful.asleep resumed)
      refine ⟨released, ?_⟩
      cases item <;>
        simp [StaticPoolOutput.takes, StaticWorkerAt.inBody, withTask] at swapped ⊢ <;> omega

theorem PoolMove.buffer {e : StaticPoolEvent} {o : StaticPoolOutput} (move : PoolMove s e t o) :
    s.buffer ++ o.puts.toList = o.takes.toList ++ t.buffer := by
  cases move with
  | put | putEmpty => simp [StaticPoolOutput.takes, StaticPoolOutput.puts, StaticThreadPool.put]
  | joinAll | release | allPut | join | joined | walk | sleep | wake | again =>
      simp [StaticPoolOutput.takes, StaticPoolOutput.puts]
  | pop at_w front | rise resumed front => simp [StaticPoolOutput.takes, StaticPoolOutput.puts, front]

end StaticThreadPool

section Results

variable {threadCount : Nat} {s₀ s t : StaticThreadPool}
  {ts us : List (Transition StaticThreadPool StaticPoolEvent StaticPoolOutput)}

def staticPuts (ts : List (Transition StaticThreadPool StaticPoolEvent StaticPoolOutput)) :
    List (Option Nat) :=
  Machine.observe (fun _ o => o.puts) ts

def staticTakes (ts : List (Transition StaticThreadPool StaticPoolEvent StaticPoolOutput)) :
    List (Option Nat) :=
  Machine.observe (fun _ o => o.takes) ts

theorem static_fifo (init : (staticPoolMachine threadCount).init s₀)
    (run : (staticPoolMachine threadCount).Run s₀ ts s) :
    staticPuts ts = staticTakes ts ++ s.buffer := by
  have first : s₀ = .start threadCount := init
  refine run.history (H := fun ts s => staticPuts ts = staticTakes ts ++ s.buffer) ?_ ?_
  · rw [first]
    rfl
  · intro ts s e t o same h
    have moved := (StaticThreadPool.next_move h).buffer
    unfold staticPuts staticTakes at *
    rw [Machine.observe_snoc, Machine.observe_snoc, same, List.append_assoc, moved, List.append_assoc]

theorem static_takes_le (sound : s.Sound) (released : s.releaseAllWorkers = true)
    (run : (staticPoolMachine threadCount).Run s us t) :
    (staticTakes us).length ≤ s.workers.countP (·.inBody) := by
  have paid := run.countP_le (I := fun v => v.Sound ∧ v.releaseAllWorkers = true)
    (p := fun u => u.output.takes.isSome) (μ := fun v => v.workers.countP (·.inBody))
    ⟨sound, released⟩ ?_
  · rw [staticTakes, Machine.observe, List.length_filterMap_eq_countP]
    omega
  · intro u held takes
    have move := StaticThreadPool.next_move takes
    have kept := move.inBody held.1.wakeful held.2
    exact ⟨⟨move.sound held.1, kept.1⟩, kept.2⟩

/-- Once `joinAll` has set the flag it returns: until then one of its own steps or a worker's is always
possible, and whatever tasks are put meanwhile, a run has at most eight of them for each worker. -/
theorem joinAll_returns (init : (staticPoolMachine threadCount).init s₀)
    (before : (staticPoolMachine threadCount).Run s₀ ts s) (flagged : s.joiner = .put threadCount)
    (run : (staticPoolMachine threadCount).Run s us t) (same_call : ∀ u ∈ us, u.event ≠ .joinAll) :
    us.countP (fun u => u.event.progress u.output) ≤ 8 * threadCount + 2 ∧
      (t.joiner = .joined ∨ ∃ e v o, t.next e = some (v, o) ∧ e.progress o = true) := by
  obtain ⟨sound, count⟩ := StaticThreadPool.sound_run init before
  have limited : ((staticPoolMachine threadCount).restrict fun _ e => e ≠ .joinAll).Run s us t :=
    run.restrict same_call
  have start : s.Releasing := ⟨sound, by simp [flagged], by simp [flagged]⟩
  have bound := StaticThreadPool.rank_le sound (flagged.trans (congrArg JoinAt.put count.symm))
  have paid := limited.countP_le (I := StaticThreadPool.Releasing)
    (p := fun u => u.event.progress u.output) (μ := StaticThreadPool.rank) start ?_
  · refine ⟨by omega, ?_⟩
    have last : t.Releasing := limited.invariant start fun v e u o releasing h =>
      (StaticThreadPool.next_move (Machine.restrict_next.mp h).2).releasing releasing
        (Machine.restrict_next.mp h).1
    by_cases joined : t.joiner = .joined
    · exact .inl joined
    · exact .inr (last.1.joinAll_goes_on last.2.1 joined)
  · intro u releasing takes
    obtain ⟨other, h⟩ := Machine.restrict_next.mp takes
    have move := StaticThreadPool.next_move h
    have paid := move.rank releasing other
    refine ⟨move.releasing releasing other, ?_⟩
    cases counts : u.event.progress u.output <;> simp_all

/-- A backlog, a worker that is in a task, and a call of `joinAll` that has set the flag. -/
def backlogTrace : List StaticPoolEvent :=
  [.put (some 1) 0, .put (some 2) 0, .worker 0, .worker 0, .worker 0, .joinAll, .joinStep 0]

def backlogPool : StaticThreadPool :=
  { StaticThreadPool.start 1 with
    buffer := [some 2], workers := [.running 1], releaseAllWorkers := true, joiner := .put 1 }

def returnTrace : List StaticPoolEvent :=
  [.joinStep 0, .joinStep 0, .worker 0, .worker 0, .joinStep 0, .joinStep 0]

theorem joinAll_returns_backlogTrace :
    ∃ ts us t, (staticPoolMachine 1).exec (.start 1) backlogTrace = some (ts, backlogPool) ∧
      (staticPoolMachine 1).exec backlogPool returnTrace = some (us, t) ∧
      us.countP (fun u => u.event.progress u.output) ≤ 10 ∧
      (t.joiner = .joined ∨ ∃ e v o, t.next e = some (v, o) ∧ e.progress o = true) := by
  have before : (staticPoolMachine 1).exec (.start 1) backlogTrace = some (_, backlogPool) := rfl
  have after : (staticPoolMachine 1).exec backlogPool returnTrace = some (_, _) := rfl
  exact ⟨_, _, _, before, after, joinAll_returns rfl (.of_exec before) rfl (.of_exec after)
    (Machine.exec_forall_event (G := (· ≠ .joinAll)) after (by decide))⟩

/-- The entries put are, in order, those taken and those still in the buffer. Once `joinAll` has set
its flag each worker takes at most one more entry, and once it has returned none is taken: a task that
is still in the buffer is never run. -/
theorem joinAll_leaves_tasks (init : (staticPoolMachine threadCount).init s₀)
    (before : (staticPoolMachine threadCount).Run s₀ ts s)
    (run : (staticPoolMachine threadCount).Run s us t) :
    staticPuts (ts ++ us) = staticTakes ts ++ staticTakes us ++ t.buffer ∧
      (s.releaseAllWorkers = true → (staticTakes us).length ≤ threadCount) ∧
      (s.joiner = .joined → staticTakes us = []) := by
  obtain ⟨sound, count⟩ := StaticThreadPool.sound_run init before
  have order := static_fifo init (before.trans run)
  have split : staticTakes (ts ++ us) = staticTakes ts ++ staticTakes us := List.filterMap_append ..
  refine ⟨split ▸ order, ?_, ?_⟩
  · intro released
    calc (staticTakes us).length ≤ s.workers.countP (·.inBody) := static_takes_le sound released run
      _ ≤ s.workers.length := List.countP_le_length
      _ = threadCount := sound.size.trans count
  · intro joined
    have ended := sound.joiner
    rw [joined] at ended
    have bound := static_takes_le sound ended.1 run
    have none_left : s.workers.countP (·.inBody) = 0 := by
      rw [List.countP_eq_zero]
      intro pc mem
      rw [ended.2 pc mem]
      decide
    exact List.length_eq_zero_iff.mp (by omega)

theorem joinAll_leaves_tasks_backlogTrace :
    ∃ ts us t, (staticPoolMachine 1).exec (.start 1) backlogTrace = some (ts, backlogPool) ∧
      (staticPoolMachine 1).exec backlogPool returnTrace = some (us, t) ∧ t.buffer = [some 2, none] ∧
      backlogPool.releaseAllWorkers = true ∧
      staticPuts (ts ++ us) = staticTakes ts ++ staticTakes us ++ t.buffer ∧
      (backlogPool.releaseAllWorkers = true → (staticTakes us).length ≤ 1) ∧
      (backlogPool.joiner = .joined → staticTakes us = []) := by
  have before : (staticPoolMachine 1).exec (.start 1) backlogTrace = some (_, backlogPool) := rfl
  have after : (staticPoolMachine 1).exec backlogPool returnTrace = some (_, _) := rfl
  exact ⟨_, _, _, before, after, rfl, rfl, joinAll_leaves_tasks rfl (.of_exec before) (.of_exec after)⟩

end Results

end Rtl.Stp
