import Mathlib.Data.List.Perm.Basic
import Rtl.Base.ListUpdate

/-! # Condition variables

The threads inside a wait are in one of three places. A parked thread is in the
wait set. A notified thread was taken out of it by a notification, a woken one by
a time-out or spuriously; both still have to take the lock again. Which thread a
`notify_one` takes is up to the implementation, so it is a parameter.
-/

namespace Rtl.Base

def pickAt {ι : Type*} (l : List ι) (k : Nat) : Option (ι × List ι) :=
  match l[k]? with
  | none => none
  | some i => some (i, l.eraseIdx k)

theorem pickAt_perm {ι : Type*} {l rest : List ι} {k : Nat} {i : ι}
    (h : pickAt l k = some (i, rest)) : l.Perm (i :: rest) := by
  unfold pickAt at h
  cases hk : l[k]? with
  | none => simp [hk] at h
  | some j =>
      simp only [hk, Option.some.injEq, Prod.mk.injEq] at h
      obtain ⟨rfl, rfl⟩ := h
      obtain ⟨hlt, rfl⟩ := List.getElem?_eq_some_iff.mp hk
      exact (List.getElem_cons_eraseIdx_perm hlt).symm

theorem pickAt_length {ι : Type*} {l rest : List ι} {k : Nat} {i : ι}
    (h : pickAt l k = some (i, rest)) : l.length = rest.length + 1 := by
  simpa using (pickAt_perm h).length_eq

theorem pickAt_at {ι : Type*} {l rest : List ι} {k : Nat} {i : ι}
    (h : pickAt l k = some (i, rest)) : l[k]? = some i := by
  unfold pickAt at h
  cases hk : l[k]? with
  | none => simp [hk] at h
  | some j =>
      simp only [hk, Option.some.injEq, Prod.mk.injEq] at h
      rw [h.1]

structure CondVar (ι : Type*) where
  parked : List ι
  notified : List ι
  woken : List ι
  deriving Repr, DecidableEq

/-- How a thread that is about to take the lock again left the wait set. -/
inductive Cause where
  | notified
  | woken
  deriving Repr, DecidableEq

namespace CondVar

variable {ι : Type*}

def empty : CondVar ι := ⟨[], [], []⟩

def waiting (cv : CondVar ι) : List ι := cv.parked ++ (cv.notified ++ cv.woken)

def park (cv : CondVar ι) (i : ι) : CondVar ι := { cv with parked := cv.parked ++ [i] }

/-- `notify_one`: `pick` selects the parked thread; without one nothing happens. -/
def notifyOne (cv : CondVar ι) (pick : Nat) : CondVar ι :=
  match pickAt cv.parked (pick % cv.parked.length) with
  | none => cv
  | some (i, rest) => { cv with parked := rest, notified := cv.notified ++ [i] }

def notifyAll (cv : CondVar ι) : CondVar ι :=
  { cv with parked := [], notified := cv.notified ++ cv.parked }

/-- The parked thread at `k` times out or wakes up spuriously. -/
def wake (cv : CondVar ι) (k : Nat) : Option (CondVar ι) :=
  match pickAt cv.parked k with
  | none => none
  | some (i, rest) => some { cv with parked := rest, woken := cv.woken ++ [i] }

/-- A notified or woken thread takes the lock and leaves the wait. -/
def resume (cv : CondVar ι) (cause : Cause) (k : Nat) : Option (ι × CondVar ι) :=
  match cause with
  | .notified => (pickAt cv.notified k).map fun r => (r.1, { cv with notified := r.2 })
  | .woken => (pickAt cv.woken k).map fun r => (r.1, { cv with woken := r.2 })

@[simp] theorem notifyAll_parked (cv : CondVar ι) : cv.notifyAll.parked = [] := rfl

theorem park_waiting (cv : CondVar ι) (i : ι) :
    (cv.park i).waiting.Perm (i :: cv.waiting) := by
  simp only [waiting, park, List.append_assoc, List.singleton_append]
  exact List.perm_middle

/-- What a `notify_one` does: nothing on an empty wait set, else it moves one
parked thread to the notified ones. -/
theorem notifyOne_cases (cv : CondVar ι) (pick : Nat) :
    (cv.parked = [] ∧ cv.notifyOne pick = cv) ∨
    ∃ i rest, cv.parked.Perm (i :: rest) ∧
      cv.notifyOne pick = { cv with parked := rest, notified := cv.notified ++ [i] } := by
  unfold notifyOne
  cases h : pickAt cv.parked (pick % cv.parked.length) with
  | none =>
      refine .inl ⟨?_, rfl⟩
      by_contra hne
      have hlt := Nat.mod_lt pick (List.length_pos_iff.mpr hne)
      simp [pickAt, List.getElem?_eq_getElem hlt] at h
  | some r => exact .inr ⟨r.1, r.2, pickAt_perm h, rfl⟩

theorem notifyOne_waiting (cv : CondVar ι) (pick : Nat) :
    (cv.notifyOne pick).waiting.Perm cv.waiting := by
  rcases cv.notifyOne_cases pick with ⟨_, h⟩ | ⟨i, rest, hp, h⟩
  · rw [h]
  · rw [h]
    simp only [waiting, List.append_assoc, List.singleton_append]
    calc (rest ++ (cv.notified ++ i :: cv.woken)).Perm (rest ++ i :: (cv.notified ++ cv.woken)) :=
          List.perm_middle.append_left rest
      List.Perm _ (i :: rest ++ (cv.notified ++ cv.woken)) := List.perm_middle
      List.Perm _ _ := hp.symm.append_right _

theorem notifyAll_waiting (cv : CondVar ι) : cv.notifyAll.waiting.Perm cv.waiting := by
  simp only [waiting, notifyAll, List.nil_append, ← List.append_assoc]
  exact List.perm_append_comm.append_right _

theorem wake_spec {cv cv' : CondVar ι} {k : Nat} (h : cv.wake k = some cv') :
    ∃ i rest, cv.parked.Perm (i :: rest) ∧
      cv' = { cv with parked := rest, woken := cv.woken ++ [i] } := by
  unfold wake at h
  cases hp : pickAt cv.parked k with
  | none => simp [hp] at h
  | some r =>
      simp only [hp, Option.some.injEq] at h
      exact ⟨r.1, r.2, pickAt_perm hp, h.symm⟩

theorem wake_waiting {cv cv' : CondVar ι} {k : Nat} (h : cv.wake k = some cv') :
    cv'.waiting.Perm cv.waiting := by
  obtain ⟨i, rest, hp, rfl⟩ := wake_spec h
  simp only [waiting, ← List.append_assoc]
  refine (List.perm_append_comm.trans ?_ : List.Perm _ (i :: (rest ++ cv.notified ++ cv.woken))).trans
    ((hp.symm.append_right _).append_right _)
  simp

/-- A resuming thread was waiting; the wait set itself is untouched. -/
theorem resume_spec {cv cv' : CondVar ι} {cause : Cause} {k : Nat} {i : ι}
    (h : cv.resume cause k = some (i, cv')) :
    cv'.parked = cv.parked ∧ cv.waiting.Perm (i :: cv'.waiting) ∧
      cv.notified.length = cv'.notified.length + (if cause = .notified then 1 else 0) := by
  cases cause with
  | notified =>
      simp only [resume, Option.map_eq_some_iff, Prod.mk.injEq] at h
      obtain ⟨r, hr, rfl, rfl⟩ := h
      refine ⟨rfl, ?_, by simpa using pickAt_length hr⟩
      simp only [waiting]
      exact ((pickAt_perm hr).append_right _ |>.append_left _).trans List.perm_middle
  | woken =>
      simp only [resume, Option.map_eq_some_iff, Prod.mk.injEq] at h
      obtain ⟨r, hr, rfl, rfl⟩ := h
      refine ⟨rfl, ?_, by simp⟩
      simp only [waiting, ← List.append_assoc]
      exact ((pickAt_perm hr).append_left _).trans List.perm_middle

/-- The steps threads inside the wait still have to take: a parked thread leaves
the wait set, then every thread takes the lock. -/
def rank (cv : CondVar ι) : Nat := cv.parked.length + cv.waiting.length

theorem rank_wake {cv cv' : CondVar ι} {k : Nat} (h : cv.wake k = some cv') :
    cv'.rank < cv.rank := by
  have waits := (wake_waiting h).length_eq
  obtain ⟨i, rest, hp, rfl⟩ := wake_spec h
  have parked := hp.length_eq
  simp only [rank, List.length_cons] at *
  omega

theorem rank_resume {cv cv' : CondVar ι} {cause : Cause} {k : Nat} {i : ι}
    (h : cv.resume cause k = some (i, cv')) : cv'.rank < cv.rank := by
  obtain ⟨parked, waits, _⟩ := resume_spec h
  have fewer := waits.length_eq
  simp only [rank, parked, List.length_cons] at *
  omega

theorem rank_notifyOne (cv : CondVar ι) (pick : Nat) : (cv.notifyOne pick).rank ≤ cv.rank := by
  have waits := (cv.notifyOne_waiting pick).length_eq
  rcases cv.notifyOne_cases pick with ⟨_, same⟩ | ⟨i, rest, hp, moved⟩
  · exact Nat.le_of_eq (by rw [same])
  · have parked := hp.length_eq
    rw [moved] at waits ⊢
    simp only [rank, List.length_cons] at *
    omega

theorem rank_notifyAll (cv : CondVar ι) : cv.notifyAll.rank ≤ cv.rank := by
  have waits := cv.notifyAll_waiting.length_eq
  simp only [rank, notifyAll_parked, List.length_nil]
  omega

/-- A thread inside the wait can take the lock again, a parked one after it has woken up. -/
theorem resumes_of_waiting {cv : CondVar ι} {i : ι} (h : i ∈ cv.waiting) :
    (∃ k cv', cv.wake k = some cv' ∧ ∃ j cv'', cv'.resume .woken j = some (i, cv'')) ∨
      ∃ cause k cv', cv.resume cause k = some (i, cv') := by
  simp only [waiting, List.mem_append] at h
  rcases h with parked | notified | woken
  · obtain ⟨k, hk⟩ := List.mem_iff_getElem?.mp parked
    have wakes : cv.wake k =
        some { cv with parked := cv.parked.eraseIdx k, woken := cv.woken ++ [i] } := by
      simp only [wake, pickAt, hk]
    have picked : pickAt (cv.woken ++ [i]) cv.woken.length =
        some (i, (cv.woken ++ [i]).eraseIdx cv.woken.length) := by
      simp only [pickAt, List.getElem?_concat_length]
    exact .inl ⟨k, _, wakes, cv.woken.length, _, by simp only [resume, picked]; rfl⟩
  · obtain ⟨k, hk⟩ := List.mem_iff_getElem?.mp notified
    exact .inr ⟨.notified, k, _, by simp only [resume, pickAt, hk]; rfl⟩
  · obtain ⟨k, hk⟩ := List.mem_iff_getElem?.mp woken
    exact .inr ⟨.woken, k, _, by simp only [resume, pickAt, hk]; rfl⟩

/-- A thread inside the wait can always go on. -/
theorem enabled_of_waiting {cv : CondVar ι} {i : ι} (h : i ∈ cv.waiting) :
    (∃ k cv', cv.wake k = some cv') ∨ ∃ cause k cv', cv.resume cause k = some (i, cv') :=
  (resumes_of_waiting h).imp_left fun ⟨k, cv', wakes, _⟩ => ⟨k, cv', wakes⟩

end CondVar

/-! ## Wait sets and program counters

Threads are numbered by their position in a list of program counters. -/

/-- The threads inside the wait are those whose program counter says so, each once. -/
def Seated {β : Type*} [DecidableEq β] (waiting : List Nat) (pcs : List β) (asleep : β) : Prop :=
  ∀ i, waiting.count i = if pcs[i]? = some asleep then 1 else 0

namespace Seated

variable {β : Type*} [DecidableEq β] {waiting waiting' : List Nat} {pcs : List β}
  {asleep pc pc' : β} {i : Nat}

theorem perm (seated : Seated waiting pcs asleep) (h : waiting'.Perm waiting) :
    Seated waiting' pcs asleep := by
  intro j
  rw [h.count_eq]
  exact seated j

theorem pc_of_mem (seated : Seated waiting pcs asleep) (mem : i ∈ waiting) :
    pcs[i]? = some asleep := by
  have pos := List.count_pos_iff.mpr mem
  have counted := seated i
  by_contra other
  rw [if_neg other] at counted
  omega

theorem mem_of_pc (seated : Seated waiting pcs asleep) (h : pcs[i]? = some asleep) :
    i ∈ waiting := by
  have counted := seated i
  rw [if_pos h] at counted
  exact List.count_pos_iff.mp (by omega)

/-- A thread outside the wait moves on outside of it. -/
theorem set (seated : Seated waiting pcs asleep) (h : pcs[i]? = some pc) (out : pc ≠ asleep)
    (out' : pc' ≠ asleep) : Seated waiting (pcs.set i pc') asleep := by
  intro j
  rw [seated j]
  by_cases same : i = j
  · subst same
    rw [set_at h, h]
    simp [out, out']
  · rw [List.getElem?_set_ne same]

/-- A thread starts outside the wait. -/
theorem concat (seated : Seated waiting pcs asleep) (out : pc ≠ asleep) :
    Seated waiting (pcs ++ [pc]) asleep := by
  intro j
  rw [seated j]
  simp only [concat_at, out, and_false, or_false]

/-- A thread enters the wait. -/
theorem sit (seated : Seated waiting pcs asleep) (h : pcs[i]? = some pc) (out : pc ≠ asleep)
    (enters : waiting'.Perm (i :: waiting)) : Seated waiting' (pcs.set i asleep) asleep := by
  intro j
  rw [enters.count_eq, List.count_cons, seated j]
  by_cases same : i = j
  · subst same
    rw [set_at h, h]
    simp [out]
  · rw [List.getElem?_set_ne same]
    simp [same]

/-- A thread leaves the wait. -/
theorem rise (seated : Seated waiting pcs asleep) (leaves : waiting.Perm (i :: waiting'))
    (out : pc ≠ asleep) : Seated waiting' (pcs.set i pc) asleep := by
  have sat := seated.pc_of_mem (leaves.mem_iff.mpr (List.mem_cons_self ..))
  intro j
  have counted := seated j
  rw [leaves.count_eq, List.count_cons] at counted
  by_cases same : i = j
  · subst same
    rw [sat] at counted
    rw [set_at sat]
    simpa [out] using counted
  · rw [List.getElem?_set_ne same]
    simpa [same] using counted

end Seated

end Rtl.Base
