import Mathlib.Algebra.BigOperators.Group.List.Basic
import Mathlib.Tactic.Abel

/-! # Lists that are updated in place

What a list has at its indices after one entry is replaced or one is appended, and
what the replacement does to a sum over the entries or to a count of them.
-/

namespace Rtl.Base

theorem set_at {β : Type*} {l : List β} {i : Nat} {x y : β} (h : l[i]? = some x) :
    (l.set i y)[i]? = some y :=
  List.getElem?_set_self (List.getElem?_eq_some_iff.mp h).1

theorem set_self_at {β : Type*} {l : List β} {i : Nat} {x : β} (h : l[i]? = some x) : l.set i x = l := by
  obtain ⟨inside, rfl⟩ := List.getElem?_eq_some_iff.mp h
  exact List.set_getElem_self inside

/-- The entries that are not replaced stay. -/
theorem mem_set_of_ne {β : Type*} {l : List β} {i : Nat} {x y z : β} (h : l[i]? = some x) (mem : z ∈ l)
    (other : z ≠ x) : z ∈ l.set i y := by
  obtain ⟨j, at_j⟩ := List.mem_iff_getElem?.mp mem
  have different : i ≠ j := by
    rintro rfl
    exact other (Option.some.inj (at_j.symm.trans h))
  exact List.mem_of_getElem? ((List.getElem?_set_ne different).trans at_j)

/-- Replacing one entry replaces one summand. -/
theorem sum_map_set {β M : Type*} [AddCommMonoid M] (f : β → M) {l : List β} {w : Nat} {x : β}
    (y : β) (h : l[w]? = some x) : f x + ((l.set w y).map f).sum = f y + (l.map f).sum := by
  induction l generalizing w with
  | nil => simp at h
  | cons first rest ih =>
      cases w with
      | zero =>
          simp only [List.getElem?_cons_zero, Option.some.injEq] at h
          subst h
          simp only [List.set_cons_zero, List.map_cons, List.sum_cons]
          abel
      | succ w =>
          have tail := ih (w := w) (by simpa using h)
          simp only [List.set_cons_succ, List.map_cons, List.sum_cons]
          rw [add_left_comm, tail]
          abel

/-- Taking one entry out takes one summand out. -/
theorem sum_map_eraseIdx {β M : Type*} [AddCommMonoid M] (f : β → M) {l : List β} {i : Nat} {x : β}
    (h : l[i]? = some x) : f x + ((l.eraseIdx i).map f).sum = (l.map f).sum := by
  induction l generalizing i with
  | nil => simp at h
  | cons first rest ih =>
      cases i with
      | zero =>
          simp only [List.getElem?_cons_zero, Option.some.injEq] at h
          subst h
          rfl
      | succ i =>
          have tail := ih (i := i) (by simpa using h)
          simp only [List.eraseIdx_cons_succ, List.map_cons, List.sum_cons]
          rw [add_left_comm, tail]

/-- Replacing one entry changes a count by what the two entries count for. -/
theorem countP_set_at {β : Type*} (p : β → Bool) {l : List β} {i : Nat} {x : β} (y : β)
    (h : l[i]? = some x) : (p x).toNat + (l.set i y).countP p = (p y).toNat + l.countP p := by
  induction l generalizing i with
  | nil => simp at h
  | cons first rest ih =>
      cases i with
      | zero =>
          simp only [List.getElem?_cons_zero, Option.some.injEq] at h
          subst h
          simp only [List.set_cons_zero, List.countP_cons]
          cases p first <;> cases p y <;> simp [Nat.add_comm]
      | succ i =>
          have tail := ih (i := i) (by simpa using h)
          simp only [List.set_cons_succ, List.countP_cons]
          omega

/-- Replacing one entry replaces what the entry contributes. -/
theorem filterMap_set_perm {β γ : Type*} (f : β → Option γ) {l : List β} {i : Nat} {x : β} (y : β)
    (h : l[i]? = some x) :
    ((f x).toList ++ (l.set i y).filterMap f).Perm ((f y).toList ++ l.filterMap f) := by
  induction l generalizing i with
  | nil => simp at h
  | cons first rest ih =>
      have split : ∀ (a : β) (l : List β), (a :: l).filterMap f = (f a).toList ++ l.filterMap f := by
        intro a l
        cases h : f a <;> simp [h]
      cases i with
      | zero =>
          simp only [List.getElem?_cons_zero, Option.some.injEq] at h
          subst h
          simp only [List.set_cons_zero, split]
          exact List.perm_append_comm_assoc _ _ _
      | succ i =>
          have tail := ih (i := i) (by simpa using h)
          simp only [List.set_cons_succ, split]
          refine (List.perm_append_comm_assoc _ _ _).trans ?_
          exact (tail.append_left _).trans (List.perm_append_comm_assoc _ _ _)

theorem countP_concat {β : Type*} (p : β → Bool) (l : List β) (x : β) :
    (l ++ [x]).countP p = l.countP p + (p x).toNat := by
  cases h : p x <;> simp [h]

/-- The entries of a list with one more at its end. -/
theorem concat_at {β : Type*} {l : List β} {x y : β} {i : Nat} :
    (l ++ [x])[i]? = some y ↔ l[i]? = some y ∨ (i = l.length ∧ x = y) := by
  rcases Nat.lt_trichotomy i l.length with lt | rfl | gt
  · rw [List.getElem?_append_left lt]
    constructor
    · exact .inl
    · rintro (old | ⟨same, _⟩)
      · exact old
      · omega
  · simp
  · have out : l.length + 1 ≤ i := gt
    rw [List.getElem?_eq_none (by simpa using out), List.getElem?_eq_none (by omega)]
    constructor
    · intro h
      cases h
    · rintro (h | ⟨same, _⟩)
      · cases h
      · omega

theorem modify_concat {β : Type*} (l : List β) (x : β) (f : β → β) :
    (l ++ [x]).modify l.length f = l ++ [f x] := by
  induction l with
  | nil => rfl
  | cons first rest ih => simp [ih]

/-- An entry that is related to all others takes the place of one of them. -/
theorem pairwise_set {β : Type*} {R : β → β → Prop} {l : List β} {i : Nat} {y : β}
    (symm : ∀ a b, R a b → R b a) (pairs : l.Pairwise R) (new : ∀ c ∈ l, R y c) :
    (l.set i y).Pairwise R := by
  induction l generalizing i with
  | nil => exact List.Pairwise.nil
  | cons first rest ih =>
      obtain ⟨head, tail⟩ := List.pairwise_cons.mp pairs
      have later : ∀ c ∈ rest, R y c := fun c mem => new c (List.mem_cons_of_mem first mem)
      cases i with
      | zero => exact List.pairwise_cons.mpr ⟨later, tail⟩
      | succ i =>
          refine List.pairwise_cons.mpr ⟨?_, ih tail later⟩
          intro c mem
          rcases List.mem_or_eq_of_mem_set mem with old | rfl
          · exact head c old
          · exact symm c first (new first List.mem_cons_self)

end Rtl.Base
