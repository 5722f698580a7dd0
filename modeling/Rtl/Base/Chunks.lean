import Mathlib.Data.List.Perm.Basic

/-! # Cutting a list into chunks and putting it together again

A list is cut into chunks of one size, the last one possibly shorter. Slots that
are filled by index, in any order and each once, end up in index order.
-/

namespace Rtl.Base

variable {α β : Type*}

def chunkAt (size : Nat) (data : List α) (i : Nat) : List α := (data.drop (i * size)).take size

theorem chunkAt_length (size : Nat) (data : List α) (i : Nat) :
    (chunkAt size data i).length = min size (data.length - i * size) := by
  simp [chunkAt]

theorem flatten_chunkAt_take (size : Nat) (data : List α) (count : Nat) :
    ((List.range count).map (chunkAt size data)).flatten = data.take (count * size) := by
  induction count with
  | zero => simp
  | succ count ih =>
      rw [List.range_succ, List.map_append, List.flatten_append, ih]
      simp only [List.map_cons, List.map_nil, List.flatten_cons, List.flatten_nil, List.append_nil,
        chunkAt]
      rw [Nat.succ_mul, List.take_add]

/-- Enough chunks make up the whole list. -/
theorem flatten_chunkAt {size count : Nat} {data : List α} (covers : data.length ≤ count * size) :
    ((List.range count).map (chunkAt size data)).flatten = data := by
  rw [flatten_chunkAt_take, List.take_of_length_le covers]

/-- What arrives in another order was sent from another order of the origins. -/
theorem perm_map_inv {f : α → β} {l : List β} {is : List α} (perm : l.Perm (is.map f)) :
    ∃ js : List α, js.Perm is ∧ l = js.map f := by
  have sent : List.Forall₂ (fun b a => b = f a) (is.map f) is :=
    List.forall₂_map_left_iff.mpr (List.forall₂_same.mpr fun _ _ => rfl)
  obtain ⟨js, arrived, order⟩ := List.perm_comp_forall₂ perm sent
  refine ⟨js, order, ?_⟩
  rw [← List.forall₂_eq_eq_eq]
  exact List.forall₂_map_right_iff.mpr arrived

/-- Decoding item by item succeeds if and only if every item has its value. -/
theorem mapM_eq_some_iff {f : α → Option β} {l : List α} {r : List β} :
    l.mapM f = some r ↔ l.map f = r.map some := by
  induction l generalizing r with
  | nil => cases r <;> simp
  | cons a l ih =>
      simp only [List.mapM_cons, Option.pure_def, Option.bind_eq_bind, Option.bind_eq_some_iff,
        Option.some_inj]
      constructor
      · rintro ⟨b, here, bs, there, rfl⟩
        rw [List.map_cons, List.map_cons, here, ih.mp there]
      · intro same
        cases r with
        | nil => simp at same
        | cons b bs =>
            obtain ⟨here, there⟩ := List.cons.inj same
            exact ⟨b, here, bs, ih.mpr there, rfl⟩

/-! ## Slots -/

theorem set_map_range (f : Nat → β) (n i : Nat) (x : β) :
    ((List.range n).map f).set i x = (List.range n).map fun j => if j = i then x else f j := by
  apply List.ext_getElem?
  intro j
  by_cases inside : j < n
  · by_cases here : i = j
    · subst here
      simp [inside]
    · have other : ¬ j = i := fun same => here same.symm
      rw [List.getElem?_set_ne here, List.getElem?_map, List.getElem?_map, List.getElem?_range inside]
      simp [other]
  · rw [List.getElem?_eq_none (by simpa using inside), List.getElem?_eq_none (by simpa using inside)]

/-- The slots whose index is done hold their value, the others are blank. -/
def scatter (f : Nat → β) (blank : β) (n : Nat) (done : List Nat) : List β :=
  (List.range n).map fun i => if i ∈ done then f i else blank

variable {f : Nat → β} {blank : β} {n i : Nat} {done : List Nat}

theorem scatter_nil : scatter f blank n [] = List.replicate n blank := by
  simp [scatter, List.map_const']

theorem scatter_at (h : i < n) :
    (scatter f blank n done)[i]? = some (if i ∈ done then f i else blank) := by
  simp [scatter, h]

theorem scatter_set : (scatter f blank n done).set i (f i) = scatter f blank n (done ++ [i]) := by
  apply List.ext_getElem?
  intro j
  by_cases inside : j < n
  · rw [scatter_at inside, List.getElem?_set]
    by_cases same : i = j
    · subst same
      simp [scatter, inside]
    · have other : ¬ j = i := fun h => same h.symm
      rw [if_neg same, scatter_at inside]
      simp [other]
  · rw [List.getElem?_eq_none (by simp [scatter]; omega),
      List.getElem?_eq_none (by simp [scatter]; omega)]

theorem scatter_full (all : done.Perm (List.range n)) :
    scatter f blank n done = (List.range n).map f := by
  apply List.map_congr_left
  intro i mem
  rw [if_pos (all.mem_iff.mpr mem)]

end Rtl.Base
