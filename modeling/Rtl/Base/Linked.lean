import Mathlib.Data.List.Basic

/-! # Chains of links

Following the links of a store from a given place visits a list of places and ends. The
list is known by the links of its members, so that a store that agrees on them has the
same chain.
-/

namespace Rtl.Base

variable {α : Type*}

/-- Following `next` from `p` visits the places of the list and then ends. -/
inductive Linked (next : α → Option α) : Option α → List α → Prop where
  | nil : Linked next none []
  | cons {a : α} {l : List α} : Linked next (next a) l → Linked next (some a) (a :: l)

namespace Linked

variable {next next' : α → Option α} {p : Option α} {l : List α} {a b : α}

theorem congr (chain : Linked next p l) (same : ∀ x ∈ l, next' x = next x) : Linked next' p l := by
  induction chain with
  | nil => exact .nil
  | @cons a l _ ih =>
      refine .cons ?_
      rw [same a (by simp)]
      exact ih fun x mem => same x (by simp [mem])

theorem rest (chain : Linked next (some a) (a :: l)) : Linked next (next a) l := by
  cases chain with
  | cons tail => exact tail

/-- The place a member links to comes later. -/
theorem link_mem (chain : Linked next p l) (mem : a ∈ l) (link : next a = some b) : b ∈ l.tail := by
  induction chain with
  | nil => simp at mem
  | @cons x l tail ih =>
      rw [List.tail_cons]
      rcases List.mem_cons.mp mem with rfl | mem
      · rw [link] at tail
        cases tail with
        | cons _ => simp
      · exact List.mem_of_mem_tail (ih mem)

/-- Only the last member has no link. -/
theorem eq_concat (chain : Linked next p l) (mem : a ∈ l) (stop : next a = none) :
    ∃ init, l = init ++ [a] := by
  induction chain with
  | nil => simp at mem
  | @cons x l tail ih =>
      rcases List.mem_cons.mp mem with rfl | mem
      · rw [stop] at tail
        cases tail with
        | nil => exact ⟨[], rfl⟩
      · obtain ⟨init, rfl⟩ := ih mem
        exact ⟨x :: init, rfl⟩

/-- Linking one more place to the last one. -/
theorem concat (chain : Linked next p (l ++ [a])) (same : ∀ x ∈ l, next' x = next x)
    (link : next' a = some b) (stop : next' b = none) : Linked next' p (l ++ [a] ++ [b]) := by
  have ends : Linked next' (some b) [b] := .cons (by rw [stop]; exact .nil)
  induction l generalizing p with
  | nil =>
      cases chain with
      | cons _ => exact .cons (by rw [link]; exact ends)
  | cons x l ih =>
      cases chain with
      | cons tail =>
          refine .cons ?_
          rw [same x (by simp)]
          exact ih tail fun y mem => same y (by simp [mem])

end Linked

end Rtl.Base
