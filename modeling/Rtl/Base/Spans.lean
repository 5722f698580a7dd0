import Mathlib.Algebra.GroupWithZero.Nat
import Rtl.Base.ListUpdate

/-! # Tables of spans

A table holds spans of numbers, or blank entries. Its cover at a point counts the
spans the point lies in. Writing one entry changes the cover by that entry alone,
and cutting a span in two does not change it.
-/

namespace Rtl.Base

structure Span where
  start : Nat
  length : Nat
  deriving Repr, DecidableEq

/-- What an entry adds to the cover at a point: one if the point lies in it. -/
def weight (x : Nat) : Option Span → Nat
  | none => 0
  | some s => if s.start ≤ x ∧ x < s.start + s.length then 1 else 0

def cover (spans : List (Option Span)) (x : Nat) : Nat := (spans.map (weight x)).sum

/-- Every point below the limit lies in exactly one span. -/
def Tiles (limit : Nat) (spans : List (Option Span)) : Prop := ∀ x < limit, cover spans x = 1

def Within (limit : Nat) (spans : List (Option Span)) : Prop :=
  ∀ s, some s ∈ spans → s.start + s.length ≤ limit

/-! ## Entries -/

/-- A span is cut in two. -/
theorem weight_split (x start length rest : Nat) :
    weight x (some ⟨start, length + rest⟩) =
      weight x (some ⟨start, length⟩) + weight x (some ⟨start + length, rest⟩) := by
  simp only [weight]
  split <;> split <;> split <;> omega

theorem weight_empty (x start : Nat) : weight x (some ⟨start, 0⟩) = 0 := by
  simp only [weight]
  split <;> omega

theorem weight_le_one (x : Nat) (entry : Option Span) : weight x entry ≤ 1 := by
  cases entry with
  | none => exact Nat.zero_le 1
  | some s =>
      simp only [weight]
      split <;> omega

/-! ## Tables -/

variable {spans : List (Option Span)} {entry : Option Span} {i : Nat}

theorem cover_nil (x : Nat) : cover [] x = 0 := rfl

theorem cover_cons (entry : Option Span) (spans : List (Option Span)) (x : Nat) :
    cover (entry :: spans) x = weight x entry + cover spans x := by
  simp [cover]

theorem cover_append (first second : List (Option Span)) (x : Nat) :
    cover (first ++ second) x = cover first x + cover second x := by
  simp [cover]

theorem cover_perm {spans' : List (Option Span)} (perm : spans.Perm spans') (x : Nat) :
    cover spans x = cover spans' x :=
  (perm.map (weight x)).sum_eq

theorem cover_blank (k x : Nat) : cover (List.replicate k none) x = 0 := by
  simp [cover, weight]

theorem weight_le_cover (mem : entry ∈ spans) (x : Nat) : weight x entry ≤ cover spans x := by
  rw [cover_perm (List.perm_cons_erase mem) x, cover_cons]
  exact Nat.le_add_right _ _

/-- A point in two entries is covered twice. -/
theorem weight_add_le_cover {other : Option Span} (mem : entry ∈ spans) (mem' : other ∈ spans)
    (different : other ≠ entry) (x : Nat) : weight x entry + weight x other ≤ cover spans x := by
  have order := cover_perm (List.perm_cons_erase mem) x
  have rest := weight_le_cover ((List.mem_erase_of_ne different).mpr mem') x
  rw [cover_cons] at order
  omega

/-- A point that is covered lies in an entry. -/
theorem exists_of_cover_pos {x : Nat} (covered : 0 < cover spans x) :
    ∃ s, some s ∈ spans ∧ s.start ≤ x ∧ x < s.start + s.length := by
  by_contra none
  have zero : cover spans x = 0 := by
    apply List.sum_eq_zero
    intro w mem
    obtain ⟨entry, member, rfl⟩ := List.mem_map.mp mem
    cases entry with
    | none => rfl
    | some s => exact if_neg fun inside => none ⟨s, member, inside⟩
  omega

/-- Spans that do not share the point cover it at most once. -/
theorem cover_le_one {x : Nat} (apart : spans.Pairwise fun left right => weight x left + weight x right ≤ 1) :
    cover spans x ≤ 1 := by
  induction spans with
  | nil => exact Nat.zero_le 1
  | cons entry spans ih =>
      obtain ⟨first, rest⟩ := List.pairwise_cons.mp apart
      have later := ih rest
      rw [cover_cons]
      by_cases covered : 0 < cover spans x
      · obtain ⟨s, mem, inside⟩ := exists_of_cover_pos covered
        have one := first (some s) mem
        rw [show weight x (some s) = 1 from if_pos inside] at one
        omega
      · have here : weight x entry ≤ 1 := weight_le_one x entry
        omega

theorem Within.cover_eq_zero {limit x : Nat} (within : Within limit spans) (outside : limit ≤ x) :
    cover spans x = 0 := by
  by_contra covered
  obtain ⟨s, mem, _, inside⟩ := exists_of_cover_pos (Nat.pos_of_ne_zero covered)
  have bound := within s mem
  omega

/-- Writing an entry. -/
theorem cover_set {old : Option Span} (at_i : spans[i]? = some old) (x : Nat) :
    cover (spans.set i entry) x + weight x old = cover spans x + weight x entry := by
  have swap := sum_map_set (weight x) entry at_i
  unfold cover
  omega

theorem Within.set {limit : Nat} (within : Within limit spans)
    (fits : ∀ s, entry = some s → s.start + s.length ≤ limit) : Within limit (spans.set i entry) := by
  intro s mem
  rcases List.mem_or_eq_of_mem_set mem with old | new
  · exact within s old
  · exact fits s new.symm

end Rtl.Base
