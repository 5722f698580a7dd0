import Mathlib.Data.List.Sort

/-! # Association lists with ordered keys

An association list whose keys are strictly increasing is the canonical form of a
finite map: it has one entry for a key, and two of them with the same lookups are
equal.
-/

namespace Rtl.Base

variable {κ α β : Type*}

def KeysOrdered [LinearOrder κ] (l : List (κ × α)) : Prop := l.Pairwise fun a b => a.1 < b.1

section Lookup

variable [BEq κ]

theorem lookup_map_snd [LawfulBEq κ] (f : κ → α → β) (l : List (κ × α)) (k : κ) :
    (l.map fun entry => (entry.1, f entry.1 entry.2)).lookup k = (l.lookup k).map (f k) := by
  induction l with
  | nil => rfl
  | cons entry rest ih =>
      obtain ⟨key, x⟩ := entry
      rw [List.map_cons, List.lookup_cons, List.lookup_cons]
      cases here : k == key with
      | true => rw [eq_of_beq here]; rfl
      | false => exact ih

theorem lookup_append (l r : List (κ × α)) (k : κ) :
    (l ++ r).lookup k = (l.lookup k).or (r.lookup k) := by
  induction l with
  | nil => rfl
  | cons entry rest ih =>
      obtain ⟨key, x⟩ := entry
      rw [List.cons_append, List.lookup_cons, List.lookup_cons]
      cases k == key with
      | true => rfl
      | false => exact ih

/-- `emplace` of a map: an entry that is there stays. -/
theorem lookup_emplace [LawfulBEq κ] (l : List (κ × α)) (k : κ) (x : α) (k' : κ) :
    (if (l.lookup k).isSome then l else l ++ [(k, x)]).lookup k' =
      (l.lookup k').or (if k' == k then some x else none) := by
  cases found : l.lookup k with
  | none =>
      rw [if_neg (by simp), lookup_append, List.lookup_cons]
      cases k' == k <;> rfl
  | some first =>
      rw [if_pos (by simp)]
      cases here : k' == k with
      | true => simp [eq_of_beq here, found]
      | false => simp

end Lookup

namespace KeysOrdered

variable [LinearOrder κ] {l r : List (κ × α)}

theorem filter (ordered : KeysOrdered l) (p : κ × α → Bool) : KeysOrdered (l.filter p) :=
  List.Pairwise.filter p ordered

theorem mem_iff_lookup [BEq κ] [LawfulBEq κ] (ordered : KeysOrdered l) {k : κ} {x : α} :
    (k, x) ∈ l ↔ l.lookup k = some x := by
  induction l with
  | nil => simp
  | cons entry rest ih =>
      obtain ⟨key, y⟩ := entry
      obtain ⟨first, later⟩ := List.pairwise_cons.mp ordered
      rw [List.mem_cons, List.lookup_cons]
      cases here : k == key with
      | true =>
          obtain rfl := eq_of_beq here
          constructor
          · rintro (same | old)
            · simp [(Prod.mk.inj same).2]
            · exact absurd (first _ old) (lt_irrefl k)
          · rintro ⟨⟩
            exact .inl rfl
      | false =>
          have other : (k, x) ≠ (key, y) := by
            rintro ⟨⟩
            simp at here
          simp only [other, false_or]
          exact ih later

/-- Ordered lists are determined by their lookups. -/
theorem ext_lookup [BEq κ] [LawfulBEq κ] (ol : KeysOrdered l) (or : KeysOrdered r)
    (same : ∀ k, l.lookup k = r.lookup k) : l = r := by
  have irrefl : Std.Irrefl fun a b : κ × α => a.1 < b.1 := ⟨fun a => lt_irrefl a.1⟩
  have antisymm : Std.Antisymm fun a b : κ × α => a.1 < b.1 :=
    ⟨fun a b less more => absurd more (lt_asymm less)⟩
  apply List.Pairwise.eq_of_mem_iff ol or
  rintro ⟨k, x⟩
  rw [ol.mem_iff_lookup, or.mem_iff_lookup, same]

theorem lookup_filter [BEq κ] [LawfulBEq κ] (ordered : KeysOrdered l) (p : κ × α → Bool) (k : κ) :
    (l.filter p).lookup k = (l.lookup k).filter fun x => p (k, x) := by
  apply Option.ext
  intro x
  rw [← (ordered.filter p).mem_iff_lookup, List.mem_filter, ordered.mem_iff_lookup,
    Option.filter_eq_some_iff]

end KeysOrdered

end Rtl.Base
