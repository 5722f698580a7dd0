import Mathlib.Data.List.Basic

/-! # Reading and replacing at a path

A tree whose nodes have children under keys is only used through the lookup of a child
and a change of one child. A path is a list of keys. What is read at one path after the
value at another has been replaced depends on how the two paths relate.
-/

namespace Rtl.Base

/-- Lookup of a child, and a change of the child under a key, if there is one. -/
structure Children (α κ : Type*) where
  child : α → κ → Option α
  modify : α → κ → (α → α) → α
  child_modify : ∀ a k f, child (modify a k f) k = (child a k).map f
  child_modify_ne : ∀ a k k' f, k' ≠ k → child (modify a k f) k' = child a k'

namespace Children

variable {α κ : Type*}

def walk (t : Children α κ) (a : α) : List κ → Option α
  | [] => some a
  | k :: path => (t.child a k).bind fun b => t.walk b path

def assign (t : Children α κ) (a : α) : List κ → α → α
  | [], v => v
  | k :: path, v => t.modify a k fun b => t.assign b path v

variable {t : Children α κ}

/-- At the path itself, and below it. -/
theorem walk_assign {a : α} {path : List κ} (v : α) (found : (t.walk a path).isSome = true)
    (rest : List κ) : t.walk (t.assign a path v) (path ++ rest) = t.walk v rest := by
  induction path generalizing a with
  | nil => rfl
  | cons k path ih =>
      obtain ⟨b, child, below⟩ : ∃ b, t.child a k = some b ∧ (t.walk b path).isSome = true := by
        cases child : t.child a k with
        | none => simp [walk, child] at found
        | some b => exact ⟨b, rfl, by simpa [walk, child] using found⟩
      simp only [List.cons_append, walk, assign, t.child_modify, child, Option.map_some, Option.bind_some]
      exact ih below

/-- Where the two paths part, nothing changes. -/
theorem walk_assign_of_apart (a v : α) {path other : List κ} (notBelow : ¬ path <+: other)
    (notAbove : ¬ other <+: path) : t.walk (t.assign a path v) other = t.walk a other := by
  induction path generalizing a other with
  | nil => exact absurd List.nil_prefix notBelow
  | cons k path ih =>
      cases other with
      | nil => exact absurd List.nil_prefix notAbove
      | cons k' other =>
          simp only [walk, assign]
          by_cases same : k' = k
          · subst same
            rw [t.child_modify]
            cases t.child a k' with
            | none => rfl
            | some b =>
                refine ih b (fun below => notBelow ?_) fun above => notAbove ?_
                · exact List.cons_prefix_cons.mpr ⟨rfl, below⟩
                · exact List.cons_prefix_cons.mpr ⟨rfl, above⟩
          · rw [t.child_modify_ne _ _ _ _ same]

end Children

end Rtl.Base
