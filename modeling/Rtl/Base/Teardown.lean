import Mathlib.Logic.Relation
import Mathlib.Data.List.Basic
import Mathlib.Data.List.Nodup
import Mathlib.Data.List.Perm.Subperm

/-! # Tearing down what a node owns

Every node has a list of children, and tearing a node down tears its children down with
it. In a forest that visits everything below the node once. An edge back to the node makes
it come round a second time, which a depth of one more than the number of nodes is enough to
see.
-/

namespace Rtl.Base

variable {α : Type*}

/-- The nodes in the order in which they are torn down, to a depth. -/
def teardown (children : α → List α) : Nat → α → List α
  | 0, _ => []
  | depth + 1, a => a :: (children a).flatMap (teardown children depth)

def Reaches (children : α → List α) : α → α → Prop :=
  Relation.ReflTransGen fun a b => b ∈ children a

def Acyclic (children : α → List α) : Prop :=
  ∀ a b, b ∈ children a → ¬ Reaches children b a

structure IsForest (children : α → List α) : Prop where
  acyclic : Acyclic children
  nodup : ∀ a, (children a).Nodup
  parent : ∀ a b c, c ∈ children a → c ∈ children b → a = b

/-- A way from a node to another, with the nodes it leaves. -/
inductive Path (children : α → List α) : α → List α → α → Prop where
  | nil (b : α) : Path children b [] b
  | cons {a b c : α} {left : List α} (child : c ∈ children a) (rest : Path children c left b) :
      Path children a (a :: left) b

variable {children : α → List α} {a b c : α}

/-! ## Ways -/

namespace Path

variable {left : List α}

theorem snoc (path : Path children a left b) (child : c ∈ children b) :
    Path children a (left ++ [b]) c := by
  induction path with
  | nil b => exact .cons child (.nil c)
  | cons first _ ih => exact .cons first (ih child)

/-- The way can be entered at any node it leaves. -/
theorem from_mem (path : Path children a left b) (mem : c ∈ left) :
    ∃ left', left' <:+ left ∧ Path children c left' b := by
  induction path with
  | nil b => cases mem
  | cons child rest ih =>
      rcases List.mem_cons.mp mem with rfl | mem
      · exact ⟨_, List.suffix_rfl, .cons child rest⟩
      · obtain ⟨left', suffix, path⟩ := ih mem
        exact ⟨left', suffix.trans (List.suffix_cons _ _), path⟩

theorem reaches_of_mem (path : Path children a left b) (mem : c ∈ left) :
    Reaches children a c := by
  induction path with
  | nil b => cases mem
  | cons child rest ih =>
      rcases List.mem_cons.mp mem with rfl | mem
      · exact .refl
      · exact .head child (ih mem)

/-- A way no longer than the depth ends in a node that is torn down. -/
theorem mem_teardown (path : Path children a left b) {depth : Nat} (short : left.length < depth) :
    b ∈ teardown children depth a := by
  induction path generalizing depth with
  | nil b =>
      cases depth with
      | zero => cases short
      | succ depth => exact List.mem_cons_self
  | cons child _ ih =>
      cases depth with
      | zero => cases short
      | succ depth =>
          rw [List.length_cons] at short
          exact List.mem_cons_of_mem _ (List.mem_flatMap.mpr ⟨_, child, ih (by omega)⟩)

end Path

/-- What is below a node is reached on a way that passes no node twice. -/
theorem Reaches.exists_path (reaches : Reaches children a b) :
    ∃ left, Path children a left b ∧ (b :: left).Nodup := by
  induction reaches using Relation.ReflTransGen.head_induction_on with
  | refl => exact ⟨[], .nil b, by simp⟩
  | @head a c child _ ih =>
      obtain ⟨left, path, nodup⟩ := ih
      by_cases last : a = b
      · subst last
        exact ⟨[], .nil a, by simp⟩
      · by_cases passed : a ∈ left
        · obtain ⟨left', suffix, path⟩ := path.from_mem passed
          exact ⟨left', path, nodup.sublist (suffix.sublist.cons_cons b)⟩
        · refine ⟨a :: left, .cons child path, ?_⟩
          rw [List.nodup_cons] at nodup ⊢
          rw [List.mem_cons, not_or]
          exact ⟨⟨Ne.symm last, nodup.1⟩, List.nodup_cons.mpr ⟨passed, nodup.2⟩⟩

/-- Such a way is shorter than any list of all the nodes below. -/
theorem Reaches.exists_short_path {nodes : List α} (reaches : Reaches children a b)
    (all : ∀ c, Reaches children a c → c ∈ nodes) :
    ∃ left, Path children a left b ∧ left.length < nodes.length := by
  obtain ⟨left, path, nodup⟩ := reaches.exists_path
  have within : b :: left ⊆ nodes := by
    intro c mem
    rcases List.mem_cons.mp mem with rfl | mem
    · exact all c reaches
    · exact all c (path.reaches_of_mem mem)
  have bound := (List.subperm_of_subset nodup within).length_le
  rw [List.length_cons] at bound
  exact ⟨left, path, bound⟩

/-! ## What is torn down -/

theorem reaches_of_mem_teardown {depth : Nat} (mem : b ∈ teardown children depth a) :
    Reaches children a b := by
  induction depth generalizing a with
  | zero => cases mem
  | succ depth ih =>
      rcases List.mem_cons.mp mem with rfl | mem
      · exact .refl
      · obtain ⟨c, child, mem⟩ := List.mem_flatMap.mp mem
        exact .head child (ih mem)

theorem mem_teardown_iff (nodes : List α) {depth : Nat} (deep : nodes.length ≤ depth)
    (all : ∀ c, Reaches children a c → c ∈ nodes) :
    b ∈ teardown children depth a ↔ Reaches children a b := by
  constructor
  · exact reaches_of_mem_teardown
  · intro reaches
    obtain ⟨left, path, short⟩ := reaches.exists_short_path all
    exact path.mem_teardown (by omega)

/-- With a way back to the node, the node is torn down again. -/
theorem not_nodup_teardown {left : List α} {depth : Nat} (path : Path children a left b)
    (back : a ∈ children b) (short : left.length < depth) :
    ¬ (teardown children (depth + 1) a).Nodup := by
  have round := path.snoc back
  generalize trip : left ++ [b] = trip at round
  cases round with
  | nil => simp at trip
  | @cons _ _ c left' child rest =>
      have length := congrArg List.length trip
      simp only [List.length_append, List.length_cons, List.length_nil] at length
      have again : a ∈ (children a).flatMap (teardown children depth) :=
        List.mem_flatMap.mpr ⟨c, child, rest.mem_teardown (by omega)⟩
      exact fun nodup => (List.nodup_cons.mp nodup).1 again

namespace IsForest

/-- Of two nodes above the same node, one is above the other. -/
theorem comparable (forest : IsForest children) (left : Reaches children a c)
    (right : Reaches children b c) : Reaches children a b ∨ Reaches children b a := by
  induction left with
  | refl => exact .inr right
  | @tail d c _ child ih =>
      cases right with
      | refl => exact .inl (.tail ‹_› child)
      | @tail d' _ right child' =>
          cases forest.parent _ _ _ child child'
          exact ih right

theorem not_reaches_sibling (forest : IsForest children) (left : b ∈ children a)
    (right : c ∈ children a) (different : b ≠ c) : ¬ Reaches children b c := by
  intro reaches
  cases reaches with
  | refl => exact different rfl
  | @tail d _ reaches child =>
      cases forest.parent _ _ _ child right
      exact forest.acyclic _ _ left reaches

/-- Nothing is torn down twice. -/
theorem nodup_teardown (forest : IsForest children) (depth : Nat) (a : α) :
    (teardown children depth a).Nodup := by
  induction depth generalizing a with
  | zero => exact List.nodup_nil
  | succ depth ih =>
      refine List.nodup_cons.mpr ⟨?_, List.nodup_flatMap.mpr ⟨fun c _ => ih c, ?_⟩⟩
      · intro mem
        obtain ⟨c, child, mem⟩ := List.mem_flatMap.mp mem
        exact forest.acyclic a c child (reaches_of_mem_teardown mem)
      · refine List.Pairwise.imp_of_mem ?_ (forest.nodup a)
        intro b c left right different d memLeft memRight
        rcases forest.comparable (reaches_of_mem_teardown memLeft)
          (reaches_of_mem_teardown memRight) with reaches | reaches
        · exact forest.not_reaches_sibling left right different reaches
        · exact forest.not_reaches_sibling right left different.symm reaches

end IsForest

/-! ## Other children -/

variable {children' : α → List α}

theorem Reaches.mono (sub : ∀ a b, b ∈ children' a → b ∈ children a)
    (reaches : Reaches children' a b) : Reaches children a b :=
  Relation.ReflTransGen.mono sub _ _ reaches

theorem Acyclic.mono (acyclic : Acyclic children) (sub : ∀ a b, b ∈ children' a → b ∈ children a) :
    Acyclic children' :=
  fun a b child reaches => acyclic a b (sub a b child) (reaches.mono sub)

/-- With one more edge, from `h` to `g`, what is reached is reached without it or through it. -/
theorem Reaches.of_edge {h g : α} (sub : ∀ a b, b ∈ children' a → b ∈ children a ∨ a = h ∧ b = g)
    (reaches : Reaches children' a b) :
    Reaches children a b ∨ Reaches children a h ∧ Reaches children g b := by
  induction reaches with
  | refl => exact .inl .refl
  | tail _ child ih =>
      rcases sub _ _ child with child | ⟨rfl, rfl⟩
      · rcases ih with reaches | ⟨upTo, reaches⟩
        · exact .inl (.tail reaches child)
        · exact .inr ⟨upTo, .tail reaches child⟩
      · rcases ih with reaches | ⟨upTo, _⟩
        · exact .inr ⟨reaches, .refl⟩
        · exact .inr ⟨upTo, .refl⟩

/-- An edge to a node that does not reach its source closes no cycle. -/
theorem Acyclic.of_edge (acyclic : Acyclic children) {h g : α} (apart : ¬ Reaches children g h)
    (sub : ∀ a b, b ∈ children' a → b ∈ children a ∨ a = h ∧ b = g) : Acyclic children' := by
  intro a b child reaches
  rcases sub a b child with child | ⟨rfl, rfl⟩
  · rcases reaches.of_edge sub with reaches | ⟨upTo, reaches⟩
    · exact acyclic a b child reaches
    · exact apart ((reaches.tail child).trans upTo)
  · rcases reaches.of_edge sub with reaches | ⟨upTo, _⟩
    · exact apart reaches
    · exact apart upTo

end Rtl.Base
