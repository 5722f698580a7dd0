import Rtl.Coro.Ownership
import Rtl.Base.ListUpdate

/-! # The forest of frames

An edge goes from a frame to every frame that an object in it owns. While this is a forest,
the end of any owner destroys the frames below it once each. Each operation on the objects
leaves a forest behind as long as no object is given a frame that it lives below.
-/

namespace Rtl.Coro.Ownership

open Rtl.Base

namespace Heap

variable {s t : Heap} {k k' f g h : Nat} {x x' y y' : Option Nat}

/-- The object has not ended; it lives there and holds this handle. -/
def Has (s : Heap) (k : Nat) (home handle : Option Nat) : Prop :=
  ∃ kind, s.objects[k]? = some ⟨kind, home, handle, true⟩

def Owns (s : Heap) (k f : Nat) : Prop := ∃ home, s.Has k home (some f)

/-- A frame that is not destroyed has one owner, none has been destroyed twice, and the end of
any owner would destroy, once each, the frames that are reached from its own, none of which is
destroyed already. -/
structure OwnedOnce (s : Heap) : Prop where
  owner : ∀ f, s.Live f → ∃! k, s.Owns k f
  once : s.destroyed.Nodup
  teardown : ∀ k f, s.Owns k f → (s.teardown f).Nodup ∧
    (∀ g, g ∈ s.teardown f ↔ Reaches s.children f g) ∧ ∀ g ∈ s.teardown f, s.Live g

/-! ## What the operations do to the objects -/

theorem Has.inj (a : s.Has k x y) (b : s.Has k x' y') : x = x' ∧ y = y' := by
  obtain ⟨_, a⟩ := a
  obtain ⟨_, b⟩ := b
  rw [a] at b
  cases b
  exact ⟨rfl, rfl⟩

theorem find_eq_some {o : Object} (found : s.find k = some o) : s.Has k o.home o.handle := by
  obtain ⟨at_k, alive⟩ := Option.filter_eq_some_iff.mp found
  obtain ⟨kind, home, handle, _⟩ := o
  cases alive
  exact ⟨kind, at_k⟩

theorem handleOf_eq (has : s.Has k x y) : s.handleOf k = y := by
  obtain ⟨kind, at_k⟩ := has
  simp [handleOf, at_k]

theorem mem_children : g ∈ s.children f ↔ ∃ k, s.Has k (some f) (some g) := by
  unfold children
  rw [List.mem_reverse, List.mem_filterMap]
  constructor
  · rintro ⟨⟨kind, home, handle, alive⟩, mem, gives⟩
    obtain ⟨k, at_k⟩ := List.mem_iff_getElem?.mp mem
    split at gives
    · next here =>
        obtain ⟨rfl, rfl⟩ := here
        cases gives
        exact ⟨k, kind, at_k⟩
    · cases gives
  · rintro ⟨k, kind, at_k⟩
    exact ⟨_, List.mem_of_getElem? at_k, by simp⟩

theorem has_construct {kind : Kind} {home handle : Option Nat} :
    (s.construct ⟨kind, home, handle, true⟩).Has k x y ↔
      s.Has k x y ∨ k = s.objects.length ∧ x = home ∧ y = handle := by
  unfold Has construct
  constructor
  · rintro ⟨kind', at_k⟩
    rcases concat_at.mp at_k with old | ⟨rfl, new⟩
    · exact .inl ⟨kind', old⟩
    · cases new
      exact .inr ⟨rfl, rfl, rfl⟩
  · rintro (⟨kind', old⟩ | ⟨rfl, rfl, rfl⟩)
    · exact ⟨kind', concat_at.mpr (.inl old)⟩
    · exact ⟨kind, concat_at.mpr (.inr ⟨rfl, rfl⟩)⟩

theorem has_setHandle {j : Nat} {handle : Option Nat} :
    (s.setHandle j handle).Has k x y ↔
      k ≠ j ∧ s.Has k x y ∨ k = j ∧ y = handle ∧ ∃ y', s.Has k x y' := by
  unfold Has setHandle
  by_cases here : k = j
  · subst here
    simp only [List.getElem?_modify, if_true, ne_eq, not_true_eq_false, false_and, true_and,
      false_or]
    constructor
    · rintro ⟨kind, at_k⟩
      obtain ⟨⟨kind', home, old, alive⟩, before, eq⟩ := Option.map_eq_some_iff.mp at_k
      cases eq
      exact ⟨rfl, old, kind', before⟩
    · rintro ⟨rfl, old, kind, at_k⟩
      exact ⟨kind, by rw [at_k]; rfl⟩
  · simp [here, Ne.symm here]

theorem has_endObject {j : Nat} : (s.endObject j).Has k x y ↔ k ≠ j ∧ s.Has k x y := by
  unfold Has endObject
  by_cases here : k = j
  · subst here
    simp
  · simp [here, Ne.symm here]

theorem endIn_eq_iff {torn : List Nat} {o : Object} {kind : Kind} :
    endIn torn o = ⟨kind, x, y, true⟩ ↔
      o = ⟨kind, x, y, true⟩ ∧ ∀ h, x = some h → h ∉ torn := by
  obtain ⟨kind', home, handle, alive⟩ := o
  cases home with
  | none =>
      simp only [endIn, Object.mk.injEq]
      constructor
      · rintro ⟨rfl, rfl, rest⟩
        exact ⟨⟨rfl, rfl, rest⟩, nofun⟩
      · exact fun same => same.1
  | some h =>
      by_cases ends : h ∈ torn
      · simp only [endIn, if_pos ends, Object.mk.injEq, Bool.false_eq_true, and_false, false_iff]
        rintro ⟨⟨rfl, rfl, _⟩, stays⟩
        exact stays h rfl ends
      · simp only [endIn, if_neg ends, Object.mk.injEq]
        constructor
        · rintro ⟨rfl, rfl, rest⟩
          refine ⟨⟨rfl, rfl, rest⟩, ?_⟩
          rintro _ ⟨⟩
          exact ends
        · exact fun same => same.1

theorem has_destroy :
    (s.destroy f).Has k x y ↔ s.Has k x y ∧ ∀ h, x = some h → h ∉ s.teardown f := by
  unfold Has destroy
  simp only [List.getElem?_map, Option.map_eq_some_iff, endIn_eq_iff]
  constructor
  · rintro ⟨kind, _, at_k, rfl, stays⟩
    exact ⟨⟨kind, at_k⟩, stays⟩
  · rintro ⟨⟨kind, at_k⟩, stays⟩
    exact ⟨kind, _, at_k, rfl, stays⟩

/-- The handle of the source is with the target. -/
theorem has_moveHandle {target source : Nat} (different : target ≠ source)
    (held : s.handleOf source = y') :
    (s.moveHandle target source).Has k x y ↔
      k ≠ target ∧ k ≠ source ∧ s.Has k x y ∨
      k = target ∧ y = y' ∧ (∃ old, s.Has k x old) ∨
      k = source ∧ y = none ∧ ∃ old, s.Has k x old := by
  unfold moveHandle
  rw [has_setHandle, held]
  simp only [has_setHandle]
  by_cases atTarget : k = target
  · subst atTarget
    simp [different]
  · by_cases atSource : k = source
    · subst atSource
      simp [atTarget]
    · simp [atTarget, atSource]

/-- The old handle of the target does not matter. -/
theorem moveHandle_setHandle {target source : Nat} (different : target ≠ source) (old : Option Nat) :
    (s.setHandle target old).moveHandle target source = s.moveHandle target source := by
  have held : (s.setHandle target old).handleOf source = s.handleOf source := by
    simp [handleOf, setHandle, different]
  unfold moveHandle
  rw [held]
  simp [setHandle, List.modify_modify_eq, Function.comp_def]

/-- What is left of an object when the frame that `k` owns is destroyed. -/
theorem has_drop {j : Nat} (now : ((s.destroy f).setHandle k none).Has j x y) :
    (∃ old, s.Has j x old) ∧ ∀ h, x = some h → h ∉ s.teardown f := by
  rcases has_setHandle.mp now with ⟨_, kept⟩ | ⟨_, _, old, kept⟩
  · exact ⟨⟨y, (has_destroy.mp kept).1⟩, (has_destroy.mp kept).2⟩
  · exact ⟨⟨old, (has_destroy.mp kept).1⟩, (has_destroy.mp kept).2⟩

theorem has_drop_some {j : Nat} :
    ((s.destroy f).setHandle k none).Has j x (some g) ↔
      j ≠ k ∧ s.Has j x (some g) ∧ ∀ h, x = some h → h ∉ s.teardown f := by
  rw [has_setHandle, has_destroy]
  constructor
  · rintro (kept | ⟨_, gone, _⟩)
    · exact kept
    · cases gone
  · exact .inl

theorem live_drop : ((s.destroy f).setHandle k none).Live g ↔ s.Live g ∧ g ∉ s.teardown f := by
  change (g < s.frames ∧ g ∉ s.destroyed ++ s.teardown f) ↔ _
  rw [List.mem_append, not_or, ← and_assoc]
  rfl

theorem live_of_hosts {home : Option Nat} (hosts : s.hosts home = true) (here : home = some h) :
    s.Live h := by
  subst here
  simpa [Heap.hosts] using hosts

/-! ## The forest -/

structure Tree (s : Heap) : Prop where
  home : ∀ {k h y}, s.Has k (some h) y → s.Live h
  handle : ∀ {k x f}, s.Has k x (some f) → s.Live f
  owner : ∀ {f}, s.Live f → ∃ k x, s.Has k x (some f)
  unique : ∀ {k k' x x' f}, s.Has k x (some f) → s.Has k' x' (some f) → k = k'
  acyclic : Acyclic s.children
  once : s.destroyed.Nodup
  bounded : ∀ {f}, f ∈ s.destroyed → f < s.frames

theorem start_tree : Tree {} := by
  have nothing : ∀ {k x y}, ¬ ({} : Heap).Has k x y := by
    rintro k x y ⟨kind, at_k⟩
    cases at_k
  refine ⟨fun has => absurd has nothing, fun has => absurd has nothing, ?_,
    fun has => absurd has nothing, ?_, List.nodup_nil, nofun⟩
  · rintro f ⟨lt, _⟩
    cases lt
  · intro a b child
    cases child

namespace Tree

variable (tree : s.Tree)

include tree

theorem nodup_children (f : Nat) : (s.children f).Nodup := by
  unfold children
  rw [List.nodup_reverse, List.Nodup, List.pairwise_filterMap, List.pairwise_iff_getElem]
  intro i j hi hj before g left g' right same
  subst same
  have holds : ∀ k (bound : k < s.objects.length),
      (if s.objects[k].alive ∧ s.objects[k].home = some f then s.objects[k].handle else none) =
        some g → s.Has k (some f) (some g) := by
    intro k bound gives
    split at gives
    · next here =>
        refine ⟨s.objects[k].kind, ?_⟩
        rw [List.getElem?_eq_getElem bound, ← here.2, ← gives, ← here.1]
    · cases gives
  have one := tree.unique (holds i hi left) (holds j hj right)
  omega

theorem forest : IsForest s.children where
  acyclic := tree.acyclic
  nodup := tree.nodup_children
  parent a b c left right := by
    obtain ⟨k, left⟩ := mem_children.mp left
    obtain ⟨k', right⟩ := mem_children.mp right
    cases tree.unique left right
    exact Option.some.inj (left.inj right).1

theorem live_of_reaches (live : s.Live f) (reaches : Reaches s.children f g) : s.Live g := by
  induction reaches with
  | refl => exact live
  | tail _ child _ =>
      obtain ⟨k, has⟩ := mem_children.mp child
      exact tree.handle has

theorem mem_teardown (live : s.Live f) : g ∈ s.teardown f ↔ Reaches s.children f g := by
  unfold teardown
  refine mem_teardown_iff (List.range s.frames) ?_ ?_
  · rw [List.length_range]
    omega
  · intro c reaches
    exact List.mem_range.mpr (tree.live_of_reaches live reaches).1

theorem ownedOnce : s.OwnedOnce where
  owner f live := by
    obtain ⟨k, x, has⟩ := tree.owner live
    refine ⟨k, ⟨x, has⟩, ?_⟩
    rintro k' ⟨x', has'⟩
    exact tree.unique has' has
  once := tree.once
  teardown k f owns := by
    obtain ⟨x, has⟩ := owns
    have live := tree.handle has
    refine ⟨tree.forest.nodup_teardown _ f, fun g => tree.mem_teardown live, ?_⟩
    intro g mem
    exact tree.live_of_reaches live ((tree.mem_teardown live).mp mem)

/-! ### One operation after the other -/

/-- No frame gets a new owner. -/
theorem acyclic_of_owns (owns : ∀ {k f g}, t.Has k (some f) (some g) → s.Has k (some f) (some g)) :
    Acyclic t.children := by
  refine tree.acyclic.mono ?_
  intro a b child
  obtain ⟨k, has⟩ := mem_children.mp child
  exact mem_children.mpr ⟨k, owns has⟩

/-- One frame gets a new owner, which does not live below it. -/
theorem acyclic_of_new (fits : ∀ h g, x = some h → y = some g → ¬ Reaches s.children g h)
    (owns : ∀ {k f g}, t.Has k (some f) (some g) →
      s.Has k (some f) (some g) ∨ x = some f ∧ y = some g) : Acyclic t.children := by
  by_cases edge : ∃ h g, x = some h ∧ y = some g
  · obtain ⟨h, g, rfl, rfl⟩ := edge
    refine tree.acyclic.of_edge (fits h g rfl rfl) ?_
    intro a b child
    obtain ⟨k, has⟩ := mem_children.mp child
    rcases owns has with old | ⟨here, new⟩
    · exact .inl (mem_children.mpr ⟨k, old⟩)
    · cases here
      cases new
      exact .inr ⟨rfl, rfl⟩
  · refine tree.acyclic_of_owns ?_
    intro k f g has
    rcases owns has with old | ⟨here, new⟩
    · exact old
    · exact absurd ⟨f, g, here, new⟩ edge

/-- Only objects that have not ended count. -/
theorem congr (same : ∀ k x y, t.Has k x y ↔ s.Has k x y) (frames : t.frames = s.frames)
    (destroyed : t.destroyed = s.destroyed) : t.Tree := by
  have live : ∀ f, t.Live f ↔ s.Live f := by
    intro f
    unfold Live
    rw [frames, destroyed]
  refine ⟨?_, ?_, ?_, ?_, ?_, ?_, ?_⟩
  · intro k h y has
    exact (live h).mpr (tree.home ((same _ _ _).mp has))
  · intro k x f has
    exact (live f).mpr (tree.handle ((same _ _ _).mp has))
  · intro f alive
    obtain ⟨k, x, has⟩ := tree.owner ((live f).mp alive)
    exact ⟨k, x, (same _ _ _).mpr has⟩
  · intro k k' x x' f has has'
    exact tree.unique ((same _ _ _).mp has) ((same _ _ _).mp has')
  · exact tree.acyclic_of_owns fun has => (same _ _ _).mp has
  · rw [destroyed]
    exact tree.once
  · intro f mem
    rw [frames]
    exact tree.bounded (destroyed ▸ mem)

/-- A new object without a handle. -/
theorem construct {kind : Kind} {home : Option Nat} (hosts : s.hosts home = true) :
    (s.construct ⟨kind, home, none, true⟩).Tree := by
  have owns : ∀ {k x f}, (s.construct ⟨kind, home, none, true⟩).Has k x (some f) → s.Has k x (some f) := by
    intro k x f has
    rcases has_construct.mp has with old | ⟨_, _, new⟩
    · exact old
    · cases new
  refine ⟨?_, fun has => tree.handle (owns has), ?_, fun has has' => tree.unique (owns has) (owns has'),
    tree.acyclic_of_owns owns, tree.once, tree.bounded⟩
  · intro k h y has
    rcases has_construct.mp has with old | ⟨_, here, _⟩
    · exact tree.home old
    · exact live_of_hosts hosts here.symm
  · intro f live
    obtain ⟨k, x, has⟩ := tree.owner live
    exact ⟨k, x, has_construct.mpr (.inl has)⟩

/-- A new frame, with its task. -/
theorem create {home : Option Nat} (hosts : s.hosts home = true) :
    ({ s with frames := s.frames + 1 }.construct ⟨.task, home, some s.frames, true⟩).Tree := by
  have has_iff : ∀ {k x y},
      ({ s with frames := s.frames + 1 }.construct ⟨.task, home, some s.frames, true⟩).Has k x y ↔
        s.Has k x y ∨ k = s.objects.length ∧ x = home ∧ y = some s.frames :=
    has_construct
  have fresh : s.frames ∉ s.destroyed := fun mem => Nat.lt_irrefl _ (tree.bounded mem)
  have older : ∀ {f}, s.Live f → f < s.frames + 1 ∧ f ∉ s.destroyed :=
    fun live => ⟨Nat.lt_succ_of_lt live.1, live.2⟩
  have newer : ∀ {k x}, ¬ s.Has k x (some s.frames) :=
    fun has => Nat.lt_irrefl _ (tree.handle has).1
  refine ⟨?_, ?_, ?_, ?_, ?_, tree.once, fun mem => Nat.lt_succ_of_lt (tree.bounded mem)⟩
  · intro k h y has
    rcases has_iff.mp has with old | ⟨_, here, _⟩
    · exact older (tree.home old)
    · exact older (live_of_hosts hosts here.symm)
  · intro k x f has
    rcases has_iff.mp has with old | ⟨_, _, new⟩
    · exact older (tree.handle old)
    · cases new
      exact ⟨Nat.lt_succ_self _, fresh⟩
  · intro f live
    by_cases new : f = s.frames
    · subst new
      exact ⟨_, _, has_iff.mpr (.inr ⟨rfl, rfl, rfl⟩)⟩
    · have old : s.Live f := by
        have lt : f < s.frames + 1 := live.1
        exact ⟨by omega, live.2⟩
      obtain ⟨k, x, has⟩ := tree.owner old
      exact ⟨k, x, has_iff.mpr (.inl has)⟩
  · intro k k' x x' f has has'
    rcases has_iff.mp has with old | ⟨rfl, _, new⟩
    · rcases has_iff.mp has' with old' | ⟨_, _, new'⟩
      · exact tree.unique old old'
      · cases new'
        exact absurd old newer
    · cases new
      rcases has_iff.mp has' with old' | ⟨rfl, _, _⟩
      · exact absurd old' newer
      · rfl
  · -- the new frame has nothing in it, so the edge to it closes no cycle
    have empty : ∀ h g, home = some h → some s.frames = some g → ¬ Reaches s.children g h := by
      rintro h _ here ⟨⟩ reaches
      rcases reaches.cases_head with same | ⟨c, child, _⟩
      · exact Nat.ne_of_gt (live_of_hosts hosts here).1 same
      · obtain ⟨k, has⟩ := mem_children.mp child
        exact Nat.lt_irrefl _ (tree.home has).1
    refine tree.acyclic_of_new empty ?_
    intro k f g has
    rcases has_iff.mp has with old | ⟨_, here, new⟩
    · exact .inl old
    · exact .inr ⟨here.symm, new.symm⟩

/-- An object that owns nothing ends. -/
theorem endObject (has : s.Has k x none) : (s.endObject k).Tree := by
  have owns : ∀ {j x y}, (s.endObject k).Has j x y → s.Has j x y :=
    fun h => (has_endObject.mp h).2
  refine ⟨fun h => tree.home (owns h), fun h => tree.handle (owns h), ?_,
    fun h h' => tree.unique (owns h) (owns h'), tree.acyclic_of_owns owns, tree.once, tree.bounded⟩
  · intro f live
    obtain ⟨j, x', has'⟩ := tree.owner live
    refine ⟨j, x', has_endObject.mpr ⟨?_, has'⟩⟩
    rintro rfl
    cases (has.inj has').2

/-- The handle goes to an object that has none and does not live below the frame. -/
theorem moveHandle {target source : Nat} (different : target ≠ source)
    (targetHas : s.Has target x none) (sourceHas : s.Has source x' y')
    (fits : ∀ h g, x = some h → y' = some g → ¬ Reaches s.children g h) :
    (s.moveHandle target source).Tree := by
  have has_iff {k x y} := has_moveHandle (k := k) (x := x) (y := y) different (handleOf_eq sourceHas)
  have homes : ∀ {k x y}, (s.moveHandle target source).Has k x y → ∃ old, s.Has k x old := by
    intro k x y has
    rcases has_iff.mp has with ⟨_, _, old⟩ | ⟨_, _, old⟩ | ⟨_, _, old⟩
    · exact ⟨y, old⟩
    · exact old
    · exact old
  -- who owns a frame afterwards
  have owns : ∀ {k x f}, (s.moveHandle target source).Has k x (some f) →
      k ≠ target ∧ k ≠ source ∧ s.Has k x (some f) ∨
        k = target ∧ some f = y' ∧ ∃ old, s.Has k x old := by
    intro k x f has
    rcases has_iff.mp has with old | new | ⟨_, gone, _⟩
    · exact .inl old
    · exact .inr new
    · cases gone
  refine ⟨?_, ?_, ?_, ?_, ?_, tree.once, tree.bounded⟩
  · intro k h y has
    obtain ⟨old, has⟩ := homes has
    exact tree.home has
  · intro k x f has
    rcases owns has with ⟨_, _, old⟩ | ⟨_, rfl, _⟩
    · exact tree.handle old
    · exact tree.handle sourceHas
  · intro f live
    obtain ⟨k, x'', has⟩ := tree.owner live
    have notTarget : k ≠ target := by
      rintro rfl
      cases (targetHas.inj has).2
    by_cases atSource : k = source
    · subst atSource
      exact ⟨target, x, has_iff.mpr (.inr (.inl ⟨rfl, (has.inj sourceHas).2, none, targetHas⟩))⟩
    · exact ⟨k, x'', has_iff.mpr (.inl ⟨notTarget, atSource, has⟩)⟩
  · intro k k' x₁ x₂ f has has'
    rcases owns has with ⟨_, notSource, old⟩ | ⟨rfl, new, _⟩
    · rcases owns has' with ⟨_, _, old'⟩ | ⟨_, rfl, _⟩
      · exact tree.unique old old'
      · exact absurd (tree.unique old sourceHas) notSource
    · subst new
      rcases owns has' with ⟨_, notSource, old'⟩ | ⟨rfl, _, _⟩
      · exact absurd (tree.unique old' sourceHas) notSource
      · rfl
  · refine tree.acyclic_of_new fits ?_
    intro k f g has
    rcases owns has with ⟨_, _, old⟩ | ⟨rfl, new, old, here⟩
    · exact .inl old
    · exact .inr ⟨(targetHas.inj here).1, new.symm⟩

/-- An object does not live below the frame it owns. -/
theorem home_not_torn (has : s.Has k x (some f)) (here : x = some h) : h ∉ s.teardown f := by
  subst here
  intro mem
  have reaches := (tree.mem_teardown (tree.handle has)).mp mem
  exact tree.acyclic h f (mem_children.mpr ⟨k, has⟩) reaches

/-- The owner of a frame lives in a frame that is torn down exactly when the frame is torn
down with it, the first frame apart. -/
theorem torn_iff (has : s.Has k x (some f)) (other : s.Has k' x' (some g)) (different : k' ≠ k) :
    g ∈ s.teardown f ↔ ∃ h, x' = some h ∧ h ∈ s.teardown f := by
  have live := tree.handle has
  constructor
  · intro mem
    have reaches := (tree.mem_teardown live).mp mem
    rcases Relation.ReflTransGen.cases_tail reaches with same | ⟨h, upTo, child⟩
    · subst same
      exact absurd (tree.unique other has) different
    · obtain ⟨j, owner⟩ := mem_children.mp child
      cases tree.unique owner other
      exact ⟨h, (other.inj owner).1, (tree.mem_teardown live).mpr upTo⟩
  · rintro ⟨h, rfl, mem⟩
    have reaches := (tree.mem_teardown live).mp mem
    exact (tree.mem_teardown live).mpr (reaches.tail (mem_children.mpr ⟨k', other⟩))

theorem drop_some (has : s.Has k x (some f)) : ((s.destroy f).setHandle k none).Tree := by
  have live := tree.handle has
  obtain ⟨nodup, _, alive⟩ := tree.ownedOnce.teardown k f ⟨x, has⟩
  refine ⟨?_, ?_, ?_, ?_, ?_, ?_, ?_⟩
  · intro j h y now
    obtain ⟨⟨old, before⟩, safe⟩ := has_drop now
    exact live_drop.mpr ⟨tree.home before, safe h rfl⟩
  · intro j x' g now
    obtain ⟨other, before, safe⟩ := has_drop_some.mp now
    refine live_drop.mpr ⟨tree.handle before, ?_⟩
    intro torn
    obtain ⟨h, here, mem⟩ := (tree.torn_iff has before other).mp torn
    exact safe h here mem
  · intro g now
    obtain ⟨before, safe⟩ := live_drop.mp now
    obtain ⟨j, x', owner⟩ := tree.owner before
    have other : j ≠ k := by
      rintro rfl
      cases (has.inj owner).2
      exact safe ((tree.mem_teardown live).mpr .refl)
    refine ⟨j, x', has_drop_some.mpr ⟨other, owner, ?_⟩⟩
    intro h here mem
    exact safe ((tree.torn_iff has owner other).mpr ⟨h, here, mem⟩)
  · intro j j' x₁ x₂ g now now'
    exact tree.unique (has_drop_some.mp now).2.1 (has_drop_some.mp now').2.1
  · exact tree.acyclic_of_owns fun now => (has_drop_some.mp now).2.1
  · refine List.nodup_append.mpr ⟨tree.once, nodup, ?_⟩
    intro a old b new same
    subst same
    exact (alive a new).2 old
  · intro g mem
    rcases List.mem_append.mp mem with old | new
    · exact tree.bounded old
    · exact (alive g new).1

/-- The frame of an object is torn down and the object left without a handle. -/
theorem drop (has : s.Has k x y) : ((s.destroyHandle y).setHandle k none).Tree := by
  cases y with
  | some f => exact tree.drop_some has
  | none =>
      refine tree.congr ?_ rfl rfl
      intro j x' y'
      rw [has_setHandle]
      constructor
      · rintro (⟨_, same⟩ | ⟨rfl, rfl, _, same⟩)
        · exact same
        · exact (has.inj same).1 ▸ has
      · intro same
        by_cases here : j = k
        · subst here
          exact .inr ⟨rfl, (same.inj has).2, _, same⟩
        · exact .inl ⟨here, same⟩

theorem has_destroyHandle (has : s.Has k x y) : (s.destroyHandle y).Has k x y := by
  cases y with
  | none => exact has
  | some f => exact has_destroy.mpr ⟨has, fun h here => tree.home_not_torn has here⟩

end Tree

end Heap

end Rtl.Coro.Ownership
