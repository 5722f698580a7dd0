import Rtl.Coro.OwnershipTree

/-! # Every frame has one owner and is destroyed once

A move hands a frame from one object to another, and a move assignment first destroys the frame
of its target. Two things go wrong: the new owner lives below the frame it is given, so that
the frame would destroy itself, or the source of a move assignment ends with the frame of the
target, so that the handle that is read then is that of a frame that is gone. In all other
runs the frames stay a forest.
-/

namespace Rtl.Coro.Ownership

open Rtl.Base

namespace Heap

variable {s t : Heap} {k f g h : Nat} {x x' y y' : Option Nat}

/-! ## Steps -/

def homeOf (s : Heap) (k : Nat) : Option Nat := s.objects[k]?.bind (·.home)

theorem homeOf_eq (has : s.Has k x y) : s.homeOf k = x := by
  obtain ⟨kind, at_k⟩ := has
  simp [homeOf, at_k]

/-- What lives there does not end with the frame. -/
def Fits (s : Heap) (home handle : Option Nat) : Prop :=
  ∀ h ∈ home, ∀ f ∈ handle, h ∉ s.teardown f

instance (s : Heap) (home handle : Option Nat) : Decidable (s.Fits home handle) :=
  inferInstanceAs (Decidable (∀ h ∈ home, ∀ f ∈ handle, h ∉ s.teardown f))

/-- No object is given a frame that it would end with, and no frame is taken from an object
that has just ended. -/
def KeepsForest (s : Heap) : Event → Prop
  | .create _ => True
  | .moveConstruct home source => s.Fits home (s.handleOf source)
  | .moveAssign target source => target = source ∨
      (s.handleOf source = none ∨ s.Fits (s.homeOf source) (s.handleOf target)) ∧
        s.Fits (s.homeOf target) (s.handleOf source)
  | .coAwait frame source => s.Fits (some frame) (s.handleOf source)
  | .destruct _ => True

instance (s : Heap) : (e : Event) → Decidable (s.KeepsForest e)
  | .create _ => inferInstanceAs (Decidable True)
  | .moveConstruct _ _ => inferInstanceAs (Decidable (Fits _ _ _))
  | .moveAssign _ _ => inferInstanceAs (Decidable (_ ∨ (_ ∨ _) ∧ _))
  | .coAwait _ _ => inferInstanceAs (Decidable (Fits _ _ _))
  | .destruct _ => inferInstanceAs (Decidable True)

inductive Step (s : Heap) : Event → Heap → Prop where
  | create {home : Option Nat} : s.hosts home = true →
      Step s (.create home)
        ({ s with frames := s.frames + 1 }.construct ⟨.task, home, some s.frames, true⟩)
  | moveConstruct {home x y : Option Nat} {source : Nat} {kind : Kind} : s.hosts home = true →
      s.Has source x y → Step s (.moveConstruct home source)
        ((s.construct ⟨kind, home, none, true⟩).moveHandle s.objects.length source)
  | coAwait {x y : Option Nat} {frame source : Nat} : s.hosts (some frame) = true →
      s.Has source x y → Step s (.coAwait frame source)
        ((s.construct ⟨.awaiter, some frame, none, true⟩).moveHandle s.objects.length source)
  | same {k : Nat} : Step s (.moveAssign k k) s
  | assign {x y x' y' : Option Nat} {target source : Nat} : target ≠ source →
      s.Has target x y → s.Has source x' y' →
      Step s (.moveAssign target source) ((s.destroyHandle y).moveHandle target source)
  | destruct {x y : Option Nat} {k : Nat} : s.Has k x y →
      Step s (.destruct k) ((s.destroyHandle y).endObject k)

theorem next_step {e : Event} {o : Unit} (h : s.next e = some (t, o)) : Step s e t := by
  cases e with
  | create home =>
      simp only [next] at h
      split at h
      · next hosts =>
          cases h
          exact .create hosts
      · cases h
  | moveConstruct home source =>
      simp only [next] at h
      split at h
      · cases h
      · next o found =>
          split at h
          · next hosts =>
              cases h
              exact .moveConstruct hosts (find_eq_some found)
          · cases h
  | moveAssign target source =>
      simp only [next] at h
      split at h
      · next foundTarget foundSource =>
          split at h
          · split at h
            · next same =>
                cases h
                subst same
                exact .same
            · next different =>
                cases h
                exact .assign different (find_eq_some foundTarget) (find_eq_some foundSource)
          · cases h
      · cases h
  | coAwait frame source =>
      simp only [next] at h
      split at h
      · cases h
      · next o found =>
          split at h
          · next ready =>
              cases h
              exact .coAwait ready.2 (find_eq_some found)
          · cases h
  | destruct k =>
      simp only [next] at h
      split at h
      · cases h
      · next o found =>
          cases h
          exact .destruct (find_eq_some found)

/-! ## Steps that keep the forest -/

theorem handleOf_destroyHandle : (s.destroyHandle y).handleOf k = s.handleOf k := by
  cases y with
  | none => rfl
  | some f =>
      have keeps : ∀ o, (endIn (s.teardown f) o).handle = o.handle := by
        intro o
        unfold endIn
        split
        · split <;> rfl
        · rfl
      simp only [handleOf, destroyHandle, destroy, List.getElem?_map]
      cases s.objects[k]? with
      | none => rfl
      | some o => exact keeps o

theorem handleOf_setHandle_ne {j : Nat} (different : j ≠ k) :
    (s.setHandle j y).handleOf k = s.handleOf k := by
  simp [handleOf, setHandle, different]

theorem has_destroyHandle_of_fits (has : s.Has k x y) (fits : s.Fits x y') :
    (s.destroyHandle y').Has k x y := by
  cases y' with
  | none => exact has
  | some f => exact has_destroy.mpr ⟨has, fun h here => fits h here f rfl⟩

theorem has_of_destroyHandle (has : (s.destroyHandle y').Has k x y) : s.Has k x y := by
  cases y' with
  | none => exact has
  | some f => exact (has_destroy.mp has).1

theorem children_drop {j : Nat} (child : g ∈ ((s.destroyHandle y).setHandle j none).children f) :
    g ∈ s.children f := by
  obtain ⟨k, has⟩ := mem_children.mp child
  rcases has_setHandle.mp has with ⟨_, kept⟩ | ⟨_, gone, _⟩
  · exact mem_children.mpr ⟨k, has_of_destroyHandle kept⟩
  · cases gone

/-- Moving nothing to an object that has nothing. -/
theorem has_moveHandle_none {target source : Nat} (different : target ≠ source)
    (targetHeld : s.handleOf target = none) (sourceHeld : s.handleOf source = none) :
    (s.moveHandle target source).Has k x y ↔ s.Has k x y := by
  rw [has_moveHandle different sourceHeld]
  constructor
  · rintro (⟨_, _, same⟩ | ⟨rfl, rfl, old, same⟩ | ⟨rfl, rfl, old, same⟩)
    · exact same
    · rw [handleOf_eq same] at targetHeld
      exact targetHeld ▸ same
    · rw [handleOf_eq same] at sourceHeld
      exact sourceHeld ▸ same
  · intro same
    by_cases atTarget : k = target
    · subst atTarget
      rw [handleOf_eq same] at targetHeld
      exact .inr (.inl ⟨rfl, targetHeld, y, same⟩)
    · by_cases atSource : k = source
      · subst atSource
        rw [handleOf_eq same] at sourceHeld
        exact .inr (.inr ⟨rfl, sourceHeld, y, same⟩)
      · exact .inl ⟨atTarget, atSource, same⟩

theorem length_ne_of_has (has : s.Has k x y) : s.objects.length ≠ k := by
  obtain ⟨kind, at_k⟩ := has
  have bound := (List.getElem?_eq_some_iff.mp at_k).1
  omega

theorem children_construct {kind : Kind} {home : Option Nat} :
    g ∈ (s.construct ⟨kind, home, none, true⟩).children f ↔ g ∈ s.children f := by
  rw [mem_children, mem_children]
  simp [has_construct]

namespace Tree

variable (tree : s.Tree)

include tree

theorem fits_iff (has : s.Has k x y) {home : Option Nat} :
    s.Fits home y ↔ ∀ h g, home = some h → y = some g → ¬ Reaches s.children g h := by
  unfold Fits
  constructor
  · intro fits h g here held reaches
    subst here
    subst held
    exact fits h rfl g rfl ((tree.mem_teardown (tree.handle has)).mpr reaches)
  · intro apart h here g held mem
    cases held
    exact apart h g here rfl ((tree.mem_teardown (tree.handle has)).mp mem)

/-- Move construction, and `co_await`. -/
theorem give {kind : Kind} {home : Option Nat} (hosts : s.hosts home = true) (has : s.Has k x y)
    (fits : s.Fits home y) :
    ((s.construct ⟨kind, home, none, true⟩).moveHandle s.objects.length k).Tree := by
  refine (tree.construct hosts).moveHandle (length_ne_of_has has)
    (has_construct.mpr (.inr ⟨rfl, rfl, rfl⟩)) (has_construct.mpr (.inl has)) ?_
  intro h g here held reaches
  refine (tree.fits_iff has).mp fits h g here held (reaches.mono ?_)
  intro a b child
  exact children_construct.mp child

/-- The target of a move assignment has lost its frame before the handle is moved. -/
theorem cleared (has : s.Has k x y) : ((s.destroyHandle y).setHandle k none).Has k x none :=
  has_setHandle.mpr (.inr ⟨rfl, rfl, y, tree.has_destroyHandle has⟩)

theorem assign {target source : Nat} (different : target ≠ source)
    (targetHas : s.Has target x y) (sourceHas : s.Has source x' y')
    (stays : y' = none ∨ s.Fits x' y) (fits : s.Fits x y') :
    ((s.destroyHandle y).moveHandle target source).Tree := by
  have dropped := tree.drop targetHas
  have targetCleared := tree.cleared targetHas
  rw [← moveHandle_setHandle different none]
  rcases stays with rfl | stays
  · -- the source may have ended, but there is nothing to take from it
    refine dropped.congr ?_ rfl rfl
    intro j x y
    refine has_moveHandle_none different (handleOf_eq targetCleared) ?_
    rw [handleOf_setHandle_ne different, handleOf_destroyHandle, handleOf_eq sourceHas]
  · have sourceStays : ((s.destroyHandle y).setHandle target none).Has source x' y' :=
      has_setHandle.mpr (.inl ⟨different.symm, has_destroyHandle_of_fits sourceHas stays⟩)
    refine dropped.moveHandle different targetCleared sourceStays ?_
    intro h g here held reaches
    refine (tree.fits_iff sourceHas).mp fits h g here held (reaches.mono ?_)
    intro a b child
    exact children_drop child

theorem destruct (has : s.Has k x y) : ((s.destroyHandle y).endObject k).Tree := by
  refine ((tree.drop has).endObject (tree.cleared has)).congr ?_ rfl rfl
  intro j x' y'
  rw [has_endObject, has_endObject, has_setHandle]
  constructor
  · rintro ⟨other, now⟩
    exact ⟨other, .inl ⟨other, now⟩⟩
  · rintro ⟨other, ⟨_, now⟩ | ⟨here, _⟩⟩
    · exact ⟨other, now⟩
    · exact absurd here other

end Tree

theorem Step.tree {e : Event} (h : Step s e t) (tree : s.Tree) (keeps : s.KeepsForest e) :
    t.Tree := by
  cases h with
  | create hosts => exact tree.create hosts
  | moveConstruct hosts has => exact tree.give hosts has (handleOf_eq has ▸ keeps)
  | coAwait hosts has => exact tree.give hosts has (handleOf_eq has ▸ keeps)
  | same => exact tree
  | assign different targetHas sourceHas =>
      obtain ⟨stays, fits⟩ := keeps.resolve_left different
      rw [homeOf_eq sourceHas, handleOf_eq sourceHas, handleOf_eq targetHas] at stays
      rw [homeOf_eq targetHas, handleOf_eq sourceHas] at fits
      exact tree.assign different targetHas sourceHas stays fits
  | destruct has => exact tree.destruct has

/-! ## Steps that do not -/

namespace Tree

variable (tree : s.Tree)

include tree

/-- The way down from a frame does not use the edge to the frame that a move takes away. -/
theorem reaches_moveHandle {target source : Nat} (different : target ≠ source)
    (targetHas : s.Has target x none) (sourceHas : s.Has source x' (some g))
    (reaches : Reaches s.children g h) : Reaches (s.moveHandle target source).children g h := by
  induction reaches with
  | refl => exact .refl
  | @tail p q upTo child ih =>
      have other : q ≠ g := by
        rintro rfl
        exact tree.acyclic p q child upTo
      obtain ⟨k, has⟩ := mem_children.mp child
      have notTarget : k ≠ target := by
        rintro rfl
        cases (targetHas.inj has).2
      have notSource : k ≠ source := by
        rintro rfl
        cases (sourceHas.inj has).2
        exact other rfl
      have kept := (has_moveHandle different (handleOf_eq sourceHas)).mpr
        (.inl ⟨notTarget, notSource, has⟩)
      exact ih.tail (mem_children.mpr ⟨k, kept⟩)

/-- An object that lives below a frame and is given the frame: the end of that object destroys the
frame again and again. -/
theorem not_ownedOnce_of_cycle {target source : Nat} (different : target ≠ source)
    (targetHas : s.Has target (some h) none) (sourceHas : s.Has source x (some g))
    (reaches : Reaches s.children g h) : ¬ (s.moveHandle target source).OwnedOnce := by
  intro owned
  have has_iff {k x y} :=
    has_moveHandle (k := k) (x := x) (y := y) different (handleOf_eq sourceHas)
  have now : (s.moveHandle target source).Has target (some h) (some g) :=
    has_iff.mpr (.inr (.inl ⟨rfl, rfl, none, targetHas⟩))
  have way := tree.reaches_moveHandle different targetHas sourceHas reaches
  have nodes : ∀ c, Reaches (s.moveHandle target source).children g c → c ∈ List.range s.frames := by
    intro c below
    rw [List.mem_range]
    rcases below.cases_tail with rfl | ⟨p, _, child⟩
    · exact (tree.handle sourceHas).1
    · obtain ⟨k, has⟩ := mem_children.mp child
      rcases has_iff.mp has with ⟨_, _, old⟩ | ⟨_, same, _⟩ | ⟨_, gone, _⟩
      · exact (tree.handle old).1
      · cases same
        exact (tree.handle sourceHas).1
      · cases gone
  obtain ⟨left, path, short⟩ := way.exists_short_path nodes
  rw [List.length_range] at short
  exact not_nodup_teardown path (mem_children.mpr ⟨target, now⟩) short
    (owned.teardown target g ⟨_, now⟩).1

theorem not_ownedOnce_give {kind : Kind} {home : Option Nat} (hosts : s.hosts home = true)
    (has : s.Has k x y) (unfit : ¬ s.Fits home y) :
    ¬ ((s.construct ⟨kind, home, none, true⟩).moveHandle s.objects.length k).OwnedOnce := by
  rw [tree.fits_iff has] at unfit
  push Not at unfit
  obtain ⟨h, g, rfl, rfl, reaches⟩ := unfit
  refine (tree.construct hosts).not_ownedOnce_of_cycle (length_ne_of_has has)
    (has_construct.mpr (.inr ⟨rfl, rfl, rfl⟩)) (has_construct.mpr (.inl has)) (reaches.mono ?_)
  intro a b child
  exact children_construct.mpr child

/-- What leads down to an object is not torn down with the frame of the object. -/
theorem reaches_drop (has : s.Has k (some h) y) (reaches : Reaches s.children g h) :
    Reaches ((s.destroyHandle y).setHandle k none).children g h := by
  induction reaches using Relation.ReflTransGen.head_induction_on with
  | refl => exact .refl
  | @head p q child below ih =>
      obtain ⟨j, owner⟩ := mem_children.mp child
      have cycle : ∀ f, y = some f → ¬ Reaches s.children f h := by
        rintro f rfl
        exact tree.acyclic h f (mem_children.mpr ⟨k, has⟩)
      have other : j ≠ k := by
        rintro rfl
        exact cycle q (has.inj owner).2 below
      have safe : s.Fits (some p) y := by
        intro p' here f held torn
        cases here
        cases held
        have reaches := (tree.mem_teardown (tree.handle has)).mp torn
        exact cycle f rfl (reaches.trans (.head child below))
      refine .head (mem_children.mpr ⟨j, has_setHandle.mpr (.inl ⟨other, ?_⟩)⟩) ih
      exact has_destroyHandle_of_fits owner safe

/-- The source has ended with the frame of the target, and its own frame is gone. -/
theorem not_ownedOnce_of_ended {target source : Nat} (different : target ≠ source)
    (targetHas : s.Has target x (some f)) (sourceHas : s.Has source (some h) (some g))
    (ended : h ∈ s.teardown f) : ¬ ((s.destroy f).moveHandle target source).OwnedOnce := by
  intro owned
  have held : (s.destroy f).handleOf source = some g :=
    (handleOf_destroyHandle (y := some f)).trans (handleOf_eq sourceHas)
  have now : ((s.destroy f).moveHandle target source).Has target x (some g) :=
    (has_moveHandle different held).mpr
      (.inr (.inl ⟨rfl, rfl, some f, tree.has_destroyHandle targetHas⟩))
  have gone : g ∈ s.teardown f :=
    (tree.torn_iff targetHas sourceHas different.symm).mpr ⟨h, rfl, ended⟩
  obtain ⟨_, exactly, live⟩ := owned.teardown target g ⟨x, now⟩
  exact (live g ((exactly g).mpr .refl)).2 (List.mem_append_right _ gone)

theorem not_ownedOnce_assign {target source : Nat} (different : target ≠ source)
    (targetHas : s.Has target x y) (sourceHas : s.Has source x' y')
    (unfit : ¬ ((y' = none ∨ s.Fits x' y) ∧ s.Fits x y')) :
    ¬ ((s.destroyHandle y).moveHandle target source).OwnedOnce := by
  by_cases stays : y' = none ∨ s.Fits x' y
  · have unfit : ¬ s.Fits x y' := fun fits => unfit ⟨stays, fits⟩
    rw [tree.fits_iff sourceHas] at unfit
    push Not at unfit
    obtain ⟨h, g, rfl, rfl, reaches⟩ := unfit
    have sourceStays : ((s.destroyHandle y).setHandle target none).Has source x' (some g) := by
      refine has_setHandle.mpr (.inl ⟨different.symm, has_destroyHandle_of_fits sourceHas ?_⟩)
      exact stays.resolve_left nofun
    rw [← moveHandle_setHandle different none]
    exact (tree.drop targetHas).not_ownedOnce_of_cycle different (tree.cleared targetHas) sourceStays
      (tree.reaches_drop targetHas reaches)
  · obtain ⟨holds, leaves⟩ := not_or.mp stays
    obtain ⟨g, rfl⟩ := Option.ne_none_iff_exists'.mp holds
    unfold Fits at leaves
    push Not at leaves
    obtain ⟨h, here, f, held, ended⟩ := leaves
    cases here
    cases held
    exact tree.not_ownedOnce_of_ended different targetHas sourceHas ended

end Tree

theorem Step.not_ownedOnce {e : Event} (h : Step s e t) (tree : s.Tree)
    (breaks : ¬ s.KeepsForest e) : ¬ t.OwnedOnce := by
  cases h with
  | create hosts => exact absurd trivial breaks
  | moveConstruct hosts has => exact tree.not_ownedOnce_give hosts has (handleOf_eq has ▸ breaks)
  | coAwait hosts has => exact tree.not_ownedOnce_give hosts has (handleOf_eq has ▸ breaks)
  | same => exact absurd (.inl rfl) breaks
  | assign different targetHas sourceHas =>
      apply tree.not_ownedOnce_assign different targetHas sourceHas
      intro keeps
      apply breaks
      refine .inr ?_
      rw [homeOf_eq sourceHas, handleOf_eq sourceHas, handleOf_eq targetHas, homeOf_eq targetHas]
      exact keeps
  | destruct has => exact absurd trivial breaks

end Heap

/-- Over a run every frame has one owner and is destroyed at most once if and only if no object
is given a frame that it lives below and no frame is taken from an object that ends with the
old frame of the one it is moved to. -/
theorem frames_destroyed_once_iff {s₀ s : Heap} {ts : List (Transition Heap Event Unit)}
    (init : machine.init s₀) (run : machine.Run s₀ ts s) :
    (∀ v, Machine.Visits s₀ ts v → v.OwnedOnce) ↔ ∀ t ∈ ts, t.before.KeepsForest t.event := by
  refine run.always_iff_guard (I := Heap.Tree) ?_ ?_ ?_ ?_
  · rw [show s₀ = {} from init]
    exact Heap.start_tree
  · intro s e t o tree keeps next
    exact (Heap.next_step next).tree tree keeps
  · intro s tree
    exact tree.ownedOnce
  · intro s e t o tree breaks next
    exact (Heap.next_step next).not_ownedOnce tree breaks

/-- The first coroutine awaits the second and the second the third. The task of the first is moved,
assigned to itself and to another one, and destroyed while all three are suspended. -/
def chainTrace : List Event :=
  [.create none, .create none, .coAwait 0 1, .create (some 1), .coAwait 1 3, .moveConstruct none 0,
    .moveAssign 5 5, .create none, .moveAssign 6 5, .destruct 5, .destruct 6, .destruct 0]

theorem frames_destroyed_once_chain :
    ∃ ts s, machine.exec {} chainTrace = some (ts, s) ∧ s.destroyed = [3, 0, 1, 2] ∧
      ∀ v, Machine.Visits {} ts v → v.OwnedOnce := by
  have h : machine.exec {} chainTrace = some (_, _) := rfl
  refine ⟨_, _, h, rfl, ?_⟩
  refine (frames_destroyed_once_iff rfl (Machine.Run.of_exec h)).mpr ?_
  decide

/-- The awaiter in the first frame is assigned the one in the second, which ends before its
handle is read. The third frame is destroyed again when the first `co_await` is complete. -/
def skippedFrameTrace : List Event :=
  [.create none, .create none, .coAwait 0 1, .create none, .coAwait 1 3, .moveAssign 2 4,
    .destruct 2]

theorem frame_destroyed_twice :
    ∃ ts s, machine.exec {} skippedFrameTrace = some (ts, s) ∧ s.destroyed = [1, 2, 2] ∧
      ¬ ∀ v, Machine.Visits {} ts v → v.OwnedOnce := by
  refine ⟨_, _, rfl, rfl, ?_⟩
  intro owned
  have twice := (owned _ (.inr ⟨_, List.mem_of_getLast? rfl, rfl⟩)).once
  revert twice
  decide

end Rtl.Coro.Ownership
