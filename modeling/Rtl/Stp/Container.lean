import Mathlib.Data.Multiset.AddSub

/-! # Containers behind the task queue

`ContainerOps` is the static interface the queue uses of its buffer. A
`Container` carries the laws the queue relies on whatever the removal order: the
stored items form a bag. The first-in-first-out containers add an order.
-/

namespace Rtl.Stp

/-- The operations of `ContainerOps<Container>`. Popping an empty container is
undefined in the source and has no result here. -/
structure ContainerOps (κ α : Type*) where
  init : κ
  push : κ → α → κ
  pop : κ → Option (α × κ)
  empty : κ → Bool
  size : κ → Nat
  clear : κ → κ

/-- A buffer whose operations keep the bag of its items. -/
structure Container (κ α : Type*) extends ContainerOps κ α where
  items : κ → Multiset α
  items_init : items init = 0
  items_push : ∀ b x, items (push b x) = x ::ₘ items b
  items_pop : ∀ {b x rest}, pop b = some (x, rest) → items b = x ::ₘ items rest
  pop_of_nonempty : ∀ {b}, empty b = false → ∃ x rest, pop b = some (x, rest)
  empty_iff : ∀ b, empty b = true ↔ items b = 0
  size_eq : ∀ b, size b = (items b).card
  items_clear : ∀ b, items (clear b) = 0

/-- The items of a first-in-first-out buffer come out in the order they went in. -/
structure FifoContainer (κ α : Type*) extends Container κ α where
  toList : κ → List α
  toList_init : toList init = []
  toList_push : ∀ b x, toList (push b x) = toList b ++ [x]
  toList_pop : ∀ {b x rest}, pop b = some (x, rest) → toList b = x :: toList rest
  items_eq : ∀ b, items b = (toList b : Multiset α)

namespace Container

variable {κ α : Type*} (c : Container κ α)

theorem size_push (b : κ) (x : α) : c.size (c.push b x) = c.size b + 1 := by
  rw [c.size_eq, c.size_eq, c.items_push, Multiset.card_cons]

theorem size_pop {b rest : κ} {x : α} (h : c.pop b = some (x, rest)) :
    c.size b = c.size rest + 1 := by
  rw [c.size_eq, c.size_eq, c.items_pop h, Multiset.card_cons]

theorem size_clear (b : κ) : c.size (c.clear b) = 0 := by
  rw [c.size_eq, c.items_clear, Multiset.card_zero]

end Container

theorem FifoContainer.size_toList {κ α : Type*} (c : FifoContainer κ α) (b : κ) :
    c.size b = (c.toList b).length := by
  rw [c.size_eq, c.items_eq, Multiset.coe_card]

/-- Items are appended at the back and removed at the front: `emplace_back`,
`front` and `pop_front`, as `std::deque` and `std::list` both do it. -/
def frontPopping (α : Type*) : FifoContainer (List α) α where
  init := []
  push b x := b ++ [x]
  pop
    | [] => none
    | x :: rest => some (x, rest)
  empty b := b.isEmpty
  size b := b.length
  clear _ := []
  items b := b
  items_init := rfl
  items_push b x := by
    rw [← Multiset.coe_add, Multiset.add_comm]
    rfl
  items_pop {b x rest} h := by
    cases b with
    | nil => simp at h
    | cons y ys =>
        simp only [Option.some.injEq, Prod.mk.injEq] at h
        obtain ⟨rfl, rfl⟩ := h
        rfl
  pop_of_nonempty {b} h := by
    cases b with
    | nil => simp at h
    | cons y ys => exact ⟨y, ys, rfl⟩
  empty_iff b := by simp
  size_eq b := by simp
  items_clear _ := rfl
  toList b := b
  toList_init := rfl
  toList_push _ _ := rfl
  toList_pop {b x rest} h := by
    cases b with
    | nil => simp at h
    | cons y ys =>
        simp only [Option.some.injEq, Prod.mk.injEq] at h
        obtain ⟨rfl, rfl⟩ := h
        rfl
  items_eq _ := rfl

def dequeOps (α : Type*) : FifoContainer (List α) α := frontPopping α

def listOps (α : Type*) : FifoContainer (List α) α := frontPopping α

/-- The two containers of the source that keep the insertion order. -/
inductive SequenceContainer where
  | deque
  | list
  deriving Repr, DecidableEq

def SequenceContainer.ops (α : Type*) : SequenceContainer → FifoContainer (List α) α
  | .deque => dequeOps α
  | .list => listOps α

/-- `ContainerOps<std::vector<T, Allocator>>` removes the back element, so it
is a bag but not first-in-first-out. -/
def vectorOps (α : Type*) : Container (List α) α where
  init := []
  push b x := b ++ [x]
  pop b := b.getLast?.map fun x => (x, b.dropLast)
  empty b := b.isEmpty
  size b := b.length
  clear _ := []
  items b := b
  items_init := rfl
  items_push b x := by
    rw [← Multiset.coe_add, Multiset.add_comm]
    rfl
  items_pop {b x rest} h := by
    simp only [Option.map_eq_some_iff, Prod.mk.injEq] at h
    obtain ⟨y, hy, rfl, rfl⟩ := h
    have split := List.dropLast_append_getLast? y hy
    calc (b : Multiset α) = ((b.dropLast ++ [y] : List α) : Multiset α) := by rw [split]
      _ = y ::ₘ (b.dropLast : Multiset α) := by
          rw [← Multiset.coe_add, Multiset.add_comm]
          rfl
  pop_of_nonempty {b} h := by
    have hne : b ≠ [] := by simpa using h
    exact ⟨b.getLast hne, b.dropLast, by simp [List.getLast?_eq_some_getLast hne]⟩
  empty_iff b := by simp
  size_eq b := by simp
  items_clear _ := rfl

end Rtl.Stp
