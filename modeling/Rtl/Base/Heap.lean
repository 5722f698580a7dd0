import Rtl.Base.ListUpdate

/-! # Binary heaps in a list

The children of position `i` are at `2 * i + 1` and `2 * i + 2`. A sift moves one entry up or down
while it is out of place; its invariant says that all other entries are in place and that what is
below the moving entry is not above the entry over it. The comparison is a strict weak order: two
entries may be equivalent.
-/

namespace Rtl.Base

variable {α : Type*} {lt : α → α → Bool}

structure StrictWeakOrder (lt : α → α → Bool) : Prop where
  asymm : ∀ x y, lt x y = true → lt y x = false
  trans : ∀ x y z, lt x y = false → lt y z = false → lt x z = false

theorem StrictWeakOrder.irrefl (order : StrictWeakOrder lt) (x : α) : lt x x = false := by
  cases h : lt x x with
  | false => rfl
  | true =>
      have not := order.asymm x x h
      rw [h] at not
      cases not

namespace Heap

/-- Neither entry is missing and the one at `i` is less than the one at `j`. -/
def Below (lt : α → α → Bool) (l : List α) (i j : Nat) : Prop :=
  ∃ x y, l[i]? = some x ∧ l[j]? = some y ∧ lt x y = true

def Over (lt : α → α → Bool) (l : List α) (i j : Nat) : Prop :=
  ∀ x y, l[i]? = some x → l[j]? = some y → lt x y = false

def parent (i : Nat) : Nat := (i - 1) / 2

/-- No entry is less than a child of it. -/
def IsHeap (lt : α → α → Bool) (l : List α) : Prop := ∀ j, 0 < j → Over lt l (parent j) j

def exchange (l : List α) (i j : Nat) : List α :=
  match l[i]?, l[j]? with
  | some x, some y => (l.set i y).set j x
  | _, _ => l

theorem parent_lt {i : Nat} (pos : 0 < i) : parent i < i := by
  unfold parent
  omega

theorem parent_eq_iff {i j : Nat} (pos : 0 < j) : parent j = i ↔ j = 2 * i + 1 ∨ j = 2 * i + 2 := by
  unfold parent
  omega

/-! ## Exchanging two entries -/

theorem exchange_length (l : List α) (i j : Nat) : (exchange l i j).length = l.length := by
  unfold exchange
  split
  · rw [List.length_set, List.length_set]
  · rfl

theorem set_perm {l : List α} {i : Nat} {x : α} (y : α) (h : l[i]? = some x) :
    (x :: l.set i y).Perm (y :: l) := by
  have perm := filterMap_set_perm some y h
  simpa using perm

theorem exchange_perm {l : List α} {i j : Nat} (ne : i ≠ j) : (exchange l i j).Perm l := by
  unfold exchange
  split
  · rename_i x y at_i at_j
    have at_j' : (l.set i y)[j]? = some y := by rw [List.getElem?_set_ne ne, at_j]
    exact ((set_perm x at_j').trans (set_perm y at_i)).cons_inv
  · exact List.Perm.refl l

/-- The positions after an exchange: each of the two has the other's entry. -/
theorem exchange_at {l : List α} {i j : Nat} (below : Below lt l i j) (ne : i ≠ j) (k : Nat) :
    (exchange l i j)[k]? = if k = i then l[j]? else if k = j then l[i]? else l[k]? := by
  obtain ⟨x, y, at_i, at_j, -⟩ := below
  have at_j' : (l.set i y)[j]? = some y := by rw [List.getElem?_set_ne ne, at_j]
  simp only [exchange, at_i, at_j]
  by_cases first : k = i
  · subst first
    rw [if_pos rfl, List.getElem?_set_ne ne.symm, set_at at_i]
  · rw [if_neg first]
    by_cases second : k = j
    · subst second
      rw [if_pos rfl, set_at at_j']
    · rw [if_neg second, List.getElem?_set_ne (Ne.symm second), List.getElem?_set_ne (Ne.symm first)]

theorem Over.of_below (order : StrictWeakOrder lt) {l : List α} {i j : Nat} (below : Below lt l i j) :
    Over lt l j i := by
  obtain ⟨x, y, at_i, at_j, less⟩ := below
  intro a b at_a at_b
  rw [at_j] at at_a
  rw [at_i] at at_b
  cases at_a
  cases at_b
  exact order.asymm x y less

theorem Over.trans (order : StrictWeakOrder lt) {l : List α} {i j k : Nat} (first : Over lt l i j)
    (second : Over lt l j k) (there : j < l.length) : Over lt l i k := by
  intro x z at_i at_k
  have at_j : l[j]? = some (l.get ⟨j, there⟩) := List.getElem?_eq_getElem there
  exact order.trans x _ z (first x _ at_i at_j) (second _ z at_j at_k)

theorem Over.of_not_below {l : List α} {i j : Nat} (h : ¬ Below lt l i j) : Over lt l i j := by
  intro x y at_i at_j
  cases less : lt x y with
  | false => rfl
  | true => exact absurd ⟨x, y, at_i, at_j, less⟩ h

instance (lt : α → α → Bool) (l : List α) (i j : Nat) : Decidable (Below lt l i j) :=
  match hi : l[i]?, hj : l[j]? with
  | some x, some y => decidable_of_iff (lt x y = true) (by simp [Below, hi, hj])
  | none, _ => .isFalse (by simp [Below, hi])
  | _, none => .isFalse (by simp [Below, hj])

theorem Below.lt_length {l : List α} {i j : Nat} (below : Below lt l i j) :
    i < l.length ∧ j < l.length := by
  obtain ⟨x, y, at_i, at_j, -⟩ := below
  exact ⟨(List.getElem?_eq_some_iff.mp at_i).1, (List.getElem?_eq_some_iff.mp at_j).1⟩

/-! ## Sifting up -/

/-- Move the entry at `i` up while its parent is less, for at most `n` steps. -/
def siftUp (lt : α → α → Bool) : Nat → List α → Nat → List α
  | 0, l, _ => l
  | n + 1, l, i =>
      if 0 < i ∧ Below lt l (parent i) i then siftUp lt n (exchange l (parent i) i) (parent i) else l

/-- All entries are in place but the one at `i`, which may belong further up. -/
structure UpTo (lt : α → α → Bool) (l : List α) (i : Nat) : Prop where
  others : ∀ j, 0 < j → j ≠ i → Over lt l (parent j) j
  around : ∀ j, 0 < j → parent j = i → 0 < i → Over lt l (parent i) j

theorem UpTo.exchange (order : StrictWeakOrder lt) {l : List α} {i : Nat} (up : UpTo lt l i)
    (pos : 0 < i) (below : Below lt l (parent i) i) : UpTo lt (exchange l (parent i) i) (parent i) := by
  have small := parent_lt pos
  have at_ := exchange_at below (by omega)
  have inside := below.lt_length.1
  constructor
  · intro j posj other x y at_x at_y
    rw [at_] at at_x at_y
    by_cases self : j = i
    · -- the entry that moved down is below the one that moved up
      subst self
      rw [if_pos rfl] at at_x
      rw [if_neg (by omega), if_pos rfl] at at_y
      exact Over.of_below order below x y at_x at_y
    · rw [if_neg other, if_neg self] at at_y
      by_cases child : parent j = i
      · rw [if_neg (by omega), if_pos child] at at_x
        exact up.around j posj child pos x y at_x at_y
      · by_cases sibling : parent j = parent i
        · rw [if_pos sibling] at at_x
          have beside : Over lt l (parent i) j := sibling ▸ up.others j posj self
          exact (Over.of_below order below).trans order beside inside x y at_x at_y
        · rw [if_neg sibling, if_neg child] at at_x
          exact up.others j posj self x y at_x at_y
  · intro j posj childOf pospar x y at_x at_y
    have higher := parent_lt pospar
    have above : Over lt l (parent (parent i)) (parent i) := up.others (parent i) pospar (by omega)
    rw [at_, if_neg (by omega), if_neg (by omega)] at at_x
    rw [at_, if_neg (by have := parent_lt posj; omega)] at at_y
    by_cases self : j = i
    · rw [if_pos self] at at_y
      exact above x y at_x at_y
    · rw [if_neg self] at at_y
      have beside : Over lt l (parent i) j := childOf ▸ up.others j posj self
      exact above.trans order beside inside x y at_x at_y

theorem siftUp_isHeap (order : StrictWeakOrder lt) {n : Nat} {l : List α} {i : Nat}
    (up : UpTo lt l i) (enough : i ≤ n) : IsHeap lt (siftUp lt n l i) := by
  induction n generalizing l i with
  | zero =>
      intro j pos
      exact up.others j pos (by omega)
  | succ n ih =>
      unfold siftUp
      split
      · rename_i moves
        have small := parent_lt moves.1
        exact ih (up.exchange order moves.1 moves.2) (by omega)
      · rename_i stays
        intro j pos
        by_cases self : j = i
        · subst self
          exact Over.of_not_below fun below => stays ⟨pos, below⟩
        · exact up.others j pos self

theorem siftUp_perm (lt : α → α → Bool) (n : Nat) (l : List α) (i : Nat) :
    (siftUp lt n l i).Perm l := by
  induction n generalizing l i with
  | zero => exact List.Perm.refl l
  | succ n ih =>
      unfold siftUp
      split
      · rename_i moves
        have small := parent_lt moves.1
        exact (ih _ (parent i)).trans (exchange_perm (by omega))
      · exact List.Perm.refl l

/-! ## Sifting down -/

/-- The child of `i` that is not less than the other one. -/
def greaterChild (lt : α → α → Bool) (l : List α) (i : Nat) : Nat :=
  if Below lt l (2 * i + 1) (2 * i + 2) then 2 * i + 2 else 2 * i + 1

/-- Move the entry at `i` down while a child is greater, for at most `n` steps. -/
def siftDown (lt : α → α → Bool) : Nat → List α → Nat → List α
  | 0, l, _ => l
  | n + 1, l, i =>
      if Below lt l i (greaterChild lt l i) then
        siftDown lt n (exchange l i (greaterChild lt l i)) (greaterChild lt l i)
      else l

/-- All entries are in place but the one at `i`, which may belong further down. -/
structure DownTo (lt : α → α → Bool) (l : List α) (i : Nat) : Prop where
  others : ∀ j, 0 < j → parent j ≠ i → Over lt l (parent j) j
  around : ∀ j, 0 < j → parent j = i → 0 < i → Over lt l (parent i) j

theorem greaterChild_spec (lt : α → α → Bool) (l : List α) (i : Nat) :
    0 < greaterChild lt l i ∧ parent (greaterChild lt l i) = i ∧ i < greaterChild lt l i := by
  unfold greaterChild parent
  split <;> omega

/-- The greater child is over both children. -/
theorem greaterChild_over (order : StrictWeakOrder lt) {l : List α} {i j : Nat} (pos : 0 < j)
    (child : parent j = i) : Over lt l (greaterChild lt l i) j := by
  have self : ∀ k, Over lt l k k := by
    intro k x y at_x at_y
    rw [at_x] at at_y
    cases at_y
    exact order.irrefl x
  unfold greaterChild
  rcases (parent_eq_iff pos).mp child with rfl | rfl
  · split
    · rename_i less
      exact Over.of_below order less
    · exact self _
  · split
    · exact self _
    · rename_i notLess
      exact Over.of_not_below notLess

theorem DownTo.exchange (order : StrictWeakOrder lt) {l : List α} {i : Nat} (down : DownTo lt l i)
    (below : Below lt l i (greaterChild lt l i)) :
    DownTo lt (exchange l i (greaterChild lt l i)) (greaterChild lt l i) := by
  obtain ⟨pos, child, later⟩ := greaterChild_spec lt l i
  have above := fun {j} => greaterChild_over order (l := l) (i := i) (j := j)
  generalize greaterChild lt l i = c at below pos child later above
  have at_ := exchange_at below (by omega)
  constructor
  · intro j posj notBelow x y at_x at_y
    have up := parent_lt posj
    rw [at_] at at_x at_y
    by_cases here : parent j = i
    · -- a child of the place that was left: the greater one came up
      rw [if_pos here] at at_x
      rw [if_neg (by omega)] at at_y
      by_cases self : j = c
      · rw [if_pos self] at at_y
        exact Over.of_below order below x y at_x at_y
      · rw [if_neg self] at at_y
        exact above posj here x y at_x at_y
    · rw [if_neg here, if_neg notBelow] at at_x
      by_cases moved : j = i
      · rw [if_pos moved] at at_y
        exact down.around c pos child (moved ▸ posj) x y (moved ▸ at_x) at_y
      · have other : j ≠ c := by
          rintro rfl
          exact here child
        rw [if_neg moved, if_neg other] at at_y
        exact down.others j posj here x y at_x at_y
  · intro j posj childOf _ x y at_x at_y
    have up := parent_lt posj
    rw [at_, if_pos child] at at_x
    rw [at_, if_neg (by omega), if_neg (by omega)] at at_y
    exact down.others j posj (by omega) x y (childOf ▸ at_x) at_y

theorem siftDown_isHeap (order : StrictWeakOrder lt) {n : Nat} {l : List α} {i : Nat}
    (down : DownTo lt l i) (enough : l.length ≤ i + n) : IsHeap lt (siftDown lt n l i) := by
  have settled : ∀ {l : List α} {i : Nat}, DownTo lt l i → ¬ Below lt l i (greaterChild lt l i) →
      IsHeap lt l := by
    intro l i down stays j pos
    by_cases child : parent j = i
    · rw [child]
      by_cases there : greaterChild lt l i < l.length
      · exact (Over.of_not_below stays).trans order (greaterChild_over order pos child) there
      · -- without a greater child there is no child
        intro x y _ at_y
        have inside := (List.getElem?_eq_some_iff.mp at_y).1
        have above := (parent_eq_iff pos).mp child
        have first : greaterChild lt l i = 2 * i + 1 ∨ greaterChild lt l i = 2 * i + 2 := by
          unfold greaterChild
          split <;> simp
        have both : greaterChild lt l i = 2 * i + 2 → 2 * i + 2 < l.length := by
          unfold greaterChild
          split
          · rename_i less
            exact fun _ => less.lt_length.2
          · omega
        omega
    · exact down.others j pos child
  induction n generalizing l i with
  | zero =>
      show IsHeap lt l
      refine settled down fun below => ?_
      have inside := below.lt_length.1
      omega
  | succ n ih =>
      unfold siftDown
      split
      · rename_i moves
        have later := (greaterChild_spec lt l i).2.2
        refine ih (down.exchange order moves) ?_
        rw [exchange_length]
        omega
      · rename_i stays
        exact settled down stays

theorem siftDown_perm (lt : α → α → Bool) (n : Nat) (l : List α) (i : Nat) :
    (siftDown lt n l i).Perm l := by
  induction n generalizing l i with
  | zero => exact List.Perm.refl l
  | succ n ih =>
      unfold siftDown
      split
      · have later := (greaterChild_spec lt l i).2.2
        exact (ih _ _).trans (exchange_perm (by omega))
      · exact List.Perm.refl l

/-! ## The heap -/

/-- The first entry of a heap is not less than any other. -/
theorem IsHeap.first_over (order : StrictWeakOrder lt) {l : List α} (heap : IsHeap lt l) (j : Nat) :
    Over lt l 0 j := by
  induction j using Nat.strong_induction_on with
  | _ j ih =>
      by_cases pos : 0 < j
      · have small := parent_lt pos
        by_cases there : j < l.length
        · exact (ih (parent j) small).trans order (heap j pos) (by omega)
        · intro x y _ at_y
          exact absurd (List.getElem?_eq_some_iff.mp at_y).1 there
      · have zero : j = 0 := by omega
        subst zero
        intro x y at_x at_y
        rw [at_x] at at_y
        cases at_y
        exact order.irrefl x

/-- Put the last entry, which was appended to a heap, in its place. -/
def pushHeap (lt : α → α → Bool) (l : List α) : List α := siftUp lt l.length l (l.length - 1)

/-- Move the first entry to the end and make a heap of the others. -/
def popHeap (lt : α → α → Bool) : List α → List α
  | [] => []
  | [x] => [x]
  | x :: y :: rest =>
      let last := (y :: rest).getLast (List.cons_ne_nil y rest)
      siftDown lt (rest.length + 1) (last :: (y :: rest).dropLast) 0 ++ [x]

theorem isHeap_nil (lt : α → α → Bool) : IsHeap lt [] := by
  intro j _ x y at_x _
  simp at at_x

theorem pushHeap_perm (lt : α → α → Bool) (l : List α) : (pushHeap lt l).Perm l :=
  siftUp_perm lt _ l _

theorem pushHeap_isHeap (order : StrictWeakOrder lt) {l : List α} (heap : IsHeap lt l) (x : α) :
    IsHeap lt (pushHeap lt (l ++ [x])) := by
  refine siftUp_isHeap order ?_ (by omega)
  have last : (l ++ [x]).length - 1 = l.length := by simp
  rw [last]
  constructor
  · intro j pos other a b at_a at_b
    have small := parent_lt pos
    have inside := (List.getElem?_eq_some_iff.mp at_b).1
    rw [List.length_append, List.length_singleton] at inside
    rw [List.getElem?_append_left (by omega)] at at_a at_b
    exact heap j pos a b at_a at_b
  · intro j pos child _ a b _ at_b
    have small := parent_lt pos
    have inside := (List.getElem?_eq_some_iff.mp at_b).1
    rw [List.length_append, List.length_singleton] at inside
    omega

theorem popHeap_perm (lt : α → α → Bool) (l : List α) : (popHeap lt l).Perm l := by
  match l with
  | [] => exact List.Perm.refl _
  | [x] => exact List.Perm.refl _
  | x :: y :: rest =>
      have whole := List.dropLast_append_getLast (List.cons_ne_nil y rest)
      simp only [popHeap]
      refine (List.perm_append_comm.trans ?_ : List.Perm _ ([x] ++ (y :: rest)))
      refine ((siftDown_perm lt _ _ 0).trans ?_).append_left [x]
      refine (List.perm_append_singleton _ _).symm.trans ?_
      rw [whole]

/-- A heap after `popHeap`: its first entry last, and a heap before it. -/
theorem popHeap_spec (order : StrictWeakOrder lt) {l : List α} {x : α} (heap : IsHeap lt l)
    (first : l.head? = some x) : ∃ rest, popHeap lt l = rest ++ [x] ∧ IsHeap lt rest := by
  match l with
  | [] => cases first
  | [y] =>
      cases first
      exact ⟨[], rfl, isHeap_nil lt⟩
  | z :: y :: rest =>
      cases first
      refine ⟨_, rfl, siftDown_isHeap order ?_ (by simp)⟩
      constructor
      · intro j pos other a b at_a at_b
        have ppos : 0 < parent j := by omega
        have shifted : ∀ k, 0 < k → ∀ c,
            ((y :: rest).getLast (List.cons_ne_nil y rest) :: (y :: rest).dropLast)[k]? = some c →
            (x :: y :: rest)[k]? = some c := by
          intro k posk c at_c
          obtain ⟨k, rfl⟩ := Nat.exists_eq_add_of_lt posk
          simp only [Nat.zero_add, List.getElem?_cons_succ] at at_c ⊢
          rw [List.getElem?_dropLast] at at_c
          split at at_c
          · exact at_c
          · cases at_c
        exact heap j pos a b (shifted _ ppos a at_a) (shifted j pos b at_b)
      · intro j _ _ zero
        exact absurd zero (by omega)

theorem popHeap_getLast? (order : StrictWeakOrder lt) {l : List α} (heap : IsHeap lt l) :
    (popHeap lt l).getLast? = l.head? := by
  cases first : l.head? with
  | none =>
      rw [List.head?_eq_none_iff.mp first]
      rfl
  | some x =>
      obtain ⟨rest, popped, -⟩ := popHeap_spec order heap first
      rw [popped, List.getLast?_concat]

theorem popHeap_dropLast (order : StrictWeakOrder lt) {l : List α} (heap : IsHeap lt l) :
    IsHeap lt (popHeap lt l).dropLast := by
  cases first : l.head? with
  | none =>
      rw [List.head?_eq_none_iff.mp first]
      exact isHeap_nil lt
  | some x =>
      obtain ⟨rest, popped, ordered⟩ := popHeap_spec order heap first
      rw [popped, List.dropLast_concat]
      exact ordered

end Heap

end Rtl.Base
