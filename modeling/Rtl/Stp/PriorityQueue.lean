import Rtl.Base.Heap
import Rtl.Stp.QueueHistory

/-! # The queue over a heap

`MovablePriorityQueue` keeps its items in a vector that is a heap for the comparison, by
`std::push_heap` and `std::pop_heap`; `std::priority_queue` is specified by the same two calls. A
queue over either hands out an item that is not less than any other it holds, whatever the threads
do.
-/

namespace Rtl.Stp

open Rtl.Base

variable {κ α τ : Type*} {lt : α → α → Bool}

/-! ## The two containers -/

/-- `m_heap` is a heap between the calls. -/
structure MovablePriorityQueue (α : Type*) (lt : α → α → Bool) where
  heap : List α
  ordered : Heap.IsHeap lt heap

namespace MovablePriorityQueue

def create : MovablePriorityQueue α lt := ⟨[], Heap.isHeap_nil lt⟩

def emplace (order : StrictWeakOrder lt) (q : MovablePriorityQueue α lt) (value : α) :
    MovablePriorityQueue α lt :=
  ⟨Heap.pushHeap lt (q.heap ++ [value]), Heap.pushHeap_isHeap order q.ordered value⟩

/-- `std::pop_heap` and `pop_back`. -/
def dropTop (order : StrictWeakOrder lt) (q : MovablePriorityQueue α lt) : MovablePriorityQueue α lt :=
  ⟨(Heap.popHeap lt q.heap).dropLast, Heap.popHeap_dropLast order q.ordered⟩

/-- The value is moved out of the back between the two calls. -/
def popMove (order : StrictWeakOrder lt) (q : MovablePriorityQueue α lt) :
    Option (α × MovablePriorityQueue α lt) :=
  (Heap.popHeap lt q.heap).getLast?.map fun value => (value, q.dropTop order)

def topPop (order : StrictWeakOrder lt) (q : MovablePriorityQueue α lt) :
    Option (α × MovablePriorityQueue α lt) :=
  q.heap.head?.map fun value => (value, q.dropTop order)

/-- `ContainerOps::clear` of `std::priority_queue` pops until the queue is empty. -/
def clearLoop (order : StrictWeakOrder lt) : Nat → MovablePriorityQueue α lt → MovablePriorityQueue α lt
  | 0, q => q
  | n + 1, q => if q.heap.isEmpty then q else clearLoop order n (q.dropTop order)

variable {order : StrictWeakOrder lt} {q rest : MovablePriorityQueue α lt} {x : α}

theorem emplace_perm (order : StrictWeakOrder lt) (q : MovablePriorityQueue α lt) (x : α) :
    (q.emplace order x).heap.Perm (x :: q.heap) :=
  (Heap.pushHeap_perm lt _).trans List.perm_append_comm

/-- Both ways of removing an item remove the first one. -/
theorem popMove_eq_topPop (order : StrictWeakOrder lt) (q : MovablePriorityQueue α lt) :
    q.popMove order = q.topPop order := by
  unfold popMove topPop
  rw [Heap.popHeap_getLast? order q.ordered]

theorem topPop_perm (h : q.topPop order = some (x, rest)) : q.heap.Perm (x :: rest.heap) := by
  obtain ⟨value, first, same⟩ := Option.map_eq_some_iff.mp h
  cases same
  have last := (Heap.popHeap_getLast? order q.ordered).trans first
  have whole := List.dropLast_append_getLast? x last
  have perm := (Heap.popHeap_perm lt q.heap).symm
  rw [← whole] at perm
  exact perm.trans List.perm_append_comm

theorem topPop_greatest (h : q.topPop order = some (x, rest)) : ∀ y ∈ q.heap, lt x y = false := by
  intro y mem
  obtain ⟨value, first, same⟩ := Option.map_eq_some_iff.mp h
  cases same
  obtain ⟨j, at_j⟩ := List.mem_iff_getElem?.mp mem
  rw [List.head?_eq_getElem?] at first
  exact q.ordered.first_over order j x y first at_j

theorem topPop_of_nonempty (order : StrictWeakOrder lt) (h : q.heap.isEmpty = false) :
    ∃ x rest, q.topPop order = some (x, rest) := by
  cases heap : q.heap with
  | nil => simp [heap] at h
  | cons x rest => exact ⟨x, q.dropTop order, by simp [topPop, heap]⟩

theorem clearLoop_empty (order : StrictWeakOrder lt) (n : Nat) (enough : q.heap.length ≤ n) :
    (clearLoop order n q).heap = [] := by
  induction n generalizing q with
  | zero => exact List.length_eq_zero_iff.mp (by simpa [clearLoop] using enough)
  | succ n ih =>
      unfold clearLoop
      split
      · rename_i empty
        exact List.isEmpty_iff.mp empty
      · refine ih ?_
        have length := (Heap.popHeap_perm lt q.heap).length_eq
        simp only [dropTop, List.length_dropLast]
        omega

end MovablePriorityQueue

/-- A buffer whose `pop` removes an item that no other one exceeds. -/
structure PriorityContainer (κ α : Type*) (lt : α → α → Bool) extends Container κ α where
  pop_greatest : ∀ {b x rest}, pop b = some (x, rest) → ∀ y ∈ items b, lt x y = false

def priorityQueueOps (order : StrictWeakOrder lt) :
    PriorityContainer (MovablePriorityQueue α lt) α lt where
  init := .create
  push q x := q.emplace order x
  pop q := q.topPop order
  empty q := q.heap.isEmpty
  size q := q.heap.length
  clear q := q.clearLoop order q.heap.length
  items q := q.heap
  items_init := rfl
  items_push q x := Multiset.coe_eq_coe.mpr (q.emplace_perm order x)
  items_pop h := Multiset.coe_eq_coe.mpr (MovablePriorityQueue.topPop_perm h)
  pop_of_nonempty h := MovablePriorityQueue.topPop_of_nonempty order h
  empty_iff q := by simp
  size_eq q := by simp
  items_clear q := by
    rw [MovablePriorityQueue.clearLoop_empty order _ (Nat.le_refl _)]
    rfl
  pop_greatest h y mem := MovablePriorityQueue.topPop_greatest h y (Multiset.mem_coe.mp mem)

def movablePriorityQueueOps (order : StrictWeakOrder lt) :
    PriorityContainer (MovablePriorityQueue α lt) α lt where
  init := .create
  push q x := q.emplace order x
  pop q := q.popMove order
  empty q := q.heap.isEmpty
  size q := q.heap.length
  clear _ := .create
  items q := q.heap
  items_init := rfl
  items_push q x := Multiset.coe_eq_coe.mpr (q.emplace_perm order x)
  items_pop {q x rest} h := by
    rw [q.popMove_eq_topPop order] at h
    exact Multiset.coe_eq_coe.mpr (MovablePriorityQueue.topPop_perm h)
  pop_of_nonempty {q} h := by
    rw [q.popMove_eq_topPop order]
    exact MovablePriorityQueue.topPop_of_nonempty order h
  empty_iff q := by simp
  size_eq q := by simp
  items_clear _ := rfl
  pop_greatest {q x rest} h y mem := by
    rw [q.popMove_eq_topPop order] at h
    exact MovablePriorityQueue.topPop_greatest h y (Multiset.mem_coe.mp mem)

/-- The two containers of the source that order their items by a comparison. -/
inductive HeapContainer where
  | priorityQueue
  | movablePriorityQueue
  deriving Repr, DecidableEq

def HeapContainer.ops (order : StrictWeakOrder lt) :
    HeapContainer → PriorityContainer (MovablePriorityQueue α lt) α lt
  | .priorityQueue => priorityQueueOps order
  | .movablePriorityQueue => movablePriorityQueueOps order

/-! ## The queue -/

/-- An item that is handed out is not less than any other in the buffer. -/
theorem QueueEffect.took_greatest {c : PriorityContainer κ α lt} {q q' : Queue κ} {e : QueueEvent α τ}
    {who : τ} {x : α} {erc : TakeResultErrorCode}
    (effect : QueueEffect c.toContainer q e (.took who ⟨some x, erc⟩) q') :
    x ∈ c.items q.buffer ∧ ∀ y ∈ c.items q.buffer, lt x y = false := by
  cases effect with
  | popped _ _ rest pop =>
      refine ⟨?_, c.pop_greatest pop⟩
      rw [c.items_pop pop]
      exact Multiset.mem_cons_self x _

/-- Over a heap the queue is a priority queue: an item is handed out only when none of the items that
were accepted and not yet handed out is greater. -/
theorem queue_serves_greatest (order : StrictWeakOrder lt) (kind : HeapContainer) (bound : Nat)
    {s₀ s : QueueState (MovablePriorityQueue α lt) α τ}
    {ts : List (Transition (QueueState (MovablePriorityQueue α lt) α τ) (QueueEvent α τ)
      (QueueOutput α τ))}
    (init : (queueMachine (kind.ops order).toContainer bound).init s₀)
    (run : (queueMachine (kind.ops order).toContainer bound).Run s₀ ts s)
    (core : ∀ t ∈ ts, t.event.isCore = true) :
    ∀ us t vs who x erc, ts = us ++ t :: vs → t.output = .took who ⟨some x, erc⟩ →
      ∃ waiting : Multiset α, (takenItems us : Multiset α) + waiting = (acceptedItems us : Multiset α) ∧
        x ∈ waiting ∧ ∀ y ∈ waiting, lt x y = false := by
  intro us t vs who x erc split taken
  subst split
  obtain ⟨head, takes, -⟩ := run.at
  have conserved := queue_items_conserved (kind.ops order).toContainer bound init head
    fun u mem => core u (List.mem_append_left _ mem)
  have effect := QueueState.next_effect (core t (by simp)) takes
  rw [taken] at effect
  exact ⟨_, conserved, effect.took_greatest⟩

def laterFirst (a b : Nat) : Bool := decide (a < b)

theorem laterFirst_order : StrictWeakOrder laterFirst where
  asymm x y less := by
    simp only [laterFirst, decide_eq_true_eq, decide_eq_false_iff_not] at less ⊢
    omega
  trans x y z first second := by
    simp only [laterFirst, decide_eq_false_iff_not] at first second ⊢
    omega

def priorityTrace : List (QueueEvent Nat Unit) :=
  [.put 3 0, .put 7 0, .put 5 0, .tryTake (), .put 6 0, .tryTake (), .tryTake ()]

theorem queue_serves_greatest_priorityTrace :
    ∃ ts s, (queueMachine (τ := Unit) (movablePriorityQueueOps laterFirst_order).toContainer 0).exec
        (QueueState.start (movablePriorityQueueOps laterFirst_order).toContainer 0) priorityTrace =
          some (ts, s) ∧ takenItems ts = [7, 6, 5] ∧
      ∀ us t vs who x erc, ts = us ++ t :: vs → t.output = .took who ⟨some x, erc⟩ →
        ∃ waiting : Multiset Nat, (takenItems us : Multiset Nat) + waiting =
          (acceptedItems us : Multiset Nat) ∧
          x ∈ waiting ∧ ∀ y ∈ waiting, laterFirst x y = false := by
  have h : (queueMachine (τ := Unit) (movablePriorityQueueOps laterFirst_order).toContainer 0).exec
      (QueueState.start (movablePriorityQueueOps laterFirst_order).toContainer 0) priorityTrace =
        some (_, _) := rfl
  have core := Machine.exec_forall_event (G := fun e => e.isCore = true) h (by decide)
  exact ⟨_, _, h, rfl,
    queue_serves_greatest laterFirst_order .movablePriorityQueue 0 rfl (Machine.Run.of_exec h) core⟩

end Rtl.Stp
