import Rtl.Base.Machine

/-! # The abstract bounded queue

What a first-in-first-out buffer of bounded capacity is for: items leave in the
order in which they entered, none is invented or lost, and the capacity holds.
Refused items and idle polls leave no trace in the contents.
-/

namespace Rtl.Base

/-- A capacity of 0 means that there is no bound. -/
structure BoundedFifo (α : Type*) where
  capacity : Nat
  closed : Bool
  contents : List α

inductive FifoEvent (α : Type*) where
  | enqueue (x : α)
  | dequeue
  | close

/-- What is seen of a queue: the items that went in and those that came out. -/
inductive FifoSight (α : Type*) where
  | entered (x : α)
  | left (x : α)

namespace BoundedFifo

variable {α : Type*}

def Accepts (s : BoundedFifo α) : Prop :=
  s.closed = false ∧ (s.capacity = 0 ∨ s.contents.length < s.capacity)

instance (s : BoundedFifo α) : Decidable s.Accepts := inferInstanceAs (Decidable (_ ∧ _))

def next (s : BoundedFifo α) : FifoEvent α → Option (BoundedFifo α × Option α)
  | .enqueue x => if s.Accepts then some ({ s with contents := s.contents ++ [x] }, none) else none
  | .dequeue =>
      match s.contents with
      | [] => none
      | x :: rest => some ({ s with contents := rest }, some x)
  | .close => some ({ s with closed := true }, none)

def machine (α : Type*) (capacity : Nat) :
    Machine (BoundedFifo α) (FifoEvent α) (Option α) where
  init s := s = ⟨capacity, false, []⟩
  next := next

def see : FifoEvent α → Option α → Option (FifoSight α)
  | .enqueue x, _ => some (.entered x)
  | .dequeue, some x => some (.left x)
  | _, _ => none

def entered (seen : List (FifoSight α)) : List α :=
  seen.filterMap fun
    | .entered x => some x
    | .left _ => none

def left (seen : List (FifoSight α)) : List α :=
  seen.filterMap fun
    | .entered _ => none
    | .left x => some x

theorem entered_append (seen more : List (FifoSight α)) :
    entered (seen ++ more) = entered seen ++ entered more :=
  List.filterMap_append

theorem left_append (seen more : List (FifoSight α)) :
    left (seen ++ more) = left seen ++ left more :=
  List.filterMap_append

/-- The items that left, followed by the contents, are the items that entered. -/
theorem run_order {capacity : Nat} {s₀ s : BoundedFifo α}
    {ts : List (Transition (BoundedFifo α) (FifoEvent α) (Option α))}
    (init : (machine α capacity).init s₀) (run : (machine α capacity).Run s₀ ts s) :
    left (Machine.observe see ts) ++ s.contents = entered (Machine.observe see ts) := by
  refine run.history (H := fun ts s =>
    left (Machine.observe see ts) ++ s.contents = entered (Machine.observe see ts)) ?_ ?_
  · rw [show s₀ = ⟨capacity, false, []⟩ from init]
    rfl
  · intro ts s e t o prior h
    rw [Machine.observe_snoc, left_append, entered_append, ← prior]
    cases e with
    | enqueue x =>
        simp only [machine, next] at h
        split at h
        · cases h
          simp [see, left, entered]
        · cases h
    | dequeue =>
        simp only [machine, next] at h
        cases hc : s.contents with
        | nil => simp [hc] at h
        | cons x rest =>
            simp only [hc] at h
            cases h
            simp [see, left, entered]
    | close =>
        cases h
        simp [see, left, entered]

theorem run_within_capacity {capacity : Nat} {s₀ s : BoundedFifo α}
    {ts : List (Transition (BoundedFifo α) (FifoEvent α) (Option α))}
    (init : (machine α capacity).init s₀) (run : (machine α capacity).Run s₀ ts s)
    (bounded : capacity ≠ 0) : s.contents.length ≤ capacity := by
  have both : s.capacity = capacity ∧ s.contents.length ≤ capacity := by
    refine run.invariant (I := fun s => s.capacity = capacity ∧ s.contents.length ≤ capacity) ?_ ?_
    · rw [show s₀ = ⟨capacity, false, []⟩ from init]
      simp
    · rintro s e t o ⟨hcap, hlen⟩ h
      cases e with
      | enqueue x =>
          simp only [machine, next] at h
          split at h
          · rename_i hroom
            cases h
            have hlt : s.contents.length < capacity := by
              rcases hroom.2 with h0 | hlt
              · omega
              · omega
            refine ⟨hcap, ?_⟩
            rw [List.length_append, List.length_singleton]
            omega
          · cases h
      | dequeue =>
          simp only [machine, next] at h
          cases hc : s.contents with
          | nil => simp [hc] at h
          | cons x rest =>
              simp only [hc] at h
              cases h
              simp only [hc, List.length_cons] at hlen
              exact ⟨hcap, by show rest.length ≤ capacity; omega⟩
      | close =>
          cases h
          exact ⟨hcap, hlen⟩
  exact both.2

end BoundedFifo

end Rtl.Base
