import Rtl.Base.Machine
import Rtl.Base.Spans
import Rtl.Alloc.BlockAllocator

/-! # The linear allocator

Copies of a `LinearAllocator` share a buffer and an atomic offset into it. `allocate`
loads the offset to see whether the request still fits, and reserves the bytes with a
`fetch_add` later; a step is one access to the offset, by any thread. Nothing is ever
given back.
-/

namespace Rtl.Alloc

open Rtl.Base

def allocatorSize : Nat := 1024 * 1024

/-- Where a thread is in `allocate`. The loads at `print` and `report` are only printed. -/
inductive LinearPc where
  | idle
  | load (bytes : Nat)
  | print (bytes : Nat)
  | reserve (bytes : Nat)
  | report (region : Span)
  deriving Repr, DecidableEq

def LinearPc.region : LinearPc → Option Span
  | .report region => some region
  | _ => none

/-- The offset is a `size_t`. The regions that were returned are recorded. -/
structure LinearAllocator where
  offset : Nat
  threads : List LinearPc
  returned : List Span
  deriving Repr, DecidableEq

inductive LinearEvent where
  | allocate (t n : Nat)
  | step (t : Nat)
  deriving Repr, DecidableEq

inductive LinearOutput where
  | silent
  | badAlloc
  | returned (region : Span)
  deriving Repr, DecidableEq

namespace LinearAllocator

def create (threads : Nat) : LinearAllocator := ⟨0, List.replicate threads .idle, []⟩

def setThread (s : LinearAllocator) (t : Nat) (pc : LinearPc) : LinearAllocator :=
  { s with threads := s.threads.set t pc }

/-- The next access of a thread to the offset. -/
def access (s : LinearAllocator) (t : Nat) : LinearPc → Option (LinearAllocator × LinearOutput)
  | .idle => none
  | .load bytes =>
      if allocatorSize < (s.offset + bytes) % 2 ^ 64 then some (s.setThread t .idle, .badAlloc)
      else some (s.setThread t (.print bytes), .silent)
  | .print bytes => some (s.setThread t (.reserve bytes), .silent)
  | .reserve bytes =>
      some ({ s with offset := (s.offset + bytes) % 2 ^ 64 }.setThread t (.report ⟨s.offset, bytes⟩),
        .silent)
  | .report region =>
      some ({ s with returned := s.returned ++ [region] }.setThread t .idle, .returned region)

/-- A call ends the program if its assertion fails. -/
def next (T : ElementType) (s : LinearAllocator) :
    LinearEvent → Option (LinearAllocator × LinearOutput)
  | .allocate t n =>
      if s.threads[t]? = some .idle ∧ 0 < n ∧ T.bytes n ≤ allocatorSize then
        some (s.setThread t (.load (T.bytes n)), .silent)
      else none
  | .step t =>
      match s.threads[t]? with
      | none => none
      | some pc => s.access t pc

/-- The requests that the rules allow, in exact integers. -/
def Allowed (T : ElementType) : LinearEvent → Prop
  | .allocate _ n => 0 < n ∧ n * T.size ≤ allocatorSize
  | .step _ => True

instance (T : ElementType) : (e : LinearEvent) → Decidable (Allowed T e)
  | .allocate _ _ => inferInstanceAs (Decidable (_ ∧ _))
  | .step _ => inferInstanceAs (Decidable True)

/-- The regions of all calls that did not throw: returned, or about to be. -/
def regions (s : LinearAllocator) : List Span := s.returned ++ s.threads.filterMap (·.region)

structure Partitioned (s : LinearAllocator) : Prop where
  inside : ∀ r ∈ s.regions, r.start + r.length ≤ allocatorSize
  disjoint : s.regions.Pairwise fun a b => a.start + a.length ≤ b.start ∨ b.start + b.length ≤ a.start

def reserving (s : LinearAllocator) (t : Nat) : Option Nat :=
  match s.threads[t]? with
  | some (.reserve bytes) => some bytes
  | _ => none

/-- A `fetch_add` is made while the request still fits. -/
def ReservesInside (s : LinearAllocator) : LinearEvent → Prop
  | .allocate _ _ => True
  | .step t => ∀ bytes ∈ s.reserving t, s.offset + bytes ≤ allocatorSize

instance (s : LinearAllocator) : (e : LinearEvent) → Decidable (s.ReservesInside e)
  | .allocate _ _ => inferInstanceAs (Decidable True)
  | .step t => inferInstanceAs (Decidable (∀ bytes ∈ s.reserving t, s.offset + bytes ≤ allocatorSize))

end LinearAllocator

def linearMachine (T : ElementType) : Machine LinearAllocator LinearEvent LinearOutput :=
  Machine.restrict
    { init := fun s => ∃ threads, s = .create threads
      next := LinearAllocator.next T } fun _ e => LinearAllocator.Allowed T e

namespace LinearAllocator

variable {T : ElementType} {s s' : LinearAllocator} {e : LinearEvent} {o : LinearOutput} {t : Nat}

/-! ## Steps -/

inductive Effect (s : LinearAllocator) (e : LinearEvent) (s' : LinearAllocator) : Prop where
  | same (offset : s'.offset = s.offset) (regions : s'.regions.Perm s.regions)
      (inside : s.ReservesInside e)
  | reserve (t bytes : Nat) (event : e = .step t) (thread : s.reserving t = some bytes)
      (offset : s'.offset = (s.offset + bytes) % 2 ^ 64)
      (regions : s'.regions.Perm (⟨s.offset, bytes⟩ :: s.regions))

/-- A thread goes on; what it was about to return is replaced by what it now is. -/
theorem regions_setThread {pc : LinearPc} (found : s.threads[t]? = some pc) (pc' : LinearPc) :
    (pc.region.toList ++ (s.setThread t pc').regions).Perm (pc'.region.toList ++ s.regions) := by
  have swapped := filterMap_set_perm (·.region) pc' found
  unfold regions setThread
  refine (List.perm_append_comm_assoc _ _ _).trans ?_
  refine ((List.Perm.append_left _ swapped).trans ?_)
  exact List.perm_append_comm_assoc _ _ _

theorem regions_silent {pc pc' : LinearPc} (found : s.threads[t]? = some pc) (old : pc.region = none)
    (new : pc'.region = none) : (s.setThread t pc').regions.Perm s.regions := by
  simpa [old, new] using regions_setThread found pc'

theorem effect_of_next (h : (linearMachine T).next s e = some (s', o)) : Effect s e s' := by
  obtain ⟨_, h⟩ := Machine.restrict_next.mp h
  cases e with
  | allocate t n =>
      simp only [next] at h
      split at h
      · next ready =>
          cases h
          exact .same rfl (regions_silent ready.1 rfl rfl) trivial
      · cases h
  | step t =>
      simp only [next] at h
      cases found : s.threads[t]? with
      | none => simp [found] at h
      | some pc =>
          have other : (∀ bytes, pc ≠ .reserve bytes) → s.ReservesInside (.step t) := by
            intro different bytes mem
            cases pc <;> simp_all [reserving]
          simp only [found] at h
          cases pc with
          | idle => cases h
          | load bytes =>
              simp only [access] at h
              split at h <;> cases h <;>
                exact .same rfl (regions_silent found rfl rfl) (other fun _ => by simp)
          | print bytes =>
              cases h
              exact .same rfl (regions_silent found rfl rfl) (other fun _ => by simp)
          | reserve bytes =>
              cases h
              have moved := regions_setThread found (.report ⟨s.offset, bytes⟩)
              exact .reserve t bytes rfl (by simp [reserving, found]) rfl moved
          | report region =>
              cases h
              refine .same rfl ?_ (other fun _ => by simp)
              have moved := regions_setThread found .idle
              simp only [LinearPc.region, Option.toList_some, Option.toList_none, List.nil_append] at moved
              refine List.Perm.trans ?_ moved
              simp only [regions, setThread, List.append_assoc, List.singleton_append]
              exact List.perm_middle

/-! ## Runs -/

structure Below (s : LinearAllocator) : Prop where
  offset : s.offset ≤ allocatorSize
  regions : ∀ r ∈ s.regions, r.start + r.length ≤ s.offset
  disjoint : s.regions.Pairwise fun a b => a.start + a.length ≤ b.start ∨ b.start + b.length ≤ a.start

theorem Below.partitioned (below : s.Below) : s.Partitioned :=
  ⟨fun r mem => Nat.le_trans (below.regions r mem) below.offset, below.disjoint⟩

theorem create_below (threads : Nat) : (create threads).Below := by
  have none : (create threads).regions = [] := by
    simp [regions, create, LinearPc.region]
  refine ⟨Nat.zero_le _, ?_, ?_⟩
  · rw [none]
    simp
  · rw [none]
    exact List.Pairwise.nil

theorem disjoint_perm {l l' : List Span} (perm : l.Perm l') :
    (l.Pairwise fun a b => a.start + a.length ≤ b.start ∨ b.start + b.length ≤ a.start) ↔
      l'.Pairwise fun a b => a.start + a.length ≤ b.start ∨ b.start + b.length ≤ a.start :=
  perm.pairwise_iff fun apart => apart.symm

theorem Below.step (below : s.Below) (inside : s.ReservesInside e)
    (h : (linearMachine T).next s e = some (s', o)) : s'.Below := by
  cases effect_of_next h with
  | same offset regions _ =>
      refine ⟨offset ▸ below.offset, ?_, (disjoint_perm regions).mpr below.disjoint⟩
      intro r mem
      rw [offset]
      exact below.regions r (regions.mem_iff.mp mem)
  | reserve t bytes event thread offset regions =>
      subst event
      have fits := inside bytes thread
      have exactly : s'.offset = s.offset + bytes := by
        rw [offset]
        unfold allocatorSize at fits
        omega
      refine ⟨by omega, ?_, (disjoint_perm regions).mpr (List.pairwise_cons.mpr ⟨?_, below.disjoint⟩)⟩
      · intro r mem
        rcases List.mem_cons.mp (regions.mem_iff.mp mem) with rfl | old
        · exact Nat.le_of_eq exactly.symm
        · have before := below.regions r old
          omega
      · intro r mem
        exact .inr (below.regions r mem)

/-- A reservation beyond the buffer. -/
theorem not_partitioned (beyond : ¬ s.ReservesInside e)
    (h : (linearMachine T).next s e = some (s', o)) : ¬ s'.Partitioned := by
  cases effect_of_next h with
  | same _ _ inside => exact absurd inside beyond
  | reserve t bytes event thread _ regions =>
      subst event
      intro partitioned
      have region := partitioned.inside ⟨s.offset, bytes⟩ (regions.mem_iff.mpr List.mem_cons_self)
      refine beyond fun bytes' thread' => ?_
      cases thread.symm.trans thread'
      exact region

end LinearAllocator

/-- In every run of any number of threads, all regions of calls that did not throw lie in
the buffer and are disjoint, in every state, if and only if every `fetch_add` is made
while its request still fits. -/
theorem linear_allocator_partition_iff (T : ElementType) {s₀ s : LinearAllocator}
    {ts : List (Transition LinearAllocator LinearEvent LinearOutput)} (init : (linearMachine T).init s₀)
    (run : (linearMachine T).Run s₀ ts s) :
    (∀ v, Machine.Visits s₀ ts v → v.Partitioned) ↔ ∀ t ∈ ts, t.before.ReservesInside t.event := by
  obtain ⟨threads, rfl⟩ := init
  exact run.always_iff_guard (LinearAllocator.create_below threads)
    (fun _ _ _ _ below inside h => below.step inside h) (fun _ below => below.partitioned)
    fun _ _ _ _ _ beyond h => LinearAllocator.not_partitioned beyond h

/-- Two threads in turns, the second one between the steps of the first. -/
def turnsTrace : List LinearEvent :=
  [.allocate 0 4, .allocate 1 2, .step 0, .step 1, .step 0, .step 0, .step 1, .step 0, .step 1, .step 1]

theorem linear_allocator_partition_turns :
    ∃ ts s, (linearMachine ⟨4, Nat.succ_pos 3⟩).exec (.create 2) turnsTrace = some (ts, s) ∧
      s.returned = [⟨0, 16⟩, ⟨16, 8⟩] ∧ ∀ v, Machine.Visits (.create 2) ts v → v.Partitioned := by
  have h : (linearMachine ⟨4, Nat.succ_pos 3⟩).exec (.create 2) turnsTrace = some (_, _) := rfl
  refine ⟨_, _, h, rfl, ?_⟩
  exact (linear_allocator_partition_iff ⟨4, Nat.succ_pos 3⟩ ⟨2, rfl⟩ (Machine.Run.of_exec h)).mpr
    (by decide)

/-- Two threads find the buffer empty, and both reserve all of it. -/
def raceTrace : List LinearEvent :=
  [.allocate 0 allocatorSize, .allocate 1 allocatorSize, .step 0, .step 1, .step 0, .step 1, .step 0,
    .step 1, .step 0, .step 1]

/-- The second one returns a region behind the buffer. -/
theorem linear_allocator_race_leaves_buffer :
    ∃ ts s, (linearMachine ⟨1, Nat.one_pos⟩).exec (.create 2) raceTrace = some (ts, s) ∧
      s.returned = [⟨0, allocatorSize⟩, ⟨allocatorSize, allocatorSize⟩] ∧ ¬ s.Partitioned := by
  refine ⟨_, _, rfl, rfl, ?_⟩
  intro partitioned
  exact absurd (partitioned.inside ⟨allocatorSize, allocatorSize⟩ (by decide)) (by decide)

end Rtl.Alloc
