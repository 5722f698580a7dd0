import Rtl.Db.PoolState
import Mathlib.Algebra.Group.Prod
import Mathlib.Algebra.Order.Group.Multiset
import Mathlib.Data.Multiset.Range

/-! # Leases

A `PooledConnection` owns a connection and, as long as it has a pool, one of the
pool's active places. `ConnectionPool` wraps what `PoolState` hands out; between
the two the connection is in transit. A handle belongs to one thread, so only its
call of `return_connection` meets other threads, and each operation on handles is
one step.

Every connection is in exactly one place and every active place has one owner:
both are read off the sum of the handles' shares.
-/

namespace Rtl.Db

open Rtl.Base

/-- `PooledConnection`; the pool is null or the one pool there is. -/
structure Handle where
  poolState : Bool
  connection : Option Nat
  broken : Bool
  deriving Repr, DecidableEq

def Handle.movedFrom (h : Handle) : Handle := { h with poolState := false, connection := none }

/-- `closed` lists the connections that are not open any more, `destroyed` those
whose object is gone. -/
structure LeaseSystem where
  pool : PoolSystem
  transit : List Nat
  handles : List Handle
  closed : List Nat
  destroyed : List Nat
  deriving Repr, DecidableEq

inductive LeaseEvent where
  | acquire (timed creates : Bool)
  | wakes (k : Nat)
  | resumes (cause : Cause) (k : Nat) (timedOut creates : Bool)
  | construct (k : Nat)
  | destroy (i pick : Nat)
  | moveConstruct (i : Nat)
  | moveAssign (i j pick : Nat)
  | markBroken (i : Nat)
  | dropLink (c : Nat)
  deriving Repr, DecidableEq

inductive LeaseOutput where
  | silent
  | pool (o : PoolStateOutput)
  | returned (o : PoolStateOutput)
  deriving Repr, DecidableEq

def PoolStateOutput.handsOut : PoolStateOutput → List Nat
  | .acquired c => [c]
  | _ => []

def PoolStateOutput.discards : PoolStateOutput → List Nat
  | .discarded (some c) => [c]
  | _ => []

namespace LeaseSystem

def inspect (s : LeaseSystem) : Option Nat → Returned
  | none => .null
  | some c => if c ∈ s.closed then .closed c else .opened c

/-- What the destructor and the move assignment do first: give the connection back
to the pool. Without a pool it dies with its owner. -/
def release (s : LeaseSystem) (h : Handle) (pick : Nat) : LeaseSystem × LeaseOutput :=
  if h.poolState then
    let r := s.pool.returnConnection (s.inspect h.connection) pick
    ({ s with pool := r.1, destroyed := s.destroyed ++ r.2.discards }, .returned r.2)
  else ({ s with destroyed := s.destroyed ++ h.connection.toList }, .silent)

def acquiring (cfg : PoolConfig) (s : LeaseSystem) (e : PoolStateEvent) :
    Option (LeaseSystem × LeaseOutput) :=
  (s.pool.next cfg e).map fun r =>
    ({ s with pool := r.1, transit := s.transit ++ r.2.handsOut }, .pool r.2)

def next (cfg : PoolConfig) (s : LeaseSystem) : LeaseEvent → Option (LeaseSystem × LeaseOutput)
  | .acquire timed creates => s.acquiring cfg (.acquire timed creates)
  | .wakes k => s.acquiring cfg (.wakes k)
  | .resumes cause k timedOut creates => s.acquiring cfg (.resumes cause k timedOut creates)
  | .construct k =>
      (pickAt s.transit k).map fun r =>
        ({ s with transit := r.2, handles := s.handles ++ [⟨true, some r.1, false⟩] }, .silent)
  | .destroy i pick =>
      s.handles[i]?.map fun h =>
        ({ (s.release h pick).1 with handles := s.handles.eraseIdx i }, (s.release h pick).2)
  | .moveConstruct i =>
      s.handles[i]?.map fun h =>
        ({ s with handles := s.handles.set i h.movedFrom ++ [h] }, .silent)
  | .moveAssign i j pick =>
      match s.handles[i]?, s.handles[j]? with
      | some target, some source =>
          -- self-assignment is recognised by the addresses
          if i = j then some (s, .silent)
          else
            some ({ (s.release target pick).1 with
              handles := (s.handles.set i source).set j source.movedFrom }, (s.release target pick).2)
      | _, _ => none
  | .markBroken i =>
      s.handles[i]?.map fun h =>
        ({ s with
          handles := s.handles.set i { h with broken := true }
          closed := s.closed ++ h.connection.toList }, .silent)
  | .dropLink c =>
      if c < s.pool.nextConnection then some ({ s with closed := s.closed ++ [c] }, .silent) else none

def Start (cfg : PoolConfig) (s : LeaseSystem) : Prop :=
  PoolState.create cfg = .ok s.pool.state ∧ s.pool.cond = .empty ∧ s.pool.nextConnection = 0 ∧
    s.transit = [] ∧ s.handles = [] ∧ s.closed = [] ∧ s.destroyed = []

end LeaseSystem

def leaseMachine (cfg : PoolConfig) : Machine LeaseSystem LeaseEvent LeaseOutput where
  init := LeaseSystem.Start cfg
  next := LeaseSystem.next cfg

/-! ## Shares -/

/-- The active places and the connections a handle owns. -/
def Handle.share (h : Handle) : Nat × Multiset Nat :=
  (h.poolState.toNat, h.connection.elim 0 ({·}))

def shares (handles : List Handle) : Nat × Multiset Nat := (handles.map Handle.share).sum

theorem shares_eq (handles : List Handle) :
    shares handles = (handles.countP (·.poolState), ↑(handles.filterMap (·.connection))) := by
  induction handles with
  | nil => rfl
  | cons h rest ih =>
      have head : shares (h :: rest) = h.share + shares rest := by simp [shares]
      rw [head, ih]
      obtain ⟨pool, connection, broken⟩ := h
      cases pool <;> cases connection <;>
        simp [Handle.share, Nat.add_comm, Multiset.singleton_add]

@[simp] theorem shares_concat (handles : List Handle) (h : Handle) :
    shares (handles ++ [h]) = shares handles + h.share := by
  simp [shares]

theorem shares_set {handles : List Handle} {i : Nat} {h : Handle} (h' : Handle)
    (at_i : handles[i]? = some h) : h.share + shares (handles.set i h') = h'.share + shares handles :=
  sum_map_set Handle.share h' at_i

theorem shares_eraseIdx {handles : List Handle} {i : Nat} {h : Handle}
    (at_i : handles[i]? = some h) : shares handles = h.share + shares (handles.eraseIdx i) := by
  obtain ⟨inside, rfl⟩ := List.getElem?_eq_some_iff.mp at_i
  have perm := (List.getElem_cons_eraseIdx_perm inside).map Handle.share
  simpa [shares] using perm.sum_eq.symm

@[simp] theorem Handle.share_movedFrom (h : Handle) : h.movedFrom.share = 0 := rfl

/-! ## The steps of the lease system -/

/-- A handle has a pool exactly as long as it has a connection. -/
def Handle.Sound (h : Handle) : Prop := h.poolState = h.connection.isSome

/-- A handle with a pool owns one active place and one connection. -/
theorem Handle.Sound.owner {h : Handle} (sound : h.Sound) (pool : h.poolState = true) :
    ∃ c, h.connection = some c ∧ h.share = (1, {c}) := by
  unfold Handle.Sound at sound
  rw [pool] at sound
  obtain ⟨c, some⟩ := Option.isSome_iff_exists.mp sound.symm
  exact ⟨c, some, by simp [Handle.share, pool, some]⟩

theorem Handle.Sound.empty {h : Handle} (sound : h.Sound) (pool : h.poolState = false) :
    h.connection = none ∧ h.share = 0 := by
  unfold Handle.Sound at sound
  rw [pool] at sound
  have none : h.connection = none := by simpa using sound.symm
  exact ⟨none, by simp [Handle.share, pool, none]⟩

namespace LeaseSystem

variable {cfg : PoolConfig} {s t : LeaseSystem} {e : LeaseEvent} {o : LeaseOutput}

/-- Every handle is an old one or has been moved from. -/
def Keeps (s : LeaseSystem) (handles : List Handle) : Prop :=
  ∀ x ∈ handles, x ∈ s.handles ∨ ∃ y : Handle, x = y.movedFrom

/-- The steps, with what the operations on handles have in common: they pass
shares around and release at most one of them. -/
inductive Step (cfg : PoolConfig) (s : LeaseSystem) : LeaseEvent → LeaseSystem → LeaseOutput → Prop where
  | acquires {e : LeaseEvent} {e' : PoolStateEvent} {p : PoolSystem} {o : PoolStateOutput} :
      (∀ returned pick, e' ≠ .returnConnection returned pick) →
      s.pool.next cfg e' = some (p, o) →
      Step cfg s e { s with pool := p, transit := s.transit ++ o.handsOut } (.pool o)
  | constructs {e : LeaseEvent} {c : Nat} {rest : List Nat} : s.transit.Perm (c :: rest) →
      Step cfg s e
        { s with transit := rest, handles := s.handles ++ [⟨true, some c, false⟩] } .silent
  | releases {e : LeaseEvent} {h : Handle} {pick : Nat} {handles : List Handle} :
      h ∈ s.handles → shares s.handles = h.share + shares handles → s.Keeps handles →
      Step cfg s e { (s.release h pick).1 with handles := handles } (s.release h pick).2
  | rearranges {e : LeaseEvent} {handles : List Handle} :
      shares s.handles = shares handles → s.Keeps handles →
      Step cfg s e { s with handles := handles } .silent
  | breaks {i : Nat} {h : Handle} : s.handles[i]? = some h →
      Step cfg s (.markBroken i) { s with
        handles := s.handles.set i { h with broken := true }
        closed := s.closed ++ h.connection.toList } .silent
  | drops {e : LeaseEvent} {c : Nat} : Step cfg s e { s with closed := s.closed ++ [c] } .silent

theorem step_of_acquiring {e' : PoolStateEvent}
    (other : ∀ returned pick, e' ≠ .returnConnection returned pick)
    (h : s.acquiring cfg e' = some (t, o)) : Step cfg s e t o := by
  obtain ⟨⟨p, o'⟩, step, h⟩ := Option.map_eq_some_iff.mp h
  cases h
  exact .acquires other step

theorem keeps_eraseIdx (i : Nat) : s.Keeps (s.handles.eraseIdx i) :=
  fun _ mem => .inl (List.mem_of_mem_eraseIdx mem)

theorem keeps_set {handles : List Handle} (kept : s.Keeps handles) {y : Handle} (i : Nat)
    (from_s : y ∈ s.handles ∨ ∃ z : Handle, y = z.movedFrom) : s.Keeps (handles.set i y) := by
  intro x mem
  rcases List.mem_or_eq_of_mem_set mem with old | rfl
  · exact kept x old
  · exact from_s

theorem keeps_self : s.Keeps s.handles := fun _ mem => .inl mem

/-- A move assignment takes the target's share out and leaves the source empty. -/
theorem shares_assign {i j : Nat} {target source : Handle} (hi : s.handles[i]? = some target)
    (hj : s.handles[j]? = some source) (apart : i ≠ j) :
    shares s.handles =
      target.share + shares ((s.handles.set i source).set j source.movedFrom) := by
  have first := shares_set source hi
  have there : (s.handles.set i source)[j]? = some source := by
    rw [List.getElem?_set_ne apart]
    exact hj
  have second := shares_set source.movedFrom there
  rw [Handle.share_movedFrom, zero_add] at second
  rw [← second, ← add_assoc, add_comm target.share, add_assoc] at first
  exact (add_left_cancel first).symm

theorem step_of_next (h : s.next cfg e = some (t, o)) : Step cfg s e t o := by
  cases e with
  | acquire timed creates => exact step_of_acquiring (by simp) h
  | wakes k => exact step_of_acquiring (by simp) h
  | resumes cause k timedOut creates => exact step_of_acquiring (by simp) h
  | construct k =>
      obtain ⟨⟨c, rest⟩, picked, h⟩ := Option.map_eq_some_iff.mp h
      cases h
      exact .constructs (pickAt_perm picked)
  | destroy i pick =>
      obtain ⟨x, hx, h⟩ := Option.map_eq_some_iff.mp h
      cases h
      exact .releases (List.mem_of_getElem? hx) (shares_eraseIdx hx) (keeps_eraseIdx i)
  | moveConstruct i =>
      obtain ⟨x, hx, h⟩ := Option.map_eq_some_iff.mp h
      cases h
      refine .rearranges ?_ ?_
      · have moved := shares_set x.movedFrom hx
        rw [Handle.share_movedFrom, zero_add] at moved
        rw [shares_concat, add_comm, moved]
      · intro y mem
        rcases List.mem_append.mp mem with old | new
        · exact keeps_set keeps_self i (.inr ⟨x, rfl⟩) y old
        · rw [List.mem_singleton.mp new]
          exact .inl (List.mem_of_getElem? hx)
  | moveAssign i j pick =>
      simp only [next] at h
      cases hi : s.handles[i]? with
      | none => simp [hi] at h
      | some target =>
          cases hj : s.handles[j]? with
          | none => simp [hi, hj] at h
          | some source =>
              simp only [hi, hj] at h
              by_cases same : i = j
              · rw [if_pos same] at h
                cases h
                exact .rearranges rfl keeps_self
              · rw [if_neg same] at h
                cases h
                refine .releases (List.mem_of_getElem? hi) (shares_assign hi hj same) ?_
                exact keeps_set (keeps_set keeps_self i (.inl (List.mem_of_getElem? hj))) j
                  (.inr ⟨source, rfl⟩)
  | markBroken i =>
      obtain ⟨x, hx, h⟩ := Option.map_eq_some_iff.mp h
      cases h
      exact .breaks hx
  | dropLink c =>
      simp only [next] at h
      by_cases created : c < s.pool.nextConnection
      · rw [if_pos created] at h
        cases h
        exact .drops
      · rw [if_neg created] at h
        cases h

end LeaseSystem

end Rtl.Db
