import Rtl.Base.Machine
import Rtl.Base.CondVar

/-! # The state behind the connection pool

`PoolState` keeps idle connections in a vector, counts idle and active ones in two
separate counters of type `size_t`, and parks acquirers on one condition variable.
Everything happens under one mutex, so each stretch between taking and releasing
it is a step. Connections are numbered in the order of their creation; whether a
creation succeeds or throws is chosen by the environment.
-/

namespace Rtl.Db

open Rtl.Base

/-! ## Counters of type `size_t` -/

def sizeModulus : Nat := 2 ^ 64

def increment (n : Nat) : Nat := (n + 1) % sizeModulus

def decrement (n : Nat) : Nat := (n + (sizeModulus - 1)) % sizeModulus

theorem increment_eq {n : Nat} (h : n + 1 < sizeModulus) : increment n = n + 1 :=
  Nat.mod_eq_of_lt h

theorem decrement_eq {n : Nat} (pos : 0 < n) (h : n < sizeModulus) : decrement n = n - 1 := by
  have split : n + (sizeModulus - 1) = (n - 1) + sizeModulus := by
    unfold sizeModulus at *
    omega
  rw [decrement, split, Nat.add_mod_right]
  exact Nat.mod_eq_of_lt (by omega)

/-! ## The pool under its mutex -/

inductive DbError where
  | configurationError (message : String)
  | poolExhausted (message : String)
  | poolTimeout (message : String)
  deriving Repr, DecidableEq

structure PoolConfig where
  maxConnections : Nat
  size : maxConnections < sizeModulus

/-- `shutdown` is only set by the destructor. -/
structure PoolState where
  connections : List Nat
  activeConnections : Nat
  idleConnections : Nat
  shutdown : Bool
  deriving Repr, DecidableEq

/-- What `take_connection_locked` ends with; an exception of the connection's
constructor passes through it. -/
inductive Took where
  | connection (c : Nat) (created : Bool)
  | nothing
  | threw
  deriving Repr, DecidableEq

def Took.creations : Took → Nat
  | .connection _ created => created.toNat
  | .nothing => 0
  | .threw => 0

namespace PoolState

def create (cfg : PoolConfig) : Except DbError PoolState :=
  if cfg.maxConnections = 0 then
    .error (.configurationError "Invalid max_connections param in config")
  else .ok ⟨[], 0, 0, false⟩

def canCreateConnectionLocked (cfg : PoolConfig) (s : PoolState) : Bool :=
  (s.idleConnections + s.activeConnections) % sizeModulus < cfg.maxConnections

/-- The last connection of the vector becomes active. Without one, `back` is
undefined and has no result here. -/
def takeBack (s : PoolState) : Option (Nat × PoolState) :=
  s.connections.getLast?.map fun c =>
    (c, { s with
      connections := s.connections.dropLast
      idleConnections := decrement s.idleConnections
      activeConnections := increment s.activeConnections })

def pushNew (s : PoolState) (fresh : Nat) : PoolState :=
  { s with
    connections := s.connections ++ [fresh]
    idleConnections := increment s.idleConnections }

def takeConnectionLocked (cfg : PoolConfig) (s : PoolState) (fresh : Nat) (creates : Bool) :
    Option (PoolState × Took) :=
  if 0 < s.idleConnections then
    s.takeBack.map fun r => (r.2, .connection r.1 false)
  else if s.canCreateConnectionLocked cfg then
    if creates then (s.pushNew fresh).takeBack.map fun r => (r.2, .connection r.1 true)
    else some (s, .threw)
  else some (s, .nothing)

def ready (cfg : PoolConfig) (s : PoolState) : Bool :=
  s.shutdown || !s.connections.isEmpty || s.canCreateConnectionLocked cfg

end PoolState

/-! ## Acquirers -/

/-- A call of `acquire` or, when `timed`, of `try_acquire_for` inside its wait. -/
structure Acquirer where
  timed : Bool
  deriving Repr, DecidableEq

structure PoolSystem where
  state : PoolState
  cond : CondVar Acquirer
  nextConnection : Nat
  deriving Repr, DecidableEq

inductive Returned where
  | null
  | closed (c : Nat)
  | opened (c : Nat)
  deriving Repr, DecidableEq

inductive PoolStateEvent where
  | acquire (timed creates : Bool)
  | wakes (k : Nat)
  | resumes (cause : Cause) (k : Nat) (timedOut creates : Bool)
  | returnConnection (returned : Returned) (pick : Nat)
  deriving Repr, DecidableEq

inductive PoolStateOutput where
  | silent
  | acquired (c : Nat)
  | creationThrew
  | threw (error : DbError)
  | putBack (c : Nat)
  | discarded (c : Option Nat)
  deriving Repr, DecidableEq

namespace PoolSystem

def take (cfg : PoolConfig) (s : PoolSystem) (creates : Bool) : Option (PoolSystem × Took) :=
  (s.state.takeConnectionLocked cfg s.nextConnection creates).map fun r =>
    ({ s with state := r.1, nextConnection := s.nextConnection + r.2.creations }, r.2)

/-- The error thrown on shutdown, before which `acquire` also notifies everyone. -/
def refuse (s : PoolSystem) (a : Acquirer) : PoolSystem × PoolStateOutput :=
  (if a.timed then s else { s with cond := s.cond.notifyAll },
    .threw (.poolExhausted "Connection pool is shutting down"))

/-- An acquirer whose wait is over because its predicate holds. A null connection
makes `ConnectionPool::acquire` throw. -/
def afterWait (cfg : PoolConfig) (s : PoolSystem) (a : Acquirer) (creates : Bool) :
    Option (PoolSystem × PoolStateOutput) :=
  if s.state.shutdown then some (s.refuse a)
  else (s.take cfg creates).map fun r =>
    match r.2 with
    | .connection c _ => (r.1, .acquired c)
    | .threw => (r.1, .creationThrew)
    | .nothing => (r.1, .threw (.poolExhausted "Connection ptr is nullptr"))

def acquire (cfg : PoolConfig) (s : PoolSystem) (a : Acquirer) (creates : Bool) :
    Option (PoolSystem × PoolStateOutput) :=
  if s.state.shutdown then some (s.refuse a)
  else
    match s.take cfg creates with
    | none => none
    | some (s', .connection c _) => some (s', .acquired c)
    | some (s', .threw) => some (s', .creationThrew)
    | some (s', .nothing) =>
        if s'.state.ready cfg then s'.afterWait cfg a creates
        else some ({ s' with cond := s'.cond.park a }, .silent)

/-- `return_connection`. A connection that is not kept is destroyed. -/
def returnConnection (s : PoolSystem) (returned : Returned) (pick : Nat) :
    PoolSystem × PoolStateOutput :=
  let state := { s.state with activeConnections := decrement s.state.activeConnections }
  if s.state.shutdown then
    ({ s with state := state, cond := s.cond.notifyAll },
      .discarded (match returned with | .null => none | .closed c => some c | .opened c => some c))
  else
    match returned with
    | .null => ({ s with state := state, cond := s.cond.notifyOne pick }, .discarded none)
    | .closed c => ({ s with state := state, cond := s.cond.notifyOne pick }, .discarded (some c))
    | .opened c =>
        ({ s with
          state := { state with
            connections := state.connections ++ [c]
            idleConnections := increment state.idleConnections }
          cond := s.cond.notifyOne pick }, .putBack c)

def next (cfg : PoolConfig) (s : PoolSystem) :
    PoolStateEvent → Option (PoolSystem × PoolStateOutput)
  | .acquire timed creates => s.acquire cfg ⟨timed⟩ creates
  | .wakes k => (s.cond.wake k).map fun cv => ({ s with cond := cv }, .silent)
  | .resumes cause k timedOut creates =>
      match s.cond.resume cause k with
      | none => none
      | some (a, cv) =>
          if s.state.ready cfg then { s with cond := cv }.afterWait cfg a creates
          else if a.timed && timedOut then
            some ({ s with cond := cv },
              .threw (.poolTimeout "Timed out waiting for a pooled connection"))
          else some ({ s with cond := cv.park a }, .silent)
  | .returnConnection returned pick => some (s.returnConnection returned pick)

end PoolSystem

/-! ## What taking a connection does -/

namespace PoolState

/-- The vector and the counters agree, and the maximum is respected. -/
structure Ok (cfg : PoolConfig) (s : PoolState) : Prop where
  idle : s.idleConnections = s.connections.length
  capacity : s.idleConnections + s.activeConnections ≤ cfg.maxConnections
  alive : s.shutdown = false

/-- How many connections could be given out: idle ones and ones still to create. -/
def available (cfg : PoolConfig) (s : PoolState) : Nat :=
  s.connections.length + (cfg.maxConnections - (s.idleConnections + s.activeConnections))

variable {cfg : PoolConfig} {s t : PoolState}

theorem create_ok (h : create cfg = .ok s) :
    s = ⟨[], 0, 0, false⟩ ∧ 0 < cfg.maxConnections := by
  unfold create at h
  by_cases zero : cfg.maxConnections = 0
  · rw [if_pos zero] at h
    cases h
  · rw [if_neg zero] at h
    cases h
    exact ⟨rfl, by omega⟩

theorem Ok.available_eq (ok : s.Ok cfg) :
    s.available cfg = cfg.maxConnections - s.activeConnections := by
  have idle := ok.idle
  have capacity := ok.capacity
  unfold available
  omega

theorem Ok.canCreate_iff (ok : s.Ok cfg) : s.canCreateConnectionLocked cfg = true ↔
    s.idleConnections + s.activeConnections < cfg.maxConnections := by
  have capacity := ok.capacity
  have size := cfg.size
  rw [canCreateConnectionLocked, Nat.mod_eq_of_lt (by omega), decide_eq_true_iff]

theorem Ok.ready_iff (ok : s.Ok cfg) : s.ready cfg = true ↔ 0 < s.available cfg := by
  have idle := ok.idle
  have capacity := ok.capacity
  have create := ok.canCreate_iff
  have avail := ok.available_eq
  simp only [ready, ok.alive, Bool.false_or, Bool.or_eq_true, Bool.not_eq_true', create,
    List.isEmpty_eq_false_iff, ← List.length_pos_iff]
  omega

/-- The ways of `take_connection_locked`; the flag says whether a creation would
succeed. -/
inductive Grab (cfg : PoolConfig) (s : PoolState) (fresh : Nat) :
    Bool → PoolState → Took → Prop where
  | idle {creates : Bool} {rest : List Nat} {c : Nat} : s.connections = rest ++ [c] →
      Grab cfg s fresh creates { s with
        connections := rest
        idleConnections := s.idleConnections - 1
        activeConnections := s.activeConnections + 1 } (.connection c false)
  | new : s.connections = [] → 0 < s.available cfg →
      Grab cfg s fresh true { s with activeConnections := s.activeConnections + 1 }
        (.connection fresh true)
  | threw : s.connections = [] → 0 < s.available cfg → Grab cfg s fresh false s .threw
  | nothing {creates : Bool} : s.available cfg = 0 → Grab cfg s fresh creates s .nothing

theorem Ok.takeConnectionLocked {fresh : Nat} {creates : Bool} {took : Took} (ok : s.Ok cfg)
    (h : s.takeConnectionLocked cfg fresh creates = some (t, took)) :
    Grab cfg s fresh creates t took := by
  have idle := ok.idle
  have capacity := ok.capacity
  have size := cfg.size
  have avail := ok.available_eq
  unfold PoolState.takeConnectionLocked at h
  by_cases some : 0 < s.idleConnections
  · rw [if_pos some] at h
    have nonempty : s.connections ≠ [] := by
      intro nil
      rw [nil] at idle
      simp at idle
      omega
    have back := List.dropLast_concat_getLast nonempty
    simp only [takeBack, List.getLast?_eq_some_getLast nonempty, Option.map_some, Option.some.injEq,
      Prod.mk.injEq] at h
    obtain ⟨rfl, rfl⟩ := h
    rw [decrement_eq some (by omega), increment_eq (by omega)]
    exact .idle back.symm
  · rw [if_neg some] at h
    have zero : s.idleConnections = 0 := by omega
    have empty : s.connections = [] := by
      rw [← List.length_eq_zero_iff, ← idle]
      exact zero
    by_cases create : s.canCreateConnectionLocked cfg = true
    · rw [if_pos create] at h
      have room := ok.canCreate_iff.mp create
      cases creates with
      | true =>
          simp only [if_true, takeBack, pushNew, empty, List.nil_append, List.getLast?_singleton,
            Option.map_some, Option.some.injEq, Prod.mk.injEq, List.dropLast_singleton] at h
          obtain ⟨rfl, rfl⟩ := h
          have back : decrement (increment s.idleConnections) = s.idleConnections := by
            rw [zero]
            rfl
          rw [back, increment_eq (by omega), ← empty]
          exact .new empty (by omega)
      | false =>
          simp only [Bool.false_eq_true, if_false, Option.some.injEq, Prod.mk.injEq] at h
          obtain ⟨rfl, rfl⟩ := h
          exact .threw empty (by omega)
    · rw [if_neg create] at h
      simp only [Option.some.injEq, Prod.mk.injEq] at h
      obtain ⟨rfl, rfl⟩ := h
      have full : ¬ s.idleConnections + s.activeConnections < cfg.maxConnections := fun room =>
        create (ok.canCreate_iff.mpr room)
      exact .nothing (by omega)

theorem Ok.grab {fresh : Nat} {creates : Bool} {took : Took} (ok : s.Ok cfg)
    (grab : Grab cfg s fresh creates t took) : t.Ok cfg := by
  have avail := ok.available_eq
  obtain ⟨idle, capacity, alive⟩ := ok
  cases grab with
  | idle back =>
      rw [back, List.length_append, List.length_singleton] at idle
      exact ⟨by simp only; omega, by simp only; omega, alive⟩
  | new empty room =>
      have zero : s.idleConnections = 0 := by rw [idle, empty, List.length_nil]
      exact ⟨idle, by simp only; omega, alive⟩
  | threw => exact ⟨idle, capacity, alive⟩
  | nothing => exact ⟨idle, capacity, alive⟩

theorem Grab.active {fresh c : Nat} {creates created : Bool}
    (grab : Grab cfg s fresh creates t (.connection c created)) :
    t.activeConnections = s.activeConnections + 1 := by
  cases grab <;> rfl

end PoolState

/-! ## The steps of the pool -/

namespace PoolSystem

variable {cfg : PoolConfig} {s t : PoolSystem}

/-- A call that reaches the point where it looks for a connection: it has just
been made, or it comes back from its wait. -/
inductive Arrives (s : PoolSystem) (a : Acquirer) (creates : Bool) :
    PoolStateEvent → CondVar Acquirer → Prop where
  | called : Arrives s a creates (.acquire a.timed creates) s.cond
  | resumed {cause : Cause} {k : Nat} {timedOut : Bool} {cv : CondVar Acquirer} :
      s.cond.resume cause k = some (a, cv) →
      Arrives s a creates (.resumes cause k timedOut creates) cv

inductive Step (cfg : PoolConfig) (s : PoolSystem) :
    PoolStateEvent → PoolSystem → PoolStateOutput → Prop where
  | acquires {e : PoolStateEvent} {a : Acquirer} {creates : Bool} {cv : CondVar Acquirer}
      {state : PoolState} {c : Nat} {created : Bool} : s.Arrives a creates e cv →
      s.state.Grab cfg s.nextConnection creates state (.connection c created) →
      Step cfg s e ⟨state, cv, s.nextConnection + created.toNat⟩ (.acquired c)
  | creationThrows {e : PoolStateEvent} {a : Acquirer} {cv : CondVar Acquirer} :
      s.Arrives a false e cv → s.state.connections = [] → 0 < s.state.available cfg →
      Step cfg s e { s with cond := cv } .creationThrew
  | parks {e : PoolStateEvent} {a : Acquirer} {creates : Bool} {cv : CondVar Acquirer} :
      s.Arrives a creates e cv → s.state.available cfg = 0 →
      Step cfg s e { s with cond := cv.park a } .silent
  | timesOut {cause : Cause} {k : Nat} {a : Acquirer} {creates : Bool} {cv : CondVar Acquirer}
      {error : DbError} :
      s.cond.resume cause k = some (a, cv) → s.state.available cfg = 0 →
      Step cfg s (.resumes cause k true creates) { s with cond := cv } (.threw error)
  | wakes {k : Nat} {cv : CondVar Acquirer} : s.cond.wake k = some cv →
      Step cfg s (.wakes k) { s with cond := cv } .silent
  | returns (returned : Returned) (pick : Nat) :
      Step cfg s (.returnConnection returned pick) (s.returnConnection returned pick).1
        (s.returnConnection returned pick).2

theorem take_spec {creates : Bool} {took : Took} (ok : s.state.Ok cfg)
    (h : s.take cfg creates = some (t, took)) :
    ∃ state, s.state.Grab cfg s.nextConnection creates state took ∧
      t = ⟨state, s.cond, s.nextConnection + took.creations⟩ := by
  unfold take at h
  obtain ⟨⟨state, took'⟩, taken, h⟩ := Option.map_eq_some_iff.mp h
  cases h
  exact ⟨state, ok.takeConnectionLocked taken, rfl⟩

theorem step_of_afterWait {e : PoolStateEvent} {a : Acquirer} {creates : Bool}
    {cv : CondVar Acquirer} {o : PoolStateOutput} (ok : s.state.Ok cfg)
    (arrives : s.Arrives a creates e cv) (ready : s.state.ready cfg = true)
    (h : { s with cond := cv }.afterWait cfg a creates = some (t, o)) : Step cfg s e t o := by
  have room := ok.ready_iff.mp ready
  simp only [afterWait, ok.alive, Bool.false_eq_true, if_false] at h
  obtain ⟨⟨s', took⟩, taken, h⟩ := Option.map_eq_some_iff.mp h
  obtain ⟨state, grab, rfl⟩ := take_spec (s := { s with cond := cv }) ok taken
  cases took with
  | connection c created =>
      simp only [Prod.mk.injEq] at h
      obtain ⟨rfl, rfl⟩ := h
      exact .acquires arrives grab
  | threw =>
      simp only [Prod.mk.injEq] at h
      obtain ⟨rfl, rfl⟩ := h
      cases grab with
      | threw empty room => exact .creationThrows arrives empty room
  | nothing =>
      cases grab with
      | nothing none => exact absurd none (Nat.ne_of_gt room)

theorem step_of_acquire {a : Acquirer} {creates : Bool} {o : PoolStateOutput}
    (ok : s.state.Ok cfg) (h : s.acquire cfg a creates = some (t, o)) :
    Step cfg s (.acquire a.timed creates) t o := by
  simp only [acquire, ok.alive, Bool.false_eq_true, if_false] at h
  cases taken : s.take cfg creates with
  | none => simp [taken] at h
  | some r =>
      obtain ⟨s', took⟩ := r
      obtain ⟨state, grab, rfl⟩ := take_spec ok taken
      cases took with
      | connection c created =>
          simp only [taken, Option.some.injEq, Prod.mk.injEq] at h
          obtain ⟨rfl, rfl⟩ := h
          exact .acquires .called grab
      | threw =>
          simp only [taken, Option.some.injEq, Prod.mk.injEq] at h
          obtain ⟨rfl, rfl⟩ := h
          cases grab with
          | threw empty room => exact .creationThrows .called empty room
      | nothing =>
          cases grab with
          | nothing none =>
              have unready : ¬ s.state.ready cfg = true := fun ready =>
                absurd (ok.ready_iff.mp ready) (by omega)
              simp only [taken, Took.creations, Nat.add_zero, unready] at h
              cases h
              exact .parks .called none

/-- The steps of the code are among those listed. -/
theorem step_of_next {e : PoolStateEvent} {o : PoolStateOutput} (ok : s.state.Ok cfg)
    (h : s.next cfg e = some (t, o)) : Step cfg s e t o := by
  cases e with
  | acquire timed creates => exact step_of_acquire (a := ⟨timed⟩) ok h
  | wakes k =>
      obtain ⟨cv, woken, h⟩ := Option.map_eq_some_iff.mp h
      cases h
      exact .wakes woken
  | resumes cause k timedOut creates =>
      simp only [next] at h
      cases resumed : s.cond.resume cause k with
      | none => simp [resumed] at h
      | some r =>
          obtain ⟨a, cv⟩ := r
          simp only [resumed] at h
          by_cases ready : s.state.ready cfg = true
          · rw [if_pos ready] at h
            exact step_of_afterWait ok (.resumed resumed) ready h
          · rw [if_neg ready] at h
            have none : s.state.available cfg = 0 :=
              Nat.eq_zero_of_not_pos fun room => ready (ok.ready_iff.mpr room)
            by_cases late : (a.timed && timedOut) = true
            · rw [if_pos late] at h
              cases h
              rw [Bool.and_eq_true] at late
              rw [late.2]
              exact .timesOut resumed none
            · rw [if_neg late] at h
              cases h
              exact .parks (.resumed resumed) none
  | returnConnection returned pick =>
      have same := Option.some.inj h
      rw [show t = (s.returnConnection returned pick).1 by rw [same],
        show o = (s.returnConnection returned pick).2 by rw [same]]
      exact .returns returned pick

/-- What `return_connection` does to a pool that is alive. -/
theorem returnConnection_state (ok : s.state.Ok cfg) (out : 0 < s.state.activeConnections)
    (returned : Returned) (pick : Nat) :
    (s.returnConnection returned pick).1.cond = s.cond.notifyOne pick ∧
    (s.returnConnection returned pick).1.nextConnection = s.nextConnection ∧
    (s.returnConnection returned pick).1.state = { s.state with
      activeConnections := s.state.activeConnections - 1
      connections := s.state.connections ++ match returned with | .opened c => [c] | _ => []
      idleConnections := s.state.idleConnections +
        match returned with | .opened _ => 1 | _ => 0 } := by
  have capacity := ok.capacity
  have size := cfg.size
  have fewer := decrement_eq out (by omega)
  cases returned with
  | null => simp [returnConnection, ok.alive, fewer]
  | closed c => simp [returnConnection, ok.alive, fewer]
  | opened c =>
      have more : increment s.state.idleConnections = s.state.idleConnections + 1 :=
        increment_eq (by omega)
      simp [returnConnection, ok.alive, fewer, more]

theorem returnConnection_output (ok : s.state.Ok cfg) (returned : Returned) (pick : Nat) :
    (s.returnConnection returned pick).2 = match returned with
      | .null => .discarded none
      | .closed c => .discarded (some c)
      | .opened c => .putBack c := by
  cases returned <;> simp [returnConnection, ok.alive]

theorem Ok.returnConnection (ok : s.state.Ok cfg) (out : 0 < s.state.activeConnections)
    (returned : Returned) (pick : Nat) :
    (s.returnConnection returned pick).1.state.Ok cfg := by
  obtain ⟨_, _, state⟩ := returnConnection_state ok out returned pick
  have idle := ok.idle
  have capacity := ok.capacity
  rw [state]
  constructor
  · cases returned <;> simp [idle]
  · cases returned <;> simp only <;> omega
  · exact ok.alive

end PoolSystem

end Rtl.Db
