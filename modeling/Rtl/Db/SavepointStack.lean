import Rtl.Db.Savepoint

/-! # Handles and the server's savepoint stack

Ending a savepoint discards on the server what was established after it, and the
handles of the discarded savepoints do not learn of it. They agree with the server
exactly as long as savepoints end before the ones they are nested in.
-/

namespace Rtl.Db

open Rtl.Base

namespace Server

variable {server : Server} {name : String} {above below : List (LogItem Mark (List Nat))} {k : Mark}

theorem older_of_cut (cut : server.CutAt name above k below) :
    server.older name = (UndoLog.marks below).map (·.name) := by
  simp [older, cut.rollbackTo_eq]

theorem names_rolledBack (cut : server.CutAt name above k below) (failed : Bool) :
    names ⟨.mark k :: below, failed⟩ = name :: server.older name := by
  have own : k.name = name := by simpa [named] using cut.accepts
  simp [names, older_of_cut cut, own]

theorem names_released (cut : server.CutAt name above k below) (failed : Bool) :
    names ⟨(UndoLog.effects above).map .effect ++ below, failed⟩ = server.older name := by
  simp [names, older_of_cut cut]

theorem Lacks.not_mem (lacks : server.Lacks name) : name ∉ server.names := by
  intro mem
  obtain ⟨k, established, rfl⟩ := List.mem_map.mp mem
  simpa [named] using lacks k established

end Server

namespace SavepointSystem

/-- Every active handle names a savepoint that exists on the server. -/
def HandlesEstablished (s : SavepointSystem) : Prop :=
  ∀ i m, ActiveAt s.handles i m → m.savepointName ∈ s.server.names

/-- What is kept when the savepoint of the handle `i` ends has the savepoints of all
other handles. -/
def Spares (s : SavepointSystem) (i : Nat) (kept : String → List String) : Prop :=
  ∀ m j n, ActiveAt s.handles i m → ActiveAt s.handles j n → j ≠ i →
    n.savepointName ∈ kept m.savepointName

/-- A savepoint ends only when every other active handle stands for a savepoint
established before it. In a failed transaction a release does nothing. -/
def EndsInOrder (s : SavepointSystem) : SavepointEvent → Prop
  | .rollback i => s.Spares i fun name => name :: s.server.older name
  | .destroy i => s.Spares i fun name => name :: s.server.older name
  | .release i => s.server.failed = true ∨ s.Spares i s.server.older
  | _ => True

variable {s u : SavepointSystem} {e : SavepointEvent} {c : Option Command}

theorem HandlesEstablished.not_lacks (ok : s.HandlesEstablished) {i : Nat} {m : SavepointImpl}
    (at_i : ActiveAt s.handles i m) : ¬ s.server.Lacks m.savepointName :=
  fun lacks => lacks.not_mem (ok i m at_i)

theorem HandlesEstablished.step (ok : s.HandlesEstablished) (order : s.EndsInOrder e)
    (h : Step s e c u) : u.HandlesEstablished := by
  intro j n active
  cases h with
  | same => exact ok j n active
  | refused => exact ok j n active
  | establishes =>
      rcases active.of_concat with old | new
      · exact List.mem_cons_of_mem _ (ok j n old)
      · cases new
        exact List.mem_cons_self
  | rollsBack at_i cut =>
      obtain ⟨apart, old⟩ := active.of_set_idle (by simp)
      rw [Server.names_rolledBack cut]
      exact order _ _ _ at_i old apart
  | rollbackFails => exact ok j n active
  | releases at_i sound cut =>
      obtain ⟨apart, old⟩ := active.of_set_idle (by simp)
      rw [Server.names_released cut]
      have spares := order.resolve_left (by simp [sound])
      exact spares _ _ _ at_i old apart
  | @releaseFails i m at_i =>
      rcases active.of_set with ⟨_, same⟩ | ⟨_, old⟩
      · cases same
        exact ok i m at_i
      · exact ok j n old
  | moves at_i =>
      obtain ⟨j', old⟩ := active.of_move at_i
      exact ok j' n old
  | assigns at_i at_j apart =>
      obtain ⟨j', old⟩ := active.of_assign at_j
      exact ok j' n old
  | ends => exact ok j n (active.of_set_idle (by simp)).2
  | undoes at_i cut =>
      obtain ⟨apart, old⟩ := active.of_set_idle (by simp)
      rw [Server.names_rolledBack cut]
      exact order _ _ _ at_i old apart
  | undoFails => exact ok j n (active.of_set_idle (by simp)).2
  | executes => exact ok j n active
  | statementFails => exact ok j n active

/-- A handle whose savepoint was not kept is active without a savepoint. -/
theorem not_handlesEstablished {i j : Nat} {n : SavepointImpl} {x : Option Savepoint}
    (at_j : ActiveAt s.handles j n) (apart : j ≠ i) (handles : u.handles = s.handles.set i x)
    (lost : n.savepointName ∉ u.server.names) : ¬ u.HandlesEstablished := by
  intro ok
  apply lost
  apply ok j n
  rw [handles]
  exact at_j.set_ne apart

theorem HandlesEstablished.sharp (ok : s.HandlesEstablished) (order : ¬ s.EndsInOrder e)
    (h : Step s e c u) : ¬ u.HandlesEstablished := by
  cases h with
  | rollsBack at_i cut =>
      simp only [EndsInOrder, Spares, not_forall] at order
      obtain ⟨m, j, n, at_i', at_j, apart, lost⟩ := order
      rw [at_i'.unique at_i, ← Server.names_rolledBack cut false] at lost
      exact not_handlesEstablished at_j apart rfl lost
  | undoes at_i cut =>
      simp only [EndsInOrder, Spares, not_forall] at order
      obtain ⟨m, j, n, at_i', at_j, apart, lost⟩ := order
      rw [at_i'.unique at_i, ← Server.names_rolledBack cut false] at lost
      exact not_handlesEstablished at_j apart rfl lost
  | releases at_i sound cut =>
      simp only [EndsInOrder, Spares, not_or, not_forall] at order
      obtain ⟨_, m, j, n, at_i', at_j, apart, lost⟩ := order
      rw [at_i'.unique at_i, ← Server.names_released cut false] at lost
      exact not_handlesEstablished at_j apart rfl lost
  | rollbackFails at_i lacks => exact absurd lacks (ok.not_lacks at_i)
  | undoFails at_i lacks => exact absurd lacks (ok.not_lacks at_i)
  | releaseFails at_i bad =>
      rcases bad with failed | lacks
      · exact absurd (.inl failed) order
      · exact absurd lacks (ok.not_lacks at_i)
  | @same e idle =>
      -- an operation on a handle that is not active ends no savepoint
      cases e with
      | rollback i => exact absurd (fun m _ _ at_i => absurd at_i (idle m)) order
      | release i => exact absurd (.inr fun m _ _ at_i => absurd at_i (idle m)) order
      | destroy i => exact idle.elim
      | _ => exact absurd trivial order
  | ends at_i idle => exact absurd (fun m _ _ at_i' => absurd at_i' (not_activeAt at_i idle m)) order
  | _ => exact absurd trivial order

/-- While handles and server agree, a command names only what exists. -/
theorem HandlesEstablished.target_mem (ok : s.HandlesEstablished) (h : Step s e c u)
    {command : Command} {name : String} (issued : c = some command)
    (target : command.target = some name) : name ∈ s.server.names := by
  cases h with
  | same => cases issued
  | refused => cases issued; cases target
  | establishes => cases issued; cases target
  | rollsBack at_i => cases issued; cases target; exact ok _ _ at_i
  | rollbackFails at_i => cases issued; cases target; exact ok _ _ at_i
  | releases at_i => cases issued; cases target; exact ok _ _ at_i
  | releaseFails at_i => cases issued; cases target; exact ok _ _ at_i
  | moves => cases issued
  | assigns => cases issued
  | ends => cases issued
  | undoes at_i => cases issued; cases target; exact ok _ _ at_i
  | undoFails at_i => cases issued; cases target; exact ok _ _ at_i
  | executes => cases issued
  | statementFails => cases issued

/-- While handles and server agree, only a statement of the user fails the transaction. -/
theorem HandlesEstablished.failed_by_statement (ok : s.HandlesEstablished) (h : Step s e c u)
    (sound : s.server.failed = false) (failed : u.server.failed = true) :
    ∃ fails, e = .statement fails := by
  cases h with
  | rollbackFails at_i lacks => exact absurd lacks (ok.not_lacks at_i)
  | undoFails at_i lacks => exact absurd lacks (ok.not_lacks at_i)
  | releaseFails at_i bad =>
      rcases bad with was | lacks
      · simp [sound] at was
      · exact absurd lacks (ok.not_lacks at_i)
  | statementFails => exact ⟨_, rfl⟩
  | executes => exact ⟨_, rfl⟩
  | establishes => cases failed
  | rollsBack => cases failed
  | releases => cases failed
  | undoes => cases failed
  | _ => simp [sound] at failed

end SavepointSystem

open SavepointSystem in
/-- In a run every active handle has its savepoint on the server throughout if and only
if savepoints always end before those they are nested in. In such a run no command
names a discarded savepoint, and no operation of a savepoint fails the transaction. -/
theorem handles_established_iff {s : SavepointSystem}
    {ts : List (Transition SavepointSystem SavepointEvent SavepointOutput)}
    (run : savepointMachine.Run .start ts s) :
    ((∀ v, Machine.Visits .start ts v → v.HandlesEstablished) ↔
      ∀ t ∈ ts, t.before.EndsInOrder t.event) ∧
    ((∀ t ∈ ts, t.before.EndsInOrder t.event) → ∀ t ∈ ts,
      (∀ command name, t.output.issued = some command → command.target = some name →
        name ∈ t.before.server.names) ∧
      (t.before.server.failed = false → t.after.server.failed = true →
        ∃ fails, t.event = .statement fails)) := by
  have start : HandlesEstablished .start := by
    intro i m active
    simpa [SavepointSystem.start] using active.held
  have step : ∀ s e t o, HandlesEstablished s → s.EndsInOrder e →
      savepointMachine.next s e = some (t, o) → t.HandlesEstablished :=
    fun s e t o ok order h => ok.step order (step_of_next h)
  constructor
  · apply run.always_iff_guard start step
    · intro s ok
      exact ok
    · intro s e t o ok order h
      exact ok.sharp order (step_of_next h)
  · intro guarded t ht
    obtain ⟨us, earlier, before, takes⟩ := run.mem_prefix ht
    have ok := before.invariant_of_guard (fun t ht => guarded t (earlier.subset ht)) start step
    constructor
    · intro command name issued target
      exact ok.target_mem (step_of_next takes) issued target
    · exact ok.failed_by_statement (step_of_next takes)

/-- The inner savepoint is rolled back before the outer one is released. -/
def innerFirst : List SavepointEvent :=
  [.construct, .statement false, .construct, .statement false, .rollback 1, .destroy 1, .release 0]

theorem innerFirst_handles_established :
    ∃ ts s, savepointMachine.exec .start innerFirst = some (ts, s) ∧
      s.server.survivors = [[0]] ∧ ∀ v, Machine.Visits .start ts v → v.HandlesEstablished := by
  have h : savepointMachine.exec .start innerFirst = some (_, _) := rfl
  refine ⟨_, _, h, rfl, (handles_established_iff (Machine.Run.of_exec h)).1.mpr ?_⟩
  intro t ht
  simp only [List.mem_cons, List.not_mem_nil, or_false] at ht
  rcases ht with rfl | rfl | rfl | rfl | rfl | rfl | rfl
  · trivial
  · trivial
  · trivial
  · trivial
  · intro m j n at_i at_j apart
    cases at_i.held
    rcases j with _ | _ | j
    · cases at_j.held
      decide
    · exact absurd rfl apart
    · cases at_j.held
  · intro m j n at_i
    cases at_i.held
    cases at_i.active
  · right
    intro m j n at_i at_j apart
    rcases j with _ | _ | j
    · exact absurd rfl apart
    · cases at_j.held
    · cases at_j.held

/-- The outer savepoint is released first: the handle of the inner one stays active
after its savepoint is gone, and its destructor fails the whole transaction. -/
theorem release_of_outer_leaves_inner_without_savepoint :
    ∃ ts s us v, savepointMachine.exec .start [.construct, .construct, .release 0] = some (ts, s) ∧
      savepointMachine.exec s [.destroy 1] = some (us, v) ∧
      s.server.failed = false ∧ ¬ s.HandlesEstablished ∧ v.server.failed = true := by
  refine ⟨_, _, _, _, rfl, rfl, rfl, ?_, rfl⟩
  intro ok
  have mem := ok 1 ⟨"tx_sp_1", true, 1, false⟩ ⟨rfl, rfl⟩
  revert mem
  decide

end Rtl.Db
