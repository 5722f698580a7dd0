import Rtl.Db.Savepoint

/-! # Savepoints that are not released

The destructor of an active handle rolls back to its savepoint. A move-assignment
drops the savepoint of its target without a command, so the statements after it stay
in the transaction although nobody has released it. Where no active handle is
assigned to, and each savepoint still exists when its handle rolls back to it, a commit
that finds no active handle keeps only what was executed under released savepoints.
-/

namespace Rtl.Db

open Rtl.Base

def Server.newest (server : Server) (name : String) : Option Nat :=
  ((UndoLog.marks server.log).find? (named name)).map (·.serial)

/-- A savepoint is established after the statements that are older in the log, so they
were not executed under it. -/
def EstablishedAfter (newer older : LogItem Mark (List Nat)) : Prop :=
  ∀ k under, newer = .mark k → older = .effect under → k.serial ∉ under

theorem Server.CutAt.serial_eq {server : Server} {name : String}
    {above below : List (LogItem Mark (List Nat))} {k : Mark} {serial : Nat}
    (cut : server.CutAt name above k below) (own : server.newest name = some serial) :
    k.serial = serial := by
  simpa [Server.newest, cut.find?_eq] using own

theorem Server.Lacks.newest_eq_none {server : Server} {name : String} (lacks : server.Lacks name) :
    server.newest name = none := by
  simp only [Server.newest, Option.map_eq_none_iff, List.find?_eq_none]
  intro k mem
  simp [lacks k mem]

namespace SavepointSystem

/-! ## A rollback for every savepoint given up -/

/-- A savepoint that was active when its last handle went away, and on which `release`
was not called, has had its rollback issued. -/
def Undone (s : SavepointSystem) : Prop :=
  ∀ m ∈ s.abandoned, m.releaseCalled = false → (m.serial, .rollbackTo m.savepointName) ∈ s.issued

/-- An assignment overwrites no active savepoint that still owes its rollback. -/
def OverwritesUndone (s : SavepointSystem) : SavepointEvent → Prop
  | .moveAssign i j => i ≠ j → ∀ m, ActiveAt s.handles i m → m.releaseCalled = false →
      (m.serial, .rollbackTo m.savepointName) ∈ s.issued
  | _ => True

variable {s u : SavepointSystem} {e : SavepointEvent} {c : Option Command}

theorem mem_gone {sp : Savepoint} {m : SavepointImpl} :
    m ∈ gone sp ↔ sp = ⟨some m⟩ ∧ m.active = true := by
  obtain ⟨_ | n⟩ := sp
  · simp [gone]
  · simp only [gone, Option.toList_some, List.mem_filter, List.mem_singleton, Savepoint.mk.injEq,
      Option.some.injEq, eq_comm]

/-- More commands issued, nothing more given up. -/
theorem Undone.mono (undone : s.Undone) (abandoned : u.abandoned = s.abandoned)
    (issued : s.issued ⊆ u.issued) : u.Undone := by
  intro m mem owes
  rw [abandoned] at mem
  exact issued (undone m mem owes)

/-- A destructor has issued the rollback it owes. -/
theorem Undone.destroyed (undone : s.Undone) {m : SavepointImpl}
    (abandoned : u.abandoned = s.abandoned ++ [m])
    (issued : u.issued = s.issued ++ [(m.serial, .rollbackTo m.savepointName)]) : u.Undone := by
  intro n mem owes
  rw [abandoned] at mem
  rw [issued]
  rcases List.mem_append.mp mem with old | new
  · exact List.mem_append_left _ (undone n old owes)
  · rw [List.mem_singleton.mp new]
    exact List.mem_append_right _ List.mem_cons_self

theorem Undone.step (undone : s.Undone) (guard : s.OverwritesUndone e) (h : Step s e c u) :
    u.Undone := by
  cases h with
  | assigns at_i at_j apart =>
      intro m mem owes
      rcases List.mem_append.mp mem with old | new
      · exact undone m old owes
      · obtain ⟨rfl, active⟩ := mem_gone.mp new
        exact guard apart m ⟨at_i, active⟩ owes
  | undoes => exact undone.destroyed rfl rfl
  | undoFails => exact undone.destroyed rfl rfl
  | _ => exact undone.mono rfl (by simp)

/-- Overwriting an active savepoint that owes its rollback is a rollback never issued. -/
theorem Undone.sharp (guard : ¬ s.OverwritesUndone e) (h : Step s e c u) : ¬ u.Undone := by
  cases h with
  | assigns at_i at_j apart =>
      simp only [OverwritesUndone, not_forall] at guard
      obtain ⟨_, m, active, owes, missing⟩ := guard
      intro undone
      apply missing
      apply undone m _ owes
      apply List.mem_append_right
      have target := at_i.symm.trans active.held
      simp only [Option.some.injEq] at target
      exact mem_gone.mpr ⟨target, active.active⟩
  | @same e idle =>
      cases e with
      | moveAssign i j => exact absurd (fun apart => absurd idle apart) guard
      | _ => exact absurd trivial guard
  | _ => exact absurd trivial guard

/-! ## What survives -/

def Holds (s : SavepointSystem) (serial : Nat) : Prop :=
  ∃ i m, ActiveAt s.handles i m ∧ m.serial = serial

/-- A statement executed under a savepoint survives only if the savepoint was released. -/
def OnlyReleasedSurvive (s : SavepointSystem) : Prop :=
  ∀ under ∈ s.server.survivors, ∀ k ∈ under, k ∈ s.released

/-- No active handle is assigned to, and a handle rolls back only while the newest
savepoint of its name is its own. -/
def EndsOwn (s : SavepointSystem) : SavepointEvent → Prop
  | .moveAssign i j => i ≠ j → ∀ m, ¬ ActiveAt s.handles i m
  | .rollback i => ∀ m, ActiveAt s.handles i m → s.server.newest m.savepointName = some m.serial
  | .destroy i => ∀ m, ActiveAt s.handles i m → s.server.newest m.savepointName = some m.serial
  | _ => True

theorem EndsOwn.overwritesUndone (own : s.EndsOwn e) : s.OverwritesUndone e := by
  cases e with
  | moveAssign i j => exact fun apart m active => absurd active (own apart m)
  | _ => trivial

/-- Serial numbers grow, and a statement stays in the log only under savepoints that
are released or active. -/
structure Ledger (s : SavepointSystem) : Prop where
  holds_lt : ∀ k, s.Holds k → k < s.constructed
  under_lt : ∀ under ∈ UndoLog.effects s.server.log, ∀ k ∈ under, k < s.constructed
  order : s.server.log.Pairwise EstablishedAfter
  kept : ∀ under ∈ UndoLog.effects s.server.log, ∀ k ∈ under, k ∈ s.released ∨ s.Holds k

/-- With no active handle left, what survives was released. -/
theorem Ledger.onlyReleasedSurvive (ledger : s.Ledger) (ended : ∀ k, ¬ s.Holds k) :
    s.OnlyReleasedSurvive := by
  intro under mem k hk
  simp only [Server.survivors] at mem
  split at mem
  · simp at mem
  · exact (ledger.kept under mem k hk).resolve_right (ended k)

theorem Ledger.start : Ledger .start where
  holds_lt := by
    rintro k ⟨i, m, active, _⟩
    simpa [SavepointSystem.start] using active.held
  under_lt := by simp [SavepointSystem.start, UndoLog.effects]
  order := List.Pairwise.nil
  kept := by simp [SavepointSystem.start, UndoLog.effects]

/-- A step that only shortens the log and ends savepoints whose statements are gone. -/
theorem Ledger.shrink (ledger : s.Ledger) (sub : u.server.log.Sublist s.server.log)
    (constructed : s.constructed ≤ u.constructed) (released : s.released ⊆ u.released)
    (back : ∀ k, u.Holds k → s.Holds k)
    (forth : ∀ under ∈ UndoLog.effects u.server.log, ∀ k ∈ under, s.Holds k →
      k ∈ u.released ∨ u.Holds k) : u.Ledger where
  holds_lt k holds := Nat.lt_of_lt_of_le (ledger.holds_lt k (back k holds)) constructed
  under_lt under mem k hk :=
    Nat.lt_of_lt_of_le (ledger.under_lt under ((UndoLog.effects_sublist sub).subset mem) k hk)
      constructed
  order := ledger.order.sublist sub
  kept under mem k hk := by
    rcases ledger.kept under ((UndoLog.effects_sublist sub).subset mem) k hk with done | holds
    · exact .inl (released done)
    · exact forth under mem k hk holds

/-- A step that leaves the handles alone. -/
theorem Ledger.same_handles (ledger : s.Ledger) (sub : u.server.log.Sublist s.server.log)
    (constructed : s.constructed ≤ u.constructed) (released : u.released = s.released)
    (handles : u.handles = s.handles) : u.Ledger := by
  have same : ∀ k, u.Holds k ↔ s.Holds k := by simp only [Holds, handles, implies_true]
  apply ledger.shrink sub constructed (by simp [released])
  · intro k holds
    exact (same k).mp holds
  · intro under mem k hk holds
    exact .inr ((same k).mpr holds)

theorem Holds.of_set_idle {i k : Nat} {x : Option Savepoint} (holds : u.Holds k)
    (handles : u.handles = s.handles.set i x)
    (idle : ∀ n, x = some ⟨some n⟩ → n.active = false) : s.Holds k := by
  obtain ⟨j, n, active, rfl⟩ := holds
  rw [handles] at active
  exact ⟨j, n, (active.of_set_idle idle).2, rfl⟩

/-- Writing one handle takes at most its own savepoint away. -/
theorem Holds.set {i k : Nat} {m : SavepointImpl} {x : Option Savepoint} (holds : s.Holds k)
    (at_i : ActiveAt s.handles i m) (handles : u.handles = s.handles.set i x)
    (other : k ≠ m.serial) : u.Holds k := by
  obtain ⟨j, n, active, rfl⟩ := holds
  by_cases same : j = i
  · subst same
    exact absurd (congrArg SavepointImpl.serial (active.unique at_i)) other
  · refine ⟨j, n, ?_, rfl⟩
    rw [handles]
    exact active.set_ne same

/-- Rolling back to one's own savepoint takes away every statement executed under it. -/
theorem Ledger.rolledBack (ledger : s.Ledger) {i : Nat} {m : SavepointImpl} {x : Option Savepoint}
    {above below : List (LogItem Mark (List Nat))} {k : Mark} (at_i : ActiveAt s.handles i m)
    (cut : s.server.CutAt m.savepointName above k below)
    (own : s.server.newest m.savepointName = some m.serial)
    (log : u.server.log = .mark k :: below) (handles : u.handles = s.handles.set i x)
    (idle : ∀ n, x = some ⟨some n⟩ → n.active = false) (constructed : u.constructed = s.constructed)
    (released : u.released = s.released) : u.Ledger := by
  have sub : u.server.log.Sublist s.server.log := log ▸ cut.rolledBack_sublist
  apply ledger.shrink sub constructed.ge (by simp [released])
  · intro k holds
    exact holds.of_set_idle handles idle
  · intro under mem κ hκ holds
    right
    apply holds.set at_i handles
    -- what is left is older than the savepoint itself
    have order := ledger.order.sublist sub
    rw [log, List.pairwise_cons] at order
    rw [log, UndoLog.effects_mark, UndoLog.mem_effects] at mem
    have fresh := order.1 _ mem k under rfl rfl
    rintro rfl
    rw [Server.CutAt.serial_eq cut own] at fresh
    exact fresh hκ

theorem Ledger.established (ledger : s.Ledger) {name : String}
    (log : u.server.log = .mark ⟨s.constructed, name⟩ :: s.server.log)
    (handles : u.handles = s.handles ++ [some ⟨some ⟨name, true, s.constructed, false⟩⟩])
    (constructed : u.constructed = s.constructed + 1) (released : u.released = s.released) :
    u.Ledger where
  holds_lt k holds := by
    obtain ⟨j, n, active, rfl⟩ := holds
    rw [constructed]
    rw [handles] at active
    rcases active.of_concat with old | new
    · exact Nat.lt_succ_of_lt (ledger.holds_lt _ ⟨j, n, old, rfl⟩)
    · cases new
      exact Nat.lt_succ_self _
  under_lt under mem k hk := by
    rw [log, UndoLog.effects_mark] at mem
    rw [constructed]
    exact Nat.lt_succ_of_lt (ledger.under_lt under mem k hk)
  order := by
    rw [log, List.pairwise_cons]
    refine ⟨?_, ledger.order⟩
    rintro item mem k under new rfl
    cases new
    intro hk
    exact absurd (ledger.under_lt under (UndoLog.mem_effects.mpr mem) _ hk) (Nat.lt_irrefl _)
  kept under mem k hk := by
    rw [log, UndoLog.effects_mark] at mem
    rw [released]
    rcases ledger.kept under mem k hk with done | ⟨j, n, active, rfl⟩
    · exact .inl done
    · refine .inr ⟨j, n, ?_, rfl⟩
      rw [handles]
      exact active.concat

theorem mem_activeSerials {k : Nat} : k ∈ s.activeSerials ↔ s.Holds k := by
  simp only [activeSerials, List.mem_filterMap, Holds]
  constructor
  · rintro ⟨h, mem, eq⟩
    obtain ⟨i, at_i⟩ := List.mem_iff_getElem?.mp mem
    obtain _ | ⟨_ | m⟩ := h
    · cases eq
    · cases eq
    · simp only [Option.bind_some, Option.ite_none_right_eq_some, Option.some.injEq] at eq
      exact ⟨i, m, ⟨at_i, eq.1⟩, eq.2⟩
  · rintro ⟨i, m, active, rfl⟩
    refine ⟨_, List.mem_of_getElem? active.held, ?_⟩
    simp [active.active]

/-- A statement is executed under the savepoints that are active. -/
theorem Ledger.executed (ledger : s.Ledger)
    (log : u.server.log = .effect s.activeSerials :: s.server.log) (handles : u.handles = s.handles)
    (constructed : u.constructed = s.constructed) (released : u.released = s.released) :
    u.Ledger where
  holds_lt k holds := by
    rw [constructed]
    simp only [Holds, handles] at holds
    exact ledger.holds_lt k holds
  under_lt under mem k hk := by
    rw [log, UndoLog.effects_effect, List.mem_cons] at mem
    rw [constructed]
    rcases mem with rfl | old
    · exact ledger.holds_lt k (mem_activeSerials.mp hk)
    · exact ledger.under_lt under old k hk
  order := by
    rw [log, List.pairwise_cons]
    refine ⟨?_, ledger.order⟩
    intro item _ k under new
    cases new
  kept under mem k hk := by
    rw [log, UndoLog.effects_effect, List.mem_cons] at mem
    simp only [released, Holds, handles]
    rcases mem with rfl | old
    · exact .inr (mem_activeSerials.mp hk)
    · exact ledger.kept under old k hk

theorem Ledger.step (ledger : s.Ledger) (own : s.EndsOwn e) (h : Step s e c u) : u.Ledger := by
  cases h with
  | same => exact ledger
  | refused => exact ledger.same_handles (List.Sublist.refl _) (Nat.le_succ _) rfl rfl
  | establishes => exact ledger.established rfl rfl rfl rfl
  | rollsBack at_i cut =>
      exact ledger.rolledBack at_i cut (own _ at_i) rfl rfl (by simp) rfl rfl
  | rollbackFails => exact ledger.same_handles (List.Sublist.refl _) (Nat.le_refl _) rfl rfl
  | @releases i m _ _ _ at_i _ cut =>
      refine ledger.shrink cut.released_sublist (Nat.le_refl _) (by simp) ?_ ?_
      · intro k holds
        exact holds.of_set_idle rfl (by simp)
      · intro under _ k _ holds
        by_cases this : k = m.serial
        · left
          simp [this]
        · exact .inr (holds.set at_i rfl this)
  | @releaseFails i m at_i =>
      refine ledger.shrink (List.Sublist.refl _) (Nat.le_refl _) (by simp) ?_ ?_
      · rintro k ⟨j, n, active, rfl⟩
        rcases active.of_set with ⟨_, same⟩ | ⟨_, old⟩
        · cases same
          exact ⟨i, m, at_i, rfl⟩
        · exact ⟨j, n, old, rfl⟩
      · intro under _ k _ holds
        right
        by_cases this : k = m.serial
        · exact ⟨i, { m with releaseCalled := true }, ⟨set_at at_i.held, at_i.active⟩, this.symm⟩
        · exact holds.set at_i rfl this
  | moves at_i =>
      refine ledger.shrink (List.Sublist.refl _) (Nat.le_refl _) (by simp) ?_ ?_
      · rintro k ⟨j, n, active, rfl⟩
        obtain ⟨j', old⟩ := active.of_move at_i
        exact ⟨j', n, old, rfl⟩
      · rintro under _ k _ ⟨j, n, active, rfl⟩
        obtain ⟨j', new⟩ := active.move at_i
        exact .inr ⟨j', n, new, rfl⟩
  | @assigns i j _ _ at_i at_j apart =>
      refine ledger.shrink (List.Sublist.refl _) (Nat.le_refl _) (by simp) ?_ ?_
      · rintro k ⟨w, n, active, rfl⟩
        obtain ⟨j', old⟩ := active.of_assign at_j
        exact ⟨j', n, old, rfl⟩
      · rintro under _ k _ ⟨w, n, active, rfl⟩
        have other : w ≠ i := by
          rintro rfl
          exact own apart n active
        obtain ⟨j', new⟩ := active.assign at_i at_j apart other
        exact .inr ⟨j', n, new, rfl⟩
  | ends at_i idle =>
      refine ledger.shrink (List.Sublist.refl _) (Nat.le_refl _) (by simp) ?_ ?_
      · intro k holds
        exact holds.of_set_idle rfl (by simp)
      · rintro under _ k _ ⟨j, n, active, rfl⟩
        refine .inr ⟨j, n, active.set_ne ?_, rfl⟩
        rintro rfl
        exact not_activeAt at_i idle n active
  | undoes at_i cut =>
      exact ledger.rolledBack at_i cut (own _ at_i) rfl rfl (by simp) rfl rfl
  | undoFails at_i lacks =>
      have missing := own _ at_i
      rw [lacks.newest_eq_none] at missing
      cases missing
  | executes => exact ledger.executed rfl rfl rfl rfl
  | statementFails => exact ledger.same_handles (List.Sublist.refl _) (Nat.le_refl _) rfl rfl

end SavepointSystem

open SavepointSystem in
/-- In a run every savepoint given up without a release has had its rollback issued if
and only if no assignment overwrites an active savepoint that still owes it. Where no
active handle is assigned to and each handle rolls back only while its own savepoint
exists, a commit that finds no active handle keeps only statements executed under
savepoints that were released. -/
theorem unreleased_savepoints_undone_iff {s : SavepointSystem}
    {ts : List (Transition SavepointSystem SavepointEvent SavepointOutput)}
    (run : savepointMachine.Run .start ts s) :
    ((∀ v, Machine.Visits .start ts v → v.Undone) ↔
      ∀ t ∈ ts, t.before.OverwritesUndone t.event) ∧
    ((∀ t ∈ ts, t.before.EndsOwn t.event) →
      ∀ v, Machine.Visits .start ts v →
        v.Undone ∧ (v.activeSerials = [] → v.OnlyReleasedSurvive)) := by
  have exactly : (∀ v, Machine.Visits .start ts v → v.Undone) ↔
      ∀ t ∈ ts, t.before.OverwritesUndone t.event := by
    apply run.always_iff_guard (I := Undone)
    · intro m mem
      simp [SavepointSystem.start] at mem
    · intro s e t o undone guard h
      exact undone.step guard (step_of_next h)
    · intro s undone
      exact undone
    · intro s e t o _ guard h
      exact Undone.sharp guard (step_of_next h)
  refine ⟨exactly, ?_⟩
  intro own v visited
  obtain ⟨us, earlier, head⟩ := run.visits_run visited
  constructor
  · exact exactly.mpr (fun t ht => (own t ht).overwritesUndone) v visited
  · have ledger : v.Ledger := head.invariant_of_guard (fun t ht => own t (earlier.subset ht))
      Ledger.start fun s e t o ledger own h => ledger.step own (step_of_next h)
    intro ended
    apply ledger.onlyReleasedSurvive
    intro k holds
    have mem := mem_activeSerials.mpr holds
    rw [ended] at mem
    cases mem

/-- One savepoint is released, the next one is destroyed. -/
def releasedThenDropped : List SavepointEvent :=
  [.construct, .statement false, .moveConstruct 0, .release 1, .construct, .statement false,
    .destroy 2]

theorem releasedThenDropped_undone :
    ∃ ts s, savepointMachine.exec .start releasedThenDropped = some (ts, s) ∧
      s.server.survivors = [[0]] ∧ s.released = [0] ∧ s.activeSerials = [] ∧
      ∀ v, Machine.Visits .start ts v →
        v.Undone ∧ (v.activeSerials = [] → v.OnlyReleasedSurvive) := by
  have h : savepointMachine.exec .start releasedThenDropped = some (_, _) := rfl
  refine ⟨_, _, h, rfl, rfl, rfl, (unreleased_savepoints_undone_iff (Machine.Run.of_exec h)).2 ?_⟩
  intro t ht
  simp only [List.mem_cons, List.not_mem_nil, or_false] at ht
  rcases ht with rfl | rfl | rfl | rfl | rfl | rfl | rfl
  · trivial
  · trivial
  · trivial
  · trivial
  · trivial
  · trivial
  · intro m active
    cases active.held
    decide

/-- A handle is assigned to while its savepoint is active: no rollback is issued for it,
and the statement executed under it survives although it was never released. -/
theorem assignment_drops_savepoint_without_rollback :
    ∃ ts s, savepointMachine.exec .start
        [.construct, .statement false, .construct, .moveAssign 0 1, .release 0] = some (ts, s) ∧
      ¬ s.Undone ∧ s.server.survivors = [[0]] ∧ s.released = [1] ∧ s.activeSerials = [] ∧
      ¬ s.OnlyReleasedSurvive := by
  refine ⟨_, _, rfl, ?_, rfl, rfl, rfl, ?_⟩
  · intro undone
    have issued := undone ⟨"tx_sp_0", true, 0, false⟩ (by decide) rfl
    revert issued
    decide
  · intro survive
    have released := survive [0] (by decide) 0 (by decide)
    revert released
    decide

end Rtl.Db
