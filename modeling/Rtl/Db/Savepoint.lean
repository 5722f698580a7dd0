import Mathlib.Algebra.Group.Nat.Defs
import Rtl.Base.Machine
import Rtl.Base.ListUpdate
import Rtl.Base.UndoLog
import Rtl.Db.Errors

/-! # Savepoints

`Savepoint` handles on one active transaction, and the transaction as PostgreSQL
keeps it: the statements executed so far, with the savepoints still established in
between. A statement that fails puts the transaction into the failed state, in which
everything but `ROLLBACK TO` an established savepoint is refused.

Serial numbers of savepoints, the commands issued, and the savepoints whose last
handle is gone are recorded for the statements about them; the code does not have
them.
-/

namespace Rtl.Db

open Rtl.Base

/-! ## The server -/

structure Mark where
  serial : Nat
  name : String
  deriving Repr, DecidableEq

/-- The log has the savepoints as marks; an effect carries the serial numbers of the
savepoints whose handles were active when its statement was executed. -/
structure Server where
  log : List (LogItem Mark (List Nat))
  failed : Bool
  deriving Repr, DecidableEq

/-- The statements `SAVEPOINT name`, `ROLLBACK TO SAVEPOINT name` and
`RELEASE SAVEPOINT name`. -/
inductive Command where
  | savepoint (name : String)
  | rollbackTo (name : String)
  | release (name : String)
  deriving Repr, DecidableEq

def Command.target : Command → Option String
  | .savepoint _ => none
  | .rollbackTo name => some name
  | .release name => some name

def named (name : String) (m : Mark) : Bool := m.name == name

namespace Server

def aborted : Thrown :=
  .dbError .queryError
    "current transaction is aborted, commands ignored until end of transaction block" (some "25P02")

def missing (name : String) : Thrown :=
  .dbError .queryError ("savepoint " ++ name ++ " does not exist") (some "3B001")

/-- `serial` numbers the savepoint a `SAVEPOINT` command establishes. -/
def exec (server : Server) (serial : Nat) : Command → Server × Except Thrown Unit
  | .savepoint name =>
      if server.failed then (server, .error aborted)
      else ({ server with log := .mark ⟨serial, name⟩ :: server.log }, .ok ())
  | .rollbackTo name =>
      match UndoLog.rollbackTo (named name) server.log with
      | none => ({ server with failed := true }, .error (missing name))
      | some log => (⟨log, false⟩, .ok ())
  | .release name =>
      if server.failed then (server, .error aborted)
      else
        match UndoLog.release (named name) server.log with
        | none => ({ server with failed := true }, .error (missing name))
        | some log => ({ server with log := log }, .ok ())

/-- Any other statement; whether it fails is chosen by the environment. -/
def execute (server : Server) (under : List Nat) (fails : Bool) : Server × Except Thrown Unit :=
  if server.failed then (server, .error aborted)
  else if fails then
    ({ server with failed := true }, .error (.dbError .queryError "statement failed" none))
  else ({ server with log := .effect under :: server.log }, .ok ())

def names (server : Server) : List String := (UndoLog.marks server.log).map (·.name)

/-- The savepoints established before the newest one of this name. -/
def older (server : Server) (name : String) : List String :=
  match UndoLog.rollbackTo (named name) server.log with
  | none => []
  | some log => (UndoLog.marks log).tail.map (·.name)

/-- What a commit at this moment would make permanent. -/
def survivors (server : Server) : List (List Nat) :=
  if server.failed then [] else UndoLog.effects server.log

end Server

/-! ## Handles -/

structure SavepointImpl where
  savepointName : String
  active : Bool
  serial : Nat
  releaseCalled : Bool
  deriving Repr, DecidableEq

structure Savepoint where
  impl : Option SavepointImpl
  deriving Repr, DecidableEq

def Savepoint.active (sp : Savepoint) : Bool := sp.impl.any (·.active)

def Savepoint.ensureValid (sp : Savepoint) : Except Thrown SavepointImpl :=
  match sp.impl with
  | none => .error (.logicError "Savepoint is not active")
  | some m => if m.active then .ok m else .error (.logicError "Savepoint is not active")

structure SavepointSystem where
  server : Server
  nextSavepointId : Nat
  handles : List (Option Savepoint)
  constructed : Nat
  issued : List (Nat × Command)
  abandoned : List SavepointImpl
  released : List Nat
  deriving Repr, DecidableEq

inductive SavepointEvent where
  | construct
  | rollback (i : Nat)
  | release (i : Nat)
  | moveConstruct (i : Nat)
  | moveAssign (i j : Nat)
  | destroy (i : Nat)
  | statement (fails : Bool)
  deriving Repr, DecidableEq

structure SavepointOutput where
  issued : Option Command
  result : Except Thrown Unit

namespace SavepointSystem

def issue (s : SavepointSystem) (serial : Nat) (command : Command) :
    SavepointSystem × Except Thrown Unit :=
  ({ s with
    server := (s.server.exec serial command).1
    issued := s.issued ++ [(serial, command)] }, (s.server.exec serial command).2)

/-- `make_savepoint_name`; the counter has 64 bits. -/
def makeSavepointName (s : SavepointSystem) : String × SavepointSystem :=
  ("tx_sp_" ++ toString s.nextSavepointId,
    { s with nextSavepointId := (s.nextSavepointId + 1) % 2 ^ 64 })

def construct (s : SavepointSystem) : SavepointSystem × SavepointOutput :=
  let (name, counted) := s.makeSavepointName
  let r := { counted with constructed := s.constructed + 1 }.issue s.constructed (.savepoint name)
  match r.2 with
  | .error e => (r.1, ⟨some (.savepoint name), .error e⟩)
  | .ok () =>
      ({ r.1 with handles := s.handles ++ [some ⟨some ⟨name, true, s.constructed, false⟩⟩] },
        ⟨some (.savepoint name), .ok ()⟩)

def rollback (s : SavepointSystem) (i : Nat) (sp : Savepoint) : SavepointSystem × SavepointOutput :=
  match sp.ensureValid with
  | .error e => (s, ⟨none, .error e⟩)
  | .ok m =>
      let r := s.issue m.serial (.rollbackTo m.savepointName)
      match r.2 with
      | .error e => (r.1, ⟨some (.rollbackTo m.savepointName), .error e⟩)
      | .ok () =>
          ({ r.1 with handles := s.handles.set i (some ⟨some { m with active := false }⟩) },
            ⟨some (.rollbackTo m.savepointName), .ok ()⟩)

def release (s : SavepointSystem) (i : Nat) (sp : Savepoint) : SavepointSystem × SavepointOutput :=
  match sp.ensureValid with
  | .error e => (s, ⟨none, .error e⟩)
  | .ok m =>
      let r := s.issue m.serial (.release m.savepointName)
      match r.2 with
      | .error e =>
          ({ r.1 with handles := s.handles.set i (some ⟨some { m with releaseCalled := true }⟩) },
            ⟨some (.release m.savepointName), .error e⟩)
      | .ok () =>
          ({ r.1 with
            handles := s.handles.set i
              (some ⟨some { m with active := false, releaseCalled := true }⟩)
            released := s.released ++ [m.serial] },
            ⟨some (.release m.savepointName), .ok ()⟩)

def gone (sp : Savepoint) : List SavepointImpl := sp.impl.toList.filter (·.active)

/-- The destructor rolls back what is still active and swallows every exception. -/
def destroy (s : SavepointSystem) (i : Nat) (sp : Savepoint) : SavepointSystem × SavepointOutput :=
  let r := if sp.active then s.rollback i sp else (s, ⟨none, .ok ()⟩)
  ({ r.1 with handles := s.handles.set i none, abandoned := s.abandoned ++ gone sp },
    ⟨r.2.issued, .ok ()⟩)

def activeSerials (s : SavepointSystem) : List Nat :=
  s.handles.filterMap fun h =>
    (h.bind (·.impl)).bind fun m => if m.active then some m.serial else none

def next (s : SavepointSystem) : SavepointEvent → Option (SavepointSystem × SavepointOutput)
  | .construct => some s.construct
  | .rollback i => s.handles[i]?.join.map (s.rollback i)
  | .release i => s.handles[i]?.join.map (s.release i)
  | .moveConstruct i =>
      s.handles[i]?.join.map fun sp =>
        ({ s with handles := s.handles.set i (some ⟨none⟩) ++ [some sp] }, ⟨none, .ok ()⟩)
  | .moveAssign i j =>
      match s.handles[i]?.join, s.handles[j]?.join with
      | some target, some source =>
          if i = j then some (s, ⟨none, .ok ()⟩)
          else
            -- what the target has held is dropped as it is
            some ({ s with
              handles := (s.handles.set i (some source)).set j (some ⟨none⟩)
              abandoned := s.abandoned ++ gone target }, ⟨none, .ok ()⟩)
      | _, _ => none
  | .destroy i => s.handles[i]?.join.map (s.destroy i)
  | .statement fails =>
      let r := s.server.execute s.activeSerials fails
      some ({ s with server := r.1 }, ⟨none, r.2⟩)

def start : SavepointSystem := ⟨⟨[], false⟩, 0, [], 0, [], [], []⟩

end SavepointSystem

def savepointMachine : Machine SavepointSystem SavepointEvent SavepointOutput where
  init := (· = .start)
  next := SavepointSystem.next

/-! ## What a step can do -/

structure ActiveAt (handles : List (Option Savepoint)) (i : Nat) (m : SavepointImpl) : Prop where
  held : handles[i]? = some (some ⟨some m⟩)
  active : m.active = true

def Server.Lacks (server : Server) (name : String) : Prop :=
  ∀ k ∈ UndoLog.marks server.log, named name k = false

abbrev Server.CutAt (server : Server) (name : String) (above : List (LogItem Mark (List Nat)))
    (k : Mark) (below : List (LogItem Mark (List Nat))) : Prop :=
  UndoLog.Cut (named name) server.log above k below

namespace Server

variable {server : Server} {name : String} {above below : List (LogItem Mark (List Nat))} {k : Mark}

theorem cutAt_or_lacks (server : Server) (name : String) :
    (∃ above k below, server.CutAt name above k below) ∨ server.Lacks name :=
  UndoLog.cut_or_none _ _

theorem exec_rollbackTo_of_cut (cut : server.CutAt name above k below) (serial : Nat) :
    server.exec serial (.rollbackTo name) = (⟨.mark k :: below, false⟩, .ok ()) := by
  simp [exec, cut.rollbackTo_eq]

theorem exec_rollbackTo_of_lacks (lacks : server.Lacks name) (serial : Nat) :
    server.exec serial (.rollbackTo name) =
      ({ server with failed := true }, .error (missing name)) := by
  simp [exec, UndoLog.rollbackTo_eq_none lacks]

theorem exec_release_of_cut (cut : server.CutAt name above k below) (sound : server.failed = false)
    (serial : Nat) :
    server.exec serial (.release name) =
      (⟨(UndoLog.effects above).map .effect ++ below, false⟩, .ok ()) := by
  simp [exec, cut.release_eq, sound]

/-- A release that is refused leaves the transaction failed. -/
theorem exec_release_refused (bad : server.failed = true ∨ server.Lacks name) (serial : Nat) :
    ∃ e, server.exec serial (.release name) = ({ server with failed := true }, .error e) := by
  cases down : server.failed with
  | true =>
      refine ⟨aborted, ?_⟩
      simp only [exec, down, if_true]
      rw [← down]
  | false =>
      have lacks : server.Lacks name := by simpa [down] using bad
      exact ⟨missing name, by simp [exec, down, UndoLog.release_eq_none lacks]⟩

end Server

theorem Savepoint.ensureValid_of_active {m : SavepointImpl} (h : m.active = true) :
    (⟨some m⟩ : Savepoint).ensureValid = .ok m := by
  simp [Savepoint.ensureValid, h]

theorem Savepoint.ensureValid_of_not_active {sp : Savepoint} (h : sp.active = false) :
    sp.ensureValid = .error (.logicError "Savepoint is not active") := by
  cases sp with
  | mk impl =>
      cases impl with
      | none => rfl
      | some m =>
          have idle : m.active = false := by simpa [Savepoint.active] using h
          simp [Savepoint.ensureValid, idle]

/-- A handle is active with its savepoint, or it is not active. -/
theorem Savepoint.active_cases (sp : Savepoint) :
    (∃ m, sp = ⟨some m⟩ ∧ m.active = true) ∨ sp.active = false := by
  cases sp with
  | mk impl =>
      cases impl with
      | none => exact .inr rfl
      | some m =>
          cases h : m.active with
          | true => exact .inl ⟨m, rfl, h⟩
          | false => exact .inr (by simp [Savepoint.active, h])

/-! ### Active handles after an update -/

namespace ActiveAt

variable {handles : List (Option Savepoint)} {i j : Nat} {m n : SavepointImpl}
  {w : Nat} {x : Option Savepoint} {sp target source : Savepoint}

theorem unique (h : ActiveAt handles i m) (h' : ActiveAt handles i n) : m = n := by
  simpa [h.held] using h'.held

theorem set_ne (h : ActiveAt handles j m) (apart : j ≠ i) : ActiveAt (handles.set i x) j m :=
  ⟨by rw [List.getElem?_set_ne (Ne.symm apart)]; exact h.held, h.active⟩

theorem of_set (h : ActiveAt (handles.set i x) j m) :
    (j = i ∧ x = some ⟨some m⟩) ∨ (j ≠ i ∧ ActiveAt handles j m) := by
  have held := h.held
  rw [List.getElem?_set] at held
  by_cases same : i = j
  · rw [if_pos same] at held
    split at held
    · exact .inl ⟨same.symm, Option.some.inj held⟩
    · cases held
  · rw [if_neg same] at held
    exact .inr ⟨Ne.symm same, held, h.active⟩

/-- Writing a handle that is not active leaves the others as they are. -/
theorem of_set_idle (h : ActiveAt (handles.set i x) j m)
    (idle : ∀ n, x = some ⟨some n⟩ → n.active = false) : j ≠ i ∧ ActiveAt handles j m := by
  rcases h.of_set with ⟨_, same⟩ | old
  · have quiet := idle m same
    rw [h.active] at quiet
    cases quiet
  · exact old

theorem concat (h : ActiveAt handles j m) : ActiveAt (handles ++ [x]) j m :=
  ⟨concat_at.mpr (.inl h.held), h.active⟩

theorem of_concat (h : ActiveAt (handles ++ [x]) j m) :
    ActiveAt handles j m ∨ x = some ⟨some m⟩ := by
  rcases concat_at.mp h.held with old | ⟨_, new⟩
  · exact .inl ⟨old, h.active⟩
  · exact .inr new

/-- A move gives the savepoint another handle. -/
theorem of_move (h : ActiveAt (handles.set i (some ⟨none⟩) ++ [some sp]) j m)
    (at_i : handles[i]? = some (some sp)) : ∃ j', ActiveAt handles j' m := by
  rcases h.of_concat with old | same
  · exact ⟨j, (old.of_set_idle (by simp)).2⟩
  · exact ⟨i, at_i.trans (congrArg some same), h.active⟩

theorem move (h : ActiveAt handles j m) (at_i : handles[i]? = some (some sp)) :
    ∃ j', ActiveAt (handles.set i (some ⟨none⟩) ++ [some sp]) j' m := by
  by_cases same : j = i
  · subst same
    have own : sp = ⟨some m⟩ := by simpa [at_i] using h.held
    refine ⟨_, concat_at.mpr (.inr ⟨rfl, congrArg some own⟩), h.active⟩
  · exact ⟨j, (h.set_ne same).concat⟩

theorem assign (h : ActiveAt handles w m) (at_i : handles[i]? = some (some target))
    (at_j : handles[j]? = some (some source)) (apart : i ≠ j) (other : w ≠ i) :
    ∃ w', ActiveAt ((handles.set i (some source)).set j (some ⟨none⟩)) w' m := by
  by_cases same : w = j
  · subst same
    have own : source = ⟨some m⟩ := by simpa [at_j] using h.held
    have placed : ActiveAt (handles.set i (some source)) i m := ⟨own ▸ set_at at_i, h.active⟩
    exact ⟨i, placed.set_ne apart⟩
  · exact ⟨w, (h.set_ne other).set_ne same⟩

theorem of_assign (h : ActiveAt ((handles.set i (some source)).set j (some ⟨none⟩)) w m)
    (at_j : handles[j]? = some (some source)) : ∃ j', ActiveAt handles j' m := by
  rcases (h.of_set_idle (by simp)).2.of_set with ⟨_, same⟩ | ⟨_, old⟩
  · exact ⟨j, at_j.trans (congrArg some same), h.active⟩
  · exact ⟨w, old⟩

end ActiveAt

namespace SavepointSystem

def nextName (s : SavepointSystem) : String := "tx_sp_" ++ toString s.nextSavepointId

/-- The events that need not change anything. -/
def Idle (s : SavepointSystem) : SavepointEvent → Prop
  | .rollback i => ∀ m, ¬ ActiveAt s.handles i m
  | .release i => ∀ m, ¬ ActiveAt s.handles i m
  | .moveAssign i j => i = j
  | .statement _ => True
  | _ => False

inductive Step (s : SavepointSystem) :
    SavepointEvent → Option Command → SavepointSystem → Prop where
  | same {e : SavepointEvent} (idle : s.Idle e) : Step s e none s
  | refused (failed : s.server.failed = true) :
      Step s .construct (some (.savepoint s.nextName)) { s with
        nextSavepointId := (s.nextSavepointId + 1) % 2 ^ 64
        constructed := s.constructed + 1
        issued := s.issued ++ [(s.constructed, .savepoint s.nextName)] }
  | establishes (sound : s.server.failed = false) :
      Step s .construct (some (.savepoint s.nextName)) { s with
        server := ⟨.mark ⟨s.constructed, s.nextName⟩ :: s.server.log, false⟩
        nextSavepointId := (s.nextSavepointId + 1) % 2 ^ 64
        handles := s.handles ++ [some ⟨some ⟨s.nextName, true, s.constructed, false⟩⟩]
        constructed := s.constructed + 1
        issued := s.issued ++ [(s.constructed, .savepoint s.nextName)] }
  | rollsBack {i : Nat} {m : SavepointImpl} {above below : List (LogItem Mark (List Nat))} {k : Mark}
      (at_i : ActiveAt s.handles i m) (cut : s.server.CutAt m.savepointName above k below) :
      Step s (.rollback i) (some (.rollbackTo m.savepointName)) { s with
        server := ⟨.mark k :: below, false⟩
        handles := s.handles.set i (some ⟨some { m with active := false }⟩)
        issued := s.issued ++ [(m.serial, .rollbackTo m.savepointName)] }
  | rollbackFails {i : Nat} {m : SavepointImpl} (at_i : ActiveAt s.handles i m)
      (lacks : s.server.Lacks m.savepointName) :
      Step s (.rollback i) (some (.rollbackTo m.savepointName)) { s with
        server := { s.server with failed := true }
        issued := s.issued ++ [(m.serial, .rollbackTo m.savepointName)] }
  | releases {i : Nat} {m : SavepointImpl} {above below : List (LogItem Mark (List Nat))} {k : Mark}
      (at_i : ActiveAt s.handles i m) (sound : s.server.failed = false)
      (cut : s.server.CutAt m.savepointName above k below) :
      Step s (.release i) (some (.release m.savepointName)) { s with
        server := ⟨(UndoLog.effects above).map .effect ++ below, false⟩
        handles := s.handles.set i (some ⟨some { m with active := false, releaseCalled := true }⟩)
        issued := s.issued ++ [(m.serial, .release m.savepointName)]
        released := s.released ++ [m.serial] }
  | releaseFails {i : Nat} {m : SavepointImpl} (at_i : ActiveAt s.handles i m)
      (bad : s.server.failed = true ∨ s.server.Lacks m.savepointName) :
      Step s (.release i) (some (.release m.savepointName)) { s with
        server := { s.server with failed := true }
        handles := s.handles.set i (some ⟨some { m with releaseCalled := true }⟩)
        issued := s.issued ++ [(m.serial, .release m.savepointName)] }
  | moves {i : Nat} {sp : Savepoint} (at_i : s.handles[i]? = some (some sp)) :
      Step s (.moveConstruct i) none
        { s with handles := s.handles.set i (some ⟨none⟩) ++ [some sp] }
  | assigns {i j : Nat} {target source : Savepoint} (at_i : s.handles[i]? = some (some target))
      (at_j : s.handles[j]? = some (some source)) (apart : i ≠ j) :
      Step s (.moveAssign i j) none { s with
        handles := (s.handles.set i (some source)).set j (some ⟨none⟩)
        abandoned := s.abandoned ++ gone target }
  | ends {i : Nat} {sp : Savepoint} (at_i : s.handles[i]? = some (some sp))
      (idle : sp.active = false) : Step s (.destroy i) none { s with handles := s.handles.set i none }
  | undoes {i : Nat} {m : SavepointImpl} {above below : List (LogItem Mark (List Nat))} {k : Mark}
      (at_i : ActiveAt s.handles i m) (cut : s.server.CutAt m.savepointName above k below) :
      Step s (.destroy i) (some (.rollbackTo m.savepointName)) { s with
        server := ⟨.mark k :: below, false⟩
        handles := s.handles.set i none
        issued := s.issued ++ [(m.serial, .rollbackTo m.savepointName)]
        abandoned := s.abandoned ++ [m] }
  | undoFails {i : Nat} {m : SavepointImpl} (at_i : ActiveAt s.handles i m)
      (lacks : s.server.Lacks m.savepointName) :
      Step s (.destroy i) (some (.rollbackTo m.savepointName)) { s with
        server := { s.server with failed := true }
        handles := s.handles.set i none
        issued := s.issued ++ [(m.serial, .rollbackTo m.savepointName)]
        abandoned := s.abandoned ++ [m] }
  | executes {fails : Bool} (sound : s.server.failed = false) :
      Step s (.statement fails) none
        { s with server := ⟨.effect s.activeSerials :: s.server.log, false⟩ }
  | statementFails {fails : Bool} :
      Step s (.statement fails) none { s with server := { s.server with failed := true } }

variable {s u : SavepointSystem} {e : SavepointEvent} {o : SavepointOutput} {i : Nat}

theorem step_construct (s : SavepointSystem) :
    Step s .construct s.construct.2.issued s.construct.1 := by
  cases failed : s.server.failed with
  | true =>
      simp only [construct, makeSavepointName, issue, Server.exec, failed, if_true]
      exact .refused failed
  | false =>
      simp only [construct, makeSavepointName, issue, Server.exec, failed, Bool.false_eq_true, if_false]
      exact .establishes failed

theorem not_activeAt {sp : Savepoint} (at_i : s.handles[i]? = some (some sp))
    (idle : sp.active = false) (m : SavepointImpl) : ¬ ActiveAt s.handles i m := by
  intro active
  have same : sp = ⟨some m⟩ := by simpa [at_i] using active.held
  simp [same, Savepoint.active, active.active] at idle

theorem step_rollback {sp : Savepoint} (at_i : s.handles[i]? = some (some sp)) :
    Step s (.rollback i) (s.rollback i sp).2.issued (s.rollback i sp).1 := by
  rcases sp.active_cases with ⟨m, rfl, active⟩ | idle
  · rcases s.server.cutAt_or_lacks m.savepointName with ⟨above, k, below, cut⟩ | lacks
    · simp only [rollback, Savepoint.ensureValid_of_active active, issue,
        Server.exec_rollbackTo_of_cut cut]
      exact .rollsBack ⟨at_i, active⟩ cut
    · simp only [rollback, Savepoint.ensureValid_of_active active, issue,
        Server.exec_rollbackTo_of_lacks lacks]
      exact .rollbackFails ⟨at_i, active⟩ lacks
  · simp only [rollback, Savepoint.ensureValid_of_not_active idle]
    exact .same (not_activeAt at_i idle)

theorem step_release {sp : Savepoint} (at_i : s.handles[i]? = some (some sp)) :
    Step s (.release i) (s.release i sp).2.issued (s.release i sp).1 := by
  rcases sp.active_cases with ⟨m, rfl, active⟩ | idle
  · by_cases bad : s.server.failed = true ∨ s.server.Lacks m.savepointName
    · obtain ⟨e, refused⟩ := Server.exec_release_refused bad m.serial
      simp only [release, Savepoint.ensureValid_of_active active, issue, refused]
      exact .releaseFails ⟨at_i, active⟩ bad
    · rw [not_or, Bool.not_eq_true] at bad
      rcases s.server.cutAt_or_lacks m.savepointName with ⟨above, k, below, cut⟩ | lacks
      · simp only [release, Savepoint.ensureValid_of_active active, issue,
          Server.exec_release_of_cut cut bad.1]
        exact .releases ⟨at_i, active⟩ bad.1 cut
      · exact absurd lacks bad.2
  · simp only [release, Savepoint.ensureValid_of_not_active idle]
    exact .same (not_activeAt at_i idle)

theorem step_destroy {sp : Savepoint} (at_i : s.handles[i]? = some (some sp)) :
    Step s (.destroy i) (s.destroy i sp).2.issued (s.destroy i sp).1 := by
  rcases sp.active_cases with ⟨m, rfl, active⟩ | idle
  · have held : (⟨some m⟩ : Savepoint).active = true := by simp [Savepoint.active, active]
    have last : gone ⟨some m⟩ = [m] := by simp [gone, active]
    rcases s.server.cutAt_or_lacks m.savepointName with ⟨above, k, below, cut⟩ | lacks
    · simp only [destroy, held, if_true, rollback, Savepoint.ensureValid_of_active active, issue,
        Server.exec_rollbackTo_of_cut cut, last]
      exact .undoes ⟨at_i, active⟩ cut
    · simp only [destroy, held, if_true, rollback, Savepoint.ensureValid_of_active active, issue,
        Server.exec_rollbackTo_of_lacks lacks, last]
      exact .undoFails ⟨at_i, active⟩ lacks
  · have none : gone sp = [] := by
      cases impl : sp.impl with
      | none => simp [gone, impl]
      | some m => simpa [gone, impl, Savepoint.active] using idle
    simp only [destroy, idle, none, List.append_nil]
    exact .ends at_i idle

theorem step_statement (s : SavepointSystem) (fails : Bool) :
    Step s (.statement fails) none { s with server := (s.server.execute s.activeSerials fails).1 } := by
  cases failed : s.server.failed with
  | true =>
      simp only [Server.execute, failed, if_true]
      exact .same trivial
  | false =>
      cases fails with
      | true =>
          simp only [Server.execute, failed, Bool.false_eq_true, if_false, if_true]
          exact .statementFails
      | false =>
          simp only [Server.execute, failed, Bool.false_eq_true, if_false]
          exact .executes failed

theorem step_of_next (h : s.next e = some (u, o)) : Step s e o.issued u := by
  cases e with
  | construct =>
      have eq : s.construct = (u, o) := Option.some.inj h
      have step := s.step_construct
      rwa [eq] at step
  | rollback i =>
      simp only [next, Option.map_eq_some_iff, Option.join_eq_some_iff] at h
      obtain ⟨sp, at_i, eq⟩ := h
      have step := step_rollback at_i
      rwa [eq] at step
  | release i =>
      simp only [next, Option.map_eq_some_iff, Option.join_eq_some_iff] at h
      obtain ⟨sp, at_i, eq⟩ := h
      have step := step_release at_i
      rwa [eq] at step
  | moveConstruct i =>
      simp only [next, Option.map_eq_some_iff, Option.join_eq_some_iff] at h
      obtain ⟨sp, at_i, eq⟩ := h
      cases eq
      exact .moves at_i
  | moveAssign i j =>
      simp only [next] at h
      split at h
      · rename_i target source at_i at_j
        simp only [Option.join_eq_some_iff] at at_i at_j
        split at h
        · rename_i same
          cases h
          exact .same same
        · rename_i apart
          cases h
          exact .assigns at_i at_j apart
      · cases h
  | destroy i =>
      simp only [next, Option.map_eq_some_iff, Option.join_eq_some_iff] at h
      obtain ⟨sp, at_i, eq⟩ := h
      have step := step_destroy at_i
      rwa [eq] at step
  | statement fails =>
      cases h
      exact s.step_statement fails

end SavepointSystem

end Rtl.Db
