import Mathlib.Data.List.Basic

/-! # Logs with marks

A log of effects, newest first, with marks in between. Rolling back to a mark drops
everything newer; releasing a mark forgets it and all newer marks but keeps the
effects. Both act on the newest mark that a test accepts, and both are described by
the place where that mark cuts the log.
-/

namespace Rtl.Base

inductive LogItem (κ α : Type*) where
  | mark (m : κ)
  | effect (x : α)
  deriving Repr, DecidableEq

namespace UndoLog

variable {κ α : Type*}

def marks (log : List (LogItem κ α)) : List κ :=
  log.filterMap fun
    | .mark m => some m
    | .effect _ => none

def effects (log : List (LogItem κ α)) : List α :=
  log.filterMap fun
    | .mark _ => none
    | .effect x => some x

/-- Back to the newest mark that passes the test, which stays. -/
def rollbackTo (p : κ → Bool) : List (LogItem κ α) → Option (List (LogItem κ α))
  | [] => none
  | .mark m :: rest => if p m then some (.mark m :: rest) else rollbackTo p rest
  | .effect _ :: rest => rollbackTo p rest

/-- Forget the newest mark that passes the test and all newer marks. -/
def release (p : κ → Bool) : List (LogItem κ α) → Option (List (LogItem κ α))
  | [] => none
  | .mark m :: rest => if p m then some rest else release p rest
  | .effect x :: rest => (release p rest).map (.effect x :: ·)

@[simp] theorem marks_nil : marks ([] : List (LogItem κ α)) = [] := rfl

@[simp] theorem marks_mark (m : κ) (log : List (LogItem κ α)) :
    marks (.mark m :: log) = m :: marks log := rfl

@[simp] theorem marks_effect (x : α) (log : List (LogItem κ α)) :
    marks (.effect x :: log) = marks log := rfl

@[simp] theorem marks_append (a b : List (LogItem κ α)) : marks (a ++ b) = marks a ++ marks b := by
  simp [marks]

@[simp] theorem effects_mark (m : κ) (log : List (LogItem κ α)) :
    effects (.mark m :: log) = effects log := rfl

@[simp] theorem effects_effect (x : α) (log : List (LogItem κ α)) :
    effects (.effect x :: log) = x :: effects log := rfl

theorem mem_effects {x : α} {log : List (LogItem κ α)} : x ∈ effects log ↔ .effect x ∈ log := by
  induction log with
  | nil => simp [effects]
  | cons item rest ih => cases item <;> simp [ih]

@[simp] theorem marks_map_effect (xs : List α) :
    marks (xs.map (LogItem.effect (κ := κ))) = [] := by
  induction xs with
  | nil => rfl
  | cons x xs ih => simp [ih]

/-- The newest mark that passes the test, with what is newer and what is older. -/
structure Cut (p : κ → Bool) (log above : List (LogItem κ α)) (m : κ)
    (below : List (LogItem κ α)) : Prop where
  split : log = above ++ .mark m :: below
  accepts : p m = true
  newest : ∀ x ∈ marks above, p x = false

variable {p : κ → Bool} {log above below : List (LogItem κ α)} {m : κ}

theorem exists_cut (h : ∃ m ∈ marks log, p m = true) : ∃ above m below, Cut p log above m below := by
  induction log with
  | nil => simp at h
  | cons item rest ih =>
      cases item with
      | mark k =>
          by_cases here : p k = true
          · exact ⟨[], k, rest, rfl, here, by simp⟩
          · have later : ∃ m ∈ marks rest, p m = true := by
              obtain ⟨m, mem, passes⟩ := h
              rcases List.mem_cons.mp mem with rfl | old
              · exact absurd passes here
              · exact ⟨m, old, passes⟩
            obtain ⟨above, m, below, cut⟩ := ih later
            refine ⟨.mark k :: above, m, below, by rw [cut.split]; rfl, cut.accepts, ?_⟩
            intro x mem
            rcases List.mem_cons.mp mem with rfl | old
            · simpa using here
            · exact cut.newest x old
      | effect x =>
          obtain ⟨above, m, below, cut⟩ := ih h
          exact ⟨.effect x :: above, m, below, by rw [cut.split]; rfl, cut.accepts, cut.newest⟩

theorem Cut.rollbackTo_eq (cut : Cut p log above m below) :
    rollbackTo p log = some (.mark m :: below) := by
  obtain ⟨rfl, accepts, newest⟩ := cut
  induction above with
  | nil => simp [rollbackTo, accepts]
  | cons item rest ih =>
      cases item with
      | mark k =>
          have skip : p k = false := newest k (by simp)
          simp only [List.cons_append, rollbackTo, skip]
          exact ih fun x mem => newest x (by simp [mem])
      | effect x => exact ih newest

theorem Cut.release_eq (cut : Cut p log above m below) :
    release p log = some ((effects above).map .effect ++ below) := by
  obtain ⟨rfl, accepts, newest⟩ := cut
  induction above with
  | nil => simp [release, accepts, effects]
  | cons item rest ih =>
      cases item with
      | mark k =>
          have skip : p k = false := newest k (by simp)
          simp only [List.cons_append, release, skip, effects_mark]
          exact ih fun x mem => newest x (by simp [mem])
      | effect x =>
          simp only [List.cons_append, release, effects_effect, List.map_cons]
          rw [ih newest]
          rfl

theorem rollbackTo_eq_none (h : ∀ m ∈ marks log, p m = false) : rollbackTo p log = none := by
  induction log with
  | nil => rfl
  | cons item rest ih =>
      cases item with
      | mark k => simp [rollbackTo, h k (by simp), ih fun m mem => h m (by simp [mem])]
      | effect x => exact ih h

theorem release_eq_none (h : ∀ m ∈ marks log, p m = false) : release p log = none := by
  induction log with
  | nil => rfl
  | cons item rest ih =>
      cases item with
      | mark k => simp [release, h k (by simp), ih fun m mem => h m (by simp [mem])]
      | effect x => simp [release, ih h]

theorem Cut.find?_eq (cut : Cut p log above m below) : (marks log).find? p = some m := by
  rw [cut.split, marks_append, marks_mark, List.find?_append]
  rw [List.find?_eq_none.mpr fun x mem => by simp [cut.newest x mem]]
  simp [cut.accepts]

/-! ## What is left of the log -/

theorem effects_sublist {a b : List (LogItem κ α)} (h : a.Sublist b) :
    (effects a).Sublist (effects b) :=
  h.filterMap _

theorem map_effects_sublist (log : List (LogItem κ α)) :
    ((effects log).map LogItem.effect).Sublist log := by
  induction log with
  | nil => exact List.Sublist.slnil
  | cons item rest ih =>
      cases item with
      | mark k => exact ih.cons _
      | effect x => exact ih.cons_cons _

theorem Cut.rolledBack_sublist (cut : Cut p log above m below) :
    (LogItem.mark m :: below).Sublist log := by
  rw [cut.split]
  exact List.sublist_append_right _ _

theorem Cut.released_sublist (cut : Cut p log above m below) :
    ((effects above).map LogItem.effect ++ below).Sublist log := by
  rw [cut.split]
  exact (map_effects_sublist above).append (List.sublist_cons_self _ _)

/-- Every test has a newest mark or none at all. -/
theorem cut_or_none (p : κ → Bool) (log : List (LogItem κ α)) :
    (∃ above m below, Cut p log above m below) ∨ ∀ m ∈ marks log, p m = false := by
  by_cases some : ∃ m ∈ marks log, p m = true
  · exact .inl (exists_cut some)
  · right
    intro m mem
    by_contra passes
    exact some ⟨m, mem, by simpa using passes⟩

end UndoLog

end Rtl.Base
