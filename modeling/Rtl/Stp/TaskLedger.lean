import Rtl.Stp.TaskTokens

/-! # The history of a callable

The notes of a run are read per callable. Together with the tokens they form a
ledger: a callable with a token has the history its spot prescribes, one without
has a complete history, and complete histories are short: it was refused, or run
once by a worker, or run once by its caller.
-/

namespace Rtl.Stp

open Rtl.Base

def about (c : Nat) (log : List Note) : List NoteKind :=
  log.filterMap fun n => if n.task = c then some n.kind else none

theorem about_append (c : Nat) (log log' : List Note) :
    about c (log ++ log') = about c log ++ about c log' := by
  simp [about]

theorem about_self (c : Nat) (kinds : List NoteKind) : about c (kinds.map (Note.mk c)) = kinds := by
  simp [about, List.filterMap_map]

theorem about_other {c d : Nat} (kinds : List NoteKind) (ne : d ≠ c) :
    about c (kinds.map (Note.mk d)) = [] := by
  simp [about, List.filterMap_map, ne]

theorem about_append_other {c d : Nat} (log : List Note) (kinds : List NoteKind) (ne : d ≠ c) :
    about d (log ++ kinds.map (Note.mk c)) = about d log := by
  rw [about_append, about_other kinds ne.symm, List.append_nil]

/-- The notes so far against the tokens of the state: a callable has one token and
the history of its spot, or its history is complete, or it has no number yet. -/
structure Ledger (log : List Note) (tokens : Multiset (Nat × Spot)) (nextTask : Nat) : Prop where
  single : (tokens.map Prod.fst).Nodup
  fresh : ∀ x ∈ tokens, x.1 < nextTask
  placed : ∀ x ∈ tokens, about x.1 log = x.2.notes
  settled : ∀ c < nextTask, c ∉ tokens.map Prod.fst → Settled (about c log)
  unborn : ∀ c, nextTask ≤ c → about c log = []

namespace Ledger

variable {log : List Note} {tokens rest : Multiset (Nat × Spot)} {nextTask c : Nat}

theorem start : Ledger [] 0 0 where
  single := by simp
  fresh := by simp
  placed := by simp
  settled := by simp
  unborn := by simp [about]

theorem born (ledger : Ledger log tokens nextTask) :
    Ledger log ({(nextTask, .loaded)} + tokens) (nextTask + 1) := by
  have absent : nextTask ∉ tokens.map Prod.fst := by
    intro mem
    obtain ⟨x, hx, same⟩ := Multiset.mem_map.mp mem
    have lt := ledger.fresh x hx
    omega
  constructor
  · rw [Multiset.singleton_add, Multiset.map_cons, Multiset.nodup_cons]
    exact ⟨absent, ledger.single⟩
  · intro x hx
    rw [Multiset.singleton_add, Multiset.mem_cons] at hx
    rcases hx with rfl | old
    · exact Nat.lt_succ_self _
    · exact Nat.lt_succ_of_lt (ledger.fresh x old)
  · intro x hx
    rw [Multiset.singleton_add, Multiset.mem_cons] at hx
    rcases hx with rfl | old
    · exact ledger.unborn nextTask (Nat.le_refl _)
    · exact ledger.placed x old
  · intro d hd out
    rw [Multiset.singleton_add, Multiset.map_cons, Multiset.mem_cons, not_or] at out
    exact ledger.settled d (by have ne := out.1; simp only at ne; omega) out.2
  · intro d hd
    exact ledger.unborn d (by omega)

theorem refused (ledger : Ledger log tokens nextTask) (error : ThreadPoolError) :
    Ledger (log ++ [⟨nextTask, .threw error⟩]) tokens (nextTask + 1) := by
  have quiet := fun d => about_append_other (d := d) log (c := nextTask) [.threw error]
  simp only [List.map_cons, List.map_nil] at quiet
  constructor
  · exact ledger.single
  · intro x hx
    exact Nat.lt_succ_of_lt (ledger.fresh x hx)
  · intro x hx
    have lt := ledger.fresh x hx
    rw [quiet x.1 (by omega)]
    exact ledger.placed x hx
  · intro d hd out
    by_cases same : d = nextTask
    · rw [same, about_append, ledger.unborn nextTask (Nat.le_refl _)]
      exact .inl ⟨error, by simp [about]⟩
    · rw [quiet d same]
      exact ledger.settled d (by omega) out
  · intro d hd
    rw [quiet d (by omega)]
    exact ledger.unborn d (by omega)

theorem absent {σ : Spot} (ledger : Ledger log ({(c, σ)} + rest) nextTask) :
    c ∉ rest.map Prod.fst := by
  have single := ledger.single
  rw [Multiset.singleton_add, Multiset.map_cons] at single
  exact (Multiset.nodup_cons.mp single).1

theorem ne_of_mem {σ : Spot} (ledger : Ledger log ({(c, σ)} + rest) nextTask) {x : Nat × Spot}
    (hx : x ∈ rest) : x.1 ≠ c := by
  intro same
  exact ledger.absent (Multiset.mem_map.mpr ⟨x, hx, same⟩)

/-- The token of `c` changes its spot. -/
theorem moved {σ σ' : Spot} {kinds : List NoteKind}
    (ledger : Ledger log ({(c, σ)} + rest) nextTask) (notes : σ'.notes = σ.notes ++ kinds) :
    Ledger (log ++ kinds.map (Note.mk c)) ({(c, σ')} + rest) nextTask := by
  have born : c < nextTask := ledger.fresh (c, σ) (by simp)
  constructor
  · simpa using ledger.single
  · intro x hx
    rw [Multiset.singleton_add, Multiset.mem_cons] at hx
    rcases hx with rfl | hx
    · exact born
    · exact ledger.fresh x (by simp [hx])
  · intro x hx
    rw [Multiset.singleton_add, Multiset.mem_cons] at hx
    rcases hx with rfl | hx
    · rw [about_append, about_self, notes, ledger.placed (c, σ) (by simp)]
    · rw [about_append_other log kinds (ledger.ne_of_mem hx)]
      exact ledger.placed x (by simp [hx])
  · intro d hd out
    have ne : d ≠ c := by
      intro same
      exact out (by simp [same])
    rw [about_append_other log kinds ne]
    exact ledger.settled d hd (by simpa using out)
  · intro d hd
    rw [about_append_other log kinds (by omega)]
    exact ledger.unborn d hd

/-- The token of `c` goes away and its history is complete. -/
theorem left {σ : Spot} {kinds : List NoteKind}
    (ledger : Ledger log ({(c, σ)} + rest) nextTask) (complete : Settled (σ.notes ++ kinds)) :
    Ledger (log ++ kinds.map (Note.mk c)) rest nextTask := by
  have born : c < nextTask := ledger.fresh (c, σ) (by simp)
  constructor
  · have single := ledger.single
    rw [Multiset.singleton_add, Multiset.map_cons] at single
    exact (Multiset.nodup_cons.mp single).2
  · intro x hx
    exact ledger.fresh x (by simp [hx])
  · intro x hx
    rw [about_append_other log kinds (ledger.ne_of_mem hx)]
    exact ledger.placed x (by simp [hx])
  · intro d hd out
    by_cases same : d = c
    · rw [same, about_append, about_self, ledger.placed (c, σ) (by simp)]
      exact complete
    · rw [about_append_other log kinds same]
      exact ledger.settled d hd (by simp only [Multiset.singleton_add, Multiset.map_cons,
        Multiset.mem_cons, not_or]; exact ⟨same, out⟩)
  · intro d hd
    rw [about_append_other log kinds (by omega)]
    exact ledger.unborn d hd

/-- One step of the tasks keeps the books. -/
theorem step {s t : Tasks} {notes : List Note} (ledger : Ledger log s.tokens s.nextTask)
    (effect : Tasks.Effect s t notes) : Ledger (log ++ notes) t.tokens t.nextTask := by
  cases effect with
  | still same next =>
      rw [same, next, List.append_nil]
      exact ledger
  | refused same next =>
      rw [same, next]
      exact ledger.refused threadPoolStopped
  | born tokens next =>
      rw [tokens, next, List.append_nil]
      exact ledger.born
  | moved c σ σ' rest kinds before after next notes =>
      rw [after, next]
      exact (before ▸ ledger).moved notes
  | left c σ kinds before next complete =>
      rw [next]
      exact (before ▸ ledger).left complete

end Ledger

end Rtl.Stp
