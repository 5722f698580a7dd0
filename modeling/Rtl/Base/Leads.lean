import Rtl.Base.Machine

/-! # Being led by steps of a kind

Some steps of a machine are taken by the part that is looked at, others by its surroundings. A
state leads to a goal if steps of the part alone can get there.
-/

namespace Rtl.Base

namespace Machine

variable {σ ε ο : Type*}

/-- Steps that meet `own` lead from `s` to a state where `goal` holds. -/
def Leads (m : Machine σ ε ο) (own : σ → ε → Prop) (goal : σ → Prop) (s : σ) : Prop :=
  ∃ ts t, m.Run s ts t ∧ (∀ u ∈ ts, own u.before u.event) ∧ goal t

variable {m : Machine σ ε ο} {own : σ → ε → Prop} {goal middle : σ → Prop} {s t : σ}

theorem Leads.here (h : goal s) : m.Leads own goal s :=
  ⟨[], s, .refl, by simp, h⟩

theorem Leads.step {e : ε} {o : ο} (h : m.next s e = some (t, o)) (ok : own s e)
    (later : m.Leads own goal t) : m.Leads own goal s := by
  obtain ⟨ts, u, run, owned, reached⟩ := later
  have first : m.Run s [⟨s, e, o, t⟩] t := by
    simpa using (Run.refl (m := m)).step h
  refine ⟨[⟨s, e, o, t⟩] ++ ts, u, first.trans run, ?_, reached⟩
  intro v mem
  rcases List.mem_append.mp mem with head | tail
  · rw [List.mem_singleton.mp head]
    exact ok
  · exact owned v tail

theorem Leads.bind (first : m.Leads own middle s) (later : ∀ t, middle t → m.Leads own goal t) :
    m.Leads own goal s := by
  obtain ⟨ts, t, run, owned, there⟩ := first
  obtain ⟨us, u, run', owned', reached⟩ := later t there
  refine ⟨ts ++ us, u, run.trans run', ?_, reached⟩
  intro v mem
  rcases List.mem_append.mp mem with head | tail
  · exact owned v head
  · exact owned' v tail

/-- While `μ` is not zero there is a step that makes it smaller and keeps `I`. -/
theorem Leads.descend {I : σ → Prop} {μ : σ → Nat}
    (step : ∀ s, I s → μ s ≠ 0 → ∃ e t o, m.next s e = some (t, o) ∧ own s e ∧ I t ∧ μ t < μ s)
    (start : I s) : m.Leads own (fun t => I t ∧ μ t = 0) s := by
  generalize size : μ s = n
  induction n using Nat.strongRecOn generalizing s with
  | ind n ih =>
      by_cases zero : μ s = 0
      · exact .here ⟨start, zero⟩
      · obtain ⟨e, t, o, h, ok, kept, less⟩ := step s start zero
        exact .step h ok (ih (μ t) (size ▸ less) kept rfl)

end Machine

end Rtl.Base
