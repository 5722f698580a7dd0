import Mathlib.Data.List.Induction

/-! # Machines with executable steps

A machine has partial, executable steps: an event either is not enabled or
leads to one successor state with one output. Nondeterminism is in the choice
of the event. A run keeps its complete list of transitions, so statements about
the order of two steps are statements about positions in that list. The rules
at the end derive facts about whole runs from facts about one step.
-/

namespace Rtl.Base

/-- `next s e = none` says that the event `e` is not enabled in `s`. -/
structure Machine (σ ε ο : Type*) where
  init : σ → Prop
  next : σ → ε → Option (σ × ο)

structure Transition (σ ε ο : Type*) where
  before : σ
  event : ε
  output : ο
  after : σ

namespace Machine

variable {σ ε ο : Type*}

def Takes (m : Machine σ ε ο) (t : Transition σ ε ο) : Prop :=
  m.next t.before t.event = some (t.after, t.output)

/-! ## Runs -/

inductive Run (m : Machine σ ε ο) (s : σ) : List (Transition σ ε ο) → σ → Prop where
  | refl : Run m s [] s
  | snoc {ts : List (Transition σ ε ο)} {u : σ} (t : Transition σ ε ο) :
      Run m s ts u → t.before = u → m.Takes t → Run m s (ts ++ [t]) t.after

def Reachable (m : Machine σ ε ο) (s : σ) : Prop :=
  ∃ s₀ ts, m.init s₀ ∧ m.Run s₀ ts s

/-- The states of a run: its first one and the one after each transition. -/
def Visits (s₀ : σ) (ts : List (Transition σ ε ο)) (s : σ) : Prop :=
  s = s₀ ∨ ∃ t ∈ ts, t.after = s

variable {m : Machine σ ε ο}

theorem Run.step {s u v : σ} {ts : List (Transition σ ε ο)} {e : ε} {o : ο}
    (run : m.Run s ts u) (h : m.next u e = some (v, o)) :
    m.Run s (ts ++ [⟨u, e, o, v⟩]) v :=
  Run.snoc ⟨u, e, o, v⟩ run rfl h

theorem Run.trans {s u v : σ} {ts us : List (Transition σ ε ο)}
    (first : m.Run s ts u) (second : m.Run u us v) : m.Run s (ts ++ us) v := by
  induction second with
  | refl => simpa using first
  | snoc t _ before takes ih =>
      rw [← List.append_assoc]
      exact Run.snoc t ih before takes

/-- Cut a run at any position of its transition list. -/
theorem Run.split {s v : σ} {ts us : List (Transition σ ε ο)}
    (run : m.Run s (ts ++ us) v) : ∃ u, m.Run s ts u ∧ m.Run u us v := by
  induction us using List.reverseRecOn generalizing v with
  | nil => exact ⟨v, by simpa using run, Run.refl⟩
  | append_singleton us t ih =>
      rw [← List.append_assoc] at run
      generalize hall : ts ++ us ++ [t] = all at run
      cases run with
      | refl => simp at hall
      | snoc t' run before takes =>
          obtain ⟨hts, ht⟩ := List.append_inj' hall rfl
          simp only [List.cons.injEq, and_true] at ht
          subst ht
          subst hts
          obtain ⟨u, first, second⟩ := ih run
          exact ⟨u, first, Run.snoc _ second before takes⟩

/-- Every transition of a run is a real step, taken from where its prefix ends. -/
theorem Run.at {s v : σ} {ts us : List (Transition σ ε ο)} {t : Transition σ ε ο}
    (run : m.Run s (ts ++ t :: us) v) :
    m.Run s ts t.before ∧ m.Takes t ∧ m.Run t.after us v := by
  rw [show ts ++ t :: us = (ts ++ [t]) ++ us by simp] at run
  obtain ⟨u, head, tail⟩ := run.split
  generalize hall : ts ++ [t] = all at head
  cases head with
  | refl => simp at hall
  | snoc t' head before takes =>
      obtain ⟨hts, ht⟩ := List.append_inj' hall rfl
      simp only [List.cons.injEq, and_true] at ht
      subst ht
      subst hts
      subst before
      exact ⟨head, takes, tail⟩

theorem Run.mem_prefix {s v : σ} {ts : List (Transition σ ε ο)} {t : Transition σ ε ο}
    (run : m.Run s ts v) (ht : t ∈ ts) :
    ∃ us, us <+: ts ∧ m.Run s us t.before ∧ m.Takes t := by
  obtain ⟨us, ws, rfl⟩ := List.append_of_mem ht
  exact ⟨us, List.prefix_append us _, run.at.1, run.at.2.1⟩

theorem Run.reachable {s v : σ} {ts : List (Transition σ ε ο)} (run : m.Run s ts v)
    (init : m.init s) : m.Reachable v :=
  ⟨s, ts, init, run⟩

/-! ## Restricting the events -/

/-- The machine with only the events that are allowed. -/
def restrict (m : Machine σ ε ο) (ok : σ → ε → Prop) [∀ s e, Decidable (ok s e)] :
    Machine σ ε ο where
  init := m.init
  next s e := if ok s e then m.next s e else none

theorem restrict_next {ok : σ → ε → Prop} [∀ s e, Decidable (ok s e)] {s : σ} {e : ε} {r : σ × ο} :
    (m.restrict ok).next s e = some r ↔ ok s e ∧ m.next s e = some r := by
  simp [restrict]

theorem Run.restrict {ok : σ → ε → Prop} [∀ s e, Decidable (ok s e)] {s t : σ}
    {ts : List (Transition σ ε ο)} (run : m.Run s ts t) (allowed : ∀ u ∈ ts, ok u.before u.event) :
    (m.restrict ok).Run s ts t := by
  induction run with
  | refl => exact Run.refl
  | snoc u _ before takes ih =>
      refine Run.snoc u (ih fun v mem => allowed v (List.mem_append_left _ mem)) before ?_
      exact restrict_next.mpr ⟨allowed u (List.mem_append_right _ (List.mem_singleton_self u)), takes⟩

/-! ## Evaluating a list of events -/

/-- Take the events in order; `none` as soon as one is not enabled. -/
def exec (m : Machine σ ε ο) : σ → List ε → Option (List (Transition σ ε ο) × σ)
  | s, [] => some ([], s)
  | s, e :: es =>
      match m.next s e with
      | none => none
      | some (t, o) => (m.exec t es).map fun r => (⟨s, e, o, t⟩ :: r.1, r.2)

theorem exec_cons {s t : σ} {e : ε} {es : List ε} {ts : List (Transition σ ε ο)}
    (h : m.exec s (e :: es) = some (ts, t)) :
    ∃ u o us, m.next s e = some (u, o) ∧ m.exec u es = some (us, t) ∧ ts = ⟨s, e, o, u⟩ :: us := by
  simp only [exec] at h
  cases hn : m.next s e with
  | none => simp [hn] at h
  | some p =>
      simp only [hn, Option.map_eq_some_iff, Prod.mk.injEq] at h
      obtain ⟨r, hr, rfl, rfl⟩ := h
      exact ⟨p.1, p.2, r.1, rfl, hr, rfl⟩

theorem Run.of_exec {s t : σ} {es : List ε} {ts : List (Transition σ ε ο)}
    (h : m.exec s es = some (ts, t)) : m.Run s ts t := by
  induction es generalizing s ts with
  | nil =>
      simp only [exec, Option.some.injEq, Prod.mk.injEq] at h
      obtain ⟨rfl, rfl⟩ := h
      exact Run.refl
  | cons e es ih =>
      obtain ⟨u, o, us, hn, rest, rfl⟩ := exec_cons h
      have first : m.Run s [⟨s, e, o, u⟩] u := by
        simpa using (Run.refl (m := m)).step hn
      simpa using first.trans (ih rest)

/-- The transitions of an evaluated list of events carry just these events. -/
theorem exec_events {s t : σ} {es : List ε} {ts : List (Transition σ ε ο)}
    (h : m.exec s es = some (ts, t)) : ts.map (·.event) = es := by
  induction es generalizing s ts with
  | nil =>
      simp only [exec, Option.some.injEq, Prod.mk.injEq] at h
      simp [← h.1]
  | cons e es ih =>
      obtain ⟨u, o, us, -, rest, rfl⟩ := exec_cons h
      simp [ih rest]

theorem exec_forall_event {G : ε → Prop} {s t : σ} {es : List ε} {ts : List (Transition σ ε ο)}
    (h : m.exec s es = some (ts, t)) (all : ∀ e ∈ es, G e) : ∀ u ∈ ts, G u.event := by
  intro u hu
  apply all
  rw [← exec_events h]
  exact List.mem_map_of_mem hu

/-! ## Rules for whole runs -/

/-- An invariant of every step that meets the guard holds at the end of every
run all of whose steps meet it. -/
theorem Run.invariant_of_guard {I : σ → Prop} {G : σ → ε → Prop} {s₀ s : σ}
    {ts : List (Transition σ ε ο)} (run : m.Run s₀ ts s)
    (guarded : ∀ t ∈ ts, G t.before t.event) (start : I s₀)
    (step : ∀ s e t o, I s → G s e → m.next s e = some (t, o) → I t) : I s := by
  induction run with
  | refl => exact start
  | snoc t _ before takes ih =>
      have prior := ih fun u hu => guarded u (by simp [hu])
      subst before
      exact step _ _ _ _ prior (guarded t (by simp)) takes

theorem Run.invariant {I : σ → Prop} {s₀ s : σ} {ts : List (Transition σ ε ο)}
    (run : m.Run s₀ ts s) (start : I s₀)
    (step : ∀ s e t o, I s → m.next s e = some (t, o) → I t) : I s :=
  run.invariant_of_guard (G := fun _ _ => True) (fun _ _ => trivial) start
    fun s e t o hs _ h => step s e t o hs h

theorem Run.visits_run {s₀ s v : σ} {ts : List (Transition σ ε ο)} (run : m.Run s₀ ts s)
    (hv : Visits s₀ ts v) : ∃ us, us <+: ts ∧ m.Run s₀ us v := by
  rcases hv with rfl | ⟨t, ht, rfl⟩
  · exact ⟨[], List.nil_prefix, Run.refl⟩
  · obtain ⟨us, ws, rfl⟩ := List.append_of_mem ht
    obtain ⟨head, takes, _⟩ := run.at
    refine ⟨us ++ [t], ?_, Run.snoc t head rfl takes⟩
    exact ⟨ws, by simp⟩

/-- The guard is exact when breaking it breaks the property at once: a run then
keeps the property in all its states if and only if all its steps meet the guard. -/
theorem Run.always_iff_guard {I P : σ → Prop} {G : σ → ε → Prop} {s₀ s : σ}
    {ts : List (Transition σ ε ο)} (run : m.Run s₀ ts s) (start : I s₀)
    (step : ∀ s e t o, I s → G s e → m.next s e = some (t, o) → I t)
    (sound : ∀ s, I s → P s)
    (sharp : ∀ s e t o, I s → ¬ G s e → m.next s e = some (t, o) → ¬ P t) :
    (∀ v, Visits s₀ ts v → P v) ↔ ∀ t ∈ ts, G t.before t.event := by
  constructor
  · intro always
    induction run with
    | refl => intro t ht; simp at ht
    | snoc t run before takes ih =>
        have prior := ih fun v hv => always v <| by
          rcases hv with rfl | ⟨u, hu, rfl⟩
          · exact .inl rfl
          · exact .inr ⟨u, by simp [hu], rfl⟩
        have hinv := run.invariant_of_guard prior start step
        subst before
        intro u hu
        rcases List.mem_append.mp hu with hu | hu
        · exact prior u hu
        · rw [List.mem_singleton.mp hu]
          by_contra hbad
          exact sharp _ _ _ _ hinv hbad takes (always _ (.inr ⟨t, by simp, rfl⟩))
  · intro guarded v hv
    obtain ⟨us, hus, prefixRun⟩ := run.visits_run hv
    refine sound v (prefixRun.invariant_of_guard ?_ start step)
    exact fun t ht => guarded t (hus.subset ht)

/-- A run rule for facts that also speak of the transitions taken so far. -/
theorem Run.history {H : List (Transition σ ε ο) → σ → Prop} {s₀ s : σ}
    {ts : List (Transition σ ε ο)} (run : m.Run s₀ ts s) (start : H [] s₀)
    (step : ∀ ts s e t o, H ts s → m.next s e = some (t, o) → H (ts ++ [⟨s, e, o, t⟩]) t) :
    H ts s := by
  induction run with
  | refl => exact start
  | snoc t _ before takes ih =>
      subst before
      exact step _ _ _ _ _ ih takes

/-- A measure that every guarded step decreases bounds the length of guarded runs. -/
theorem Run.length_le {I : σ → Prop} {G : σ → ε → Prop} {μ : σ → Nat} {s₀ s : σ}
    {ts : List (Transition σ ε ο)} (run : m.Run s₀ ts s)
    (guarded : ∀ t ∈ ts, G t.before t.event) (start : I s₀)
    (step : ∀ s e t o, I s → G s e → m.next s e = some (t, o) → I t ∧ μ t < μ s) :
    ts.length + μ s ≤ μ s₀ := by
  induction run with
  | refl => simp
  | @snoc ts _ t run before takes ih =>
      have earlier : ∀ u ∈ ts, G u.before u.event := fun u hu => guarded u (by simp [hu])
      have prior := run.invariant_of_guard earlier start fun s e t o hs hg h => (step s e t o hs hg h).1
      have bound := ih earlier
      subst before
      have less := (step _ _ _ _ prior (guarded t (by simp)) takes).2
      simp only [List.length_append, List.length_singleton]
      omega

/-- A potential that pays one for every step of a kind bounds how many of them a run has. -/
theorem Run.countP_le {I : σ → Prop} {p : Transition σ ε ο → Bool} {μ : σ → Nat} {s₀ s : σ}
    {ts : List (Transition σ ε ο)} (run : m.Run s₀ ts s) (start : I s₀)
    (step : ∀ t : Transition σ ε ο, I t.before → m.Takes t →
      I t.after ∧ (if p t then 1 else 0) + μ t.after ≤ μ t.before) :
    ts.countP p + μ s ≤ μ s₀ := by
  induction run with
  | refl => simp
  | snoc t run before takes ih =>
      have prior := run.invariant start fun s e t o hs h => (step ⟨s, e, o, t⟩ hs h).1
      subst before
      have paid := (step t prior takes).2
      rw [List.countP_append, List.countP_singleton]
      omega

/-! ## Simulation -/

def observe {ω : Type*} (see : ε → ο → Option ω) (ts : List (Transition σ ε ο)) : List ω :=
  ts.filterMap fun t => see t.event t.output

theorem observe_snoc {ω : Type*} (see : ε → ο → Option ω) (ts : List (Transition σ ε ο))
    (t : Transition σ ε ο) :
    observe see (ts ++ [t]) = observe see ts ++ (see t.event t.output).toList := by
  cases h : see t.event t.output <;> simp [observe, h]

/-- Every step of `c` is one step of `a` on the abstract states that looks the
same, or an invisible step that leaves the abstract state alone. Both are only
required where the invariant `inv` holds and for events that meet `ok`. -/
structure Simulation {σ' ε' ο' ω : Type*} (c : Machine σ ε ο) (a : Machine σ' ε' ο')
    (seeC : ε → ο → Option ω) (seeA : ε' → ο' → Option ω) (ok : σ → ε → Prop) where
  abs : σ → σ'
  inv : σ → Prop
  init : ∀ s, c.init s → a.init (abs s) ∧ inv s
  keeps : ∀ s e t o, inv s → ok s e → c.next s e = some (t, o) → inv t
  step : ∀ s e t o, inv s → ok s e → c.next s e = some (t, o) →
    (abs t = abs s ∧ seeC e o = none) ∨
    ∃ e' o', a.next (abs s) e' = some (abs t, o') ∧ seeA e' o' = seeC e o

/-- Trace inclusion: what is seen of a run of `c` is seen of a run of `a`. -/
theorem Simulation.refines {σ' ε' ο' ω : Type*} {c : Machine σ ε ο} {a : Machine σ' ε' ο'}
    {seeC : ε → ο → Option ω} {seeA : ε' → ο' → Option ω} {ok : σ → ε → Prop}
    (sim : Simulation c a seeC seeA ok) {s₀ s : σ} {ts : List (Transition σ ε ο)}
    (init : c.init s₀) (run : c.Run s₀ ts s) (guarded : ∀ t ∈ ts, ok t.before t.event) :
    sim.inv s ∧ ∃ us, a.Run (sim.abs s₀) us (sim.abs s) ∧ observe seeA us = observe seeC ts := by
  induction run with
  | refl => exact ⟨(sim.init s₀ init).2, [], Run.refl, rfl⟩
  | snoc t _ before takes ih =>
      obtain ⟨hinv, us, arun, same⟩ := ih fun u hu => guarded u (by simp [hu])
      have hok := guarded t (by simp)
      subst before
      refine ⟨sim.keeps _ _ _ _ hinv hok takes, ?_⟩
      rcases sim.step _ _ _ _ hinv hok takes with ⟨habs, unseen⟩ | ⟨e', o', anext, look⟩
      · refine ⟨us, habs ▸ arun, ?_⟩
        rw [observe_snoc, unseen, same]
        simp
      · refine ⟨us ++ [⟨_, e', o', _⟩], arun.step anext, ?_⟩
        rw [observe_snoc, observe_snoc, look, same]

end Machine

end Rtl.Base
