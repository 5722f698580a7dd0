import Rtl.Db.Connection

/-! # The flag `transaction_active`

The flag of a connection state should be raised exactly while one transaction on it
is in progress. `finish` clears it without asking who has raised it, so a handle
whose own transaction is over still clears the flag of the next one, when it is
destroyed or assigned to. That is the only way to lose the agreement.
-/

namespace Rtl.Db

open Rtl.Base

/-- The flag of a state; a position without a state has none. -/
def flagOf (states : List ConnectionState) (i : Nat) : Bool :=
  states[i]?.any (·.transactionActive)

/-- A live handle, bound to the state `i`, whose transaction is in progress. -/
def activeOn (i : Nat) : Option ConnectionTransaction → Bool
  | none => false
  | some t => t.active && t.state == some i

@[simp] theorem activeOn_none (i : Nat) : activeOn i none = false := rfl

@[simp] theorem activeOn_movedFrom (i : Nat) : activeOn i (some .movedFrom) = false := rfl

@[simp] theorem activeOn_finished (i : Nat) (state : Option Nat) (impl : Bool) :
    activeOn i (some ⟨state, impl, false⟩) = false := rfl

/-! ## Writing the flag -/

theorem flagOf_setActive (states : List ConnectionState) (state : Option Nat) (active : Bool)
    (i : Nat) (inside : i < states.length) :
    flagOf (setActive states state active) i =
      if state = some i then active else flagOf states i := by
  cases state with
  | none => simp [setActive]
  | some j =>
      simp only [flagOf, setActive, List.getElem?_modify, List.getElem?_eq_getElem inside]
      by_cases same : j = i <;> simp [same]

theorem flagOf_of_length_le {states : List ConnectionState} {i : Nat} (out : states.length ≤ i) :
    flagOf states i = false := by
  simp [flagOf, List.getElem?_eq_none out]

@[simp] theorem setActive_length (states : List ConnectionState) (state : Option Nat)
    (active : Bool) : (setActive states state active).length = states.length := by
  cases state <;> simp [setActive]

theorem flagOf_clear (states : List ConnectionState) (state : Option Nat) (i : Nat) :
    flagOf (setActive states state false) i =
      if state = some i then false else flagOf states i := by
  by_cases inside : i < states.length
  · exact flagOf_setActive states state false i inside
  · rw [flagOf_of_length_le (by simpa using inside), flagOf_of_length_le (by omega)]
    simp

/-- A change of the states that does not write the flag. -/
theorem flagOf_modify (states : List ConnectionState) (i : Nat)
    (f : ConnectionState → ConnectionState)
    (keeps : ∀ x, (f x).transactionActive = x.transactionActive) (j : Nat) :
    flagOf (states.modify i f) j = flagOf states j := by
  simp only [flagOf, List.getElem?_modify]
  cases states[j]? with
  | none => rfl
  | some x =>
      by_cases same : i = j <;> simp [same, keeps]

/-- Clearing the flag with a handle that is active, or whose flag is down, takes
away just what this handle counts for. -/
theorem flagOf_finish {states : List ConnectionState} {x : ConnectionTransaction} {i : Nat}
    (counted : (activeOn i (some x)).toNat ≤ (flagOf states i).toNat)
    (own : x.active = true ∨ ∀ j, x.state = some j → flagOf states j = false) :
    (activeOn i (some x)).toNat + (flagOf (setActive states x.state false) i).toNat =
      (flagOf states i).toNat := by
  rw [flagOf_clear]
  by_cases bound : x.state = some i
  · rw [if_pos bound]
    rcases own with going | down
    · have one : activeOn i (some x) = true := by simp [activeOn, going, bound]
      rw [one] at counted ⊢
      cases raised : flagOf states i with
      | false => simp [raised] at counted
      | true => rfl
    · have low := down i bound
      rw [low] at counted ⊢
      simpa using counted
  · rw [if_neg bound]
    have none : activeOn i (some x) = false := by simp [activeOn, bound]
    simp [none]

namespace ConnectionSystem

/-! ## Counting the transactions in progress -/

/-- How many live handles have a transaction in progress on the state `i`. -/
def holders (s : ConnectionSystem) (i : Nat) : Nat := s.transactions.countP (activeOn i)

/-- An assignment passes on what the source counts for; the target's share is gone. -/
theorem countP_assign (i : Nat) {transactions : List (Option ConnectionTransaction)} {t w : Nat}
    {target source : ConnectionTransaction} (at_t : transactions[t]? = some (some target))
    (at_w : transactions[w]? = some (some source)) (apart : t ≠ w) :
    (activeOn i (some target)).toNat +
        ((transactions.set t (some source)).set w (some .movedFrom)).countP (activeOn i) =
      transactions.countP (activeOn i) := by
  have first := countP_set_at (activeOn i) (some source) at_t
  have at_w' : (transactions.set t (some source))[w]? = some (some source) := by
    rw [List.getElem?_set_ne apart]
    exact at_w
  have second := countP_set_at (activeOn i) (some .movedFrom) at_w'
  simp only [activeOn_movedFrom, Bool.toNat_false] at second
  omega

/-- The flag is raised exactly while one transaction is in progress, and there are
never two. -/
def FlagExact (s : ConnectionSystem) : Prop :=
  ∀ i x, s.states[i]? = some x →
    (x.transactionActive = true ↔ s.holders i = 1) ∧ s.holders i ≤ 1

/-- `finish` on this handle can clear no flag but its own. -/
def Owns (s : ConnectionSystem) (x : ConnectionTransaction) : Prop :=
  x.active = true ∨ ∀ i, x.state = some i → flagOf s.states i = false

/-- A handle whose transaction is over is not destroyed or assigned to while another
transaction is in progress on its connection. -/
def FinishesOwn (s : ConnectionSystem) (e : ConnectionEvent) : Prop :=
  ∀ t x, e.finishes = some t → s.transactions[t]? = some (some x) → s.Owns x

/-- Every flag counts the transactions in progress on its state. -/
def Counted (s : ConnectionSystem) : Prop := ∀ i, s.holders i = (flagOf s.states i).toNat

variable {s u : ConnectionSystem} {e : ConnectionEvent}

theorem Counted.flagExact (counted : s.Counted) : s.FlagExact := by
  intro i x at_i
  have count := counted i
  have flag : flagOf s.states i = x.transactionActive := by simp [flagOf, at_i]
  rw [flag] at count
  rw [count]
  cases x.transactionActive <;> simp

theorem Counted.le_flag (counted : s.Counted) {t : Nat} {x : ConnectionTransaction}
    (at_t : s.transactions[t]? = some (some x)) (i : Nat) :
    (activeOn i (some x)).toNat ≤ (flagOf s.states i).toNat := by
  have change := countP_set_at (activeOn i) none at_t
  have count := counted i
  simp only [holders] at count
  simp only [activeOn_none, Bool.toNat_false] at change
  omega

theorem Counted.start : ConnectionSystem.start.Counted := fun _ => rfl

/-- The agreement survives every step that finishes its own transaction only. -/
theorem Counted.step (counted : s.Counted) (own : s.FinishesOwn e) (h : Step s e u) :
    u.Counted := by
  intro i
  have count := counted i
  simp only [holders] at count
  cases h with
  | same => exact count
  | opens =>
      simp only [holders, opened, count]
      by_cases inside : i < s.states.length
      · simp [flagOf, List.getElem?_append_left inside]
      · rw [flagOf_of_length_le (by omega)]
        rcases Nat.lt_or_ge s.states.length i with past | here
        · rw [flagOf_of_length_le (by simp; omega)]
        · simp [flagOf, show i = s.states.length by omega]
  | closes =>
      simp only [holders, count, Connection.close]
      split
      · rfl
      · rw [flagOf_modify]
        intro x
        rfl
  | loses =>
      simp only [holders, count]
      rw [flagOf_modify]
      intro x
      rfl
  | @begins _ _ j x _ at_j _ down =>
      have inside : j < s.states.length := (List.getElem?_eq_some_iff.mp at_j).1
      have low : flagOf s.states j = false := by simp [flagOf, at_j, down]
      simp only [holders, countP_concat, count]
      by_cases same : j = i
      · subst same
        rw [flagOf_setActive _ _ _ _ inside, low]
        simp [activeOn]
      · have other : flagOf (setActive s.states (some j) true) i = flagOf s.states i := by
          simp only [flagOf, setActive, List.getElem?_modify_ne _ _ same]
        rw [other]
        simp [activeOn, same]
  | @finishes t _ x at_t going =>
      have change := countP_set_at (activeOn i) (some { x with impl := false, active := false }) at_t
      have clear := flagOf_finish (counted.le_flag at_t i) (.inl going)
      simp only [activeOn_finished, Bool.toNat_false] at change
      simp only [holders]
      omega
  | @moves t x at_t =>
      have change := countP_set_at (activeOn i) (some .movedFrom) at_t
      simp only [activeOn_movedFrom, Bool.toNat_false] at change
      simp only [holders, countP_concat]
      omega
  | @assigns t w target source at_t at_w apart =>
      have change := countP_assign i at_t at_w apart
      have clear := flagOf_finish (counted.le_flag at_t i) (own t target (if_neg apart) at_t)
      simp only [holders]
      omega
  | @destroys t x at_t =>
      have change := countP_set_at (activeOn i) none at_t
      have clear := flagOf_finish (counted.le_flag at_t i) (own t x rfl at_t)
      simp only [activeOn_none, Bool.toNat_false] at change
      simp only [holders]
      omega

/-- A handle that does not own the flag it clears: another transaction is in
progress on the same state. -/
theorem Counted.foreign (counted : s.Counted) {x : ConnectionTransaction} (foreign : ¬ s.Owns x) :
    ∃ i, x.state = some i ∧ s.holders i = 1 ∧ activeOn i (some x) = false := by
  simp only [Owns, not_or, not_forall, Bool.not_eq_false, exists_prop] at foreign
  obtain ⟨idle, i, bound, raised⟩ := foreign
  refine ⟨i, bound, ?_, by simp [activeOn, idle]⟩
  rw [counted i, raised]
  rfl

/-- A flag that is down while a transaction is in progress. -/
theorem not_flagExact_of_cleared {i : Nat} (inside : i < s.states.length)
    (down : flagOf s.states i = false) (held : s.holders i = 1) : ¬ s.FlagExact := by
  intro exact'
  have at_i := List.getElem?_eq_getElem inside
  have low : s.states[i].transactionActive = false := by simpa [flagOf, at_i] using down
  have raised := (exact' i _ at_i).1.mpr held
  rw [low] at raised
  cases raised

theorem flagOf_inside {i : Nat} (raised : flagOf s.states i = true) : i < s.states.length := by
  by_contra out
  rw [flagOf_of_length_le (by omega)] at raised
  cases raised

/-- A handle that clears a flag it does not own breaks the agreement at once. -/
theorem Counted.sharp (counted : s.Counted) (foreign : ¬ s.FinishesOwn e) (h : Step s e u) :
    ¬ u.FlagExact := by
  have raised : ∀ i, s.holders i = 1 → flagOf s.states i = true := by
    intro i one
    have count := counted i
    rw [one] at count
    cases flag : flagOf s.states i with
    | false => simp [flag] at count
    | true => rfl
  simp only [FinishesOwn, not_forall] at foreign
  obtain ⟨t, x, finishing, at_t, foreign⟩ := foreign
  obtain ⟨i, bound, one, unheld⟩ := counted.foreign foreign
  have inside := flagOf_inside (raised i one)
  cases h with
  | @destroys t' x' at_t' =>
      cases finishing
      obtain rfl : x = x' := by simpa [at_t] using at_t'
      have change := countP_set_at (activeOn i) none at_t
      apply not_flagExact_of_cleared (i := i)
      · simpa using inside
      · simp only [flagOf_clear, bound, if_true]
      · simp only [holders, unheld, activeOn_none, Bool.toNat_false] at change one ⊢
        omega
  | @assigns t' w target source at_t' at_w apart =>
      obtain rfl : t' = t := by simpa [ConnectionEvent.finishes, apart] using finishing
      obtain rfl : x = target := by simpa [at_t] using at_t'
      have change := countP_assign i at_t at_w apart
      apply not_flagExact_of_cleared (i := i)
      · simpa using inside
      · simp only [flagOf_clear, bound, if_true]
      · simp only [holders, unheld, Bool.toNat_false] at change one ⊢
        omega
  | same _ calm => simp [calm] at finishing
  | _ => cases finishing

end ConnectionSystem

/-! ## Whole runs -/

/-- A run keeps every flag exact if and only if no handle whose transaction is over
is destroyed or assigned to while another transaction is in progress on the same
connection. -/
theorem transaction_active_exact_iff {s : ConnectionSystem}
    {ts : List (Transition ConnectionSystem ConnectionEvent (Except Thrown Unit))}
    (run : connectionMachine.Run .start ts s) :
    (∀ v, Machine.Visits .start ts v → v.FlagExact) ↔
      ∀ t ∈ ts, t.before.FinishesOwn t.event := by
  apply run.always_iff_guard (I := ConnectionSystem.Counted) ConnectionSystem.Counted.start
  · intro s e t o counted own h
    exact counted.step own (ConnectionSystem.step_of_next h)
  · intro s counted
    exact counted.flagExact
  · intro s e t o counted foreign h
    exact counted.sharp foreign (ConnectionSystem.step_of_next h)

/-- One transaction after the other, each handle destroyed before the next begins. -/
def oneByOne : List ConnectionEvent :=
  [.connect true (.ok ()), .call 0 (.beginTransaction (.ok ())), .transaction 0 (.commit (.ok ())),
    .destroyTransaction 0, .call 0 (.beginTransaction (.ok ()))]

theorem oneByOne_transaction_active_exact :
    ∃ ts s, connectionMachine.exec .start oneByOne = some (ts, s) ∧ s.holders 0 = 1 ∧
      ∀ v, Machine.Visits .start ts v → v.FlagExact := by
  have h : connectionMachine.exec .start oneByOne = some (_, _) := rfl
  refine ⟨_, _, h, rfl, (transaction_active_exact_iff (Machine.Run.of_exec h)).mpr ?_⟩
  intro t ht i x finishing at_i
  simp only [List.mem_cons, List.not_mem_nil, or_false] at ht
  rcases ht with rfl | rfl | rfl | rfl | rfl <;> cases finishing
  cases at_i
  exact .inr fun j bound => by cases bound; rfl

/-- The handle of a committed transaction goes out of scope after the next one has
begun: the flag is down although that transaction is in progress. -/
theorem transaction_active_cleared_by_finished_handle :
    ∃ ts s, connectionMachine.exec .start
        [.connect true (.ok ()), .call 0 (.beginTransaction (.ok ())),
          .transaction 0 (.commit (.ok ())), .call 0 (.beginTransaction (.ok ())),
          .destroyTransaction 0] = some (ts, s) ∧
      s.holders 0 = 1 ∧ flagOf s.states 0 = false ∧ ¬ s.FlagExact := by
  refine ⟨_, _, rfl, rfl, rfl, ?_⟩
  exact ConnectionSystem.not_flagExact_of_cleared (i := 0) (by decide) rfl rfl

end Rtl.Db
