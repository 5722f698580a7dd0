import Rtl.Db.Lease

/-! # Conservation of connections and places

In every run the pool's counters agree with its vector and with the leases, and
every connection created so far is idle, in transit, in one lease or destroyed.
-/

namespace Rtl.Db

open Rtl.Base

namespace LeaseSystem

variable {cfg : PoolConfig} {s t : LeaseSystem} {e : LeaseEvent} {o : LeaseOutput}

structure Inv (cfg : PoolConfig) (s : LeaseSystem) : Prop where
  ok : s.pool.state.Ok cfg
  active : s.pool.state.activeConnections = (shares s.handles).1 + s.transit.length
  sound : ∀ h ∈ s.handles, h.Sound
  places : (s.pool.state.connections : Multiset Nat) + s.transit + (shares s.handles).2 +
    s.destroyed = Multiset.range s.pool.nextConnection

theorem Start.inv (start : s.Start cfg) : s.Inv cfg := by
  obtain ⟨created, cond, fresh, transit, handles, closed, destroyed⟩ := start
  have state := (PoolState.create_ok created).1
  constructor
  · rw [state]
    exact ⟨rfl, by simp, rfl⟩
  · rw [state, handles, transit]
    rfl
  · simp [handles]
  · rw [state, handles, transit, destroyed, fresh]
    rfl

theorem Keeps.sound {handles : List Handle} (kept : s.Keeps handles) (inv : s.Inv cfg) :
    ∀ h ∈ handles, h.Sound := by
  intro h mem
  rcases kept h mem with old | ⟨y, rfl⟩
  · exact inv.sound h old
  · rfl

/-- Releasing a handle with a pool: the connection is kept if and only if it is open. -/
theorem release_owner {h : Handle} {c : Nat} (inv : s.Inv cfg) (pool : h.poolState = true)
    (holds : h.connection = some c) (out : 0 < s.pool.state.activeConnections) (pick : Nat) :
    ∃ kept gone : List Nat,
      (s.release h pick).1 = { s with
        pool := (s.pool.returnConnection (s.inspect (some c)) pick).1
        destroyed := s.destroyed ++ gone } ∧
      (s.pool.returnConnection (s.inspect (some c)) pick).1.state.connections =
        s.pool.state.connections ++ kept ∧
      ((kept = [c] ∧ gone = [] ∧ c ∉ s.closed ∧ (s.release h pick).2 = .returned (.putBack c)) ∨
        (kept = [] ∧ gone = [c] ∧ (s.release h pick).2 = .returned (.discarded (some c)))) := by
  have output := PoolSystem.returnConnection_output inv.ok (s.inspect (some c)) pick
  obtain ⟨_, _, state⟩ := PoolSystem.returnConnection_state inv.ok out (s.inspect (some c)) pick
  by_cases closed : c ∈ s.closed
  · have seen : s.inspect (some c) = .closed c := if_pos closed
    rw [seen] at output state
    refine ⟨[], [c], ?_, by rw [seen, state], .inr ⟨rfl, rfl, ?_⟩⟩
    · simp [release, pool, holds, seen, output, PoolStateOutput.discards]
    · simp [release, pool, holds, seen, output]
  · have seen : s.inspect (some c) = .opened c := if_neg closed
    rw [seen] at output state
    refine ⟨[c], [], ?_, by rw [seen, state], .inl ⟨rfl, rfl, closed, ?_⟩⟩
    · simp [release, pool, holds, seen, output, PoolStateOutput.discards]
    · simp [release, pool, holds, seen, output]

theorem Inv.out (inv : s.Inv cfg) {h : Handle} {handles : List Handle}
    (pool : h.poolState = true) (split : shares s.handles = h.share + shares handles) :
    0 < s.pool.state.activeConnections := by
  have active := inv.active
  rw [split] at active
  simp only [Handle.share, pool, Prod.fst_add, Bool.toNat_true] at active
  omega

theorem Inv.release {h : Handle} {handles : List Handle} (inv : s.Inv cfg) (mem : h ∈ s.handles)
    (split : shares s.handles = h.share + shares handles) (kept : s.Keeps handles) (pick : Nat) :
    Inv cfg { (s.release h pick).1 with handles := handles } := by
  have active := inv.active
  have places := inv.places
  rw [split] at active places
  cases pool : h.poolState with
  | false =>
      obtain ⟨nothing, share⟩ := (inv.sound h mem).empty pool
      rw [share, zero_add] at active places
      have same : (s.release h pick).1 = s := by simp [LeaseSystem.release, pool, nothing]
      rw [same]
      exact ⟨inv.ok, active, kept.sound inv, places⟩
  | true =>
      obtain ⟨c, holds, share⟩ := (inv.sound h mem).owner pool
      have out := inv.out pool split
      obtain ⟨_, fresh, state⟩ :=
        PoolSystem.returnConnection_state inv.ok out (s.inspect (some c)) pick
      obtain ⟨back, gone, released, connections, moved⟩ := release_owner inv pool holds out pick
      rw [share] at active places
      rw [released]
      refine ⟨PoolSystem.Ok.returnConnection inv.ok out _ pick, ?_, kept.sound inv, ?_⟩
      · simp only [Prod.fst_add] at active
        simp only [state]
        omega
      · have one : (back : Multiset Nat) + gone = {c} := by
          rcases moved with ⟨rfl, rfl, _⟩ | ⟨rfl, rfl, _⟩ <;> rfl
        simp only [Prod.snd_add] at places
        simp only [connections, fresh]
        rw [← places, ← one, ← Multiset.coe_add, ← Multiset.coe_add]
        abel

theorem Inv.acquires {e' : PoolStateEvent} {p : PoolSystem} {o' : PoolStateOutput}
    (inv : s.Inv cfg) (other : ∀ returned pick, e' ≠ .returnConnection returned pick)
    (h : s.pool.next cfg e' = some (p, o')) :
    Inv cfg { s with pool := p, transit := s.transit ++ o'.handsOut } := by
  have active := inv.active
  have places := inv.places
  cases PoolSystem.step_of_next inv.ok h with
  | @acquires _ _ _ _ state c created _ grab =>
      refine ⟨inv.ok.grab grab, ?_, inv.sound, ?_⟩
      · rw [grab.active, active]
        simp [PoolStateOutput.handsOut]
        omega
      · simp only [PoolStateOutput.handsOut, ← Multiset.coe_add]
        cases grab with
        | idle last =>
            rw [last, ← Multiset.coe_add] at places
            simp only [Bool.toNat_false, Nat.add_zero]
            rw [← places]
            abel
        | new empty room =>
            simp only [Bool.toNat_true]
            rw [Multiset.range_succ, ← places, ← Multiset.singleton_add, Multiset.coe_singleton]
            abel
  | creationThrows | parks | timesOut | wakes =>
      simp only [PoolStateOutput.handsOut, List.append_nil]
      exact ⟨inv.ok, active, inv.sound, places⟩
  | returns returned pick => exact absurd rfl (other returned pick)

theorem Inv.constructs {c : Nat} {rest : List Nat} (inv : s.Inv cfg)
    (picked : s.transit.Perm (c :: rest)) :
    Inv cfg { s with transit := rest, handles := s.handles ++ [⟨true, some c, false⟩] } := by
  have active := inv.active
  have places := inv.places
  have transit : (s.transit : Multiset Nat) = {c} + rest := by
    rw [Multiset.coe_eq_coe.mpr picked, Multiset.singleton_add, Multiset.cons_coe]
  refine ⟨inv.ok, ?_, ?_, ?_⟩
  · rw [picked.length_eq] at active
    simp [Handle.share] at active ⊢
    omega
  · intro h mem
    rcases List.mem_append.mp mem with old | new
    · exact inv.sound h old
    · rw [List.mem_singleton.mp new]
      rfl
  · rw [transit] at places
    simp only [shares_concat, Prod.snd_add, Handle.share, Option.elim_some]
    rw [← places]
    abel

theorem Inv.step (inv : s.Inv cfg) (step : Step cfg s e t o) : t.Inv cfg := by
  cases step with
  | acquires other h => exact inv.acquires other h
  | constructs picked => exact inv.constructs picked
  | releases mem split kept => exact inv.release mem split kept _
  | rearranges same kept =>
      have active := inv.active
      have places := inv.places
      rw [same] at active places
      exact ⟨inv.ok, active, kept.sound inv, places⟩
  | @breaks i h at_i =>
      have same : shares (s.handles.set i { h with broken := true }) = shares s.handles :=
        add_left_cancel (a := h.share) (shares_set ({ h with broken := true } : Handle) at_i)
      refine ⟨inv.ok, ?_, ?_, ?_⟩
      · simp only [same]
        exact inv.active
      · intro x mem
        rcases List.mem_or_eq_of_mem_set mem with old | rfl
        · exact inv.sound x old
        · exact inv.sound h (List.mem_of_getElem? at_i)
      · simp only [same]
        exact inv.places
  | drops => exact ⟨inv.ok, inv.active, inv.sound, inv.places⟩

/-! ## What a run remembers -/

/-- The idle list only grows by a connection that is put back while open. -/
theorem Inv.connections_of_step (inv : s.Inv cfg) (step : Step cfg s e t o) :
    ∀ c ∈ t.pool.state.connections, c ∈ s.pool.state.connections ∨ o = .returned (.putBack c) := by
  intro c mem
  cases step with
  | acquires other h =>
      cases PoolSystem.step_of_next inv.ok h with
      | acquires _ grab =>
          cases grab with
          | idle last => exact .inl (by rw [last]; exact List.mem_append_left _ mem)
          | new => exact .inl mem
      | creationThrows | parks | timesOut | wakes => exact .inl mem
      | returns returned pick => exact absurd rfl (other returned pick)
  | @releases _ h pick _ inside split _ =>
      cases pool : h.poolState with
      | false => exact .inl (by simpa [LeaseSystem.release, pool] using mem)
      | true =>
          obtain ⟨d, holds, _⟩ := (inv.sound h inside).owner pool
          obtain ⟨back, gone, released, connections, moved⟩ :=
            release_owner inv pool holds (inv.out pool split) pick
          simp only [released, connections, List.mem_append] at mem
          rcases moved with ⟨rfl, _, _, output⟩ | ⟨rfl, _⟩
          · rcases mem with old | new
            · exact .inl old
            · rw [List.mem_singleton.mp new]
              exact .inr output
          · exact .inl (by simpa using mem)
  | constructs | rearranges | breaks | drops => exact .inl mem

/-- A step that returns a connection frees a place that is taken, and puts the
connection back only if it is open. -/
theorem Inv.returned_of_step {o' : PoolStateOutput} (inv : s.Inv cfg)
    (step : Step cfg s e t (.returned o')) :
    0 < s.pool.state.activeConnections ∧ ∀ c, o' = .putBack c → c ∉ s.closed := by
  generalize output : LeaseOutput.returned o' = o at step
  cases step with
  | @releases _ h pick _ inside split _ =>
      cases pool : h.poolState with
      | false => simp [LeaseSystem.release, pool] at output
      | true =>
          obtain ⟨d, holds, _⟩ := (inv.sound h inside).owner pool
          have out := inv.out pool split
          obtain ⟨_, _, _, _, moved⟩ := release_owner inv pool holds out pick
          refine ⟨out, ?_⟩
          rintro c rfl
          rcases moved with ⟨_, _, opened, kept⟩ | ⟨_, _, gone⟩
          · rw [kept] at output
            cases output
            exact opened
          · rw [gone] at output
            cases output
  | acquires | constructs | rearranges | breaks | drops => cases output

theorem closed_of_step (step : Step cfg s e t o) : ∀ c ∈ s.closed, c ∈ t.closed := by
  intro c mem
  cases step with
  | @releases _ h pick _ _ _ _ => cases pool : h.poolState <;> simpa [LeaseSystem.release, pool] using mem
  | breaks | drops => exact List.mem_append_left _ mem
  | acquires | constructs | rearranges => exact mem

/-- A connection inside a lease is not idle. -/
theorem Inv.leased_not_idle (inv : s.Inv cfg) {h : Handle} {c : Nat} (mem : h ∈ s.handles)
    (holds : h.connection = some c) : c ∉ s.pool.state.connections := by
  intro idle
  have places := congrArg (Multiset.count c) inv.places
  have once := Multiset.nodup_iff_count_le_one.mp (Multiset.nodup_range s.pool.nextConnection) c
  have inShares : 0 < Multiset.count c (shares s.handles).2 := by
    rw [shares_eq, Multiset.count_pos, Multiset.mem_coe, List.mem_filterMap]
    exact ⟨h, mem, holds⟩
  have inIdle : 0 < Multiset.count c (s.pool.state.connections : Multiset Nat) := by
    rw [Multiset.count_pos, Multiset.mem_coe]
    exact idle
  simp only [Multiset.count_add] at places
  omega

def MarksBroken (t : Transition LeaseSystem LeaseEvent LeaseOutput) (c : Nat) : Prop :=
  ∃ i h, t.event = .markBroken i ∧ t.before.handles[i]? = some h ∧ h.connection = some c

/-- What the transitions of a run say about the state it ends in. -/
structure History (cfg : PoolConfig) (ts : List (Transition LeaseSystem LeaseEvent LeaseOutput))
    (s : LeaseSystem) : Prop where
  inv : s.Inv cfg
  origin : ∀ c ∈ s.pool.state.connections, ∃ t ∈ ts, t.output = .returned (.putBack c)
  opened : ∀ t ∈ ts, ∀ c, t.output = .returned (.putBack c) → c ∉ t.before.closed
  counted : ∀ t ∈ ts, ∀ o, t.output = .returned o → 0 < t.before.pool.state.activeConnections
  broken : ∀ t ∈ ts, ∀ c, MarksBroken t c → c ∈ s.closed ∧ c ∉ s.pool.state.connections

theorem Start.history (start : s.Start cfg) : History cfg [] s := by
  have state := (PoolState.create_ok start.1).1
  refine ⟨Start.inv start, ?_, by simp, by simp, by simp⟩
  rw [state]
  simp

theorem next_history {ts : List (Transition LeaseSystem LeaseEvent LeaseOutput)}
    (history : History cfg ts s) (h : s.next cfg e = some (t, o)) :
    History cfg (ts ++ [⟨s, e, o, t⟩]) t := by
  have inv := history.inv
  have step := step_of_next h
  have grows := inv.connections_of_step step
  constructor
  · exact inv.step step
  · intro c mem
    rcases grows c mem with old | new
    · obtain ⟨u, inside, output⟩ := history.origin c old
      exact ⟨u, List.mem_append_left _ inside, output⟩
    · exact ⟨_, List.mem_append_right _ (List.mem_singleton_self _), new⟩
  · intro u mem c output
    rcases List.mem_append.mp mem with old | new
    · exact history.opened u old c output
    · cases List.mem_singleton.mp new
      simp only at output
      subst output
      exact (inv.returned_of_step step).2 c rfl
  · intro u mem o' output
    rcases List.mem_append.mp mem with old | new
    · exact history.counted u old o' output
    · cases List.mem_singleton.mp new
      simp only at output
      subst output
      exact (inv.returned_of_step step).1
  · -- a closed connection stays closed, and only an open one becomes idle
    have stays : ∀ c, c ∈ s.closed → c ∉ s.pool.state.connections →
        c ∈ t.closed ∧ c ∉ t.pool.state.connections := by
      intro c closed notIdle
      refine ⟨closed_of_step step c closed, fun idle => ?_⟩
      rcases grows c idle with old | new
      · exact notIdle old
      · subst new
        exact (inv.returned_of_step step).2 c rfl closed
    intro u mem c marks
    rcases List.mem_append.mp mem with old | new
    · obtain ⟨closed, notIdle⟩ := history.broken u old c marks
      exact stays c closed notIdle
    · cases List.mem_singleton.mp new
      obtain ⟨i, x, rfl, at_i, holds⟩ := marks
      simp only [next, at_i, Option.map_some, Option.some.injEq, Prod.mk.injEq] at h
      obtain ⟨rfl, rfl⟩ := h
      refine ⟨List.mem_append_right _ (by simp [holds]), ?_⟩
      exact inv.leased_not_idle (List.mem_of_getElem? at_i) holds

end LeaseSystem

/-- In every run of the pool and its leases: the idle counter is the length of the
idle list, the active counter is the number of leases and of connections in
transit, their sum respects the maximum, every connection created so far is in
exactly one place, every idle connection was open when it was put back, a
connection marked broken is not idle afterwards, and no return finds the active
counter at 0. -/
theorem connection_pool_conservation (cfg : PoolConfig) {s₀ s : LeaseSystem}
    {ts : List (Transition LeaseSystem LeaseEvent LeaseOutput)}
    (init : (leaseMachine cfg).init s₀) (run : (leaseMachine cfg).Run s₀ ts s) :
    s.pool.state.idleConnections = s.pool.state.connections.length ∧
    s.pool.state.activeConnections = s.handles.countP (·.poolState) + s.transit.length ∧
    s.pool.state.idleConnections + s.pool.state.activeConnections ≤ cfg.maxConnections ∧
    (s.pool.state.connections ++ s.transit ++ s.handles.filterMap (·.connection) ++
      s.destroyed).Perm (List.range s.pool.nextConnection) ∧
    (∀ h ∈ s.handles, h.poolState = h.connection.isSome) ∧
    (∀ c ∈ s.pool.state.connections, ∃ t ∈ ts, t.output = .returned (.putBack c)) ∧
    (∀ t ∈ ts, ∀ c, t.output = .returned (.putBack c) → c ∉ t.before.closed) ∧
    (∀ t ∈ ts, ∀ c, LeaseSystem.MarksBroken t c → c ∉ s.pool.state.connections) ∧
    (∀ t ∈ ts, ∀ o, t.output = .returned o → 0 < t.before.pool.state.activeConnections) := by
  have history : LeaseSystem.History cfg ts s := by
    refine run.history (H := LeaseSystem.History cfg) (LeaseSystem.Start.history init) ?_
    intro ts s e t o history h
    exact LeaseSystem.next_history history h
  have inv := history.inv
  have active := inv.active
  have places := inv.places
  rw [shares_eq] at active places
  refine ⟨inv.ok.idle, active, inv.ok.capacity, ?_, inv.sound, history.origin, history.opened,
    fun t ht c marks => (history.broken t ht c marks).2, history.counted⟩
  rw [← Multiset.coe_eq_coe]
  simp only [← Multiset.coe_add]
  exact places

def twoConnections : PoolConfig := ⟨2, by decide⟩

def LeaseSystem.fresh : LeaseSystem := ⟨⟨⟨[], 0, 0, false⟩, .empty, 0⟩, [], [], [], []⟩

/-- Two leases, a creation that throws in between, a broken lease that is
overwritten by a move assignment, and a self-move: one connection is destroyed,
the other ends in the idle list. -/
def brokenLeaseTrace : List LeaseEvent :=
  [.acquire false true, .construct 0, .acquire true false, .acquire true true, .construct 0,
    .markBroken 0, .moveConstruct 1, .moveAssign 2 2 0, .moveAssign 0 2 0, .acquire false true,
    .destroy 0 0]

theorem connection_pool_conservation_broken_lease :
    ∃ ts s, (leaseMachine twoConnections).exec .fresh brokenLeaseTrace = some (ts, s) ∧
      s.pool.state.connections = [1] ∧ s.transit = [2] ∧ s.destroyed = [0] ∧
      s.pool.state.activeConnections = s.handles.countP (·.poolState) + s.transit.length ∧
      ∀ t ∈ ts, ∀ c, LeaseSystem.MarksBroken t c → c ∉ s.pool.state.connections := by
  have h : (leaseMachine twoConnections).exec .fresh brokenLeaseTrace = some (_, _) := rfl
  obtain ⟨_, active, _, _, _, _, _, broken, _⟩ :=
    connection_pool_conservation twoConnections ⟨rfl, rfl, rfl, rfl, rfl, rfl, rfl⟩
      (Machine.Run.of_exec h)
  exact ⟨_, _, h, rfl, rfl, rfl, active, broken⟩

end Rtl.Db
