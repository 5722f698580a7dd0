import Rtl.Db.PoolState

/-! # Wake-ups of parked acquirers

`return_connection` notifies one acquirer for each place it frees, and an acquirer
that resumes uses the place up, unless creating its connection throws. It then
leaves without passing its notification on. The invariant counts the places that
could be given out against the notified acquirers; the throwing creation is the
only step that can break it.
-/

namespace Rtl.Db

open Rtl.Base

/-! ## The pool and its clients -/

structure PoolClients where
  pool : PoolSystem
  leased : Nat
  deriving Repr, DecidableEq

def PoolStateOutput.leases : PoolStateOutput → Nat
  | .acquired _ => 1
  | _ => 0

namespace PoolClients

/-- The clients' view of a step: who acquires holds one connection more, and only
a client that holds one returns one. -/
def next (cfg : PoolConfig) (s : PoolClients) (e : PoolStateEvent) :
    Option (PoolClients × PoolStateOutput) :=
  match e with
  | .returnConnection _ _ =>
      if 0 < s.leased then
        (s.pool.next cfg e).map fun r => (⟨r.1, s.leased - 1⟩, r.2)
      else none
  | _ => (s.pool.next cfg e).map fun r => (⟨r.1, s.leased + r.2.leases⟩, r.2)

def Start (cfg : PoolConfig) (s : PoolClients) : Prop :=
  PoolState.create cfg = .ok s.pool.state ∧ s.pool.cond = .empty ∧ s.pool.nextConnection = 0 ∧
    s.leased = 0

end PoolClients

def poolClientsMachine (cfg : PoolConfig) :
    Machine PoolClients PoolStateEvent PoolStateOutput where
  init := PoolClients.Start cfg
  next := PoolClients.next cfg

namespace PoolClients

/-- If an acquirer is parked, at least as many acquirers have been notified and
have not taken the lock again as connections could be given out. -/
def NoLostAcquirer (cfg : PoolConfig) (s : PoolClients) : Prop :=
  s.pool.cond.parked ≠ [] → s.pool.state.available cfg ≤ s.pool.cond.notified.length

/-- A notified acquirer resumes, has to create its connection and the creation
throws, while others are parked and the notified ones are just enough. -/
def DropsNotification (cfg : PoolConfig) (s : PoolClients) : PoolStateEvent → Prop
  | .resumes .notified k _ false =>
      k < s.pool.cond.notified.length ∧ s.pool.state.connections = [] ∧
      s.pool.cond.parked ≠ [] ∧ s.pool.cond.notified.length ≤ s.pool.state.available cfg
  | _ => False

structure WakeInv (cfg : PoolConfig) (s : PoolClients) : Prop where
  ok : s.pool.state.Ok cfg
  leased : s.leased = s.pool.state.activeConnections
  covered : s.NoLostAcquirer cfg

variable {cfg : PoolConfig} {s t : PoolClients} {e : PoolStateEvent} {o : PoolStateOutput}

theorem Start.wakeInv (start : s.Start cfg) : s.WakeInv cfg := by
  obtain ⟨created, cond, _, leased⟩ := start
  have state := (PoolState.create_ok created).1
  constructor
  · rw [state]
    exact ⟨rfl, by simp, rfl⟩
  · rw [state, leased]
  · intro parked
    rw [cond] at parked
    exact absurd rfl parked

/-- The clients' step is a step of the pool, and returning needs a lease. -/
theorem pool_step (inv : s.WakeInv cfg) (h : s.next cfg e = some (t, o)) :
    s.pool.Step cfg e t.pool o ∧
    (∀ returned pick, e = .returnConnection returned pick →
      0 < s.pool.state.activeConnections ∧ t.leased = s.leased - 1) ∧
    ((∀ returned pick, e ≠ .returnConnection returned pick) →
      t.leased = s.leased + o.leases) := by
  cases e with
  | returnConnection returned pick =>
      simp only [next] at h
      by_cases held : 0 < s.leased
      · rw [if_pos held] at h
        obtain ⟨⟨p, o'⟩, step, h⟩ := Option.map_eq_some_iff.mp h
        cases h
        refine ⟨PoolSystem.step_of_next inv.ok step, fun _ _ _ => ⟨?_, rfl⟩, fun none => ?_⟩
        · rw [← inv.leased]
          exact held
        · exact absurd rfl (none returned pick)
      · rw [if_neg held] at h
        cases h
  | acquire timed creates | wakes k | resumes cause k timedOut creates =>
      obtain ⟨⟨p, o'⟩, step, h⟩ := Option.map_eq_some_iff.mp h
      cases h
      exact ⟨PoolSystem.step_of_next inv.ok step, by simp, fun _ => rfl⟩

theorem next_ok (inv : s.WakeInv cfg) (h : s.next cfg e = some (t, o)) :
    t.pool.state.Ok cfg ∧ t.leased = t.pool.state.activeConnections := by
  obtain ⟨step, back, forth⟩ := pool_step inv h
  have leased := inv.leased
  obtain ⟨pool, held⟩ := t
  cases step with
  | acquires arrives grab =>
      have more := forth (by intro r p; cases arrives <;> simp)
      exact ⟨inv.ok.grab grab, by rw [more, grab.active, leased]; rfl⟩
  | creationThrows arrives =>
      have same := forth (by intro r p; cases arrives <;> simp)
      exact ⟨inv.ok, by rw [same, leased]; rfl⟩
  | parks arrives =>
      have same := forth (by intro r p; cases arrives <;> simp)
      exact ⟨inv.ok, by rw [same, leased]; rfl⟩
  | timesOut => exact ⟨inv.ok, by rw [forth (by simp), leased]; rfl⟩
  | wakes => exact ⟨inv.ok, by rw [forth (by simp), leased]; rfl⟩
  | returns returned pick =>
      obtain ⟨out, fewer⟩ := back returned pick rfl
      obtain ⟨_, _, state⟩ := PoolSystem.returnConnection_state inv.ok out returned pick
      exact ⟨PoolSystem.Ok.returnConnection inv.ok out returned pick, by rw [fewer, state, leased]⟩

/-- The notified acquirers lose at most the one that arrives. -/
theorem arrives_cond {p : PoolSystem} {a : Acquirer} {creates : Bool} {cv : CondVar Acquirer}
    (arrives : p.Arrives a creates e cv) :
    cv.parked = p.cond.parked ∧ p.cond.notified.length ≤ cv.notified.length + 1 := by
  cases arrives with
  | called => exact ⟨rfl, by omega⟩
  | @resumed cause _ _ _ resumed =>
      obtain ⟨parked, _, fewer⟩ := CondVar.resume_spec resumed
      refine ⟨parked, ?_⟩
      cases cause <;> simp at fewer <;> omega

/-- A creation that throws is covered unless it drops a notification. -/
theorem arrives_covered {a : Acquirer} {cv : CondVar Acquirer}
    (arrives : s.pool.Arrives a false e cv) (empty : s.pool.state.connections = [])
    (covered : s.NoLostAcquirer cfg) :
    (cv.parked ≠ [] → s.pool.state.available cfg ≤ cv.notified.length) ↔
      ¬ s.DropsNotification cfg e := by
  cases arrives with
  | called => simpa [DropsNotification, NoLostAcquirer] using covered
  | @resumed cause k timedOut _ resumed =>
      obtain ⟨parked, _, fewer⟩ := CondVar.resume_spec resumed
      rw [parked]
      cases cause with
      | woken =>
          simp only [reduceCtorEq, if_false, Nat.add_zero] at fewer
          simpa [DropsNotification, NoLostAcquirer, ← fewer] using covered
      | notified =>
          have inside : k < s.pool.cond.notified.length := by
            by_contra outside
            have missing : s.pool.cond.notified[k]? = none := List.getElem?_eq_none (by omega)
            simp [CondVar.resume, pickAt, missing] at resumed
          simp only [if_true] at fewer
          simp only [DropsNotification, inside, empty, true_and, not_and, Nat.not_le]
          constructor <;> intro enough waits <;> have := enough waits <;> omega

/-- A notification can only be dropped by an acquirer that has to create its
connection and fails. -/
theorem DropsNotification.spec (drops : s.DropsNotification cfg e) :
    s.pool.state.connections = [] ∧ 0 < s.pool.state.available cfg ∧
      ∃ k timedOut, e = .resumes .notified k timedOut false := by
  unfold DropsNotification at drops
  split at drops
  · obtain ⟨inside, empty, _, few⟩ := drops
    exact ⟨empty, by omega, _, _, rfl⟩
  · exact drops.elim

/-- Every step but a dropped notification keeps the acquirers covered, and that
one uncovers them. -/
theorem next_covered (inv : s.WakeInv cfg) (h : s.next cfg e = some (t, o)) :
    t.NoLostAcquirer cfg ↔ ¬ s.DropsNotification cfg e := by
  obtain ⟨ok, leased⟩ := next_ok inv h
  obtain ⟨step, back, _⟩ := pool_step inv h
  have covered := inv.covered
  have avail := inv.ok.available_eq
  have avail' := ok.available_eq
  obtain ⟨pool, held⟩ := t
  cases step with
  | acquires arrives grab =>
      have active := grab.active
      obtain ⟨parked, notified⟩ := arrives_cond arrives
      refine iff_of_true ?_ ?_
      · intro waits
        have enough := covered (parked ▸ waits)
        simp only at avail' active ⊢
        omega
      · intro drops
        obtain ⟨empty, _, k, timedOut, rfl⟩ := drops.spec
        cases arrives
        cases grab with
        | idle last => exact absurd (last.symm.trans empty) (by simp)
  | creationThrows arrives empty room => exact arrives_covered arrives empty covered
  | parks arrives none =>
      refine iff_of_true (fun _ => by simp only [none]; omega) ?_
      exact fun drops => absurd none (Nat.ne_of_gt drops.spec.2.1)
  | timesOut resumed none =>
      refine iff_of_true (fun _ => by simp only [none]; omega) ?_
      exact fun drops => absurd none (Nat.ne_of_gt drops.spec.2.1)
  | wakes woken =>
      obtain ⟨i, rest, parked, rfl⟩ := CondVar.wake_spec woken
      refine iff_of_true (fun waits => covered ?_) (fun drops => drops)
      intro nil
      rw [nil] at parked
      exact absurd parked.length_eq (by simp)
  | returns returned pick =>
      obtain ⟨out, _⟩ := back returned pick rfl
      obtain ⟨cond, _, state⟩ := PoolSystem.returnConnection_state inv.ok out returned pick
      refine iff_of_true ?_ (fun drops => drops)
      intro waits
      simp only [state, cond] at avail' waits ⊢
      rcases s.pool.cond.notifyOne_cases pick with ⟨nil, same⟩ | ⟨i, rest, parked, moved⟩
      · rw [same] at waits
        exact absurd nil waits
      · have enough := covered (by intro nil; rw [nil] at parked; exact absurd parked.length_eq (by simp))
        rw [moved]
        simp only [List.length_append, List.length_singleton]
        omega

theorem next_wakeInv (inv : s.WakeInv cfg) (kept : ¬ s.DropsNotification cfg e)
    (h : s.next cfg e = some (t, o)) : t.WakeInv cfg := by
  obtain ⟨ok, leased⟩ := next_ok inv h
  exact ⟨ok, leased, (next_covered inv h).mpr kept⟩

end PoolClients

/-- A run strands no parked acquirer if and only if no step of it drops a
notification. -/
theorem pool_no_lost_acquirer_iff (cfg : PoolConfig) {s₀ s : PoolClients}
    {ts : List (Transition PoolClients PoolStateEvent PoolStateOutput)}
    (init : (poolClientsMachine cfg).init s₀) (run : (poolClientsMachine cfg).Run s₀ ts s) :
    (∀ v, Machine.Visits s₀ ts v → v.NoLostAcquirer cfg) ↔
      ∀ t ∈ ts, ¬ t.before.DropsNotification cfg t.event := by
  refine run.always_iff_guard (I := (·.WakeInv cfg)) (P := (·.NoLostAcquirer cfg))
    (G := fun s e => ¬ s.DropsNotification cfg e) ?_ ?_ ?_ ?_
  · exact PoolClients.Start.wakeInv init
  · intro s e t o inv kept h
    exact PoolClients.next_wakeInv inv kept h
  · intro s inv
    exact inv.covered
  · intro s e t o inv dropped h covered
    exact dropped ((PoolClients.next_covered inv h).mp covered)

def oneConnection : PoolConfig := ⟨1, by decide⟩

def PoolClients.fresh : PoolClients := ⟨⟨⟨[], 0, 0, false⟩, .empty, 0⟩, 0⟩

/-- With one connection at most, two acquirers park, the connection comes back
open and the notified acquirer takes it. -/
theorem pool_no_lost_acquirer_served :
    ∃ ts s, (poolClientsMachine oneConnection).exec .fresh
        [.acquire false true, .acquire false true, .acquire true true,
          .returnConnection (.opened 0) 0, .resumes .notified 0 false true] = some (ts, s) ∧
      s.pool.cond.parked = [⟨true⟩] ∧ s.leased = 1 ∧
      ∀ v, Machine.Visits .fresh ts v → v.NoLostAcquirer oneConnection := by
  refine ⟨_, _, rfl, rfl, rfl, ?_⟩
  have h : (poolClientsMachine oneConnection).exec .fresh
    [.acquire false true, .acquire false true, .acquire true true,
      .returnConnection (.opened 0) 0, .resumes .notified 0 false true] = some (_, _) := rfl
  refine (pool_no_lost_acquirer_iff oneConnection ⟨rfl, rfl, rfl, rfl⟩
    (Machine.Run.of_exec h)).mpr ?_
  intro t ht
  have kept := Machine.exec_forall_event
    (G := fun e => ∀ s, ¬ PoolClients.DropsNotification oneConnection s e) h
    (by simp [PoolClients.DropsNotification])
  exact kept t ht t.before

/-- The connection comes back closed and one of two parked acquirers is notified.
Creating its connection throws, and the other stays parked for good although a
connection could be created. -/
theorem pool_failed_creation_strands_acquirer :
    ∃ ts s, (poolClientsMachine oneConnection).exec .fresh
        [.acquire false true, .acquire false true, .acquire false true,
          .returnConnection (.closed 0) 0, .resumes .notified 0 false false] = some (ts, s) ∧
      (poolClientsMachine oneConnection).Reachable s ∧
      s.pool.cond.parked = [⟨false⟩] ∧ s.pool.cond.notified = [] ∧
      s.pool.state.available oneConnection = 1 ∧ ¬ s.NoLostAcquirer oneConnection := by
  have h : (poolClientsMachine oneConnection).exec .fresh
    [.acquire false true, .acquire false true, .acquire false true,
      .returnConnection (.closed 0) 0, .resumes .notified 0 false false] = some (_, _) := rfl
  refine ⟨_, _, h, (Machine.Run.of_exec h).reachable ⟨rfl, rfl, rfl, rfl⟩, rfl, rfl, rfl, ?_⟩
  intro kept
  exact absurd (kept (List.cons_ne_nil _ _)) (by decide)

end Rtl.Db
