import Rtl.Ws.Outbox

/-! # The states of a session in their order

A session should pass through opening, open, shutdown, closing and closed in this
order. The handlers check the state when a lambda is posted, if at all, and assign it
when the lambda runs: a session goes back exactly when the handshake succeeds or is
refused too late, or a shutdown posted earlier runs after the session began to close.
-/

namespace Rtl.Ws

open Rtl.Base

def SessionState.rank : SessionState → Nat
  | .opening => 0
  | .opened => 1
  | .shutdown => 2
  | .closing => 3
  | .closed => 4

theorem SessionState.rank_le_closed (state : SessionState) : state.rank ≤ SessionState.closed.rank := by
  cases state <;> decide

theorem SessionState.eq_closed_of_rank {state : SessionState}
    (h : SessionState.closed.rank ≤ state.rank) : state = .closed := by
  cases state with
  | closed => rfl
  | opening | opened | shutdown | closing => exact absurd h (by decide)

/-- The states from which the handler of an operation does not go back. -/
def Pending.MovesForward (verdict : GateVerdict) (outcome : Outcome) (state : SessionState) :
    Pending → Prop
  | .httpRead => outcome = .success → verdict = .refuse → state ≠ .closed
  | .wsAccept => outcome = .success → state = .opening ∨ state = .opened
  | .closeForShutdown => state ≠ .closing ∧ state ≠ .closed
  | _ => True

namespace Outbox

variable {cfg : WsConfig} {b : Outbox} {verdict : GateVerdict} {outcome : Outcome} {p : Pending}

@[simp] theorem enqueue_state (b : Outbox) (isBinary : Bool) (data : List UInt8) :
    (b.enqueue cfg isBinary data).state = b.state := by
  apply enqueue_cases (P := fun c => c.state = b.state)
  · rfl
  · simp
  · rfl
  · simp [push]

/-- One handler: where it goes forward, state by state. -/
theorem rank_le_handle_iff :
    b.state.rank ≤ (b.handle cfg verdict outcome p).state.rank ↔
      p.MovesForward verdict outcome b.state := by
  have last := b.state.rank_le_closed
  cases p with
  | httpRead =>
      by_cases ok : outcome = .success
      · cases verdict with
        | refuse =>
            simp only [handle, Pending.MovesForward, ok, if_true, true_implies]
            cases b.state <;> decide
        | accept | throw => simp [handle, Pending.MovesForward, ok]
      · simp [handle, Pending.MovesForward, ok, last]
  | wsAccept =>
      by_cases ok : outcome = .success
      · simp only [handle, Pending.MovesForward, ok, if_true, true_implies]
        cases b.state <;> decide
      · simp [handle, Pending.MovesForward, ok, last]
  | closeForShutdown =>
      simp only [handle, Pending.MovesForward, drain_state]
      cases b.state <;> decide
  | closeForcefully =>
      simp only [handle, Pending.MovesForward, iff_true]
      split
      · exact Nat.le_refl _
      · rename_i alive
        cases state : b.state <;> simp_all [SessionState.rank]
  | close =>
      simp only [handle, Pending.MovesForward, iff_true]
      cases state : b.state <;> simp [SessionState.late, SessionState.rank, state]
  | wsRead =>
      simp only [handle, Pending.MovesForward, iff_true]
      split
      · exact Nat.le_refl _
      · exact last
  | write m =>
      simp only [handle, Pending.MovesForward, iff_true]
      split
      · simp
      · exact last
  | drain m =>
      simp only [handle, Pending.MovesForward, iff_true]
      split <;> simp
  | wsClose =>
      simp only [handle, Pending.MovesForward, iff_true]
      split
      · exact Nat.le_refl _
      · exact last
  | rejectWrite status message => simpa [handle, Pending.MovesForward] using last
  | enqueue isBinary data => simp [handle, Pending.MovesForward]
  | idleWait | drainWait | heartbeatWait | ping => simp [handle, Pending.MovesForward]

end Outbox

namespace Session

variable {ν : Type*} {cfg : WsConfig} {s t : Session} {e : SessionEvent ν} {notes : List ν}

/-- No handshake ends in a session that has gone further, and no shutdown runs in one
that is closing or closed. -/
def MovesForward (s : Session) : SessionEvent ν → Prop
  | .complete k outcome input router => ∀ p rest, pickAt s.pending k = some (p, rest) →
      p.MovesForward (router.verdict (s.requestContext.setHttpRequest input.request)) outcome
        s.curState
  | _ => True

theorem rank_le_next_iff (h : s.next cfg e = some (t, notes)) :
    s.curState.rank ≤ t.curState.rank ↔ s.MovesForward e := by
  rcases outbox_next h with ⟨same, other⟩ | ⟨k, outcome, input, router, p, rest, rfl, picked, after⟩
  · have kept : t.curState = s.curState := congrArg Outbox.state same
    cases e with
    | call | pong => simp [MovesForward, kept]
    | complete k outcome input router => exact absurd rfl (other k outcome input router)
  · have state : t.curState = _ := congrArg Outbox.state after
    rw [state]
    refine Iff.trans (Outbox.rank_le_handle_iff (b := ({ s with pending := rest } : Session).outbox)) ?_
    constructor
    · intro forward q others picked'
      cases picked.symm.trans picked'
      exact forward
    · intro forward
      exact forward p rest picked

end Session

/-- In a run every step moves forward if and only if no handshake ends too late and no
shutdown runs in a session that is closing or closed. In such a run the states of
any two moments are in their order, and a closed session stays closed. -/
theorem session_moves_forward_iff {ν : Type*} (cfg : WsConfig) {s₀ s : Session}
    {ts : List (Transition Session (SessionEvent ν) (List ν))}
    (run : (sessionMachine cfg).Run s₀ ts s) :
    ((∀ t ∈ ts, t.before.curState.rank ≤ t.after.curState.rank) ↔
      ∀ t ∈ ts, t.before.MovesForward t.event) ∧
    ((∀ t ∈ ts, t.before.MovesForward t.event) → ∀ us vs ws u v, ts = us ++ vs ++ ws →
      (sessionMachine cfg).Run s₀ us u → (sessionMachine cfg).Run u vs v →
      u.curState.rank ≤ v.curState.rank ∧ (u.curState = .closed → v.curState = .closed)) := by
  constructor
  · apply forall₂_congr
    intro t ht
    obtain ⟨_, _, _, takes⟩ := run.mem_prefix ht
    exact Session.rank_le_next_iff takes
  · rintro forward us vs ws u v rfl _ later
    have order : u.curState.rank ≤ v.curState.rank := by
      apply later.invariant_of_guard (I := fun w => u.curState.rank ≤ w.curState.rank)
        (G := Session.MovesForward)
      · intro t ht
        exact forward t (by simp [ht])
      · exact Nat.le_refl _
      · intro w e w' notes le guard h
        exact Nat.le_trans le ((Session.rank_le_next_iff h).mpr guard)
    refine ⟨order, ?_⟩
    intro closed
    rw [closed] at order
    exact SessionState.eq_closed_of_rank order

/-- Handshake, a close from the application, and the end of the close. -/
def closeTrace : List (SessionEvent Unit) :=
  [.complete 0 .success {} {}, .complete 0 .success {} {}, .call .close, .complete 4 .success {} {},
    .complete 4 .success {} {}]

theorem closeTrace_moves_forward :
    ∃ ts s, (sessionMachine defaultConfig).exec (Session.start none) closeTrace = some (ts, s) ∧
      s.curState = .closed ∧ ∀ t ∈ ts, t.before.curState.rank ≤ t.after.curState.rank := by
  have h : (sessionMachine defaultConfig).exec (Session.start none) closeTrace = some (_, _) := rfl
  refine ⟨_, _, h, rfl, (session_moves_forward_iff defaultConfig (Machine.Run.of_exec h)).1.mpr ?_⟩
  intro t ht
  simp only [List.mem_cons, List.not_mem_nil, or_false] at ht
  rcases ht with rfl | rfl | rfl | rfl | rfl
  · intro p rest picked
    cases picked
    intro _ _ closed
    cases closed
  · intro p rest picked
    cases picked
    intro _
    exact .inl rfl
  · trivial
  · intro p rest picked
    cases picked
    trivial
  · intro p rest picked
    cases picked
    trivial

/-- A shutdown is posted while the session is open. Before it runs the client goes
away and the session is closed; the shutdown then takes it back. -/
theorem late_shutdown_reopens_closed_session :
    ∃ ts v us s, (sessionMachine (ν := Unit) defaultConfig).exec (Session.start none)
        [.complete 0 .success {} {}, .complete 0 .success {} {}, .call .closeForShutdown,
          .complete 3 .failed {} {}] = some (ts, v) ∧
      (sessionMachine (ν := Unit) defaultConfig).exec v [.complete 3 .success {} {}] = some (us, s) ∧
      v.curState = .closed ∧ s.curState = .shutdown := by
  exact ⟨_, _, _, _, rfl, rfl, rfl, rfl⟩

end Rtl.Ws
