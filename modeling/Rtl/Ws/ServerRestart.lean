import Rtl.Ws.ServerStop

/-! # Sessions after the stop request, and a second start

The stop flag is looked at before a connection is handed over and before the next accept, not with
it, so that a session may still be made after the flag is set; there is at most one for each accept
that was going on. The io context is stopped for good: after another `start` no timer goes off and
no session closes, and a call of `stop` that finds a session waits for ever. Once a call of `stop` has
joined the io threads, none of their handlers takes a step any more.
-/

namespace Rtl.Ws

open Rtl.Base

namespace WsServer

variable {cfg : WsConfig} {s t u : WsServer} {i j : Nat}

/-! ## What a step does to the engine -/

/-- The state of `WsEngine`; `made` counts the sessions it has made. -/
structure EngineSide where
  stopRequested : Bool
  ioStopped : Bool
  accepts : List AcceptAt
  made : Nat

def engineSide (s : WsServer) : EngineSide :=
  ⟨s.stopRequested, s.ioStopped, s.accepts, s.peers.length⟩

inductive EngineMove (s t : WsServer) : Prop where
  | same (side : t.engineSide = s.engineSide)
  | flag (requested : Bool) (side : t.engineSide = { s.engineSide with stopRequested := requested })
  | stopIo (side : t.engineSide = { s.engineSide with ioStopped := true })
  | listen (side : t.engineSide = { s.engineSide with accepts := s.accepts ++ [.waiting] })
  | accept {j : Nat} {at_ at_' : AcceptAt} (at_j : s.accepts[j]? = some at_)
      (old : at_ ≠ .client) (checked : at_' = .client → s.stopRequested = false)
      (side : t.engineSide = { s.engineSide with accepts := s.accepts.set j at_' })
  | make {j : Nat} (at_j : s.accepts[j]? = some .client)
      (side : t.engineSide = { s.engineSide with
        accepts := s.accepts.set j .beforeAccept, made := s.peers.length + 1 })
  | finish {j : Nat} {at_ : AcceptAt} (at_j : s.accepts[j]? = some at_)
      (old : at_ ≠ .client)
      (side : t.engineSide = { s.engineSide with accepts := s.accepts.eraseIdx j })

theorem callSession_engineSide (s : WsServer) (i : Nat) (c : Call) :
    (s.callSession i c).engineSide = s.engineSide := by
  obtain ⟨peers, length, same⟩ := callSession_frame s i c
  simp [engineSide, same, length]

theorem test_engineSide (s : WsServer) (j : Nat) : (s.test j).engineSide = s.engineSide := by
  obtain ⟨sessions, cv, callers, same⟩ := test_frame s j
  rw [same]
  rfl

theorem startStep_engineMove {at_ : StartAt} (h : s.startStep j at_ = some t) : EngineMove s t := by
  cases at_ with
  | enter | leave =>
      obtain ⟨-, rfl⟩ := locked_eq_some.mp h
      exact .same rfl
  | allowAccepts =>
      cases h
      exact .flag false rfl
  | accept =>
      cases h
      exact .listen rfl
  | runIo =>
      cases h
      exact .same rfl

theorem stopStep_engineMove {at_ : StopAt} (h : s.stopStep j at_ = some t) : EngineMove s t := by
  cases at_ with
  | enter =>
      obtain ⟨-, rfl⟩ := locked_eq_some.mp h
      split <;> exact .same rfl
  | look | collect | leave =>
      obtain ⟨-, rfl⟩ := locked_eq_some.mp h
      exact .same rfl
  | test =>
      obtain ⟨-, rfl⟩ := locked_eq_some.mp h
      exact .same (test_engineSide s j)
  | close targets =>
      cases targets with
      | nil =>
          cases h
          exact .same rfl
      | cons i rest =>
          cases h
          exact .same (callSession_engineSide s i .closeForShutdown)
  | requestStop =>
      cases h
      exact .flag true rfl
  | stopIo =>
      cases h
      exact .stopIo rfl
  | joinIo =>
      obtain ⟨-, rfl⟩ := joinIo_eq_some h
      exact .same rfl
  | clearWait | arm | disarm =>
      cases h
      exact .same rfl
  | asleep => cases h

theorem acceptStep_engineMove {failed : Bool} {remote : Option (String × UInt16)} {at_ : AcceptAt}
    (at_j : s.accepts[j]? = some at_) (h : s.acceptStep j failed remote at_ = some t) :
    EngineMove s t := by
  cases at_ with
  | waiting =>
      simp only [acceptStep] at h
      split at h
      · cases h
      · split at h
        · cases h
          exact .finish at_j (by simp) rfl
        · cases h
          refine .accept at_j (by simp) ?_ rfl
          split <;> simp
  | beforeClient =>
      cases h
      refine .accept at_j (by simp) ?_ rfl
      split <;> simp_all
  | client =>
      cases h
      refine .make at_j ?_
      simp [engineSide]
  | beforeAccept =>
      simp only [acceptStep] at h
      split at h
      · cases h
        exact .finish at_j (by simp) rfl
      · cases h
        exact .accept at_j (by simp) (by simp) rfl
  | again =>
      cases h
      exact .accept at_j (by simp) (by simp) rfl

theorem handlerStep_engineSide {at_ : DrainAt} (h : s.handlerStep j at_ = some t) :
    t.engineSide = s.engineSide := by
  cases at_ with
  | collect =>
      obtain ⟨-, rfl⟩ := locked_eq_some.mp h
      rfl
  | close targets =>
      cases targets with
      | nil =>
          cases h
          rfl
      | cons i rest =>
          cases h
          exact callSession_engineSide s i .closeForcefully

theorem broadcastNext_engineSide (h : s.broadcastNext = some t) : t.engineSide = s.engineSide := by
  obtain ⟨lock, peers, length, rfl⟩ := broadcastNext_frame h
  simp [engineSide, length]

theorem sessionStep_engineSide {e : SessionEvent Unit} {notes : List (Nat × RegistryNote)}
    (h : s.sessionStep cfg i e = some (t, notes)) : t.engineSide = s.engineSide := by
  obtain ⟨peers, sessions, notifiers, length, rfl⟩ := sessionStep_frame h
  simp [engineSide, length]

theorem broadcast_engineSide {isBinary : Bool} {data : List UInt8}
    (h : s.broadcast isBinary data = some t) : t.engineSide = s.engineSide := by
  obtain ⟨-, rfl⟩ := locked_eq_some.mp h
  split <;> rfl

theorem expire_engineSide (h : s.expire i = some t) : t.engineSide = s.engineSide := by
  obtain ⟨peer, -, -, rfl⟩ := expire_spec h
  simp [engineSide]

theorem next_engineMove {e : WsServerEvent} {notes : List (Nat × RegistryNote)}
    (h : s.next cfg e = some (t, notes)) : EngineMove s t := by
  cases next_step h with
  | call | wake | timer | notify => exact .same rfl
  | start _ taken => exact startStep_engineMove taken
  | stop _ taken => exact stopStep_engineMove taken
  | resume => exact .same (test_engineSide _ _)
  | accept at_j taken => exact acceptStep_engineMove at_j taken
  | handler _ taken => exact .same (handlerStep_engineSide taken)
  | broadcast taken => exact .same (broadcast_engineSide taken)
  | broadcastNext taken => exact .same (broadcastNext_engineSide taken)
  | session _ taken => exact .same (sessionStep_engineSide taken)
  | expire taken => exact .same (expire_engineSide taken)

/-! ## Sessions made after the stop request -/

/-- The accept handlers that are past the check before `handler_client`. -/
def clients (s : WsServer) : Nat := s.accepts.countP (· == .client)

/-- While the flag is set, a session is made only by a handler that was past the check. -/
theorem EngineMove.made_le (step : EngineMove s t) (requested : s.stopRequested = true) :
    t.peers.length + t.clients ≤ s.peers.length + s.clients := by
  have made : t.peers.length = t.engineSide.made := rfl
  have accepts : t.accepts = t.engineSide.accepts := rfl
  unfold clients
  rw [made, accepts]
  cases step with
  | same side | flag _ side | stopIo side =>
      rw [side]
      exact Nat.le_refl _
  | listen side =>
      rw [side]
      have counted := countP_concat (· == AcceptAt.client) s.accepts .waiting
      simp only [engineSide]
      rw [counted]
      exact Nat.le_refl _
  | @accept j at_ at_' at_j old checked side =>
      rw [side]
      have counted := countP_set_at (· == AcceptAt.client) at_' at_j
      have new : (at_' == AcceptAt.client) = false := by
        by_contra client
        rw [checked (by simpa using client)] at requested
        cases requested
      simp only [engineSide, new, Bool.toNat_false] at counted ⊢
      omega
  | make at_j side =>
      rw [side]
      have counted := countP_set_at (· == AcceptAt.client) AcceptAt.beforeAccept at_j
      have new : (AcceptAt.beforeAccept == AcceptAt.client) = false := rfl
      simp only [new, beq_self_eq_true, Bool.toNat_true, Bool.toNat_false] at counted ⊢
      omega
  | @finish j at_ at_j old side =>
      rw [side]
      have fewer := (List.eraseIdx_sublist s.accepts j).countP_le (p := (· == AcceptAt.client))
      simp only [engineSide]
      omega

def listens (u : Transition WsServer WsServerEvent (List (Nat × RegistryNote))) : Bool :=
  u.before.accepts.length < u.after.accepts.length

theorem EngineMove.accepts_le (step : EngineMove s t) : t.accepts.length ≤ s.accepts.length + 1 := by
  have accepts : t.accepts = t.engineSide.accepts := rfl
  rw [accepts]
  cases step with
  | same side | flag _ side | stopIo side =>
      rw [side]
      exact Nat.le_succ _
  | accept _ _ _ side | make _ side | listen side =>
      rw [side]
      simp
  | @finish j at_ at_j old side =>
      rw [side]
      exact Nat.le_succ_of_le (List.length_eraseIdx_le s.accepts j)

/-- There are no more accepts going on than `run` was called. -/
theorem accepts_le_listens {s₀ : WsServer}
    {ts : List (Transition WsServer WsServerEvent (List (Nat × RegistryNote)))}
    (init : (wsServerMachine cfg).init s₀) (run : (wsServerMachine cfg).Run s₀ ts s) :
    s.accepts.length ≤ ts.countP listens := by
  refine run.history (H := fun ts s => s.accepts.length ≤ ts.countP listens) ?_ ?_
  · rw [show s₀ = create from init]
    exact Nat.le_refl 0
  · intro ts s e t o bound h
    have step := (next_engineMove h).accepts_le
    rw [countP_concat]
    by_cases more : s.accepts.length < t.accepts.length
    · have counted : listens ⟨s, e, o, t⟩ = true := by simpa [listens] using more
      rw [counted, Bool.toNat_true]
      omega
    · omega

end WsServer

/-- While the stop flag is set, no more sessions are made than accept handlers were past the check
before `handler_client`, and of all accepts, wherever they are, there are no more than there were
calls of `run`. -/
theorem sessions_after_stop_request (cfg : WsConfig) {s₀ s t : WsServer}
    {ts us : List (Transition WsServer WsServerEvent (List (Nat × RegistryNote)))}
    (init : (wsServerMachine cfg).init s₀) (before : (wsServerMachine cfg).Run s₀ ts s)
    (after : (wsServerMachine cfg).Run s us t) (requested : ∀ u ∈ us, u.before.stopRequested = true) :
    t.peers.length ≤ s.peers.length + s.clients ∧ s.clients ≤ s.accepts.length ∧
      s.accepts.length ≤ ts.countP WsServer.listens := by
  refine ⟨?_, List.countP_le_length, WsServer.accepts_le_listens init before⟩
  have bound : t.peers.length + t.clients ≤ s.peers.length + s.clients := by
    induction after with
    | refl => exact Nat.le_refl _
    | snoc u _ same takes ih =>
        have prior := ih fun v mem => requested v (List.mem_append_left _ mem)
        have flag := requested u (List.mem_append_right _ (List.mem_singleton_self u))
        have step := (WsServer.next_engineMove takes).made_le flag
        rw [same] at step
        omega
  omega

/-- A connection is accepted, its handler passes the check, and then `stop` sets the flag. -/
def lateTrace : List WsServerEvent :=
  [.start, .caller 0, .caller 0, .caller 0, .caller 0, .caller 0, .accept 0 false none,
    .accept 0 false none, .stop, .caller 1, .caller 1]

theorem sessions_after_stop_request_lateTrace :
    ∃ ts s t, (wsServerMachine defaultConfig).exec .create lateTrace = some (ts, s) ∧
      (wsServerMachine defaultConfig).next s (.accept 0 false none) = some (t, []) ∧
      s.stopRequested = true ∧ t.peers.length = 1 ∧
      t.peers.length ≤ s.peers.length + s.clients ∧ s.clients ≤ s.accepts.length ∧
      s.accepts.length ≤ ts.countP WsServer.listens := by
  have h : (wsServerMachine defaultConfig).exec .create lateTrace = some (_, _) := rfl
  refine ⟨_, _, _, h, rfl, rfl, rfl, ?_⟩
  refine sessions_after_stop_request defaultConfig rfl (.of_exec h)
    (Machine.Run.step .refl (e := .accept 0 false none) rfl) ?_
  intro u mem
  rw [List.mem_singleton.mp mem]
  rfl

/-! ## A second start -/

namespace WsServer

variable {cfg : WsConfig} {s t : WsServer} {i j : Nat}

/-- The io context has been stopped while session `i` had operations outstanding. -/
structure Stranded (i : Nat) (s : WsServer) : Prop where
  stopped : s.ioStopped = true
  flag : s.stopWait = false
  entry : i ∈ s.sessions
  live : s.expired i = false
  busy : s.Busy i

theorem Stranded.idle (stranded : Stranded i s) : s.ioRunning = false := by
  simp [ioRunning, stranded.stopped]

/-- The io context is never restarted. -/
theorem EngineMove.ioStopped (step : EngineMove s t) (stopped : s.ioStopped = true) :
    t.ioStopped = true := by
  show t.engineSide.ioStopped = true
  cases step with
  | stopIo side => rw [side]
  | same side | flag _ side | listen side | accept _ _ _ side | make _ side | finish _ _ side =>
      rw [side]
      exact stopped

/-- Without io threads the flag is not set again. -/
theorem StopMove.stopWait {e : WsServerEvent} (step : StopMove e s t) (idle : s.ioRunning = false)
    (flag : s.stopWait = false) : t.stopWait = false := by
  show t.stopSide.stopWait = false
  cases step with
  | clear _ side => rw [side]
  | ring _ io side =>
      rw [idle] at io
      cases io
  | same side | call _ side | walk _ _ _ side | arm _ side | halt _ _ side | pass _ _ side
  | park _ _ side | wake _ side | rise _ _ side | again _ _ side | handle _ _ side | handled side
  | notify side =>
      rw [side]
      exact flag

/-- Nor does the session leave the registry. -/
theorem Stranded.registry {notes : List (Nat × RegistryNote)} (stranded : Stranded i s)
    (step : RegistryStep s t notes) : i ∈ t.sessions ∧ t.expired i = false ∧ t.Busy i := by
  have kept : PeersKept s t → t.expired i = false ∧ t.Busy i := by
    intro peers
    exact ⟨(peers.expired i).trans stranded.live, peers.busy stranded.idle i stranded.busy⟩
  cases step with
  | same peers sessions _ | pass _ _ peers sessions _ =>
      exact ⟨sessions ▸ stranded.entry, kept peers⟩
  | release peers sessions _ => exact ⟨sessions ▸ stranded.entry, kept (.of_eq peers)⟩
  | tidy peers _ sessions _ =>
      refine ⟨?_, kept (.of_eq peers)⟩
      rw [sessions, mem_removeInvalidSessions]
      exact ⟨stranded.entry, stranded.live⟩
  | join peers sessions _ =>
      obtain ⟨peer, at_i, owns⟩ := stranded.busy
      have there : t.peers[i]? = s.peers[i]? := by
        rw [peers, List.getElem?_append_left (List.getElem?_eq_some_iff.mp at_i).1]
      have live := stranded.live
      simp only [expired, at_i] at live
      refine ⟨sessions ▸ stranded.entry, ?_, peer, there.trans at_i, owns⟩
      simp only [expired, there, at_i, live]
  | @expire k other at_k idle peers sessions _ =>
      obtain ⟨peer, at_i, owns⟩ := stranded.busy
      -- a session with operations outstanding does not end
      have different : k ≠ i := by
        rintro rfl
        rw [at_i] at at_k
        cases at_k
        simp only [owned, owns, Bool.true_or] at idle
        cases idle
      have there : t.peers[i]? = s.peers[i]? := by rw [peers, List.getElem?_set_ne different]
      have live := stranded.live
      simp only [expired, at_i] at live
      refine ⟨sessions ▸ stranded.entry, ?_, peer, there.trans at_i, owns⟩
      simp only [expired, there, at_i, live]
  | opened _ peers _ sessions _ =>
      refine ⟨?_, kept peers⟩
      rw [sessions]
      exact List.mem_append_left _ stranded.entry
  | closed _ io =>
      rw [stranded.idle] at io
      cases io

theorem Stranded.next {e : WsServerEvent} {notes : List (Nat × RegistryNote)}
    (stranded : Stranded i s) (h : s.next cfg e = some (t, notes)) : Stranded i t := by
  obtain ⟨entry, live, busy⟩ := stranded.registry (next_registryStep h)
  exact ⟨(next_engineMove h).ioStopped stranded.stopped,
    (next_stopMove h).stopWait stranded.idle stranded.flag, entry, live, busy⟩

end WsServer

/-- Once the io context is stopped while a registered session has operations outstanding and the
flag of the drain timer has been cleared again, as a second `start` and `stop` do, no call of `stop`
ever gets past its wait. -/
theorem stop_after_restart_waits (cfg : WsConfig) {s t : WsServer} {i : Nat}
    {ts : List (Transition WsServer WsServerEvent (List (Nat × RegistryNote)))}
    (stranded : WsServer.Stranded i s) (run : (wsServerMachine cfg).Run s ts t) :
    ∀ u ∈ ts, ∀ j : Nat, u.before.callers[j]? ≠ some (.stop .disarm) →
      u.after.callers[j]? ≠ some (.stop .disarm) := by
  intro u mem j before after
  obtain ⟨us, -, first, takes⟩ := run.mem_prefix mem
  have here := first.invariant stranded fun s e t o old h => old.next h
  have there : WsServer.Stranded i u.after := here.next takes
  rcases (WsServer.next_stopMove takes).disarms before after with none | flag
  · have entry := there.entry
    rw [none] at entry
    cases entry
  · rw [there.flag] at flag
    cases flag

/-- The server is stopped by the timer while a session is open, with the accept handler ending before
the io threads are joined, and is started and stopped again. -/
def restartTrace : List WsServerEvent :=
  stopTrace ++ [.timer, .handler 0, .handler 0, .handler 0, .resume .notified 0, .caller 1, .caller 1,
    .accept 0 false none, .caller 1, .caller 1, .start, .caller 2, .caller 2, .caller 2, .caller 2,
    .caller 2, .stop, .caller 3, .caller 3, .caller 3, .caller 3, .caller 3, .caller 3, .caller 3]

theorem stop_after_restart_waits_restartTrace :
    ∃ ts s, (wsServerMachine defaultConfig).exec .create restartTrace = some (ts, s) ∧
      s.callers[1]? = some .returned ∧ s.callers[2]? = some .returned ∧
      s.callers[3]? = some (.stop .arm) ∧
      ∀ us t, (wsServerMachine defaultConfig).Run s us t →
        ∀ u ∈ us, u.before.callers[3]? ≠ some (.stop .disarm) →
          u.after.callers[3]? ≠ some (.stop .disarm) := by
  have h : (wsServerMachine defaultConfig).exec .create restartTrace = some (_, _) := rfl
  refine ⟨_, _, h, rfl, rfl, rfl, fun us t run u mem => ?_⟩
  exact stop_after_restart_waits defaultConfig (i := 0) ⟨rfl, rfl, .head _, rfl, _, rfl, rfl⟩ run u mem 3

/-! ## After the io threads are joined -/

/-- The steps of the io threads: handlers of accepts, of the drain timer and of the sessions. -/
def WsServerEvent.onIo : WsServerEvent → Bool
  | .accept _ _ _ | .timer | .handler _ | .notify => true
  | .session _ e => !e.isCall
  | _ => false

namespace WsServer

variable {cfg : WsConfig} {s t : WsServer} {i j : Nat}

/-- Who joins the io threads has stopped their context, or was there before. -/
theorem StopMove.joining {e : WsServerEvent} (step : StopMove e s t) (mem : .stop .joinIo ∈ t.callers) :
    .stop .joinIo ∈ s.callers ∨ t.ioStopped = true := by
  have written : ∀ {k : Nat} {pc : CallerAt}, t.callers = s.callers.set k pc → pc ≠ .stop .joinIo →
      .stop .joinIo ∈ s.callers := by
    intro k pc callers other
    rw [callers] at mem
    exact (List.mem_or_eq_of_mem_set mem).resolve_right other.symm
  cases step with
  | same side | wake _ side | ring _ _ side | handle _ _ side | handled side | notify side =>
      have callers : t.callers = s.callers := congrArg StopSide.callers side
      exact .inl (callers ▸ mem)
  | call passive side =>
      have callers : t.callers = s.callers ++ [_] := congrArg StopSide.callers side
      rw [callers, List.mem_append, List.mem_singleton] at mem
      rcases mem with old | rfl
      · exact .inl old
      · cases passive
  | walk _ _ enters side =>
      refine .inl (written (congrArg StopSide.callers side) ?_)
      rintro rfl
      cases enters
  | halt _ stopped side => exact .inr stopped
  | clear _ side => exact .inl (written (congrArg StopSide.callers side) (by simp))
  | arm _ side => exact .inl (written (congrArg StopSide.callers side) (by simp))
  | pass _ _ side | rise _ _ side => exact .inl (written (congrArg StopSide.callers side) (by simp))
  | park _ _ side | again _ _ side => exact .inl (written (congrArg StopSide.callers side) (by simp))

theorem joining_run {s₀ : WsServer}
    {ts : List (Transition WsServer WsServerEvent (List (Nat × RegistryNote)))}
    (init : (wsServerMachine cfg).init s₀) (run : (wsServerMachine cfg).Run s₀ ts s) :
    .stop .joinIo ∈ s.callers → s.ioStopped = true := by
  refine run.invariant (I := fun s => .stop .joinIo ∈ s.callers → s.ioStopped = true) ?_ ?_
  · rw [show s₀ = create from init]
    intro mem
    cases mem
  · intro s e t o stopped h mem
    rcases (next_stopMove h).joining mem with old | now
    · exact (next_engineMove h).ioStopped (stopped old)
    · exact now

/-- What the io threads are in the middle of. -/
def begun (s : WsServer) : List DrainAt × Nat × List AcceptAt := (s.handlers, s.notifiers, s.accepts)

theorem test_begun (s : WsServer) (j : Nat) : (s.test j).begun = s.begun := by
  obtain ⟨sessions, cv, callers, same⟩ := test_frame s j
  rw [same]
  rfl

theorem stopStep_begun {at_ : StopAt} (h : s.stopStep j at_ = some t) : t.begun = s.begun := by
  cases at_ with
  | enter =>
      obtain ⟨-, rfl⟩ := locked_eq_some.mp h
      split <;> rfl
  | look | collect | leave =>
      obtain ⟨-, rfl⟩ := locked_eq_some.mp h
      rfl
  | test =>
      obtain ⟨-, rfl⟩ := locked_eq_some.mp h
      exact test_begun s j
  | close targets =>
      cases targets with
      | nil =>
          cases h
          rfl
      | cons i rest =>
          cases h
          obtain ⟨peers, -, same⟩ := callSession_frame s i .closeForShutdown
          rw [same]
          rfl
  | joinIo =>
      obtain ⟨-, rfl⟩ := joinIo_eq_some h
      rfl
  | requestStop | clearWait | arm | disarm | stopIo =>
      cases h
      rfl
  | asleep => cases h

/-- The io context is stopped and no io thread is inside a handler. -/
structure AtRest (s : WsServer) : Prop where
  stopped : s.ioStopped = true
  handlers : s.handlers = []
  notifiers : s.notifiers = 0
  waiting : ∀ at_ ∈ s.accepts, at_ = .waiting

namespace AtRest

theorem of_idle (stopped : s.ioStopped = true) (idle : s.ioIdle = true) : AtRest s := by
  simp only [ioIdle, Bool.and_eq_true, List.isEmpty_iff, beq_iff_eq, List.all_eq_true] at idle
  exact ⟨stopped, idle.1.1, idle.1.2, idle.2⟩

theorem ioRunning (rest : AtRest s) : s.ioRunning = false := by
  simp [WsServer.ioRunning, rest.stopped]

theorem acceptStep (rest : AtRest s) {failed : Bool} {remote : Option (String × UInt16)} {at_ : AcceptAt}
    (at_j : s.accepts[j]? = some at_) : s.acceptStep j failed remote at_ = none := by
  rw [rest.waiting at_ (List.mem_of_getElem? at_j)]
  simp [WsServer.acceptStep, rest.ioRunning]

/-- Sessions are only called, and calls tell the server nothing. -/
theorem sessionStep (rest : AtRest s) {e : SessionEvent Unit} {notes : List (Nat × RegistryNote)}
    (h : s.sessionStep cfg i e = some (t, notes)) :
    e.isCall = true ∧ notes = [] ∧ ∃ peers, t = { s with peers := peers } := by
  cases at_i : s.peers[i]? with
  | none => simp [WsServer.sessionStep, at_i] at h
  | some peer =>
      cases e with
      | call c =>
          simp only [WsServer.sessionStep, at_i, SessionEvent.routed, Session.next] at h
          split at h
          · cases h
          · cases h
            exact ⟨rfl, rfl, _, rfl⟩
      | complete k outcome input user =>
          simp [WsServer.sessionStep, at_i, SessionEvent.isCall, rest.ioRunning] at h
      | pong => simp [WsServer.sessionStep, at_i, SessionEvent.isCall, rest.ioRunning] at h

/-- No step is one of the io threads, and none tells the server anything. -/
theorem silent (rest : AtRest s) {e : WsServerEvent} {notes : List (Nat × RegistryNote)}
    (h : s.next cfg e = some (t, notes)) : e.onIo = false ∧ notes = [] := by
  cases e with
  | accept j failed remote =>
      cases at_j : s.accepts[j]? with
      | none => simp [WsServer.next, at_j] at h
      | some at_ => simp [WsServer.next, at_j, rest.acceptStep at_j] at h
  | timer => simp [WsServer.next, timerFires, rest.ioRunning] at h
  | handler j => simp [WsServer.next, rest.handlers] at h
  | notify => simp [WsServer.next, rest.notifiers] at h
  | session i e =>
      obtain ⟨call, none, -⟩ := rest.sessionStep h
      exact ⟨by simp [WsServerEvent.onIo, call], none⟩
  | resume cause k =>
      simp only [WsServer.next] at h
      split at h
      · cases h
      · obtain ⟨u, -, same⟩ := Option.map_eq_some_iff.mp h
        cases same
        exact ⟨rfl, rfl⟩
  | start | stop =>
      cases h
      exact ⟨rfl, rfl⟩
  | caller _ | wake _ | broadcast _ _ | broadcastNext | expire _ =>
      obtain ⟨u, -, same⟩ := Option.map_eq_some_iff.mp h
      cases same
      exact ⟨rfl, rfl⟩

theorem of_begun (rest : AtRest s) (stopped : t.ioStopped = true) (same : t.begun = s.begun) :
    AtRest t := by
  have handlers : t.handlers = s.handlers := congrArg (·.1) same
  have notifiers : t.notifiers = s.notifiers := congrArg (·.2.1) same
  have accepts : t.accepts = s.accepts := congrArg (·.2.2) same
  exact ⟨stopped, handlers.trans rest.handlers, notifiers.trans rest.notifiers, accepts ▸ rest.waiting⟩

theorem startStep (rest : AtRest s) {at_ : StartAt} (stopped : t.ioStopped = true)
    (h : s.startStep j at_ = some t) : AtRest t := by
  cases at_ with
  | enter | leave =>
      obtain ⟨-, rfl⟩ := locked_eq_some.mp h
      exact rest.of_begun stopped rfl
  | allowAccepts | runIo =>
      cases h
      exact rest.of_begun stopped rfl
  | accept =>
      cases h
      refine ⟨stopped, rest.handlers, rest.notifiers, ?_⟩
      intro at_ mem
      rcases List.mem_append.mp mem with old | new
      · exact rest.waiting at_ old
      · exact List.mem_singleton.mp new

theorem next (rest : AtRest s) {e : WsServerEvent} {notes : List (Nat × RegistryNote)}
    (h : s.next cfg e = some (t, notes)) : AtRest t := by
  have stopped := (next_engineMove h).ioStopped rest.stopped
  cases next_step h with
  | call first => exact rest.of_begun stopped rfl
  | start at_j taken => exact rest.startStep stopped taken
  | stop at_j taken => exact rest.of_begun stopped (stopStep_begun taken)
  | wake woken => exact rest.of_begun stopped rfl
  | @resume _ j _ cv resumed free => exact rest.of_begun stopped (test_begun { s with cv := cv } j)
  | accept at_j taken =>
      rw [rest.acceptStep at_j] at taken
      cases taken
  | timer io =>
      rw [rest.ioRunning] at io
      cases io
  | handler at_j taken =>
      rw [rest.handlers] at at_j
      cases at_j
  | notify =>
      refine ⟨stopped, rest.handlers, ?_, rest.waiting⟩
      simp [rest.notifiers]
  | broadcast taken =>
      obtain ⟨-, rfl⟩ := locked_eq_some.mp taken
      refine rest.of_begun stopped ?_
      split <;> rfl
  | broadcastNext taken =>
      obtain ⟨lock, peers, -, rfl⟩ := broadcastNext_frame taken
      exact rest.of_begun stopped rfl
  | session same taken =>
      obtain ⟨-, -, peers, rfl⟩ := rest.sessionStep taken
      exact rest.of_begun stopped rfl
  | expire taken =>
      obtain ⟨peer, -, -, rfl⟩ := expire_spec taken
      exact rest.of_begun stopped rfl

end AtRest

end WsServer

/-- Once a call of `stop` has joined the io threads, no handler of an accept, of the drain timer or of a
session runs any more and no session opens or closes, whatever is called afterwards. -/
theorem nothing_runs_after_join (cfg : WsConfig) {s₀ s t u : WsServer} {j : Nat}
    {ts us : List (Transition WsServer WsServerEvent (List (Nat × RegistryNote)))}
    {notes : List (Nat × RegistryNote)} (init : (wsServerMachine cfg).init s₀)
    (before : (wsServerMachine cfg).Run s₀ ts s) (at_j : s.callers[j]? = some (.stop .joinIo))
    (joined : (wsServerMachine cfg).next s (.caller j) = some (t, notes))
    (after : (wsServerMachine cfg).Run t us u) :
    ∀ v ∈ us, v.event.onIo = false ∧ v.output = [] := by
  have stopped := WsServer.joining_run init before (List.mem_of_getElem? at_j)
  have taken : s.next cfg (.caller j) = some (t, notes) := joined
  have idle : s.ioIdle = true := by
    simp only [WsServer.next, WsServer.callerStep, at_j] at taken
    obtain ⟨v, step, -⟩ := Option.map_eq_some_iff.mp taken
    exact (WsServer.joinIo_eq_some step).1
  have rest : WsServer.AtRest t := (WsServer.AtRest.of_idle stopped idle).next taken
  intro v mem
  obtain ⟨vs, -, first, takes⟩ := after.mem_prefix mem
  exact (first.invariant rest fun s e t o old h => old.next h).silent takes

/-- A call of `stop` is at the join after the drain timer has gone off. -/
def joinTrace : List WsServerEvent :=
  stopTrace ++ [.timer, .handler 0, .handler 0, .handler 0, .resume .notified 0, .caller 1, .caller 1,
    .accept 0 false none]

def joiningServer : WsServer :=
  (((wsServerMachine defaultConfig).exec .create joinTrace).map (·.2)).getD .create

def joinedServer : WsServer := joiningServer.setCaller 1 (.stop .leave)

/-- It returns, the server is started again and the session that is left is sent a text. -/
def joinedTrace : List WsServerEvent :=
  [.caller 1, .start, .caller 2, .caller 2, .caller 2, .caller 2, .caller 2,
    .session 0 (.call (.sendText [104]))]

theorem nothing_runs_after_join_joinTrace :
    ∃ ts us u, (wsServerMachine defaultConfig).exec .create joinTrace = some (ts, joiningServer) ∧
      (wsServerMachine defaultConfig).next joiningServer (.caller 1) = some (joinedServer, []) ∧
      (wsServerMachine defaultConfig).exec joinedServer joinedTrace = some (us, u) ∧
      ∀ v ∈ us, v.event.onIo = false ∧ v.output = [] := by
  have before : (wsServerMachine defaultConfig).exec .create joinTrace = some (_, joiningServer) := rfl
  have joined : (wsServerMachine defaultConfig).next joiningServer (.caller 1) =
      some (joinedServer, []) := rfl
  have after : (wsServerMachine defaultConfig).exec joinedServer joinedTrace = some (_, _) := rfl
  exact ⟨_, _, _, before, joined, after,
    nothing_runs_after_join defaultConfig rfl (.of_exec before) rfl joined (.of_exec after)⟩

end Rtl.Ws
