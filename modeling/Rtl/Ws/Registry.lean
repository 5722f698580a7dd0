import Rtl.Ws.WsServer
import Rtl.Ws.QueueLimits

/-! # The registry of open sessions

A session tells the server that it opened when its handshake ends, and there is one handshake
to a session. What a step of the server does to the registry, to the mutex and to the sessions'
lifetimes is said once, by `RegistryStep`; from it follow by induction over the run that the live
entries of the registry are exactly the sessions that have opened and not closed since, and that a
broadcast goes through each of them once.
-/

namespace Rtl.Ws

open Rtl.Base

/-! ## What a session tells the server -/

theorem Outbox.handle_handshakes (cfg : WsConfig) (verdict : GateVerdict) (outcome : Outcome)
    (b : Outbox) (p : Pending) :
    (b.handle cfg verdict outcome p).handshakes ≤ b.handshakes + p.isHandshake.toNat := by
  cases p with
  | httpRead =>
      simp only [handle, Pending.isHandshake, Bool.toNat_true]
      split
      · cases verdict <;> simp
      · simp
  | enqueue isBinary data =>
      simp only [handle, Pending.isHandshake]
      exact enqueue_cases (P := fun c => c.handshakes ≤ b.handshakes + 0) (Nat.le_refl _) (by simp)
        (Nat.le_refl _) (by simp [push])
  | wsRead | write =>
      simp only [handle, Pending.isHandshake, fail]
      split <;> (try split) <;> simp [clear]
  | drain | wsClose | close | closeForcefully =>
      simp only [handle, Pending.isHandshake]
      split <;> simp [clear]
  | rejectWrite | wsAccept | idleWait | drainWait | heartbeatWait | closeForShutdown | ping =>
      simp [handle, Pending.isHandshake]

namespace Session

variable {cfg : WsConfig} {s t : Session}

theorem mem_call (c : Call) {p : Pending} (mem : p ∈ s.pending) : p ∈ (s.call c).pending := by
  have posted : ∀ q, p ∈ (s.post q).pending := fun q => List.mem_append_left _ mem
  cases c with
  | sendText | sendBinary =>
      simp only [call, send]
      split
      · exact posted _
      · exact mem
  | closeForShutdown =>
      simp only [call, closeForShutdown]
      split
      · exact mem
      · exact posted _
  | close | closeForcefully => exact posted _

theorem passGate_unnoted {ν : Type*} {gate : Gate ν} {next : Session → Session × List ν}
    (quiet : gate.notes = []) (later : ∀ s, (next s).2 = []) : (s.passGate gate next).2 = [] := by
  unfold passGate
  simp only
  split
  · exact quiet
  · split
    · simp only [quiet, later, List.append_nil]
    · exact quiet

theorem markClosed_tells (user : Router Unit) (s : Session) :
    (s.markClosedAndNotifyOnce (serverRouter user)).2 = [] ∨
      (s.markClosedAndNotifyOnce (serverRouter user)).2 = [.closed] := by
  unfold markClosedAndNotifyOnce
  split
  · exact .inl rfl
  · exact .inr rfl

/-- A handler tells of a close, or it is the end of the handshake and tells of the opening. -/
theorem run_tells (cfg : WsConfig) (user : Router Unit) (input : Input) (s : Session)
    (outcome : Outcome) (p : Pending) :
    (s.run cfg (serverRouter user) input outcome p).2 = [] ∨
      (s.run cfg (serverRouter user) input outcome p).2 = [.closed] ∨
      (p = .wsAccept ∧ (s.run cfg (serverRouter user) input outcome p).2 = [.opened]) := by
  cases p with
  | httpRead =>
      left
      simp only [run]
      split
      · exact passGate_unnoted rfl fun _ => passGate_unnoted rfl fun _ => rfl
      · rfl
  | wsAccept =>
      simp only [run]
      split
      · right; right
        unfold onAccept
        simp only
        split <;> exact ⟨trivial, rfl⟩
      · exact .inl rfl
  | wsRead =>
      simp only [run]
      split
      · left
        unfold onRead
        simp only
        split
        · rfl
        · split <;> rfl
      · exact (markClosed_tells user _).imp_right .inl
  | write m =>
      simp only [run]
      split
      · exact .inl rfl
      · exact (markClosed_tells user _).imp_right .inl
  | wsClose =>
      simp only [run]
      split
      · exact .inl rfl
      · exact (markClosed_tells user s).imp_right .inl
  | drain | close =>
      left
      simp only [run]
      split <;> rfl
  | rejectWrite | idleWait | drainWait | heartbeatWait | enqueue | closeForShutdown |
      closeForcefully | ping => exact .inl rfl

/-- What a step tells the server. An opening uses a handshake up, and no step starts a further
one. -/
theorem next_tells {e : SessionEvent Unit} {notes : List RegistryNote}
    (h : s.next cfg e.routed = some (t, notes)) :
    t.outbox.handshakes ≤ s.outbox.handshakes ∧
      (notes = [] ∨ notes = [.closed] ∨
        (notes = [.opened] ∧ t.outbox.handshakes < s.outbox.handshakes)) := by
  cases e with
  | call c =>
      cases h
      rw [outbox_call]
      exact ⟨Nat.le_refl _, .inl rfl⟩
  | pong =>
      simp only [SessionEvent.routed, next] at h
      split at h
      · cases h
        rw [outbox_doHeartbeatNext]
        exact ⟨Nat.le_refl _, .inl rfl⟩
      · cases h
  | complete k outcome input user =>
      cases picked : pickAt s.pending k with
      | none => simp [SessionEvent.routed, next, picked] at h
      | some r =>
          have acts := outbox_complete picked h
          obtain ⟨inFlight, handshakes, -, taken, rest⟩ := outbox_taken (pickAt_perm picked)
          have told := run_tells cfg user input { s with pending := r.2 } outcome r.1
          simp only [SessionEvent.routed, next, picked, Option.some.injEq] at h
          rw [h] at told
          rw [rest] at acts
          constructor
          · rw [acts, taken, Nat.add_comm]
            exact Outbox.handle_handshakes ..
          · rcases told with none | closed | ⟨accept, opened⟩
            · exact .inl none
            · exact .inr (.inl closed)
            · refine .inr (.inr ⟨opened, ?_⟩)
              rw [acts, taken, accept]
              simp [Outbox.handle, Pending.isHandshake]

end Session

/-! ## What a step of the server does to the registry -/

namespace WsServer

variable {cfg : WsConfig} {s t u : WsServer} {i j : Nat}

def shakes (s : WsServer) (i : Nat) : Nat :=
  match s.peers[i]? with
  | some peer => peer.session.outbox.handshakes
  | none => 0

def Busy (s : WsServer) (i : Nat) : Prop :=
  ∃ peer, s.peers[i]? = some peer ∧ peer.session.pending.any (· != .ping) = true

/-- The sessions go on; none is made and none ends. Only the io threads complete operations. -/
structure PeersKept (s t : WsServer) : Prop where
  length : t.peers.length = s.peers.length
  expired : ∀ i, t.expired i = s.expired i
  shakes : ∀ i, t.shakes i ≤ s.shakes i
  busy : s.ioRunning = false → ∀ i, s.Busy i → t.Busy i

theorem PeersKept.of_eq (peers : t.peers = s.peers) : PeersKept s t := by
  constructor
  · rw [peers]
  · intro i
    simp only [WsServer.expired, peers]
  · intro i
    simp only [WsServer.shakes, peers, Nat.le_refl]
  · intro _ i busy
    simpa only [Busy, peers] using busy

theorem PeersKept.of_set {peer : Peer} {session : Session} (at_i : s.peers[i]? = some peer)
    (fewer : session.outbox.handshakes ≤ peer.session.outbox.handshakes)
    (more : s.ioRunning = false → ∀ p ∈ peer.session.pending, p ∈ session.pending)
    (peers : t.peers = s.peers.set i { peer with session }) : PeersKept s t := by
  refine ⟨by rw [peers, List.length_set], ?_, ?_, ?_⟩
  · intro j
    simp only [WsServer.expired, peers]
    by_cases same : i = j
    · subst same
      rw [set_at at_i, at_i]
    · rw [List.getElem?_set_ne same]
  · intro j
    simp only [WsServer.shakes, peers]
    by_cases same : i = j
    · subst same
      rw [set_at at_i, at_i]
      exact fewer
    · rw [List.getElem?_set_ne same]
  · intro idle j busy
    obtain ⟨old, at_j, owns⟩ := busy
    by_cases same : i = j
    · subst same
      rw [at_i] at at_j
      cases at_j
      obtain ⟨p, mem, notPing⟩ := List.any_eq_true.mp owns
      exact ⟨_, peers ▸ set_at at_i, List.any_eq_true.mpr ⟨p, more idle p mem, notPing⟩⟩
    · exact ⟨old, by rw [peers, List.getElem?_set_ne same, at_j], owns⟩

theorem shakes_set {peer peer' : Peer} (at_i : s.peers[i]? = some peer)
    (peers : t.peers = s.peers.set i peer') : t.shakes i = peer'.session.outbox.handshakes := by
  simp only [shakes, peers, set_at at_i]

/-- A call on a session concerns neither the registry nor the mutex. -/
theorem callSession_spec (s : WsServer) (i : Nat) (c : Call) :
    PeersKept s (s.callSession i c) ∧ (s.callSession i c).sessions = s.sessions ∧
      (s.callSession i c).lock = s.lock := by
  unfold callSession
  cases at_i : s.peers[i]? with
  | none => exact ⟨.of_eq rfl, rfl, rfl⟩
  | some peer =>
      refine ⟨.of_set at_i ?_ ?_ rfl, rfl, rfl⟩
      · rw [Session.outbox_call]
      · intro _ p mem
        exact Session.mem_call c mem

theorem locked_eq_some {critical : WsServer} :
    s.locked critical = some t ↔ s.lock = none ∧ critical = t := by
  unfold locked
  cases s.lock <;> simp

/-- `join_io_threads` returns when the io threads are idle. -/
theorem joinIo_eq_some (h : s.stopStep j .joinIo = some t) :
    s.ioIdle = true ∧ s.setCaller j (.stop .leave) = t := by
  simp only [stopStep] at h
  split at h
  · cases h
    exact ⟨by assumption, rfl⟩
  · cases h

/-! ### What the parts of a step leave alone -/

theorem callSession_frame (s : WsServer) (i : Nat) (c : Call) :
    ∃ peers, peers.length = s.peers.length ∧ s.callSession i c = { s with peers := peers } := by
  unfold callSession
  split
  · exact ⟨s.peers, rfl, rfl⟩
  · exact ⟨_, List.length_set, rfl⟩

theorem test_frame (s : WsServer) (j : Nat) :
    ∃ sessions cv callers,
      s.test j = { s with sessions := sessions, cv := cv, callers := callers } := by
  unfold test
  simp only
  split
  · exact ⟨_, s.cv, _, rfl⟩
  · exact ⟨_, _, _, rfl⟩

theorem broadcastNext_frame (h : s.broadcastNext = some t) :
    ∃ lock peers, peers.length = s.peers.length ∧ t = { s with lock := lock, peers := peers } := by
  unfold broadcastNext at h
  cases held : s.lock with
  | none => simp [held] at h
  | some b =>
      simp only [held] at h
      cases front : b.remaining with
      | nil =>
          simp only [front] at h
          cases h
          exact ⟨_, s.peers, rfl, rfl⟩
      | cons i rest =>
          simp only [front] at h
          split at h
          · cases h
            exact ⟨_, s.peers, rfl, rfl⟩
          · cases h
            obtain ⟨peers, length, same⟩ := callSession_frame s i b.call
            exact ⟨_, peers, length, by rw [same]⟩

theorem notes_frame (s : WsServer) (i : Nat) (notes : List RegistryNote) :
    ∃ sessions notifiers,
      notes.foldl (note i) s = { s with sessions := sessions, notifiers := notifiers } := by
  induction notes generalizing s with
  | nil => exact ⟨s.sessions, s.notifiers, rfl⟩
  | cons n notes ih =>
      obtain ⟨sessions, notifiers, same⟩ := ih (s.note i n)
      refine ⟨sessions, notifiers, ?_⟩
      rw [List.foldl_cons, same]
      cases n <;> rfl

theorem sessionStep_frame {e : SessionEvent Unit} {notes : List (Nat × RegistryNote)}
    (h : s.sessionStep cfg i e = some (t, notes)) :
    ∃ peers sessions notifiers, peers.length = s.peers.length ∧
      t = { s with peers := peers, sessions := sessions, notifiers := notifiers } := by
  unfold sessionStep at h
  split at h
  · cases h
  · split at h
    · cases h
    · split at h
      · cases h
      · rename_i peer _ _ _ session told _
        split at h
        · cases h
        · cases h
          obtain ⟨sessions, notifiers, same⟩ :=
            notes_frame { s with peers := s.peers.set i { peer with session } } i told
          exact ⟨_, sessions, notifiers, List.length_set, same⟩

inductive ServerStep (cfg : WsConfig) (s : WsServer) (event : WsServerEvent) :
    WsServer → List (Nat × RegistryNote) → Prop where
  | call {at_ : CallerAt} (first : at_ = .start .enter ∨ at_ = .stop .enter) :
      ServerStep cfg s event { s with callers := s.callers ++ [at_] } []
  | start {t : WsServer} {j : Nat} {at_ : StartAt} (at_j : s.callers[j]? = some (.start at_))
      (h : s.startStep j at_ = some t) (same : event = .caller j) : ServerStep cfg s event t []
  | stop {t : WsServer} {j : Nat} {at_ : StopAt} (at_j : s.callers[j]? = some (.stop at_))
      (h : s.stopStep j at_ = some t) (same : event = .caller j) : ServerStep cfg s event t []
  | wake {k : Nat} {cv : CondVar Nat} (woken : s.cv.wake k = some cv) :
      ServerStep cfg s event { s with cv := cv } []
  | resume {cause : Cause} {j k : Nat} {cv : CondVar Nat}
      (resumed : s.cv.resume cause k = some (j, cv)) (free : s.lock = none) :
      ServerStep cfg s event ({ s with cv := cv }.test j) []
  | accept {t : WsServer} {j : Nat} {failed : Bool} {remote : Option (String × UInt16)} {at_ : AcceptAt}
      (at_j : s.accepts[j]? = some at_) (h : s.acceptStep j failed remote at_ = some t) :
      ServerStep cfg s event t []
  | timer (io : s.ioRunning = true) (same : event = .timer) :
      ServerStep cfg s event { s with
        timerWaits := s.timerWaits - 1, stopWait := true, handlers := s.handlers ++ [.collect] } []
  | handler {t : WsServer} {j : Nat} {at_ : DrainAt} (at_j : s.handlers[j]? = some at_)
      (h : s.handlerStep j at_ = some t) (same : event = .handler j) : ServerStep cfg s event t []
  | notify : ServerStep cfg s event { s with notifiers := s.notifiers - 1, cv := s.cv.notifyAll } []
  | broadcast {t : WsServer} {isBinary : Bool} {data : List UInt8}
      (h : s.broadcast isBinary data = some t) : ServerStep cfg s event t []
  | broadcastNext {t : WsServer} (h : s.broadcastNext = some t) : ServerStep cfg s event t []
  | session {t : WsServer} {i : Nat} {e : SessionEvent Unit} {notes : List (Nat × RegistryNote)}
      (same : event = .session i e) (h : s.sessionStep cfg i e = some (t, notes)) :
      ServerStep cfg s event t notes
  | expire {t : WsServer} {i : Nat} (h : s.expire i = some t) : ServerStep cfg s event t []

theorem next_step {e : WsServerEvent} {notes : List (Nat × RegistryNote)}
    (h : s.next cfg e = some (t, notes)) : ServerStep cfg s e t notes := by
  cases e with
  | start =>
      cases h
      exact .call (.inl rfl)
  | stop =>
      cases h
      exact .call (.inr rfl)
  | caller j =>
      simp only [next, callerStep] at h
      split at h
      · rename_i at_j
        obtain ⟨u, hu, same⟩ := Option.map_eq_some_iff.mp h
        cases same
        exact .start at_j hu rfl
      · rename_i at_j
        obtain ⟨u, hu, same⟩ := Option.map_eq_some_iff.mp h
        cases same
        exact .stop at_j hu rfl
      · cases h
  | wake k =>
      obtain ⟨cv, woken, same⟩ := Option.map_eq_some_iff.mp h
      cases same
      exact .wake woken
  | resume cause k =>
      simp only [next] at h
      split at h
      · cases h
      · rename_i resumed
        obtain ⟨u, hu, same⟩ := Option.map_eq_some_iff.mp h
        cases same
        obtain ⟨free, rfl⟩ := locked_eq_some.mp hu
        exact .resume resumed free
  | accept j failed remote =>
      simp only [next] at h
      split at h
      · cases h
      · rename_i at_j
        obtain ⟨u, hu, same⟩ := Option.map_eq_some_iff.mp h
        cases same
        exact .accept at_j hu
  | timer =>
      simp only [next, timerFires] at h
      split at h
      · rename_i fires
        cases h
        exact .timer fires.1 rfl
      · cases h
  | handler j =>
      simp only [next] at h
      split at h
      · cases h
      · rename_i at_j
        obtain ⟨u, hu, same⟩ := Option.map_eq_some_iff.mp h
        cases same
        exact .handler at_j hu rfl
  | notify =>
      simp only [next] at h
      split at h
      · cases h
        exact .notify
      · cases h
  | broadcast isBinary data =>
      obtain ⟨u, hu, same⟩ := Option.map_eq_some_iff.mp h
      cases same
      exact .broadcast hu
  | broadcastNext =>
      obtain ⟨u, hu, same⟩ := Option.map_eq_some_iff.mp h
      cases same
      exact .broadcastNext hu
  | session i e => exact .session rfl h
  | expire i =>
      obtain ⟨u, hu, same⟩ := Option.map_eq_some_iff.mp h
      cases same
      exact .expire hu

inductive RegistryStep (s t : WsServer) : List (Nat × RegistryNote) → Prop where
  | same (peers : PeersKept s t) (sessions : t.sessions = s.sessions) (lock : t.lock = s.lock) :
      RegistryStep s t []
  | tidy (peers : t.peers = s.peers) (free : s.lock = none)
      (sessions : t.sessions = s.removeInvalidSessions.sessions)
      (lock : ∀ b, t.lock = some b → b.passed = [] ∧ b.offered = [] ∧ b.remaining = t.sessions) :
      RegistryStep s t []
  | pass {b : Broadcast} {i : Nat} {rest : List Nat} (held : s.lock = some b)
      (front : b.remaining = i :: rest) (peers : PeersKept s t) (sessions : t.sessions = s.sessions)
      (lock : t.lock = some { b with
        passed := b.passed ++ [i]
        offered := if s.expired i then b.offered else b.offered ++ [i]
        remaining := rest }) :
      RegistryStep s t []
  | release (peers : t.peers = s.peers) (sessions : t.sessions = s.sessions) (lock : t.lock = none) :
      RegistryStep s t []
  | join {remote : Option (String × UInt16)}
      (peers : t.peers = s.peers ++ [{ session := Session.start remote }])
      (sessions : t.sessions = s.sessions) (lock : t.lock = s.lock) : RegistryStep s t []
  | expire {i : Nat} {peer : Peer} (at_i : s.peers[i]? = some peer)
      (idle : s.owned i peer.session = false)
      (peers : t.peers = s.peers.set i { peer with expired := true })
      (sessions : t.sessions = s.sessions) (lock : t.lock = s.lock) : RegistryStep s t []
  | opened {i : Nat} (free : s.lock = none) (peers : PeersKept s t) (handshake : t.shakes i < s.shakes i)
      (sessions : t.sessions = s.sessions ++ [i]) (lock : t.lock = none) :
      RegistryStep s t [(i, .opened)]
  | closed {i : Nat} (free : s.lock = none) (io : s.ioRunning = true) (peers : PeersKept s t)
      (sessions : t.sessions = s.sessions.filter fun j => !(s.expired j || j == i))
      (lock : t.lock = none) : RegistryStep s t [(i, .closed)]

namespace RegistryStep

theorem of_eq (peers : t.peers = s.peers) (sessions : t.sessions = s.sessions)
    (lock : t.lock = s.lock) : RegistryStep s t [] :=
  .same (.of_eq peers) sessions lock

/-- A critical section that tidies the registry up and keeps the mutex no longer. -/
theorem tidied (free : s.lock = none) (peers : t.peers = s.peers)
    (sessions : t.sessions = s.removeInvalidSessions.sessions) (lock : t.lock = s.lock) :
    RegistryStep s t [] := by
  refine .tidy peers free sessions ?_
  intro b held
  rw [lock, free] at held
  cases held

end RegistryStep

theorem test_registryStep (free : s.lock = none) (cv : CondVar Nat) (j : Nat) :
    RegistryStep s ({ s with cv := cv }.test j) [] := by
  unfold test
  simp only
  split
  · exact .tidied free rfl rfl rfl
  · exact .tidied free rfl rfl rfl

theorem startStep_registryStep {at_ : StartAt} (h : s.startStep j at_ = some t) :
    RegistryStep s t [] := by
  cases at_ with
  | enter | leave =>
      obtain ⟨-, rfl⟩ := locked_eq_some.mp h
      exact .of_eq rfl rfl rfl
  | allowAccepts | accept | runIo =>
      cases h
      exact .of_eq rfl rfl rfl

theorem stopStep_registryStep {at_ : StopAt} (h : s.stopStep j at_ = some t) :
    RegistryStep s t [] := by
  cases at_ with
  | enter =>
      obtain ⟨-, rfl⟩ := locked_eq_some.mp h
      split <;> exact .of_eq rfl rfl rfl
  | look | leave =>
      obtain ⟨-, rfl⟩ := locked_eq_some.mp h
      exact .of_eq rfl rfl rfl
  | collect =>
      obtain ⟨free, rfl⟩ := locked_eq_some.mp h
      exact .tidied free rfl rfl rfl
  | close targets =>
      cases targets with
      | nil =>
          cases h
          exact .of_eq rfl rfl rfl
      | cons i rest =>
          cases h
          obtain ⟨peers, sessions, lock⟩ := callSession_spec s i .closeForShutdown
          exact .same ⟨peers.length, peers.expired, peers.shakes, peers.busy⟩ sessions lock
  | test =>
      obtain ⟨free, rfl⟩ := locked_eq_some.mp h
      exact test_registryStep free s.cv j
  | requestStop | clearWait | arm | disarm | stopIo =>
      cases h
      exact .of_eq rfl rfl rfl
  | joinIo =>
      obtain ⟨-, rfl⟩ := joinIo_eq_some h
      exact .of_eq rfl rfl rfl
  | asleep => cases h

theorem acceptStep_registryStep {failed : Bool} {remote : Option (String × UInt16)} {at_ : AcceptAt}
    (h : s.acceptStep j failed remote at_ = some t) : RegistryStep s t [] := by
  cases at_ with
  | waiting =>
      simp only [acceptStep] at h
      split at h
      · cases h
      · split at h <;> cases h <;> exact .of_eq rfl rfl rfl
  | beforeAccept =>
      simp only [acceptStep] at h
      split at h <;> cases h <;> exact .of_eq rfl rfl rfl
  | client =>
      cases h
      exact .join rfl rfl rfl
  | beforeClient | again =>
      cases h
      exact .of_eq rfl rfl rfl

theorem handlerStep_registryStep {at_ : DrainAt} (h : s.handlerStep j at_ = some t) :
    RegistryStep s t [] := by
  cases at_ with
  | collect =>
      obtain ⟨free, rfl⟩ := locked_eq_some.mp h
      exact .tidied free rfl rfl rfl
  | close targets =>
      cases targets with
      | nil =>
          cases h
          exact .of_eq rfl rfl rfl
      | cons i rest =>
          cases h
          obtain ⟨peers, sessions, lock⟩ := callSession_spec s i .closeForcefully
          exact .same ⟨peers.length, peers.expired, peers.shakes, peers.busy⟩ sessions lock

theorem broadcast_registryStep {isBinary : Bool} {data : List UInt8}
    (h : s.broadcast isBinary data = some t) : RegistryStep s t [] := by
  obtain ⟨free, rfl⟩ := locked_eq_some.mp h
  split
  · refine .tidy rfl free rfl ?_
    intro b held
    cases held
    exact ⟨rfl, rfl, rfl⟩
  · exact .of_eq rfl rfl rfl

theorem broadcastNext_registryStep (h : s.broadcastNext = some t) : RegistryStep s t [] := by
  unfold broadcastNext at h
  cases held : s.lock with
  | none => simp [held] at h
  | some b =>
      simp only [held] at h
      cases front : b.remaining with
      | nil =>
          simp only [front] at h
          cases h
          exact .release rfl rfl rfl
      | cons i rest =>
          simp only [front] at h
          by_cases expired : s.expired i = true
          · rw [if_pos expired] at h
            cases h
            refine .pass held front (.of_eq rfl) rfl ?_
            rw [if_pos expired]
          · rw [if_neg expired] at h
            cases h
            obtain ⟨peers, sessions, -⟩ := callSession_spec s i b.call
            refine .pass held front ⟨peers.length, peers.expired, peers.shakes, peers.busy⟩ sessions ?_
            rw [if_neg expired]

theorem expire_spec (h : s.expire i = some t) :
    ∃ peer, s.peers[i]? = some peer ∧ s.owned i peer.session = false ∧
      t = { s with peers := s.peers.set i { peer with expired := true } } := by
  unfold expire at h
  cases at_i : s.peers[i]? with
  | none => simp [at_i] at h
  | some peer =>
      simp only [at_i] at h
      split at h
      · cases h
      · rename_i idle
        cases h
        simp only [Bool.or_eq_true, not_or, Bool.not_eq_true] at idle
        exact ⟨peer, rfl, idle.2, rfl⟩

theorem expire_registryStep (h : s.expire i = some t) : RegistryStep s t [] := by
  obtain ⟨peer, at_i, idle, rfl⟩ := expire_spec h
  exact .expire at_i idle rfl rfl rfl

theorem sessionStep_registryStep {e : SessionEvent Unit} {notes : List (Nat × RegistryNote)}
    (h : s.sessionStep cfg i e = some (t, notes)) : RegistryStep s t notes := by
  unfold sessionStep at h
  cases at_i : s.peers[i]? with
  | none => simp [at_i] at h
  | some peer =>
      simp only [at_i] at h
      split at h
      · cases h
      · rename_i allowed
        cases stepped : peer.session.next cfg e.routed with
        | none => simp [stepped] at h
        | some r =>
            obtain ⟨fewer, told⟩ := Session.next_tells stepped
            have called : s.ioRunning = false → ∃ c, r = (peer.session.call c, []) := by
              intro idle
              cases e with
              | call c =>
                  cases stepped
                  exact ⟨c, rfl⟩
              | complete | pong => simp [SessionEvent.isCall, idle] at allowed
            have kept : PeersKept s { s with peers := s.peers.set i { peer with session := r.1 } } := by
              refine .of_set at_i fewer (fun idle p mem => ?_) rfl
              obtain ⟨c, rfl⟩ := called idle
              exact Session.mem_call c mem
            simp only [stepped] at h
            split at h
            · cases h
            · rename_i free
              cases h
              rcases told with none | closed | ⟨opened, handshake⟩
              · rw [none]
                exact .same kept rfl rfl
              · rw [closed] at free ⊢
                have unlocked : s.lock = none := by simpa using free
                have io : s.ioRunning = true := by
                  by_contra idle
                  obtain ⟨c, rfl⟩ := called (by simpa using idle)
                  cases closed
                refine .closed unlocked io ⟨kept.length, kept.expired, kept.shakes, kept.busy⟩ ?_
                  unlocked
                simp only [List.foldl_cons, List.foldl_nil, note, unregisterSession, kept.expired]
              · rw [opened] at free ⊢
                have unlocked : s.lock = none := by simpa using free
                refine .opened unlocked ⟨kept.length, kept.expired, kept.shakes, kept.busy⟩ ?_
                  rfl unlocked
                have before : s.shakes i = peer.session.outbox.handshakes := by simp [shakes, at_i]
                rw [before]
                exact (shakes_set at_i rfl).trans_lt handshake

theorem next_registryStep {e : WsServerEvent} {notes : List (Nat × RegistryNote)}
    (h : s.next cfg e = some (t, notes)) : RegistryStep s t notes := by
  cases next_step h with
  | call | wake | timer | notify => exact .of_eq rfl rfl rfl
  | start _ taken => exact startStep_registryStep taken
  | stop _ taken => exact stopStep_registryStep taken
  | resume _ free => exact test_registryStep free _ _
  | accept _ taken => exact acceptStep_registryStep taken
  | handler _ taken => exact handlerStep_registryStep taken
  | broadcast taken => exact broadcast_registryStep taken
  | broadcastNext taken => exact broadcastNext_registryStep taken
  | session _ taken => exact sessionStep_registryStep taken
  | expire taken => exact expire_registryStep taken

end WsServer

end Rtl.Ws
