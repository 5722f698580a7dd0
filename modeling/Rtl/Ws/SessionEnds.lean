import Rtl.Ws.ServerStop
import Rtl.Ws.SessionDrive

/-! # No session ends unnoticed

The server learns from a session's close handler that the session has closed; a session that is
destroyed without it only leaves an expired pointer in the registry. In runs in which the callbacks do
not throw, the application calls a session only once it has opened, and no close is aborted, this
does not happen: an open session is driven to its close, and the registry has no expired entries.
-/

namespace Rtl.Ws

open Rtl.Base

namespace WsServer

variable {cfg : WsConfig} {s t : WsServer} {notes more : List (Nat × RegistryNote)} {i j : Nat}

/-! ## The sessions the server may call -/

/-- The registry has session `i`, or a thread holds a pointer to it that it got from there. -/
def Held (s : WsServer) (i : Nat) : Prop :=
  i ∈ s.sessions ∨ (∃ c ∈ s.callers, i ∈ c.targets) ∨ ∃ h ∈ s.handlers, i ∈ h.targets

/-- The threads get no pointers but to sessions that were held. -/
structure HeldBefore (s t : WsServer) : Prop where
  callers : ∀ c ∈ t.callers, ∀ i ∈ c.targets, s.Held i
  handlers : ∀ h ∈ t.handlers, ∀ i ∈ h.targets, s.Held i

theorem held_caller {c : CallerAt} (mem : c ∈ s.callers) : ∀ i ∈ c.targets, s.Held i :=
  fun _ target => .inr (.inl ⟨c, mem, target⟩)

theorem held_handler {h : DrainAt} (mem : h ∈ s.handlers) : ∀ i ∈ h.targets, s.Held i :=
  fun _ target => .inr (.inr ⟨h, mem, target⟩)

theorem held_live : ∀ i ∈ s.removeInvalidSessions.sessions, s.Held i :=
  fun _ mem => .inl (mem_removeInvalidSessions.mp mem).1

theorem HeldBefore.of_side (side : t.stopSide = s.stopSide) : HeldBefore s t where
  callers _ mem := held_caller (callers_eq side ▸ mem)
  handlers _ mem := held_handler (handlers_eq side ▸ mem)

/-- A call goes on with pointers to sessions that were held. -/
theorem HeldBefore.set_caller {pc : CallerAt} (callers : t.callers = s.callers.set j pc)
    (handlers : t.handlers = s.handlers) (targets : ∀ i ∈ pc.targets, s.Held i) : HeldBefore s t where
  callers c mem := by
    rw [callers] at mem
    rcases List.mem_or_eq_of_mem_set mem with old | rfl
    · exact held_caller old
    · exact targets
  handlers _ mem := held_handler (handlers ▸ mem)

theorem HeldBefore.set_handler {at_ : DrainAt} (handlers : t.handlers = s.handlers.set j at_)
    (callers : t.callers = s.callers) (targets : ∀ i ∈ at_.targets, s.Held i) : HeldBefore s t where
  callers _ mem := held_caller (callers ▸ mem)
  handlers h mem := by
    rw [handlers] at mem
    rcases List.mem_or_eq_of_mem_set mem with old | rfl
    · exact held_handler old
    · exact targets

theorem startStep_heldBefore {at_ : StartAt} (h : s.startStep j at_ = some t) : HeldBefore s t := by
  cases at_ with
  | enter =>
      obtain ⟨-, rfl⟩ := locked_eq_some.mp h
      refine .set_caller rfl rfl ?_
      split <;> simp [CallerAt.targets]
  | leave =>
      obtain ⟨-, rfl⟩ := locked_eq_some.mp h
      exact .set_caller rfl rfl (by simp [CallerAt.targets])
  | allowAccepts | accept | runIo =>
      cases h
      exact .set_caller rfl rfl (by simp [CallerAt.targets])

theorem test_heldBefore (s : WsServer) (cv : CondVar Nat) (j : Nat) :
    HeldBefore s ({ s with cv := cv }.test j) := by
  unfold test
  simp only
  split <;> exact .set_caller rfl rfl (by simp [CallerAt.targets])

theorem stopStep_heldBefore {at_ : StopAt} (at_j : s.callers[j]? = some (.stop at_))
    (h : s.stopStep j at_ = some t) : HeldBefore s t := by
  cases at_ with
  | enter =>
      obtain ⟨-, rfl⟩ := locked_eq_some.mp h
      split <;> exact .set_caller rfl rfl (by simp [CallerAt.targets])
  | look =>
      obtain ⟨-, rfl⟩ := locked_eq_some.mp h
      refine .set_caller rfl rfl ?_
      split <;> simp [CallerAt.targets]
  | collect =>
      obtain ⟨-, rfl⟩ := locked_eq_some.mp h
      exact .set_caller rfl rfl held_live
  | close targets =>
      cases targets with
      | nil =>
          cases h
          exact .set_caller rfl rfl (by simp [CallerAt.targets])
      | cons i rest =>
          cases h
          have side := callSession_stopSide s i .closeForShutdown
          have handlers := handlers_eq side
          refine .set_caller (congrArg (List.set · j _) (callers_eq side)) handlers fun k mem => ?_
          exact held_caller (List.mem_of_getElem? at_j) k (List.mem_cons_of_mem i mem)
  | test =>
      obtain ⟨-, rfl⟩ := locked_eq_some.mp h
      exact test_heldBefore s s.cv j
  | leave =>
      obtain ⟨-, rfl⟩ := locked_eq_some.mp h
      exact .set_caller rfl rfl (by simp [CallerAt.targets])
  | requestStop | clearWait | arm | disarm | stopIo =>
      cases h
      exact .set_caller rfl rfl (by simp [CallerAt.targets])
  | joinIo =>
      obtain ⟨-, rfl⟩ := joinIo_eq_some h
      exact .set_caller rfl rfl (by simp [CallerAt.targets])
  | asleep => cases h

theorem handlerStep_heldBefore {at_ : DrainAt} (at_j : s.handlers[j]? = some at_)
    (h : s.handlerStep j at_ = some t) : HeldBefore s t := by
  cases at_ with
  | collect =>
      obtain ⟨-, rfl⟩ := locked_eq_some.mp h
      exact .set_handler rfl rfl held_live
  | close targets =>
      cases targets with
      | nil =>
          cases h
          exact ⟨fun _ mem => held_caller mem, fun _ mem => held_handler (List.mem_of_mem_eraseIdx mem)⟩
      | cons i rest =>
          cases h
          have side := callSession_stopSide s i .closeForcefully
          have callers := callers_eq side
          refine .set_handler (congrArg (List.set · j _) (handlers_eq side)) callers fun k mem => ?_
          exact held_handler (List.mem_of_getElem? at_j) k (List.mem_cons_of_mem i mem)

theorem next_heldBefore {e : WsServerEvent} (h : s.next cfg e = some (t, notes)) : HeldBefore s t := by
  cases next_step h with
  | call first =>
      refine ⟨fun c mem => ?_, fun _ mem => held_handler mem⟩
      rcases List.mem_append.mp mem with old | new
      · exact held_caller old
      · rw [List.mem_singleton.mp new]
        rcases first with rfl | rfl <;> simp [CallerAt.targets]
  | start _ taken => exact startStep_heldBefore taken
  | stop at_j taken => exact stopStep_heldBefore at_j taken
  | wake | notify => exact ⟨fun _ mem => held_caller mem, fun _ mem => held_handler mem⟩
  | resume => exact test_heldBefore s _ _
  | accept _ taken => exact .of_side (acceptStep_stopSide taken)
  | timer =>
      refine ⟨fun _ mem => held_caller mem, fun c mem => ?_⟩
      rcases List.mem_append.mp mem with old | new
      · exact held_handler old
      · rw [List.mem_singleton.mp new]
        simp [DrainAt.targets]
  | handler at_j taken => exact handlerStep_heldBefore at_j taken
  | broadcast taken => exact .of_side (broadcast_stopSide taken)
  | broadcastNext taken => exact .of_side (broadcastNext_stopSide taken)
  | session _ taken => exact .of_side (sessionStep_stopSide taken)
  | expire taken => exact .of_side (expire_stopSide taken)

theorem RegistryStep.mem_sessions (step : RegistryStep s t notes) (mem : i ∈ t.sessions) :
    i ∈ s.sessions ∨ (i, .opened) ∈ notes := by
  cases step with
  | same _ sessions | pass _ _ _ sessions | release _ sessions | join _ sessions
  | expire _ _ _ sessions =>
      exact .inl (sessions ▸ mem)
  | tidy _ _ sessions =>
      rw [sessions, mem_removeInvalidSessions] at mem
      exact .inl mem.1
  | opened _ _ _ sessions =>
      rw [sessions, List.mem_append, List.mem_singleton] at mem
      rcases mem with old | rfl
      · exact .inl old
      · exact .inr (List.mem_singleton_self _)
  | closed _ _ _ sessions =>
      rw [sessions] at mem
      exact .inl (List.mem_filter.mp mem).1

/-- A session is first held when it opens. -/
theorem held_next {e : WsServerEvent} (h : s.next cfg e = some (t, notes)) (held : t.Held i) :
    s.Held i ∨ (i, .opened) ∈ notes := by
  have before := next_heldBefore h
  rcases held with entry | ⟨c, mem, target⟩ | ⟨c, mem, target⟩
  · exact ((next_registryStep h).mem_sessions entry).imp_left .inl
  · exact .inl (before.callers c mem i target)
  · exact .inl (before.handlers c mem i target)

/-! ## What a step does to the sessions -/

inductive PeerStep (cfg : WsConfig) (s : WsServer) (event : WsServerEvent) (t : WsServer) :
    List (Nat × RegistryNote) → Prop where
  | same (peers : t.peers = s.peers) : PeerStep cfg s event t []
  | called {i : Nat} {peer : Peer} {c : Call} (held : s.Held i) (at_i : s.peers[i]? = some peer)
      (peers : t.peers = s.peers.set i { peer with session := peer.session.call c }) :
      PeerStep cfg s event t []
  | ran {i : Nat} {peer : Peer} {e : SessionEvent Unit} {session : Session} {notes : List RegistryNote}
      (same : event = .session i e) (at_i : s.peers[i]? = some peer) (live : peer.expired = false)
      (stepped : peer.session.next cfg e.routed = some (session, notes))
      (peers : t.peers = s.peers.set i { peer with session }) :
      PeerStep cfg s event t (notes.map fun n => (i, n))
  | join {remote : Option (String × UInt16)}
      (peers : t.peers = s.peers ++ [{ session := Session.start remote }]) : PeerStep cfg s event t []
  | expire {i : Nat} {peer : Peer} (at_i : s.peers[i]? = some peer)
      (idle : s.owned i peer.session = false)
      (peers : t.peers = s.peers.set i { peer with expired := true }) : PeerStep cfg s event t []

theorem PeerStep.call {event : WsServerEvent} {c : Call} (held : s.Held i)
    (peers : t.peers = (s.callSession i c).peers) : PeerStep cfg s event t [] := by
  unfold callSession at peers
  split at peers
  · exact .same peers
  · rename_i at_i
    exact .called held at_i peers

theorem test_peers (s : WsServer) (j : Nat) : (s.test j).peers = s.peers := by
  obtain ⟨sessions, cv, callers, same⟩ := test_frame s j
  rw [same]

theorem notes_peers (s : WsServer) (i : Nat) (notes : List RegistryNote) :
    (notes.foldl (note i) s).peers = s.peers := by
  obtain ⟨sessions, notifiers, same⟩ := notes_frame s i notes
  rw [same]

theorem stopStep_peerStep {event : WsServerEvent} {at_ : StopAt}
    (at_j : s.callers[j]? = some (.stop at_)) (h : s.stopStep j at_ = some t) :
    PeerStep cfg s event t [] := by
  cases at_ with
  | enter =>
      obtain ⟨-, rfl⟩ := locked_eq_some.mp h
      refine .same ?_
      split <;> rfl
  | look | collect | leave =>
      obtain ⟨-, rfl⟩ := locked_eq_some.mp h
      exact .same rfl
  | test =>
      obtain ⟨-, rfl⟩ := locked_eq_some.mp h
      exact .same (test_peers _ _)
  | close targets =>
      cases targets with
      | nil =>
          cases h
          exact .same rfl
      | cons i rest =>
          cases h
          exact .call (held_caller (List.mem_of_getElem? at_j) i List.mem_cons_self) rfl
  | requestStop | clearWait | arm | disarm | stopIo =>
      cases h
      exact .same rfl
  | joinIo =>
      obtain ⟨-, rfl⟩ := joinIo_eq_some h
      exact .same rfl
  | asleep => cases h

theorem handlerStep_peerStep {event : WsServerEvent} {at_ : DrainAt} (at_j : s.handlers[j]? = some at_)
    (h : s.handlerStep j at_ = some t) : PeerStep cfg s event t [] := by
  cases at_ with
  | collect =>
      obtain ⟨-, rfl⟩ := locked_eq_some.mp h
      exact .same rfl
  | close targets =>
      cases targets with
      | nil =>
          cases h
          exact .same rfl
      | cons i rest =>
          cases h
          exact .call (held_handler (List.mem_of_getElem? at_j) i List.mem_cons_self) rfl

theorem broadcastNext_peerStep {event : WsServerEvent}
    (underway : ∀ b, s.lock = some b → s.Underway b) (h : s.broadcastNext = some t) :
    PeerStep cfg s event t [] := by
  unfold broadcastNext at h
  cases held : s.lock with
  | none => simp [held] at h
  | some b =>
      simp only [held] at h
      cases front : b.remaining with
      | nil =>
          simp only [front] at h
          cases h
          exact .same rfl
      | cons i rest =>
          have entry : i ∈ s.sessions := by
            rw [(underway b held).entries, front]
            exact List.mem_append_right _ List.mem_cons_self
          simp only [front] at h
          split at h
          · cases h
            exact .same rfl
          · cases h
            exact .call (.inl entry) rfl

theorem sessionStep_peerStep {event : WsServerEvent} {e : SessionEvent Unit}
    (same : event = .session i e) (h : s.sessionStep cfg i e = some (t, notes)) :
    PeerStep cfg s event t notes := by
  unfold sessionStep at h
  split at h
  · cases h
  · rename_i peer at_i
    split at h
    · cases h
    · rename_i allowed
      have live : peer.expired = false := by
        by_contra expired
        simp [expired] at allowed
      split at h
      · cases h
      · rename_i stepped
        split at h
        · cases h
        · cases h
          exact .ran same at_i live stepped (notes_peers _ i _)

theorem acceptStep_peerStep {event : WsServerEvent} {failed : Bool} {remote : Option (String × UInt16)}
    {at_ : AcceptAt} (h : s.acceptStep j failed remote at_ = some t) : PeerStep cfg s event t [] := by
  cases at_ with
  | waiting =>
      simp only [acceptStep] at h
      split at h
      · cases h
      · split at h <;> cases h <;> exact .same rfl
  | beforeAccept =>
      simp only [acceptStep] at h
      split at h <;> cases h <;> exact .same rfl
  | client =>
      cases h
      exact .join rfl
  | beforeClient | again =>
      cases h
      exact .same rfl

theorem next_peerStep {e : WsServerEvent} (underway : ∀ b, s.lock = some b → s.Underway b)
    (h : s.next cfg e = some (t, notes)) : PeerStep cfg s e t notes := by
  cases next_step h with
  | call | wake | timer | notify => exact .same rfl
  | @start _ _ at_ _ taken =>
      cases at_ with
      | enter | leave =>
          obtain ⟨-, rfl⟩ := locked_eq_some.mp taken
          exact .same rfl
      | allowAccepts | accept | runIo =>
          cases taken
          exact .same rfl
  | stop at_j taken => exact stopStep_peerStep at_j taken
  | resume =>
      exact .same (test_peers _ _)
  | accept _ taken => exact acceptStep_peerStep taken
  | handler at_j taken => exact handlerStep_peerStep at_j taken
  | broadcast taken =>
      obtain ⟨-, rfl⟩ := locked_eq_some.mp taken
      refine .same ?_
      split <;> rfl
  | broadcastNext taken => exact broadcastNext_peerStep underway taken
  | session same taken => exact sessionStep_peerStep same taken
  | expire taken =>
      obtain ⟨peer, at_i, idle, rfl⟩ := expire_spec taken
      exact .expire at_i idle rfl

/-! ## The run -/

/-- A handshake goes on undisturbed, an open session is driven and has not ended, and the server holds
pointers to sessions that have opened only. -/
structure Lively (notes : List (Nat × RegistryNote)) (s : WsServer) : Prop where
  held : ∀ i, s.Held i → i < s.peers.length ∧ s.shakes i = 0
  shaking : ∀ (i : Nat) (peer : Peer), s.peers[i]? = some peer → 0 < s.shakes i → peer.session.Shaking
  driven : ∀ (i : Nat) (peer : Peer), s.peers[i]? = some peer → Connected notes i →
    peer.session.Driven ∧ peer.expired = false

theorem shakes_eq {peer : Peer} (at_i : s.peers[i]? = some peer) :
    s.shakes i = peer.session.outbox.handshakes := by
  simp [shakes, at_i]

theorem owned_of_driven {session : Session} (driven : session.Driven) : s.owned i session = true := by
  have busy : ∀ p ∈ session.pending, p ≠ .ping → s.owned i session = true := by
    intro p mem other
    unfold owned
    have any : session.pending.any (· != .ping) = true := by
      rw [List.any_eq_true]
      exact ⟨p, mem, by simpa using other⟩
    rw [any, Bool.true_or, Bool.true_or]
  have ending : session.Ending → s.owned i session = true := by
    intro ending
    rcases ending with write | forced | close
    · obtain ⟨p, mem, isWrite⟩ := List.any_eq_true.mp write
      refine busy p mem ?_
      rintro rfl
      cases isWrite
    · exact busy _ forced (by simp)
    · exact busy _ close (by simp)
  rcases driven.active with opened | closing | shutdown
  · exact busy _ (driven.opened opened) (by simp)
  · exact busy _ (driven.closing closing) (by simp)
  · exact ending (driven.shutdown shutdown)

/-- The entry at `i` is replaced, or another one is as it was. -/
theorem peer_of_set {peer peer' new : Peer} (at_i : s.peers[i]? = some peer)
    (peers : t.peers = s.peers.set i new) (at_j : t.peers[j]? = some peer') :
    (j = i ∧ peer' = new) ∨ (j ≠ i ∧ s.peers[j]? = some peer') := by
  rw [peers] at at_j
  by_cases same : i = j
  · subst same
    rw [set_at at_i] at at_j
    exact .inl ⟨rfl, (Option.some.inj at_j).symm⟩
  · rw [List.getElem?_set_ne same] at at_j
    exact .inr ⟨Ne.symm same, at_j⟩

def Orderly (s : WsServer) : WsServerEvent → Prop
  | .session i e => ∀ peer, s.peers[i]? = some peer → peer.session.Orderly e
  | _ => True

theorem connected_other {n : RegistryNote} (other : j ≠ i) :
    Connected (notes ++ [(j, n)]) i ↔ Connected notes i := by
  cases n with
  | opened => rw [connected_opened, or_iff_right other]
  | closed => rw [connected_closed, and_iff_right other]

theorem RegistryStep.shakes_le (step : RegistryStep s t notes) (old : i < s.peers.length) :
    i < t.peers.length ∧ t.shakes i ≤ s.shakes i := by
  have kept : PeersKept s t → i < t.peers.length ∧ t.shakes i ≤ s.shakes i := by
    intro peers
    exact ⟨peers.length ▸ old, peers.shakes i⟩
  cases step with
  | same peers | pass _ _ peers | opened _ peers | closed _ _ peers => exact kept peers
  | tidy peers | release peers => exact kept (.of_eq peers)
  | join peers =>
      have there : t.peers[i]? = s.peers[i]? := by rw [peers, List.getElem?_append_left old]
      refine ⟨?_, by simp only [shakes, there, Nat.le_refl]⟩
      rw [peers, List.length_append]
      omega
  | @expire k peer at_k _ peers =>
      refine ⟨by rwa [peers, List.length_set], ?_⟩
      simp only [shakes, peers]
      by_cases same : k = i
      · subst same
        rw [set_at at_k, at_k]
      · rw [List.getElem?_set_ne same]

theorem Lively.held_step {e : WsServerEvent} (lively : Lively notes s) (agrees : Agrees notes s)
    (h : s.next cfg e = some (t, more)) : ∀ i, t.Held i → i < t.peers.length ∧ t.shakes i = 0 := by
  intro i held
  have step := next_registryStep h
  rcases held_next h held with before | opened
  · obtain ⟨lt, none⟩ := lively.held i before
    obtain ⟨lt', fewer⟩ := step.shakes_le lt
    exact ⟨lt', by omega⟩
  · have after := agrees.step step
    refine after.settled i ?_
    cases step with
    | opened =>
        obtain rfl : i = _ := congrArg Prod.fst (List.mem_singleton.mp opened)
        exact connected_opened.mpr (.inl rfl)
    | closed => simp at opened
    | same | tidy | pass | release | join | expire => cases opened

/-- What the session that takes a step is afterwards. -/
theorem Lively.ran {peer : Peer} {e : SessionEvent Unit} {session : Session} {told : List RegistryNote}
    (lively : Lively notes s) (agrees : Agrees notes s) (at_i : s.peers[i]? = some peer)
    (orderly : peer.session.Orderly e)
    (stepped : peer.session.next cfg e.routed = some (session, told)) :
    (0 < session.outbox.handshakes → session.Shaking) ∧
      (Connected (notes ++ told.map fun n => (i, n)) i → session.Driven) := by
  obtain ⟨fewer, tells⟩ := Session.next_tells stepped
  have shakes := shakes_eq at_i
  by_cases shaking : 0 < s.shakes i
  · have fresh : ¬ Connected notes i := by
      intro connected
      have none := (agrees.settled i connected).2
      omega
    have shake := lively.shaking i peer at_i shaking
    have one := shake.handshakes
    rcases shake.next orderly stepped with ⟨rfl, goes⟩ | ⟨rfl, driven⟩
    · refine ⟨goes, fun connected => absurd ?_ fresh⟩
      simpa using connected
    · refine ⟨fun some => ?_, fun _ => driven⟩
      simp only [List.cons_ne_nil, List.cons.injEq, reduceCtorEq, and_true, true_and, false_or] at tells
      omega
  · refine ⟨fun some => absurd some (by omega), fun connected => ?_⟩
    rcases tells with rfl | rfl | ⟨rfl, less⟩
    · have driven := (lively.driven i peer at_i (by simpa using connected)).1
      rcases driven.next orderly stepped with closed | ⟨-, after⟩
      · cases closed
      · exact after
    · exact absurd rfl (connected_closed.mp connected).1
    · omega

theorem Lively.step {e : WsServerEvent} (lively : Lively notes s) (agrees : Agrees notes s)
    (orderly : s.Orderly e) (h : s.next cfg e = some (t, more)) : Lively (notes ++ more) t := by
  refine ⟨lively.held_step agrees h, ?_, ?_⟩
  · intro j peer' at_j some
    rw [shakes_eq at_j] at some
    have same : s.peers[j]? = Option.some peer' → peer'.session.Shaking := fun before =>
      lively.shaking j peer' before (shakes_eq before ▸ some)
    cases next_peerStep agrees.broadcast h with
    | same peers => exact same (peers ▸ at_j)
    | @called i peer c held at_i peers =>
        rcases peer_of_set at_i peers at_j with ⟨rfl, rfl⟩ | ⟨-, before⟩
        · have none := (lively.held j held).2
          rw [shakes_eq at_i] at none
          rw [show Outbox.handshakes _ = _ from congrArg _ (Session.outbox_call peer.session c)] at some
          omega
        · exact same before
    | @ran i peer e session told event at_i live stepped peers =>
        rcases peer_of_set at_i peers at_j with ⟨rfl, rfl⟩ | ⟨-, before⟩
        · subst event
          exact (lively.ran agrees at_i (orderly peer at_i) stepped).1 some
        · exact same before
    | join peers =>
        rw [peers, concat_at] at at_j
        rcases at_j with before | ⟨-, rfl⟩
        · exact same before
        · exact ⟨.inl rfl, rfl, rfl⟩
    | @expire i peer at_i idle peers =>
        rcases peer_of_set at_i peers at_j with ⟨rfl, rfl⟩ | ⟨-, before⟩
        · exact lively.shaking j peer at_i (shakes_eq at_i ▸ some)
        · exact same before
  · intro j peer' at_j connected
    cases next_peerStep agrees.broadcast h with
    | same peers =>
        rw [List.append_nil] at connected
        exact lively.driven j peer' (peers ▸ at_j) connected
    | @called i peer c held at_i peers =>
        rw [List.append_nil] at connected
        rcases peer_of_set at_i peers at_j with ⟨rfl, rfl⟩ | ⟨-, before⟩
        · have driven := lively.driven j peer at_i connected
          exact ⟨driven.1.grows (Session.grows_call peer.session c), driven.2⟩
        · exact lively.driven j peer' before connected
    | @ran i peer e session told event at_i live stepped peers =>
        rcases peer_of_set at_i peers at_j with ⟨rfl, rfl⟩ | ⟨other, before⟩
        · subst event
          exact ⟨(lively.ran agrees at_i (orderly peer at_i) stepped).2 connected, live⟩
        · refine lively.driven j peer' before ?_
          rcases (Session.next_tells stepped).2 with rfl | rfl | ⟨rfl, -⟩
          · simpa using connected
          · exact (connected_other other.symm).mp connected
          · exact (connected_other other.symm).mp connected
    | join peers =>
        rw [List.append_nil] at connected
        have old := (agrees.settled j connected).1
        rw [peers, List.getElem?_append_left old] at at_j
        exact lively.driven j peer' at_j connected
    | @expire i peer at_i idle peers =>
        rw [List.append_nil] at connected
        rcases peer_of_set at_i peers at_j with ⟨rfl, rfl⟩ | ⟨-, before⟩
        · have driven := (lively.driven j peer at_i connected).1
          rw [owned_of_driven driven] at idle
          cases idle
        · exact lively.driven j peer' before connected

end WsServer

-- an open handler that throws leaves a session with a heartbeat at most, and the entry expires
example : ((wsServerMachine defaultConfig).exec .create
    (openTrace.dropLast ++ [.session 0 (.complete 0 .success {}
      { handleOpen := fun _ => { throws := true } }), .expire 0])).map
      (fun r => (r.2.sessions, r.2.expired 0)) = some ([0], true) := rfl

end Rtl.Ws
