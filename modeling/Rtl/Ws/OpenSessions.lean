import Rtl.Ws.Registry

/-! # The registry holds the open sessions

A session is connected once it has told the server that it opened and until it tells it that it
closed. The live entries of the registry are the connected sessions, in every state of every run,
and a broadcast in progress has each of them before it or behind it.
-/

namespace Rtl.Ws

open Rtl.Base

def told (ts : List (Transition WsServer WsServerEvent (List (Nat × RegistryNote)))) :
    List (Nat × RegistryNote) :=
  ts.flatMap (·.output)

/-- The last that session `i` has told is that it opened. -/
def Connected (notes : List (Nat × RegistryNote)) (i : Nat) : Prop :=
  (notes.filter (·.1 == i)).getLast? = some (i, .opened)

instance (notes : List (Nat × RegistryNote)) (i : Nat) : Decidable (Connected notes i) :=
  inferInstanceAs (Decidable (_ = _))

theorem connected_opened {notes : List (Nat × RegistryNote)} {i j : Nat} :
    Connected (notes ++ [(j, .opened)]) i ↔ j = i ∨ Connected notes i := by
  unfold Connected
  by_cases same : j = i
  · subst same
    simp [List.filter_append]
  · simp [List.filter_append, same]

theorem connected_closed {notes : List (Nat × RegistryNote)} {i j : Nat} :
    Connected (notes ++ [(j, .closed)]) i ↔ j ≠ i ∧ Connected notes i := by
  unfold Connected
  by_cases same : j = i
  · subst same
    simp [List.filter_append]
  · simp [List.filter_append, same]

namespace WsServer

variable {cfg : WsConfig} {s t : WsServer} {notes more : List (Nat × RegistryNote)} {i : Nat}

/-- A broadcast in progress. The entries it has passed without an offer have ended. -/
structure Underway (s : WsServer) (b : Broadcast) : Prop where
  entries : s.sessions = b.passed ++ b.remaining
  offers : b.offered.Sublist b.passed
  missed : ∀ i ∈ b.passed, s.expired i = false → i ∈ b.offered

/-- The registry agrees with what the sessions have told. -/
structure Agrees (notes : List (Nat × RegistryNote)) (s : WsServer) : Prop where
  nodup : s.sessions.Nodup
  once : ∀ i, s.shakes i ≤ 1
  settled : ∀ i, Connected notes i → i < s.peers.length ∧ s.shakes i = 0
  entry : ∀ i ∈ s.sessions, Connected notes i
  live : ∀ i, Connected notes i → s.expired i = false → i ∈ s.sessions
  broadcast : ∀ b, s.lock = some b → s.Underway b

/-- The broadcast is done with the next entry. -/
theorem Underway.pass {b : Broadcast} {rest : List Nat} (underway : s.Underway b)
    (front : b.remaining = i :: rest) (peers : PeersKept s t) (sessions : t.sessions = s.sessions) :
    t.Underway { b with
      passed := b.passed ++ [i]
      offered := if s.expired i then b.offered else b.offered ++ [i]
      remaining := rest } := by
  refine ⟨?_, ?_, ?_⟩
  · rw [sessions, underway.entries, front]
    simp
  · simp only
    split
    · exact underway.offers.trans (List.sublist_append_left _ _)
    · exact underway.offers.append (List.Sublist.refl [i])
  · intro j mem unexpired
    rw [peers.expired j] at unexpired
    simp only [List.mem_append, List.mem_singleton] at mem ⊢
    rcases mem with old | rfl
    · have offered := underway.missed j old unexpired
      split
      · exact offered
      · exact List.mem_append_left _ offered
    · simp [unexpired]

theorem lt_of_shakes (h : 0 < s.shakes i) : i < s.peers.length := by
  unfold shakes at h
  cases at_i : s.peers[i]? with
  | none => simp [at_i] at h
  | some peer => exact (List.getElem?_eq_some_iff.mp at_i).1

theorem mem_removeInvalidSessions {i : Nat} :
    i ∈ s.removeInvalidSessions.sessions ↔ i ∈ s.sessions ∧ s.expired i = false := by
  simp [removeInvalidSessions]

/-- The broadcast does not take part in the step. -/
theorem Agrees.underway (agrees : Agrees notes s) (sessions : t.sessions = s.sessions)
    (lock : t.lock = s.lock)
    (expired : ∀ i, Connected notes i → t.expired i = false → s.expired i = false) :
    ∀ b, t.lock = some b → t.Underway b := by
  intro b held
  have before := agrees.broadcast b (lock ▸ held)
  refine ⟨sessions ▸ before.entries, before.offers, ?_⟩
  intro i mem unexpired
  have entry : i ∈ s.sessions := by
    rw [before.entries]
    exact List.mem_append_left _ mem
  exact before.missed i mem (expired i (agrees.entry i entry) unexpired)

/-- The registry does not change, and the sessions go on. -/
theorem Agrees.same (agrees : Agrees notes s) (peers : PeersKept s t)
    (sessions : t.sessions = s.sessions)
    (broadcast : ∀ b, t.lock = some b → t.Underway b) : Agrees notes t where
  nodup := sessions ▸ agrees.nodup
  once i := Nat.le_trans (peers.shakes i) (agrees.once i)
  settled i connected := by
    have settled := agrees.settled i connected
    have fewer := peers.shakes i
    have length := peers.length
    omega
  entry := sessions ▸ agrees.entry
  live i connected unexpired := by
    rw [sessions]
    exact agrees.live i connected (peers.expired i ▸ unexpired)
  broadcast := broadcast

theorem Agrees.tidy (agrees : Agrees notes s) (peers : t.peers = s.peers)
    (sessions : t.sessions = s.removeInvalidSessions.sessions)
    (lock : ∀ b, t.lock = some b → b.passed = [] ∧ b.offered = [] ∧ b.remaining = t.sessions) :
    Agrees notes t := by
  have kept : PeersKept s t := .of_eq peers
  refine ⟨?_, ?_, ?_, ?_, ?_, ?_⟩
  · rw [sessions]
    exact agrees.nodup.filter _
  · intro i
    exact Nat.le_trans (kept.shakes i) (agrees.once i)
  · intro i connected
    have settled := agrees.settled i connected
    have fewer := kept.shakes i
    have length := kept.length
    omega
  · intro i mem
    rw [sessions, mem_removeInvalidSessions] at mem
    exact agrees.entry i mem.1
  · intro i connected unexpired
    rw [kept.expired i] at unexpired
    rw [sessions, mem_removeInvalidSessions]
    exact ⟨agrees.live i connected unexpired, unexpired⟩
  · intro b held
    obtain ⟨passed, offered, remaining⟩ := lock b held
    exact ⟨by simp [passed, remaining], by simp [offered], by simp [passed]⟩

/-- A new session has not told anything yet. -/
theorem Agrees.join {remote : Option (String × UInt16)} (agrees : Agrees notes s)
    (peers : t.peers = s.peers ++ [{ session := Session.start remote }])
    (sessions : t.sessions = s.sessions) (lock : t.lock = s.lock) : Agrees notes t := by
  have old : ∀ i, i < s.peers.length → t.peers[i]? = s.peers[i]? := by
    intro i lt
    rw [peers, List.getElem?_append_left lt]
  have unexpired : ∀ i, Connected notes i → t.expired i = false → s.expired i = false := by
    intro i connected unexpired
    simpa only [expired, old i (agrees.settled i connected).1] using unexpired
  refine ⟨sessions ▸ agrees.nodup, ?_, ?_, sessions ▸ agrees.entry, ?_,
    agrees.underway sessions lock unexpired⟩
  · intro i
    rcases Nat.lt_trichotomy i s.peers.length with lt | rfl | gt
    · simpa only [shakes, old i lt] using agrees.once i
    · simp only [shakes, peers, List.getElem?_concat_length]
      exact Nat.le_refl 1
    · have none : t.peers[i]? = none := by
        rw [peers, List.getElem?_eq_none]
        simp only [List.length_append, List.length_singleton]
        omega
      simp only [shakes, none, Nat.zero_le]
  · intro i connected
    obtain ⟨lt, none⟩ := agrees.settled i connected
    simp only [shakes, old i lt] at none ⊢
    refine ⟨?_, none⟩
    rw [peers, List.length_append]
    omega
  · intro i connected live
    rw [sessions]
    exact agrees.live i connected (unexpired i connected live)

theorem Agrees.expire {peer : Peer} (agrees : Agrees notes s) (at_i : s.peers[i]? = some peer)
    (peers : t.peers = s.peers.set i { peer with expired := true })
    (sessions : t.sessions = s.sessions) (lock : t.lock = s.lock) : Agrees notes t := by
  have shakes : ∀ j, t.shakes j = s.shakes j := by
    intro j
    simp only [WsServer.shakes, peers]
    by_cases same : i = j
    · subst same
      rw [set_at at_i, at_i]
    · rw [List.getElem?_set_ne same]
  have unexpired : ∀ j, Connected notes j → t.expired j = false → s.expired j = false := by
    intro j _ live
    simp only [expired, peers] at live ⊢
    by_cases same : i = j
    · subst same
      rw [set_at at_i] at live
      cases live
    · rwa [List.getElem?_set_ne same] at live
  refine ⟨sessions ▸ agrees.nodup, fun j => shakes j ▸ agrees.once j, ?_, sessions ▸ agrees.entry,
    ?_, agrees.underway sessions lock unexpired⟩
  · intro j connected
    rw [shakes j, peers, List.length_set]
    exact agrees.settled j connected
  · intro j connected live
    rw [sessions]
    exact agrees.live j connected (unexpired j connected live)

theorem Agrees.opened (agrees : Agrees notes s) (peers : PeersKept s t)
    (handshake : t.shakes i < s.shakes i) (sessions : t.sessions = s.sessions ++ [i])
    (lock : t.lock = none) : Agrees (notes ++ [(i, .opened)]) t := by
  have one := agrees.once i
  -- a connected session has no handshake left to open with
  have fresh : ¬ Connected notes i := by
    intro connected
    have none := (agrees.settled i connected).2
    omega
  refine ⟨?_, ?_, ?_, ?_, ?_, ?_⟩
  · rw [sessions]
    refine List.nodup_append.mpr ⟨agrees.nodup, by simp, ?_⟩
    intro j mem k single same
    rw [List.mem_singleton.mp single] at same
    exact fresh (agrees.entry i (same ▸ mem))
  · intro j
    exact Nat.le_trans (peers.shakes j) (agrees.once j)
  · intro j connected
    have length := peers.length
    rcases connected_opened.mp connected with rfl | old
    · have bound := lt_of_shakes (s := s) (i := i) (by omega)
      omega
    · have settled := agrees.settled j old
      have fewer := peers.shakes j
      omega
  · intro j mem
    rw [sessions, List.mem_append, List.mem_singleton] at mem
    rcases mem with old | rfl
    · exact connected_opened.mpr (.inr (agrees.entry j old))
    · exact connected_opened.mpr (.inl rfl)
  · intro j connected unexpired
    rw [sessions, List.mem_append, List.mem_singleton]
    rcases connected_opened.mp connected with rfl | old
    · exact .inr rfl
    · exact .inl (agrees.live j old (peers.expired j ▸ unexpired))
  · intro b held
    rw [lock] at held
    cases held

theorem Agrees.closed (agrees : Agrees notes s) (peers : PeersKept s t)
    (sessions : t.sessions = s.sessions.filter fun j => !(s.expired j || j == i))
    (lock : t.lock = none) : Agrees (notes ++ [(i, .closed)]) t := by
  have entries : ∀ j, j ∈ t.sessions ↔ j ∈ s.sessions ∧ s.expired j = false ∧ j ≠ i := by
    intro j
    rw [sessions]
    simp
  refine ⟨?_, ?_, ?_, ?_, ?_, ?_⟩
  · rw [sessions]
    exact agrees.nodup.filter _
  · intro j
    exact Nat.le_trans (peers.shakes j) (agrees.once j)
  · intro j connected
    have settled := agrees.settled j (connected_closed.mp connected).2
    have fewer := peers.shakes j
    have length := peers.length
    omega
  · intro j mem
    have member := (entries j).mp mem
    exact connected_closed.mpr ⟨member.2.2.symm, agrees.entry j member.1⟩
  · intro j connected unexpired
    rw [peers.expired j] at unexpired
    have other := connected_closed.mp connected
    exact (entries j).mpr ⟨agrees.live j other.2 unexpired, unexpired, other.1.symm⟩
  · intro b held
    rw [lock] at held
    cases held

/-- One step keeps the agreement, with what it tells. -/
theorem Agrees.step (agrees : Agrees notes s) (step : RegistryStep s t more) :
    Agrees (notes ++ more) t := by
  cases step with
  | same peers sessions lock =>
      rw [List.append_nil]
      exact agrees.same peers sessions <| agrees.underway sessions lock fun i _ live =>
        peers.expired i ▸ live
  | tidy peers free sessions lock =>
      rw [List.append_nil]
      exact agrees.tidy peers sessions lock
  | pass held front peers sessions lock =>
      rw [List.append_nil]
      refine agrees.same peers sessions fun b now => ?_
      rw [lock] at now
      cases now
      exact (agrees.broadcast _ held).pass front peers sessions
  | release peers sessions lock =>
      rw [List.append_nil]
      refine agrees.same (.of_eq peers) sessions fun b now => ?_
      rw [lock] at now
      cases now
  | join peers sessions lock =>
      rw [List.append_nil]
      exact agrees.join peers sessions lock
  | expire at_i idle peers sessions lock =>
      rw [List.append_nil]
      exact agrees.expire at_i peers sessions lock
  | opened free peers handshake sessions lock => exact agrees.opened peers handshake sessions lock
  | closed free io peers sessions lock => exact agrees.closed peers sessions lock

theorem agrees_create : Agrees [] create where
  nodup := List.nodup_nil
  once i := by simp [shakes, create]
  settled i connected := by simp [Connected] at connected
  entry i mem := by simp [create] at mem
  live i connected := by simp [Connected] at connected
  broadcast b held := by simp [create] at held

theorem agrees_run {s₀ : WsServer}
    {ts : List (Transition WsServer WsServerEvent (List (Nat × RegistryNote)))}
    (init : (wsServerMachine cfg).init s₀) (run : (wsServerMachine cfg).Run s₀ ts s) :
    Agrees (told ts) s := by
  refine run.history (H := fun ts s => Agrees (told ts) s) ?_ ?_
  · rw [show s₀ = create from init]
    exact agrees_create
  · intro ts s e t o agrees h
    have next := agrees.step (next_registryStep h)
    simpa only [told, List.flatMap_append, List.flatMap_singleton] using next

end WsServer

/-- Whatever the sessions, the callers and the timers do, the live entries of the registry are the
sessions that have opened and not closed since, each once. -/
theorem live_sessions_exact (cfg : WsConfig) {s₀ s : WsServer}
    {ts : List (Transition WsServer WsServerEvent (List (Nat × RegistryNote)))}
    (init : (wsServerMachine cfg).init s₀) (run : (wsServerMachine cfg).Run s₀ ts s) :
    s.removeInvalidSessions.sessions.Nodup ∧
      ∀ i, i ∈ s.removeInvalidSessions.sessions ↔ Connected (told ts) i ∧ s.expired i = false := by
  have agrees := WsServer.agrees_run init run
  constructor
  · exact agrees.nodup.filter _
  · intro i
    rw [WsServer.mem_removeInvalidSessions]
    constructor
    · intro mem
      exact ⟨agrees.entry i mem.1, mem.2⟩
    · intro connected
      exact ⟨agrees.live i connected.1 connected.2, connected.2⟩

def openTrace : List WsServerEvent :=
  [.start, .caller 0, .caller 0, .caller 0, .caller 0, .caller 0, .accept 0 false none,
    .accept 0 false none, .accept 0 false none, .session 0 (.complete 0 .success {} {}),
    .session 0 (.complete 0 .success {} {})]

theorem live_sessions_exact_openTrace :
    ∃ ts s, (wsServerMachine defaultConfig).exec .create openTrace = some (ts, s) ∧
      0 ∈ s.removeInvalidSessions.sessions ∧ Connected (told ts) 0 ∧ s.expired 0 = false := by
  have h : (wsServerMachine defaultConfig).exec .create openTrace = some (_, _) := rfl
  have entry : 0 ∈ [0] := List.mem_singleton_self 0
  exact ⟨_, _, h, entry, ((live_sessions_exact defaultConfig rfl (.of_exec h)).2 0).mp entry⟩

end Rtl.Ws
