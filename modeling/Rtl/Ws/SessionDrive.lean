import Rtl.Ws.Registry

/-! # An open session is driven to its close

A session lives as long as an operation that owns it is outstanding. While it is open a read is
outstanding, while it is closing a close is, and while it shuts down a write is or a close is on its
way. A handler hands this on, or it tells of the close: it cannot leave an open session with nothing to
do, unless a callback throws or a close is aborted.
-/

namespace Rtl.Ws

open Rtl.Base

def Pending.beforeOpen : Pending → Bool
  | .httpRead => true
  | .wsAccept => true
  | .rejectWrite _ _ => true
  | _ => false

namespace Session

variable {cfg : WsConfig} {s t u : Session} {p : Pending} {rest : List Pending}

/-- An operation is outstanding that goes on with the write queue or closes. -/
def Ending (s : Session) : Prop :=
  s.pending.any Pending.isWrite = true ∨ .closeForcefully ∈ s.pending ∨ .wsClose ∈ s.pending

/-- An open or closing session has the operation outstanding that its state asks for. -/
structure Attended (s : Session) : Prop where
  past : ∀ p ∈ s.pending, p.beforeOpen = false
  notified : s.closeNotified = false
  active : s.curState = .opened ∨ s.curState = .closing ∨ s.curState = .shutdown
  opened : s.curState = .opened → .wsRead ∈ s.pending
  closing : s.curState = .closing → .wsClose ∈ s.pending

structure Driven (s : Session) : Prop extends Attended s where
  shutdown : s.curState = .shutdown → s.Ending
  writing : s.writing = true → s.Ending

/-! ## Posting more -/

/-- Nothing but further operations of an open session. -/
structure Grows (s t : Session) : Prop where
  state : t.curState = s.curState
  notified : t.closeNotified = s.closeNotified
  writing : t.writing = s.writing
  keeps : ∀ p ∈ s.pending, p ∈ t.pending
  past : ∀ p ∈ t.pending, p ∈ s.pending ∨ p.beforeOpen = false

theorem Grows.refl (s : Session) : Grows s s :=
  ⟨rfl, rfl, rfl, fun _ mem => mem, fun _ mem => .inl mem⟩

theorem Grows.trans (first : Grows s t) (second : Grows t u) : Grows s u where
  state := second.state.trans first.state
  notified := second.notified.trans first.notified
  writing := second.writing.trans first.writing
  keeps p mem := second.keeps p (first.keeps p mem)
  past p mem := by
    rcases second.past p mem with old | new
    · exact first.past p old
    · exact .inr new

theorem grows_post (s : Session) (late : p.beforeOpen = false) : Grows s (s.post p) where
  state := rfl
  notified := rfl
  writing := rfl
  keeps _ mem := List.mem_append_left _ mem
  past q mem := by
    rcases List.mem_append.mp mem with old | new
    · exact .inl old
    · rw [List.mem_singleton.mp new]
      exact .inr late

theorem grows_call (s : Session) (c : Call) : Grows s (s.call c) := by
  cases c with
  | sendText | sendBinary =>
      simp only [call, send]
      split
      · exact grows_post s rfl
      · exact .refl s
  | closeForShutdown =>
      simp only [call, closeForShutdown]
      split
      · exact .refl s
      · exact grows_post s rfl
  | close | closeForcefully => exact grows_post s rfl

theorem grows_calls (s : Session) (cs : List Call) : Grows s (s.calls cs) := by
  induction cs generalizing s with
  | nil => exact .refl s
  | cons c cs ih => exact (grows_call s c).trans (ih (s.call c))

theorem grows_runIdleTimer (cfg : WsConfig) (s : Session) : Grows s (s.runIdleTimer cfg) := by
  unfold runIdleTimer
  split
  · exact .refl s
  · exact grows_post s rfl

theorem grows_doHeartbeatNext (cfg : WsConfig) (s : Session) : Grows s (s.doHeartbeatNext cfg) := by
  unfold doHeartbeatNext
  refine Grows.trans ?_ (grows_post _ rfl)
  unfold runHeartbeatTimer
  split
  · exact .refl s
  · exact grows_post s rfl

theorem grows_doHeartbeat (cfg : WsConfig) (s : Session) : Grows s (s.doHeartbeat cfg) := by
  unfold doHeartbeat
  split
  · exact grows_doHeartbeatNext cfg s
  · exact .refl s

theorem grows_doRead (s : Session) : Grows s s.doRead := by
  unfold doRead
  split
  · exact grows_post s rfl
  · exact .refl s

theorem grows_popWritten (s : Session) (m : WriteMessage) (outcome : Outcome) :
    Grows s (s.popWritten m outcome) := by
  unfold popWritten
  split
  · exact ⟨rfl, rfl, rfl, fun _ mem => mem, fun _ mem => .inl mem⟩
  · exact .refl s

theorem Ending.grows (ending : s.Ending) (more : Grows s t) : t.Ending := by
  rcases ending with write | forced | close
  · obtain ⟨p, mem, isWrite⟩ := List.any_eq_true.mp write
    exact .inl (List.any_eq_true.mpr ⟨p, more.keeps p mem, isWrite⟩)
  · exact .inr (.inl (more.keeps _ forced))
  · exact .inr (.inr (more.keeps _ close))

theorem Attended.grows (attended : s.Attended) (more : Grows s t) : t.Attended where
  past p mem := by
    rcases more.past p mem with old | new
    · exact attended.past p old
    · exact new
  notified := more.notified.trans attended.notified
  active := more.state ▸ attended.active
  opened h := more.keeps _ (attended.opened (more.state ▸ h))
  closing h := more.keeps _ (attended.closing (more.state ▸ h))

theorem Driven.grows (driven : s.Driven) (more : Grows s t) : t.Driven where
  toAttended := driven.toAttended.grows more
  shutdown h := (driven.shutdown (more.state ▸ h)).grows more
  writing h := (driven.writing (more.writing ▸ h)).grows more

theorem Attended.driven (attended : s.Attended) (ending : s.Ending) : s.Driven :=
  ⟨attended, fun _ => ending, fun _ => ending⟩

/-! ## Taking an operation out -/

theorem mem_rest {q : Pending} (picked : s.pending.Perm (p :: rest)) (mem : q ∈ s.pending)
    (other : q ≠ p) : q ∈ rest := by
  rcases List.mem_cons.mp (picked.mem_iff.mp mem) with same | later
  · exact absurd same other
  · exact later

theorem Attended.taken (attended : s.Attended) (picked : s.pending.Perm (p :: rest))
    (read : p ≠ .wsRead) (close : p ≠ .wsClose) : ({ s with pending := rest } : Session).Attended where
  past q mem := attended.past q (picked.mem_iff.mpr (List.mem_cons_of_mem p mem))
  notified := attended.notified
  active := attended.active
  opened h := mem_rest picked (attended.opened h) read.symm
  closing h := mem_rest picked (attended.closing h) close.symm

theorem Ending.taken (ending : s.Ending) (picked : s.pending.Perm (p :: rest))
    (write : p.isWrite = false) (forced : p ≠ .closeForcefully) (close : p ≠ .wsClose) :
    ({ s with pending := rest } : Session).Ending := by
  rcases ending with some | mem | mem
  · obtain ⟨q, mem, isWrite⟩ := List.any_eq_true.mp some
    have other : q ≠ p := by
      rintro rfl
      rw [write] at isWrite
      cases isWrite
    exact .inl (List.any_eq_true.mpr ⟨q, mem_rest picked mem other, isWrite⟩)
  · exact .inr (.inl (mem_rest picked mem forced.symm))
  · exact .inr (.inr (mem_rest picked mem close.symm))

/-- The operation does not drive the session. -/
theorem Driven.taken (driven : s.Driven) (picked : s.pending.Perm (p :: rest)) (read : p ≠ .wsRead)
    (write : p.isWrite = false) (forced : p ≠ .closeForcefully) (close : p ≠ .wsClose) :
    ({ s with pending := rest } : Session).Driven where
  toAttended := driven.toAttended.taken picked read close
  shutdown h := (driven.shutdown h).taken picked write forced close
  writing h := (driven.writing h).taken picked write forced close

/-! ## The functions of the write queue and of closing -/

theorem Attended.of_eq (attended : s.Attended) (state : t.curState = s.curState)
    (notified : t.closeNotified = s.closeNotified) (pending : t.pending = s.pending) : t.Attended where
  past := pending ▸ attended.past
  notified := notified.trans attended.notified
  active := state ▸ attended.active
  opened h := pending ▸ attended.opened (state ▸ h)
  closing h := pending ▸ attended.closing (state ▸ h)

theorem Attended.startWrite (attended : s.Attended) {m : WriteMessage} (isWrite : p.isWrite = true)
    (late : p.beforeOpen = false) : (s.startWrite m p).Driven := by
  have started : ({ s with writing := true, handed := s.handed ++ [m] } : Session).Attended :=
    attended.of_eq rfl rfl rfl
  refine (started.grows (grows_post _ late)).driven (.inl ?_)
  exact List.any_eq_true.mpr ⟨p, List.mem_append_right _ (List.mem_singleton_self p), isWrite⟩

theorem Attended.doDrainQueue (attended : s.Attended) (writing : s.writing = true → s.Ending) :
    s.doDrainQueue.Driven := by
  unfold Session.doDrainQueue
  split
  · rename_i busy
    exact attended.driven (writing busy)
  · split
    · have idle : ({ s with writing := false } : Session).Attended := attended.of_eq rfl rfl rfl
      refine (idle.grows (grows_post _ rfl)).driven (.inr (.inl ?_))
      exact List.mem_append_right _ (List.mem_singleton_self _)
    · exact attended.startWrite rfl rfl

theorem Attended.doWriteNext (attended : s.Attended) : s.doWriteNext.Driven := by
  unfold Session.doWriteNext
  have idle : ({ s with writing := false } : Session).Attended := attended.of_eq rfl rfl rfl
  split
  · exact idle.doDrainQueue (by simp)
  · rename_i late
    have notShutdown : s.curState ≠ .shutdown := by simpa [isShutdown] using late
    split
    · exact ⟨attended.of_eq rfl rfl rfl, fun h => absurd h notShutdown, fun h => by cases h⟩
    · split
      · exact ⟨idle, fun h => absurd h notShutdown, fun h => by cases h⟩
      · exact attended.startWrite rfl rfl

theorem Attended.wsClose (attended : s.Attended) (state : t.curState = .closing)
    (notified : t.closeNotified = s.closeNotified) (pending : t.pending = s.pending) :
    (t.post .wsClose).Driven := by
  have there : .wsClose ∈ (t.post .wsClose).pending :=
    List.mem_append_right _ (List.mem_singleton_self _)
  have ending : (t.post .wsClose).Ending := .inr (.inr there)
  refine ⟨⟨?_, notified.trans attended.notified, .inr (.inl state), ?_, fun _ => there⟩,
    fun _ => ending, fun _ => ending⟩
  · intro p mem
    rcases List.mem_append.mp mem with old | new
    · exact attended.past p (pending ▸ old)
    · rw [List.mem_singleton.mp new]
      rfl
  · intro opened
    rw [show (t.post .wsClose).curState = t.curState from rfl, state] at opened
    cases opened

theorem Driven.doEnqueueMessage (driven : s.Driven) (cfg : WsConfig) (isBinary : Bool)
    (data : List UInt8)
    (overflowThrows : Bool) : (s.doEnqueueMessage cfg isBinary data overflowThrows).Driven := by
  unfold Session.doEnqueueMessage
  split
  · exact driven.toAttended.doWriteNext
  · split
    · exact driven
    · split
      · split
        · exact driven
        · exact driven.grows (grows_post s rfl)
      · rename_i counted fits
        have same : Grows s (counted.pushBack isBinary data) := by
          unfold checkMessageSize at fits
          split at fits
          · cases fits
          · cases fits
            exact ⟨rfl, rfl, rfl, fun _ mem => mem, fun _ mem => .inl mem⟩
        simp only
        split
        · exact driven.grows same
        · exact (driven.toAttended.grows same).doWriteNext

theorem markClosed_unnotified (user : Router Unit) (notified : s.closeNotified = false) :
    (s.markClosedAndNotifyOnce (serverRouter user)).2 = [.closed] := by
  unfold markClosedAndNotifyOnce
  rw [if_neg (by simp [notified])]
  rfl

theorem failStream_tells (user : Router Unit) (notified : s.closeNotified = false) :
    (s.failStream (serverRouter user)).2 = [.closed] := by
  have kept : (s.beginClosing.getD s).closeNotified = false := by
    unfold beginClosing
    split <;> exact notified
  exact markClosed_unnotified user kept

/-! ## One handler -/

/-- The callbacks do not throw once the session has opened. -/
def Calm (user : Router Unit) : Prop :=
  (∀ ctx, (user.handleOpen ctx).throws = false) ∧
    ∀ ctx payload, (user.handleMessage ctx payload).throws = false

theorem Driven.onRead (driven : s.Driven) {user : Router Unit} (calm : Calm user)
    (picked : s.pending.Perm (.wsRead :: rest)) (payload : List UInt8) :
    (({ s with pending := rest } : Session).onRead cfg (serverRouter user) payload).1.Driven := by
  have quiet : ((serverRouter user).handleMessage s.requestContext payload).throws = false :=
    calm.2 s.requestContext payload
  have more := grows_calls ({ s with pending := rest } : Session)
    ((serverRouter user).handleMessage s.requestContext payload).calls
  have ending : s.Ending → ({ s with pending := rest } : Session).Ending := fun ending =>
    ending.taken picked rfl (by simp) (by simp)
  have past : ∀ q ∈ rest, q.beforeOpen = false := fun q mem =>
    driven.past q (picked.mem_iff.mpr (List.mem_cons_of_mem _ mem))
  unfold Session.onRead
  simp only [quiet, Bool.false_eq_true, if_false]
  split
  · rename_i isOpen
    -- the next read is started
    generalize called : ({ s with pending := rest } : Session).calls _ = t at more isOpen
    have open_ : t.curState = .opened := by simpa [Session.isOpen] using isOpen
    have grown := more.trans ((grows_runIdleTimer cfg t).trans (grows_doRead (t.runIdleTimer cfg)))
    have reads : .wsRead ∈ (t.runIdleTimer cfg).doRead.pending := by
      have still : (t.runIdleTimer cfg).isOpen = true := by
        simp [Session.isOpen, (grows_runIdleTimer cfg t).state, open_]
      unfold doRead
      rw [if_pos still]
      exact List.mem_append_right _ (List.mem_singleton_self _)
    have state : (t.runIdleTimer cfg).doRead.curState = .opened := by
      rw [grown.state, ← more.state, open_]
    refine ⟨⟨?_, grown.notified.trans driven.notified, .inl state, fun _ => reads, ?_⟩, ?_, ?_⟩
    · intro q mem
      exact (grown.past q mem).elim (past q) id
    · intro closing
      rw [state] at closing
      cases closing
    · intro shutdown
      rw [state] at shutdown
      cases shutdown
    · intro writing
      exact (ending (driven.writing (grown.writing ▸ writing))).grows grown
  · rename_i closed
    have left : s.curState ≠ .opened := by
      intro opened
      apply closed
      simpa [Session.isOpen] using more.state.trans opened
    have taken : ({ s with pending := rest } : Session).Driven := by
      refine ⟨⟨past, driven.notified, driven.active, fun h => absurd h left, ?_⟩, ?_, ?_⟩
      · intro closing
        exact mem_rest picked (driven.closing closing) (by simp)
      · intro shutdown
        exact ending (driven.shutdown shutdown)
      · intro writing
        exact ending (driven.writing writing)
    exact taken.grows more

/-- A handler of a session that is driven tells of the close or leaves it driven. -/
theorem Driven.run (cfg : WsConfig) (driven : s.Driven) {user : Router Unit} (calm : Calm user)
    (input : Input)
    {outcome : Outcome} (picked : s.pending.Perm (p :: rest))
    (completes : p = .wsClose → outcome ≠ .aborted) :
    (({ s with pending := rest } : Session).run cfg (serverRouter user) input outcome p).2 = [.closed] ∨
      ((({ s with pending := rest } : Session).run cfg (serverRouter user) input outcome p).2 = [] ∧
        (({ s with pending := rest } : Session).run cfg (serverRouter user) input
          outcome p).1.Driven) := by
  have late := driven.past p (picked.mem_iff.mpr (List.mem_cons_self ..))
  have notified : ({ s with pending := rest } : Session).closeNotified = false := driven.notified
  cases p with
  | httpRead | wsAccept | rejectWrite => cases late
  | wsRead =>
      by_cases ok : outcome = .success
      · right
        simp only [Session.run, ok, if_true]
        refine ⟨?_, driven.onRead calm picked input.payload⟩
        unfold Session.onRead
        simp only
        split
        · rfl
        · split <;> rfl
      · left
        simp only [Session.run, ok, if_false]
        exact failStream_tells user notified
  | write m =>
      have taken := driven.toAttended.taken picked (by simp) (by simp)
      simp only [Session.run]
      by_cases ok : outcome = .success
      · right
        simp only [ok, if_true]
        exact ⟨trivial, (taken.grows (grows_popWritten _ m .success)).doWriteNext⟩
      · left
        simp only [ok, if_false]
        exact failStream_tells user ((grows_popWritten _ m outcome).notified.trans notified)
  | drain m =>
      have taken := driven.toAttended.taken picked (by simp) (by simp)
      have popped := taken.grows (grows_popWritten _ m outcome)
      right
      simp only [Session.run]
      by_cases ok : outcome = .success
      · simp only [ok, if_true] at popped ⊢
        refine ⟨trivial, Attended.doDrainQueue (popped.of_eq rfl rfl rfl) (by simp)⟩
      · simp only [ok, if_false]
        refine ⟨trivial, (popped.grows (grows_post _ rfl)).driven (.inr (.inl ?_))⟩
        exact List.mem_append_right _ (List.mem_singleton_self _)
  | wsClose =>
      left
      simp only [Session.run, completes rfl, if_false]
      exact markClosed_unnotified user notified
  | closeForcefully =>
      have taken := driven.toAttended.taken picked (by simp) (by simp)
      have active : s.curState ≠ .closed := by
        intro closed
        have active := driven.active
        simp [closed] at active
      right
      simp only [Session.run, active, if_false]
      exact ⟨trivial, taken.wsClose rfl rfl rfl⟩
  | close =>
      have taken := driven.taken picked (by simp) rfl (by simp) (by simp)
      right
      simp only [Session.run]
      split
      · exact ⟨rfl, taken⟩
      · rename_i begun
        unfold beginClosing at begun
        split at begun
        · cases begun
        · cases begun
          exact ⟨rfl, taken.toAttended.wsClose rfl rfl rfl⟩
  | closeForShutdown =>
      have taken := driven.taken picked (by simp) rfl (by simp) (by simp)
      right
      refine ⟨rfl, ?_⟩
      simp only [Session.run]
      have shut : ({ s with pending := rest, curState := .shutdown } : Session).Attended :=
        ⟨taken.past, taken.notified, .inr (.inr rfl), by simp, by simp⟩
      refine (shut.grows (grows_post _ rfl)).doDrainQueue fun writing => ?_
      exact Ending.grows (s := ({ s with pending := rest, curState := .shutdown } : Session))
        (taken.writing writing) (grows_post _ rfl)
  | enqueue isBinary data =>
      have taken := driven.taken picked (by simp) rfl (by simp) (by simp)
      exact .inr ⟨rfl, taken.doEnqueueMessage cfg isBinary data input.overflowThrows⟩
  | idleWait | drainWait | heartbeatWait =>
      have taken := driven.taken picked (by simp) rfl (by simp) (by simp)
      right
      refine ⟨rfl, ?_⟩
      simp only [Session.run]
      split
      · exact taken.grows (grows_post _ rfl)
      · exact taken
  | ping =>
      have taken := driven.taken picked (by simp) rfl (by simp) (by simp)
      right
      refine ⟨rfl, ?_⟩
      simp only [Session.run]
      split
      · exact taken
      · exact taken.grows (grows_post _ rfl)

/-! ## The handshake -/

structure Shaking (s : Session) : Prop where
  alone : s.pending = [.httpRead] ∨ s.pending = [.wsAccept]
  notified : s.closeNotified = false
  writing : s.writing = false

/-- The application calls a session only once it has opened, its callbacks do not throw from then on,
and a close is not aborted. -/
def Orderly (s : Session) : SessionEvent Unit → Prop
  | .call _ => s.outbox.handshakes = 0
  | .complete k outcome _ user =>
      Calm user ∧ (∀ ctx, (user.handleAuth ctx).calls = [] ∧ (user.handleAccept ctx).calls = []) ∧
        (s.pending[k]? = some .wsClose → outcome ≠ .aborted)
  | .pong => True

theorem Shaking.handshakes (shaking : s.Shaking) : s.outbox.handshakes = 1 := by
  rcases shaking.alone with http | accept
  · simp [outbox, http, Pending.isHandshake]
  · simp [outbox, accept, Pending.isHandshake]

theorem Shaking.onAccept (shaking : s.Shaking) {user : Router Unit} (calm : Calm user) :
    (({ s with pending := [] } : Session).onAccept cfg (serverRouter user)).1.Driven := by
  have quiet : ((serverRouter user).handleOpen s.requestContext).throws = false :=
    calm.1 s.requestContext
  unfold Session.onAccept
  simp only [quiet, Bool.false_eq_true, if_false]
  generalize started : ({ s with pending := [], curState := .opened } : Session) = u
  have state : u.curState = .opened := by rw [← started]
  generalize ((serverRouter user).handleOpen s.requestContext).calls = cs
  have grown := (grows_calls u cs).trans ((grows_doHeartbeat cfg (u.calls cs)).trans
    (grows_runIdleTimer cfg ((u.calls cs).doHeartbeat cfg)))
  generalize (((u.calls cs).doHeartbeat cfg).runIdleTimer cfg) = t at grown
  have isOpen : t.isOpen = true := by simp [Session.isOpen, grown.state, state]
  have read : t.doRead = t.post .wsRead := by
    unfold doRead
    rw [if_pos isOpen]
  have late := grown.trans (grows_post t (p := .wsRead) rfl)
  rw [read]
  have opened : (t.post .wsRead).curState = .opened := grown.state.trans state
  refine ⟨⟨?_, ?_, .inl opened, ?_, ?_⟩, ?_, ?_⟩
  · intro p mem
    rcases late.past p mem with old | new
    · rw [← started] at old
      cases old
    · exact new
  · rw [late.notified, ← started]
    exact shaking.notified
  · intro _
    exact List.mem_append_right _ (List.mem_singleton_self _)
  · intro closing
    rw [opened] at closing
    cases closing
  · intro shutdown
    rw [opened] at shutdown
    cases shutdown
  · intro writing
    rw [late.writing, ← started] at writing
    exact absurd writing (by simp [shaking.writing])

/-- A gate after which a handshake operation is outstanding has let the request through. -/
theorem passGate_shakes {gate : Gate Unit} {next : Session → Session × List RegistryNote}
    (none : s.outbox.handshakes = 0) (silent : gate.calls = [])
    (some : 0 < (s.passGate gate.unnoted next).1.outbox.handshakes) :
    ∃ principal, (s.passGate gate.unnoted next).1 = (next { s with authPrincipal := principal }).1 := by
  unfold passGate Gate.unnoted at some ⊢
  simp only [silent, calls, List.foldl_nil] at some ⊢
  split at some
  · have left : 0 < s.outbox.handshakes := some
    omega
  · split at some
    · rename_i accepts
      exact ⟨_, by rw [if_pos accepts]⟩
    · rw [rejectHandshake, outbox_post_other _ rfl rfl] at some
      have left : 0 < s.outbox.handshakes := some
      omega

theorem Shaking.validate (shaking : s.Shaking) {user : Router Unit} (request : HttpRequest)
    (silent : ∀ ctx, (user.handleAuth ctx).calls = [] ∧ (user.handleAccept ctx).calls = [])
    (some : 0 < (({ s with pending := [] } : Session).validateHandshakeRequest (serverRouter user)
      request).1.outbox.handshakes) :
    (({ s with pending := [] } : Session).validateHandshakeRequest (serverRouter user)
      request).1.Shaking := by
  unfold validateHandshakeRequest at some ⊢
  simp only [serverRouter] at some ⊢
  obtain ⟨principal, first⟩ := passGate_shakes rfl (silent _).1 some
  rw [first] at some ⊢
  obtain ⟨principal', second⟩ := passGate_shakes rfl (silent _).2 some
  rw [second]
  exact ⟨.inr rfl, shaking.notified, shaking.writing⟩

/-- A step of the handshake: it goes on, or it fails, or the session opens and is driven. -/
theorem Shaking.next {e : SessionEvent Unit} {notes : List RegistryNote} (shaking : s.Shaking)
    (orderly : s.Orderly e) (h : s.next cfg e.routed = some (t, notes)) :
    (notes = [] ∧ (0 < t.outbox.handshakes → t.Shaking)) ∨ (notes = [.opened] ∧ t.Driven) := by
  cases e with
  | call c =>
      have none : s.outbox.handshakes = 0 := orderly
      rw [shaking.handshakes] at none
      cases none
  | pong =>
      have noRead : .wsRead ∉ s.pending := by
        rcases shaking.alone with http | accept
        · simp [http]
        · simp [accept]
      simp [SessionEvent.routed, Session.next, noRead] at h
  | complete k outcome input user =>
      obtain ⟨calm, silent, -⟩ := orderly
      have picks : ∀ {p : Pending}, s.pending = [p] → k = 0 ∧ (t, notes) =
          ({ s with pending := [] } : Session).run cfg (serverRouter user) input outcome p := by
        intro p alone
        simp only [SessionEvent.routed, Session.next, alone, pickAt] at h
        cases k with
        | zero => exact ⟨rfl, (Option.some.inj h).symm⟩
        | succ k => cases h
      rcases shaking.alone with http | accept
      · obtain ⟨-, result⟩ := picks http
        left
        by_cases ok : outcome = .success
        · simp only [Session.run, ok, if_true] at result
          rw [Prod.ext_iff] at result
          simp only at result
          refine ⟨?_, ?_⟩
          · rw [result.2]
            exact passGate_unnoted rfl fun _ => passGate_unnoted rfl fun _ => rfl
          · rw [result.1]
            exact shaking.validate input.request silent
        · simp only [Session.run, ok, if_false] at result
          rw [Prod.ext_iff] at result
          refine ⟨result.2, ?_⟩
          rw [show t = _ from result.1, outbox_onAcceptError]
          simp [outbox]
      · obtain ⟨-, result⟩ := picks accept
        by_cases ok : outcome = .success
        · right
          simp only [Session.run, ok, if_true] at result
          rw [Prod.ext_iff] at result
          refine ⟨?_, ?_⟩
          · rw [show notes = _ from result.2]
            unfold Session.onAccept
            simp only
            split <;> rfl
          · rw [show t = _ from result.1]
            exact shaking.onAccept calm
        · left
          simp only [Session.run, ok, if_false] at result
          rw [Prod.ext_iff] at result
          refine ⟨result.2, ?_⟩
          rw [show t = _ from result.1, outbox_onAcceptError]
          simp [outbox]

theorem Driven.next {e : SessionEvent Unit} {notes : List RegistryNote} (driven : s.Driven)
    (orderly : s.Orderly e) (h : s.next cfg e.routed = some (t, notes)) :
    notes = [.closed] ∨ (notes = [] ∧ t.Driven) := by
  cases e with
  | call c =>
      cases h
      exact .inr ⟨rfl, driven.grows (grows_call s c)⟩
  | pong =>
      simp only [SessionEvent.routed, Session.next] at h
      split at h
      · cases h
        exact .inr ⟨rfl, driven.grows (grows_doHeartbeatNext cfg s)⟩
      · cases h
  | complete k outcome input user =>
      obtain ⟨calm, -, completes⟩ := orderly
      cases picked : pickAt s.pending k with
      | none => simp [SessionEvent.routed, Session.next, picked] at h
      | some r =>
          have at_k := pickAt_at picked
          have ran := driven.run cfg calm input (pickAt_perm picked) fun close =>
            completes (close ▸ at_k)
          simp only [SessionEvent.routed, Session.next, picked, Option.some.injEq] at h
          rw [h] at ran
          exact ran

end Session

end Rtl.Ws
