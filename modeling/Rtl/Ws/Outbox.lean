import Rtl.Ws.Session

/-! # The outgoing side of a session

The outbox of a session is its state, its write queue with the counters, and the
writes and handshake operations that are outstanding. Most of what a handler does
leaves it alone. What a handler does to it depends on the outbox alone, on the
outcome and on the verdict of the gates: `Outbox.handle` is that function, and facts
about the queue in whole runs are proved about it by cases.
-/

namespace Rtl.Ws

open Rtl.Base

def Pending.isWrite : Pending → Bool
  | .write _ => true
  | .drain _ => true
  | _ => false

def Pending.isHandshake : Pending → Bool
  | .httpRead => true
  | .wsAccept => true
  | _ => false

def Pending.message : Pending → Option WriteMessage
  | .write m => some m
  | .drain m => some m
  | _ => none

def SessionState.late : SessionState → Bool
  | .closing => true
  | .closed => true
  | .shutdown => true
  | _ => false

structure Outbox where
  state : SessionState
  writing : Bool
  queue : List WriteMessage
  bytes : Nat
  messages : Nat
  nextMessage : Nat
  handed : List WriteMessage
  inFlight : List WriteMessage
  handshakes : Nat

namespace Outbox

def hand (b : Outbox) : Outbox :=
  match b.queue with
  | [] => { b with writing := false }
  | m :: _ => { b with writing := true, handed := b.handed ++ [m], inFlight := b.inFlight ++ [m] }

def drain (b : Outbox) : Outbox := if b.writing then b else b.hand

def writeNext (b : Outbox) : Outbox :=
  match b.state with
  | .shutdown => b.hand
  | .opened => b.hand
  | _ => { b with queue := [], writing := false }

/-- The front message leaves the queue; the counters go down by the size `bytes`. -/
def pop (b : Outbox) (bytes : Nat) : Outbox :=
  match b.queue with
  | [] => b
  | _ :: rest => { b with
      queue := rest
      bytes := (b.bytes + (Session.sizeModulus - bytes % Session.sizeModulus)) % Session.sizeModulus
      messages := (b.messages + (Session.sizeModulus - 1)) % Session.sizeModulus }

def Fits (cfg : WsConfig) (b : Outbox) (bytes : Nat) : Prop :=
  (b.messages + 1) % Session.sizeModulus ≤ cfg.maxQueuedMessages ∧
    (b.bytes + bytes) % Session.sizeModulus ≤ cfg.maxQueuedBytes

instance (cfg : WsConfig) (b : Outbox) (bytes : Nat) : Decidable (b.Fits cfg bytes) :=
  inferInstanceAs (Decidable (_ ∧ _))

def push (b : Outbox) (isBinary : Bool) (data : List UInt8) : Outbox :=
  { b with
    queue := b.queue ++ [⟨b.nextMessage, isBinary, data⟩]
    bytes := (b.bytes + data.length) % Session.sizeModulus
    messages := (b.messages + 1) % Session.sizeModulus
    nextMessage := b.nextMessage + 1 }

def admitted (b : Outbox) (isBinary : Bool) (data : List UInt8) : Outbox :=
  if b.writing then b.push isBinary data else (b.push isBinary data).hand

def clear (b : Outbox) : Outbox :=
  { b with queue := [], bytes := 0, messages := 0, writing := false }

/-- An error of the stream; `begin_closing` is skipped once the session is closing. -/
def fail (b : Outbox) : Outbox :=
  { (if b.state.late then b else b.clear) with state := .closed }

/-- A send runs. After the shutdown began it only starts the next write. -/
def enqueue (cfg : WsConfig) (b : Outbox) (isBinary : Bool) (data : List UInt8) : Outbox :=
  match b.state with
  | .shutdown => b.hand
  | .opened => if b.Fits cfg data.length then b.admitted isBinary data else b
  | _ => b

end Outbox

inductive GateVerdict where
  | accept
  | refuse
  | throw
  deriving Repr, DecidableEq

def Gate.verdict {ν : Type*} (gate : Gate ν) : GateVerdict :=
  match gate.decision with
  | none => .throw
  | some decision => if decision.accept then .accept else .refuse

def Router.verdict {ν : Type*} (router : Router ν) (ctx : RequestContext) : GateVerdict :=
  match (router.handleAuth ctx).verdict with
  | .accept => (router.handleAccept ctx).verdict
  | other => other

def Outbox.handle (cfg : WsConfig) (verdict : GateVerdict) (outcome : Outcome) (b : Outbox) :
    Pending → Outbox
  | .httpRead =>
      if outcome = .success then
        match verdict with
        | .accept => { b with handshakes := b.handshakes + 1 }
        | .refuse => { b with state := .closing }
        | .throw => b
      else { b with state := .closed }
  | .rejectWrite _ _ => { b with state := .closed }
  | .wsAccept => { b with state := if outcome = .success then .opened else .closed }
  | .wsRead => if outcome = .success then b else b.fail
  | .write m => if outcome = .success then (b.pop m.data.length).writeNext else b.fail
  | .drain m =>
      if outcome = .success then { b.pop m.data.length with writing := false }.drain else b
  | .wsClose => if outcome = .aborted then b else { b with state := .closed }
  | .enqueue isBinary data => b.enqueue cfg isBinary data
  | .close => if b.state.late then b else { b.clear with state := .closing }
  | .closeForShutdown => { b with state := .shutdown }.drain
  | .closeForcefully => if b.state = .closed then b else { b with state := .closing }
  | _ => b

/-! ## The fields after an operation -/

namespace Outbox

@[simp] theorem hand_state (b : Outbox) : b.hand.state = b.state := by
  unfold hand
  split <;> rfl

@[simp] theorem hand_queue (b : Outbox) : b.hand.queue = b.queue := by
  unfold hand
  split <;> rfl

@[simp] theorem hand_nextMessage (b : Outbox) : b.hand.nextMessage = b.nextMessage := by
  unfold hand
  split <;> rfl

@[simp] theorem hand_inFlight (b : Outbox) :
    b.hand.inFlight = b.inFlight ++ b.queue.head?.toList := by
  unfold hand
  split <;> rename_i queue <;> simp [queue]

@[simp] theorem drain_state (b : Outbox) : b.drain.state = b.state := by
  unfold drain
  split <;> simp

@[simp] theorem drain_queue (b : Outbox) : b.drain.queue = b.queue := by
  unfold drain
  split <;> simp

@[simp] theorem pop_state (b : Outbox) (bytes : Nat) : (b.pop bytes).state = b.state := by
  unfold pop
  split <;> rfl

@[simp] theorem pop_inFlight (b : Outbox) (bytes : Nat) : (b.pop bytes).inFlight = b.inFlight := by
  unfold pop
  split <;> rfl

@[simp] theorem writeNext_state (b : Outbox) : b.writeNext.state = b.state := by
  unfold writeNext
  split <;> simp

/-- The ways a send can end. -/
theorem enqueue_cases {P : Outbox → Prop} {cfg : WsConfig} {b : Outbox} {isBinary : Bool}
    {data : List UInt8} (same : P b) (handed : P b.hand) (pushed : P (b.push isBinary data))
    (pushedHanded : P (b.push isBinary data).hand) : P (b.enqueue cfg isBinary data) := by
  unfold enqueue
  split
  · exact handed
  · split
    · unfold admitted
      split
      · exact pushed
      · exact pushedHanded
    · exact same
  · exact same

end Outbox

namespace Session

variable {ν : Type*} {cfg : WsConfig} {s t : Session} {router : Router ν} {outcome : Outcome}
  {p : Pending} {rest : List Pending} {bytes : Nat}

def outbox (s : Session) : Outbox where
  state := s.curState
  writing := s.writing
  queue := s.writeQueue
  bytes := s.currentQueuedBytes
  messages := s.currentQueuedMessages
  nextMessage := s.nextMessage
  handed := s.handed
  inFlight := s.pending.filterMap Pending.message
  handshakes := s.pending.countP Pending.isHandshake

/-! ## What leaves the outbox alone -/

theorem outbox_post (s : Session) (p : Pending) : (s.post p).outbox = { s.outbox with
    inFlight := s.outbox.inFlight ++ p.message.toList
    handshakes := s.outbox.handshakes + p.isHandshake.toNat } := by
  cases p <;> simp [post, outbox, Pending.message, Pending.isHandshake]

/-- Most operations and lambdas do not concern the outbox. -/
theorem outbox_post_other (s : Session) {p : Pending} (write : p.message = none)
    (handshake : p.isHandshake = false) : (s.post p).outbox = s.outbox := by
  rw [outbox_post, write, handshake]
  simp

theorem outbox_send (s : Session) (isBinary : Bool) (data : List UInt8) :
    (s.send isBinary data).outbox = s.outbox := by
  unfold send
  by_cases isOpen : s.isOpen = true
  · rw [if_pos isOpen, outbox_post_other s rfl rfl]
  · rw [if_neg isOpen]

theorem outbox_call (s : Session) (c : Call) : (s.call c).outbox = s.outbox := by
  cases c with
  | sendText data => exact outbox_send s false data
  | sendBinary data => exact outbox_send s true data
  | close => exact outbox_post_other s rfl rfl
  | closeForShutdown =>
      show s.closeForShutdown.outbox = s.outbox
      unfold closeForShutdown
      by_cases late : s.isClosingOrClosed = true
      · rw [if_pos late]
      · rw [if_neg late, outbox_post_other s rfl rfl]
  | closeForcefully => exact outbox_post_other s rfl rfl

theorem outbox_close (s : Session) : s.close.outbox = s.outbox := outbox_call s .close

theorem outbox_closeForcefully (s : Session) : s.closeForcefully.outbox = s.outbox :=
  outbox_call s .closeForcefully

theorem outbox_calls (s : Session) (cs : List Call) : (s.calls cs).outbox = s.outbox := by
  induction cs generalizing s with
  | nil => rfl
  | cons c cs ih => exact (ih (s.call c)).trans (outbox_call s c)

theorem outbox_runIdleTimer (s : Session) : (s.runIdleTimer cfg).outbox = s.outbox := by
  unfold runIdleTimer
  by_cases off : cfg.idleTimeout ≤ 0
  · rw [if_pos off]
  · rw [if_neg off, outbox_post_other s rfl rfl]

theorem outbox_doHeartbeatNext (s : Session) : (s.doHeartbeatNext cfg).outbox = s.outbox := by
  unfold doHeartbeatNext runHeartbeatTimer
  rw [outbox_post_other _ rfl rfl]
  by_cases off : cfg.pingInterval ≤ 0
  · rw [if_pos off]
  · rw [if_neg off, outbox_post_other s rfl rfl]

theorem outbox_doHeartbeat (s : Session) : (s.doHeartbeat cfg).outbox = s.outbox := by
  unfold doHeartbeat
  by_cases on : 0 < cfg.pingInterval
  · rw [if_pos on, outbox_doHeartbeatNext]
  · rw [if_neg on]

theorem outbox_doRead (s : Session) : s.doRead.outbox = s.outbox := by
  unfold doRead
  by_cases isOpen : s.isOpen = true
  · rw [if_pos isOpen, outbox_post_other s rfl rfl]
  · rw [if_neg isOpen]

theorem outbox_onRead (payload : List UInt8) :
    (s.onRead cfg router payload).1.outbox = s.outbox := by
  unfold onRead
  have same := outbox_calls s (router.handleMessage s.requestContext payload).calls
  simp only
  split
  · exact same
  · split
    · rw [outbox_doRead, outbox_runIdleTimer, same]
    · exact same

/-! ## The functions of the write queue -/

theorem outbox_startWrite {m : WriteMessage} {more : List WriteMessage}
    (queue : s.writeQueue = m :: more) (write : p.message = some m) (handshake : p.isHandshake = false) :
    (s.startWrite m p).outbox = s.outbox.hand := by
  rw [startWrite, outbox_post, write, handshake]
  simp [outbox, Outbox.hand, queue]

theorem outbox_doDrainQueue (s : Session) : s.doDrainQueue.outbox = s.outbox.drain := by
  unfold doDrainQueue Outbox.drain
  by_cases writing : s.writing = true
  · rw [if_pos writing, if_pos (show s.outbox.writing = true from writing)]
  · rw [if_neg writing, if_neg (show ¬ s.outbox.writing = true from writing)]
    cases queue : s.writeQueue with
    | nil =>
        simp only [closeForcefully]
        rw [outbox_post_other _ rfl rfl]
        simp [outbox, Outbox.hand, queue]
    | cons m more => exact outbox_startWrite queue rfl rfl

theorem outbox_doWriteNext (s : Session) : s.doWriteNext.outbox = s.outbox.writeNext := by
  unfold doWriteNext
  cases state : s.curState with
  | shutdown =>
      simp only [isShutdown, state, beq_self_eq_true, if_true]
      rw [outbox_doDrainQueue]
      cases queue : s.writeQueue <;>
        simp [Outbox.drain, Outbox.writeNext, Outbox.hand, outbox, state, queue]
  | opened =>
      have next : s.outbox.writeNext = s.outbox.hand := by simp [Outbox.writeNext, outbox, state]
      simp only [isShutdown, isOpen, state, beq_self_eq_true, Bool.not_true, Bool.false_eq_true,
        if_false, reduceCtorEq, beq_iff_eq, next]
      cases queue : s.writeQueue with
      | nil => simp [outbox, Outbox.hand, queue, state]
      | cons m more => exact outbox_startWrite queue rfl rfl
  | opening | closing | closed => simp [isShutdown, isOpen, state, outbox, Outbox.writeNext]

theorem popWritten_of_failed {m : WriteMessage} (failed : outcome ≠ .success) :
    s.popWritten m outcome = s := by
  unfold popWritten
  rw [if_neg fun h => failed h.1]

theorem outbox_popWritten (s : Session) (m : WriteMessage) :
    (s.popWritten m .success).outbox = s.outbox.pop m.data.length := by
  unfold popWritten
  cases queue : s.writeQueue with
  | nil => simp [outbox, Outbox.pop, queue]
  | cons first more => simp [decrementMessageCounters, outbox, Outbox.pop, queue]

theorem checkMessageSize_eq_none (full : ¬ s.outbox.Fits cfg bytes) :
    s.checkMessageSize cfg bytes = none := by
  unfold checkMessageSize
  rw [if_pos]
  by_contra room
  rw [not_or, not_lt, not_lt] at room
  exact full room

/-- The counters are adjusted before the message is queued. -/
theorem checkMessageSize_eq_some {data : List UInt8} (room : s.outbox.Fits cfg data.length)
    (isBinary : Bool) : ∃ t, s.checkMessageSize cfg data.length = some t ∧
      (t.pushBack isBinary data).outbox = s.outbox.push isBinary data := by
  unfold checkMessageSize
  rw [if_neg]
  · exact ⟨_, rfl, rfl⟩
  · rw [not_or, not_lt, not_lt]
    exact room

theorem outbox_doEnqueueMessage (cfg : WsConfig) (s : Session) (isBinary : Bool) (data : List UInt8)
    (overflowThrows : Bool) :
    (s.doEnqueueMessage cfg isBinary data overflowThrows).outbox =
      s.outbox.enqueue cfg isBinary data := by
  unfold doEnqueueMessage
  cases state : s.curState with
  | shutdown =>
      have seen : s.outbox.state = .shutdown := state
      rw [if_pos (by simp [isShutdown, state]), outbox_doWriteNext]
      simp only [Outbox.enqueue, Outbox.writeNext, seen]
  | opened =>
      have seen : s.outbox.state = .opened := state
      rw [if_neg (by simp [isShutdown, state]), if_neg (by simp [isOpen, state])]
      simp only [Outbox.enqueue, seen]
      by_cases room : s.outbox.Fits cfg data.length
      · obtain ⟨t, counted, pushed⟩ := checkMessageSize_eq_some room isBinary
        have writing : (t.pushBack isBinary data).writing = s.outbox.writing :=
          congrArg Outbox.writing pushed
        rw [if_pos room, counted]
        simp only [Outbox.admitted, writing]
        by_cases busy : s.outbox.writing = true
        · rw [if_pos busy, if_pos busy, pushed]
        · rw [if_neg busy, if_neg busy, outbox_doWriteNext, pushed]
          simp only [Outbox.writeNext, Outbox.push, seen]
      · rw [if_neg room, checkMessageSize_eq_none room]
        simp only
        split
        · rfl
        · exact outbox_close s
  | opening | closing | closed =>
      simp [isShutdown, isOpen, state, Outbox.enqueue, show s.outbox.state = s.curState from rfl]

theorem isClosingOrClosed_eq (s : Session) : s.isClosingOrClosed = s.outbox.state.late := by
  unfold isClosingOrClosed outbox
  cases s.curState <;> rfl

theorem outbox_markClosed (router : Router ν) (s : Session) :
    (s.markClosedAndNotifyOnce router).1.outbox = { s.outbox with state := .closed } := by
  unfold markClosedAndNotifyOnce
  by_cases notified : s.closeNotified = true
  · rw [if_pos notified]
    rfl
  · rw [if_neg notified]
    exact outbox_calls _ _

theorem outbox_beginClosing (early : s.outbox.state.late = false) :
    ∃ t, s.beginClosing = some t ∧ t.outbox = { s.outbox.clear with state := .closing } := by
  unfold beginClosing
  rw [isClosingOrClosed_eq, early]
  exact ⟨_, rfl, rfl⟩

theorem beginClosing_late (late : s.outbox.state.late = true) : s.beginClosing = none := by
  unfold beginClosing
  rw [isClosingOrClosed_eq, late]
  rfl

theorem outbox_failStream (router : Router ν) (s : Session) :
    (s.failStream router).1.outbox = s.outbox.fail := by
  unfold failStream Outbox.fail
  rw [outbox_markClosed]
  cases late : s.outbox.state.late with
  | true =>
      rw [beginClosing_late late]
      rfl
  | false =>
      obtain ⟨t, closing, same⟩ := outbox_beginClosing late
      rw [closing]
      simp [same]

/-! ## The handshake -/

theorem outbox_onAcceptError (router : Router ν) (s : Session) :
    (s.onAcceptError router).1.outbox = { s.outbox with state := .closed } :=
  outbox_calls _ _

theorem outbox_onAccept (cfg : WsConfig) (router : Router ν) (s : Session) :
    (s.onAccept cfg router).1.outbox = { s.outbox with state := .opened } := by
  unfold onAccept
  simp only
  split
  · rw [outbox_calls]
    rfl
  · rw [outbox_doRead, outbox_runIdleTimer, outbox_doHeartbeat, outbox_calls]
    rfl

theorem requestContext_call (s : Session) (c : Call) :
    (s.call c).requestContext = s.requestContext := by
  cases c with
  | sendText | sendBinary =>
      simp only [call, send]
      split <;> rfl
  | closeForShutdown =>
      simp only [call, closeForShutdown]
      split <;> rfl
  | close | closeForcefully => rfl

theorem requestContext_calls (s : Session) (cs : List Call) :
    (s.calls cs).requestContext = s.requestContext := by
  induction cs generalizing s with
  | nil => rfl
  | cons c cs ih => exact (ih (s.call c)).trans (requestContext_call s c)

/-- A gate that admits goes on from a session with the same outbox and request. -/
theorem passGate_cases (s : Session) (gate : Gate ν) (next : Session → Session × List ν) :
    (gate.verdict = .throw ∧ (s.passGate gate next).1.outbox = s.outbox) ∨
    (gate.verdict = .refuse ∧
      (s.passGate gate next).1.outbox = { s.outbox with state := .closing }) ∨
    (gate.verdict = .accept ∧ ∃ t : Session, t.outbox = s.outbox ∧
      t.requestContext = s.requestContext ∧ (s.passGate gate next).1 = (next t).1) := by
  have same : ({ s with authPrincipal := gate.principal <|> s.authPrincipal }.calls gate.calls).outbox =
      s.outbox := outbox_calls _ _
  unfold passGate Gate.verdict
  cases decided : gate.decision with
  | none => exact .inl ⟨rfl, same⟩
  | some decision =>
      by_cases accept : decision.accept = true
      · simp only [accept, if_true]
        exact .inr (.inr ⟨trivial, _, same, requestContext_calls _ _, rfl⟩)
      · simp only [accept, Bool.false_eq_true, if_false]
        right; left
        refine ⟨trivial, ?_⟩
        rw [rejectHandshake, outbox_post_other _ rfl rfl, ← same]
        rfl

theorem outbox_validateHandshakeRequest (cfg : WsConfig) (router : Router ν) (s : Session)
    (request : HttpRequest) :
    (s.validateHandshakeRequest router request).1.outbox =
      s.outbox.handle cfg (router.verdict (s.requestContext.setHttpRequest request)) .success
        .httpRead := by
  unfold validateHandshakeRequest Router.verdict Outbox.handle
  simp only [if_true]
  rcases passGate_cases ({ s with requestContext := s.requestContext.setHttpRequest request })
    (router.handleAuth (s.requestContext.setHttpRequest request))
    (fun s => s.passGate (router.handleAccept s.requestContext) fun s => (s.post .wsAccept, []))
    with ⟨verdict, after⟩ | ⟨verdict, after⟩ | ⟨verdict, t, same, ctx, after⟩
  · rw [verdict]
    exact after
  · rw [verdict]
    exact after
  · rw [verdict, after]
    simp only [ctx]
    rcases passGate_cases t (router.handleAccept (s.requestContext.setHttpRequest request))
      (fun s => (s.post .wsAccept, [])) with ⟨verdict, after⟩ | ⟨verdict, after⟩ | ⟨verdict, u, same', _, after⟩
    · rw [verdict, after, same]
      rfl
    · rw [verdict, after, same]
      rfl
    · rw [verdict, after, outbox_post, same', same]
      simp [Pending.message, Pending.isHandshake, outbox]

/-! ## One handler -/

/-- A handler acts on the outbox as `Outbox.handle` says. -/
theorem outbox_run (cfg : WsConfig) (router : Router ν) (input : Input) (s : Session)
    (outcome : Outcome) (p : Pending) :
    (s.run cfg router input outcome p).1.outbox =
      s.outbox.handle cfg (router.verdict (s.requestContext.setHttpRequest input.request)) outcome
        p := by
  cases p with
  | httpRead =>
      by_cases ok : outcome = .success
      · subst ok
        simp only [run, if_true]
        exact outbox_validateHandshakeRequest cfg router s input.request
      · simp only [run, Outbox.handle, ok, if_false]
        exact outbox_onAcceptError router s
  | rejectWrite status message => rfl
  | wsAccept =>
      by_cases ok : outcome = .success
      · simp only [run, Outbox.handle, ok, if_true]
        exact outbox_onAccept cfg router s
      · simp only [run, Outbox.handle, ok, if_false]
        exact outbox_onAcceptError router s
  | wsRead =>
      by_cases ok : outcome = .success
      · simp only [run, Outbox.handle, ok, if_true]
        exact outbox_onRead input.payload
      · simp only [run, Outbox.handle, ok, if_false]
        exact outbox_failStream router s
  | write m =>
      by_cases ok : outcome = .success
      · simp only [run, Outbox.handle, ok, if_true]
        rw [outbox_doWriteNext, outbox_popWritten]
      · simp only [run, Outbox.handle, ok, if_false]
        rw [popWritten_of_failed ok, outbox_failStream]
  | drain m =>
      by_cases ok : outcome = .success
      · simp only [run, Outbox.handle, ok, if_true]
        rw [outbox_doDrainQueue, ← outbox_popWritten]
        rfl
      · simp only [run, Outbox.handle, ok, if_false]
        rw [popWritten_of_failed ok, outbox_closeForcefully]
  | wsClose =>
      by_cases aborted : outcome = .aborted
      · simp only [run, Outbox.handle, aborted, if_true]
      · simp only [run, Outbox.handle, aborted, if_false]
        exact outbox_markClosed router s
  | enqueue isBinary data => exact outbox_doEnqueueMessage cfg s isBinary data input.overflowThrows
  | close =>
      simp only [run, Outbox.handle]
      cases late : s.outbox.state.late with
      | true =>
          rw [beginClosing_late late]
          rfl
      | false =>
          obtain ⟨t, closing, same⟩ := outbox_beginClosing late
          rw [closing, ← same]
          exact outbox_post_other t rfl rfl
  | closeForShutdown =>
      simp only [run, Outbox.handle]
      rw [outbox_doDrainQueue, outbox_post_other _ rfl rfl]
      rfl
  | closeForcefully =>
      by_cases ended : s.curState = .closed
      · simp only [run, Outbox.handle, ended, if_true, show s.outbox.state = .closed from ended]
      · simp only [run, Outbox.handle, ended, if_false, show ¬ s.outbox.state = .closed from ended]
        exact outbox_post_other _ rfl rfl
  | idleWait | heartbeatWait =>
      simp only [run, Outbox.handle]
      split
      · exact outbox_close s
      · rfl
  | drainWait =>
      simp only [run, Outbox.handle]
      split
      · exact outbox_closeForcefully s
      · rfl
  | ping =>
      simp only [run, Outbox.handle]
      split
      · rfl
      · exact outbox_close s

/-- Taking a pending operation out, as the outbox sees it. -/
theorem outbox_taken (picked : s.pending.Perm (p :: rest)) :
    ∃ inFlight handshakes, s.outbox.inFlight.Perm (p.message.toList ++ inFlight) ∧
      s.outbox.handshakes = p.isHandshake.toNat + handshakes ∧
      ({ s with pending := rest } : Session).outbox =
        { s.outbox with inFlight := inFlight, handshakes := handshakes } := by
  refine ⟨_, _, ?_, ?_, rfl⟩
  · have writes := picked.filterMap Pending.message
    rw [List.filterMap_cons] at writes
    cases message : p.message <;> simpa [message, outbox] using writes
  · have handshakes := picked.countP_eq Pending.isHandshake
    rw [List.countP_cons] at handshakes
    cases shake : p.isHandshake <;> simp [shake, outbox, handshakes, Nat.add_comm]

theorem outbox_complete {k : Nat} {input : Input} {notes : List ν}
    (picked : pickAt s.pending k = some (p, rest))
    (h : s.next cfg (.complete k outcome input router) = some (t, notes)) :
    t.outbox = ({ s with pending := rest } : Session).outbox.handle cfg
      (router.verdict (s.requestContext.setHttpRequest input.request)) outcome p := by
  have acts := outbox_run cfg router input { s with pending := rest } outcome p
  simp only [next, picked, Option.some.injEq] at h
  rw [h] at acts
  exact acts

/-- A step leaves the outbox alone, or it is a handler that acts on it. -/
theorem outbox_next {e : SessionEvent ν} {notes : List ν} (h : s.next cfg e = some (t, notes)) :
    (t.outbox = s.outbox ∧ ∀ k outcome input router, e ≠ .complete k outcome input router) ∨
    ∃ k outcome input router p rest, e = .complete k outcome input router ∧
      pickAt s.pending k = some (p, rest) ∧
      t.outbox = ({ s with pending := rest } : Session).outbox.handle cfg
        (router.verdict (s.requestContext.setHttpRequest input.request)) outcome p := by
  cases e with
  | call c =>
      cases h
      exact .inl ⟨outbox_call s c, by simp⟩
  | complete k outcome input router =>
      cases picked : pickAt s.pending k with
      | none => simp [next, picked] at h
      | some r => exact .inr ⟨k, outcome, input, router, r.1, r.2, rfl, picked, outbox_complete picked h⟩
  | pong =>
      simp only [next] at h
      split at h
      · cases h
        exact .inl ⟨outbox_doHeartbeatNext s, by simp⟩
      · cases h

end Session

end Rtl.Ws
