import Rtl.Base.Machine
import Rtl.Base.CondVar
import Rtl.Ws.Request

/-! # A WebSocket session

`WsSession` is driven by handlers: posted lambdas and completions of asynchronous
operations. Each handler is one step. The outstanding operations and the lambdas
still to run form one list from which any element may be next, with any outcome;
a cancelled timer may still complete either way. What the router's callbacks do
is a parameter of the step.
-/

namespace Rtl.Ws

open Rtl.Base

inductive SessionState where
  | opening
  | opened
  | closing
  | closed
  | shutdown
  deriving Repr, DecidableEq

structure WsConfig where
  maxQueuedBytes : Nat
  maxQueuedMessages : Nat
  idleTimeout : Int
  pingInterval : Int
  deriving Repr, DecidableEq

def defaultConfig : WsConfig := ⟨10 * 1024, 256, 60, 30⟩

/-- A message of the write queue. The number is its place in the order of
enqueueing, so that two messages of one content stay two messages. -/
structure WriteMessage where
  number : Nat
  isBinary : Bool
  data : List UInt8
  deriving Repr, DecidableEq

/-- The outstanding operations and the posted lambdas. `write` and `drain` are
the writes started by `do_write_next` and by `do_drain_queue`. -/
inductive Pending where
  | httpRead
  | rejectWrite (status : Nat) (message : String)
  | wsAccept
  | wsRead
  | write (m : WriteMessage)
  | drain (m : WriteMessage)
  | wsClose
  | idleWait
  | drainWait
  | heartbeatWait
  | enqueue (isBinary : Bool) (data : List UInt8)
  | close
  | closeForShutdown
  | closeForcefully
  | ping
  deriving Repr, DecidableEq

inductive Outcome where
  | success
  | aborted
  | failed
  deriving Repr, DecidableEq

inductive Call where
  | sendText (data : List UInt8)
  | sendBinary (data : List UInt8)
  | close
  | closeForShutdown
  | closeForcefully
  deriving Repr, DecidableEq

/-- `handed` lists every message given to `async_write` so far, in order. -/
structure Session where
  curState : SessionState
  writing : Bool
  closeNotified : Bool
  writeQueue : List WriteMessage
  currentQueuedBytes : Nat
  currentQueuedMessages : Nat
  authPrincipal : Option AuthenticatedPrincipal
  requestContext : RequestContext
  pending : List Pending
  nextMessage : Nat
  handed : List WriteMessage
  deriving Repr, DecidableEq

/-! ## Callbacks -/

variable {ν : Type*}

/-- What a callback does: calls on its session, and possibly an exception, which
ends the handler. The notes are what the environment records of it. -/
structure Callback (ν : Type*) where
  calls : List Call := []
  throws : Bool := false
  notes : List ν := []

/-- A callback of the handshake; without a decision it throws. -/
structure Gate (ν : Type*) where
  calls : List Call := []
  principal : Option AuthenticatedPrincipal := none
  decision : Option WsAcceptingDecision := some .defaultAccept
  notes : List ν := []

structure Router (ν : Type*) where
  handleAuth : RequestContext → Gate ν := fun _ => {}
  handleAccept : RequestContext → Gate ν := fun _ => {}
  handleOpen : RequestContext → Callback ν := fun _ => {}
  handleClose : RequestContext → Callback ν := fun _ => {}
  handleError : RequestContext → Callback ν := fun _ => {}
  handleMessage : RequestContext → List UInt8 → Callback ν := fun _ _ => {}

/-- What a completion brings along: the upgrade request of `httpRead`, the message
of `wsRead`, and whether `queue_overflow` fails to find the remote end point. -/
structure Input where
  request : HttpRequest := ⟨"", []⟩
  payload : List UInt8 := []
  overflowThrows : Bool := false
  deriving Repr, DecidableEq

namespace Session

def isShutdown (s : Session) : Bool := s.curState == .shutdown

def isOpen (s : Session) : Bool := s.curState == .opened

def isClosingOrClosed (s : Session) : Bool :=
  s.curState == .closing || s.curState == .closed || s.curState == .shutdown

def post (s : Session) (p : Pending) : Session := { s with pending := s.pending ++ [p] }

/-! ## Public calls -/

def send (s : Session) (isBinary : Bool) (data : List UInt8) : Session :=
  if s.isOpen then s.post (.enqueue isBinary data) else s

def close (s : Session) : Session := s.post .close

def closeForShutdown (s : Session) : Session :=
  if s.isClosingOrClosed then s else s.post .closeForShutdown

def closeForcefully (s : Session) : Session := s.post .closeForcefully

def call (s : Session) : Call → Session
  | .sendText data => s.send false data
  | .sendBinary data => s.send true data
  | .close => s.close
  | .closeForShutdown => s.closeForShutdown
  | .closeForcefully => s.closeForcefully

def calls (s : Session) (cs : List Call) : Session := cs.foldl call s

/-! ## The write queue -/

def startWrite (s : Session) (m : WriteMessage) (p : Pending) : Session :=
  { s with writing := true, handed := s.handed ++ [m] }.post p

def doDrainQueue (s : Session) : Session :=
  if s.writing then s
  else
    match s.writeQueue with
    | [] => { s with writing := false }.closeForcefully
    | m :: _ => s.startWrite m (.drain m)

def doWriteNext (s : Session) : Session :=
  if s.isShutdown then { s with writing := false }.doDrainQueue
  else if !s.isOpen then { s with writeQueue := [], writing := false }
  else
    match s.writeQueue with
    | [] => { s with writing := false }
    | m :: _ => s.startWrite m (.write m)

def sizeModulus : Nat := 2 ^ 64

/-- `check_message_size`; without a result the message does not fit. -/
def checkMessageSize (cfg : WsConfig) (s : Session) (bytes : Nat) : Option Session :=
  if cfg.maxQueuedMessages < (s.currentQueuedMessages + 1) % sizeModulus ∨
      cfg.maxQueuedBytes < (s.currentQueuedBytes + bytes) % sizeModulus then none
  else
    some { s with
      currentQueuedBytes := (s.currentQueuedBytes + bytes) % sizeModulus
      currentQueuedMessages := (s.currentQueuedMessages + 1) % sizeModulus }

def decrementMessageCounters (s : Session) (bytes : Nat) : Session :=
  { s with
    currentQueuedBytes := (s.currentQueuedBytes + (sizeModulus - bytes % sizeModulus)) % sizeModulus
    currentQueuedMessages := (s.currentQueuedMessages + (sizeModulus - 1)) % sizeModulus }

def pushBack (s : Session) (isBinary : Bool) (data : List UInt8) : Session :=
  { s with
    writeQueue := s.writeQueue ++ [⟨s.nextMessage, isBinary, data⟩]
    nextMessage := s.nextMessage + 1 }

def doEnqueueMessage (cfg : WsConfig) (s : Session) (isBinary : Bool) (data : List UInt8)
    (overflowThrows : Bool) : Session :=
  if s.isShutdown then s.doWriteNext
  else if !s.isOpen then s
  else
    match s.checkMessageSize cfg data.length with
    | none => if overflowThrows then s else s.close
    | some s' =>
        let s' := s'.pushBack isBinary data
        if s'.writing then s' else s'.doWriteNext

def popWritten (s : Session) (m : WriteMessage) (outcome : Outcome) : Session :=
  if outcome = .success ∧ s.writeQueue ≠ [] then
    { s with writeQueue := s.writeQueue.tail }.decrementMessageCounters m.data.length
  else s

/-! ## Closing -/

/-- `begin_closing`; without a result it returns false. -/
def beginClosing (s : Session) : Option Session :=
  if s.isClosingOrClosed then none
  else
    some { s with
      curState := .closing
      writeQueue := []
      currentQueuedBytes := 0
      currentQueuedMessages := 0
      writing := false }

def markClosedAndNotifyOnce (router : Router ν) (s : Session) : Session × List ν :=
  if s.closeNotified then ({ s with curState := .closed }, [])
  else
    let s := { s with curState := .closed, closeNotified := true }
    let callback := router.handleClose s.requestContext
    (s.calls callback.calls, callback.notes)

/-- An error of the stream: `begin_closing` and then `mark_closed_and_notify_once`. -/
def failStream (router : Router ν) (s : Session) : Session × List ν :=
  (s.beginClosing.getD s).markClosedAndNotifyOnce router

/-! ## Timers -/

def runIdleTimer (cfg : WsConfig) (s : Session) : Session :=
  if cfg.idleTimeout ≤ 0 then s else s.post .idleWait

def runHeartbeatTimer (cfg : WsConfig) (s : Session) : Session :=
  if cfg.pingInterval ≤ 0 then s else s.post .heartbeatWait

def doHeartbeatNext (cfg : WsConfig) (s : Session) : Session :=
  (s.runHeartbeatTimer cfg).post .ping

def doHeartbeat (cfg : WsConfig) (s : Session) : Session :=
  if 0 < cfg.pingInterval then s.doHeartbeatNext cfg else s

/-! ## The handshake and the reads -/

def doRead (s : Session) : Session := if s.isOpen then s.post .wsRead else s

def onAcceptError (router : Router ν) (s : Session) : Session × List ν :=
  let s := { s with curState := .closed }
  let callback := router.handleError s.requestContext
  (s.calls callback.calls, callback.notes)

def onAccept (cfg : WsConfig) (router : Router ν) (s : Session) : Session × List ν :=
  let s := { s with curState := .opened }
  let callback := router.handleOpen s.requestContext
  let s := s.calls callback.calls
  if callback.throws then (s, callback.notes)
  else (((s.doHeartbeat cfg).runIdleTimer cfg).doRead, callback.notes)

def rejectHandshake (s : Session) (decision : WsAcceptingDecision) : Session :=
  { s with curState := .closing }.post (.rejectWrite decision.status decision.message)

def passGate (s : Session) (gate : Gate ν) (next : Session → Session × List ν) :
    Session × List ν :=
  let s := { s with authPrincipal := gate.principal <|> s.authPrincipal }.calls gate.calls
  match gate.decision with
  | none => (s, gate.notes)
  | some decision =>
      if decision.accept then ((next s).1, gate.notes ++ (next s).2)
      else (s.rejectHandshake decision, gate.notes)

def validateHandshakeRequest (router : Router ν) (s : Session) (request : HttpRequest) :
    Session × List ν :=
  let s := { s with requestContext := s.requestContext.setHttpRequest request }
  s.passGate (router.handleAuth s.requestContext) fun s =>
    s.passGate (router.handleAccept s.requestContext) fun s => (s.post .wsAccept, [])

def onRead (cfg : WsConfig) (router : Router ν) (s : Session) (payload : List UInt8) :
    Session × List ν :=
  let callback := router.handleMessage s.requestContext payload
  let s := s.calls callback.calls
  if callback.throws then (s, callback.notes)
  else if s.isOpen then ((s.runIdleTimer cfg).doRead, callback.notes)
  else (s, callback.notes)

/-! ## One handler -/

def run (cfg : WsConfig) (router : Router ν) (input : Input) (s : Session) (outcome : Outcome) :
    Pending → Session × List ν
  | .httpRead =>
      if outcome = .success then s.validateHandshakeRequest router input.request
      else s.onAcceptError router
  | .rejectWrite _ _ => ({ s with curState := .closed }, [])
  | .wsAccept => if outcome = .success then s.onAccept cfg router else s.onAcceptError router
  | .wsRead => if outcome = .success then s.onRead cfg router input.payload else s.failStream router
  | .write m =>
      let s := s.popWritten m outcome
      if outcome = .success then (s.doWriteNext, []) else s.failStream router
  | .drain m =>
      let s := s.popWritten m outcome
      if outcome = .success then ({ s with writing := false }.doDrainQueue, [])
      else (s.closeForcefully, [])
  | .wsClose => if outcome = .aborted then (s, []) else s.markClosedAndNotifyOnce router
  | .idleWait => (if outcome = .success then s.close else s, [])
  | .drainWait => (if outcome = .success then s.closeForcefully else s, [])
  | .heartbeatWait => (if outcome = .success then s.close else s, [])
  | .enqueue isBinary data => (s.doEnqueueMessage cfg isBinary data input.overflowThrows, [])
  | .close =>
      match s.beginClosing with
      | none => (s, [])
      | some s => (s.post .wsClose, [])
  | .closeForShutdown => (({ s with curState := .shutdown }.post .drainWait).doDrainQueue, [])
  | .closeForcefully =>
      (if s.curState = .closed then s else { s with curState := .closing }.post .wsClose, [])
  | .ping => (if outcome = .success then s else s.close, [])

end Session

/-! ## The machine -/

/-- A pong is delivered by an outstanding read. -/
inductive SessionEvent (ν : Type*) where
  | call (c : Call)
  | complete (k : Nat) (outcome : Outcome) (input : Input) (router : Router ν)
  | pong

namespace Session

def next (cfg : WsConfig) (s : Session) : SessionEvent ν → Option (Session × List ν)
  | .call c => some (s.call c, [])
  | .complete k outcome input router =>
      match pickAt s.pending k with
      | none => none
      | some (p, rest) => some ({ s with pending := rest }.run cfg router input outcome p)
  | .pong =>
      if 0 < cfg.pingInterval ∧ Pending.wsRead ∈ s.pending then some (s.doHeartbeatNext cfg, [])
      else none

def start (remote : Option (String × UInt16)) : Session :=
  { curState := .opening
    writing := false
    closeNotified := false
    writeQueue := []
    currentQueuedBytes := 0
    currentQueuedMessages := 0
    authPrincipal := none
    requestContext := ({} : RequestContext).setTcpSocket remote
    pending := [.httpRead]
    nextMessage := 0
    handed := [] }

end Session

def sessionMachine (cfg : WsConfig) : Machine Session (SessionEvent ν) (List ν) where
  init s := ∃ remote, s = Session.start remote
  next := Session.next cfg

end Rtl.Ws
