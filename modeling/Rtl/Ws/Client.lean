import Rtl.Base.ListUpdate
import Rtl.Base.Machine

/-! # The client

`WsClient` is used by any number of threads: the program's own, the io thread that
runs the handlers of the current `io_context`, the heartbeat thread, and the detached
threads that wait for a reconnect. They share atomic flags and unprotected members,
and any of their steps may come between two steps of another. A step is one access to
the shared state. `close` and `connect` may be called on the io thread too, by the
program's handlers.
-/

namespace Rtl.Ws

/-- The error codes that `maybe_schedule_reconnect` tells apart. -/
inductive ClientError where
  | closed
  | aborted
  | other
  deriving Repr, DecidableEq

/-- What an `io_context` can run: lambdas that were posted, and completion handlers. -/
inductive IoTask where
  | doResolve
  | sendPing
  | sendText
  | asyncClose
  | onResolve
  | onConnect
  | onHandshake
  | onRead
  | onPing
  | onWrite
  | onClose
  deriving Repr, DecidableEq

structure IoContext where
  stopped : Bool
  tasks : List IoTask
  deriving Repr, DecidableEq

/-- The members of the client. A thread member holds the number of its thread while it
is joinable; `m_ws` belongs to the latest context. -/
structure ClientShared where
  started : Bool
  connected : Bool
  closing : Bool
  alive : Bool
  heartbeatEnabled : Bool
  heartbeatStop : Bool
  autoReconnect : Bool
  reconnectScheduled : Bool
  ioc : Option Nat
  contexts : List IoContext
  ioThread : Option Nat
  heartbeatThread : Option Nat
  deriving Repr, DecidableEq

/-- The steps `init_io` and `close` have in common. -/
inductive TearDown where
  | stopIo
  | checkIo
  | joinIo (thread : Nat)
  | checkHeartbeat
  | joinHeartbeat (thread : Nat)
  deriving Repr, DecidableEq

inductive ConnectPc where
  | loadAlive
  | loadClosing
  | casStarted
  | tearDown (pc : TearDown)
  | newContext
  | clearConnected
  | clearClosing
  | clearHeartbeatStop
  | startIo
  | postResolve
  deriving Repr, DecidableEq

inductive ClosePc where
  | exchange
  | clearAlive
  | clearConnected
  | setHeartbeatStop
  | clearAutoReconnect
  | clearScheduled
  | postClose
  | tearDown (pc : TearDown)
  deriving Repr, DecidableEq

inductive SendPc where
  | loadConnected
  | loadClosing
  | post
  deriving Repr, DecidableEq

inductive CallPc where
  | connect (pc : ConnectPc)
  | close (pc : ClosePc)
  | send (task : IoTask) (pc : SendPc)
  deriving Repr, DecidableEq

/-- Where a handler goes on after it has called one of the program's handlers. -/
inductive AfterCallback where
  | opened
  | failed (ec : ClientError)
  | readFailed (ec : ClientError)
  | readMore
  | done
  deriving Repr, DecidableEq

/-- Where the io thread is in a handler; `idle` is between two handlers, and `leaving` is
the last call of `emit_error` after an exception came out of `run`. -/
inductive HandlerPc where
  | idle
  | setConnected
  | openHandler
  | callback (after : AfterCallback)
  | loadHeartbeatEnabled
  | startHeartbeat
  | startRead
  | checkClosing
  | clearConnected (ec : ClientError)
  | loadAutoReconnect (ec : ClientError)
  | loadClosing (ec : ClientError)
  | loadAlive (ec : ClientError)
  | casScheduled (ec : ClientError)
  | spawnReconnect
  | leaving
  deriving Repr, DecidableEq

inductive ReconnectPc where
  | sleeping
  | loadAlive
  | loadClosing
  | giveUp
  | clearStarted
  | clearScheduled
  | connecting
  deriving Repr, DecidableEq

inductive HeartbeatPc where
  | loadStop
  | loadAlive
  | sleeping
  | loadConnected
  | loadClosing
  | loadStopAgain
  deriving Repr, DecidableEq

inductive ThreadBody where
  | user
  | starting
  | io (context : Nat) (pc : HandlerPc)
  | reconnect (pc : ReconnectPc)
  | heartbeat (pc : HeartbeatPc)
  | finished
  deriving Repr, DecidableEq

structure ClientThread where
  body : ThreadBody
  call : Option CallPc
  deriving Repr, DecidableEq

inductive ClientOutput where
  | silent
  | ioContext
  | ioThread
  | openHandler
  | closeReturned
  deriving Repr, DecidableEq

structure Move where
  shared : ClientShared
  thread : ClientThread
  spawn : Option ThreadBody := none
  output : ClientOutput := .silent
  deriving Repr, DecidableEq

namespace ClientShared

def start : ClientShared where
  started := false
  connected := false
  closing := false
  alive := true
  heartbeatEnabled := false
  heartbeatStop := false
  autoReconnect := false
  reconnectScheduled := false
  ioc := none
  contexts := []
  ioThread := none
  heartbeatThread := none

def addTask (s : ClientShared) (task : IoTask) : ClientShared :=
  { s with
    contexts := match s.ioc with
      | none => s.contexts
      | some c => s.contexts.modify c fun x => { x with tasks := x.tasks ++ [task] } }

def stopIo (s : ClientShared) : ClientShared :=
  { s with
    contexts := match s.ioc with
      | none => s.contexts
      | some c => s.contexts.modify c fun x => { x with stopped := true } }

end ClientShared

/-! ## Calls -/

def isFinished (threads : List ClientThread) (t : Nat) : Bool :=
  match threads[t]? with
  | some th => th.body == .finished
  | none => false

/-- The threads are stopped and joined, each unless it is the calling one; without a
result for the position the part is over. A member that another thread has joined in
the meantime is left alone. -/
def tearDownStep (s : ClientShared) (threads : List ClientThread) (self : Nat) :
    TearDown → Option (ClientShared × Option TearDown)
  | .stopIo => some (s.stopIo, some .checkIo)
  | .checkIo =>
      match s.ioThread with
      | none => some (s, some .checkHeartbeat)
      | some t => some (s, some (if t = self then .checkHeartbeat else .joinIo t))
  | .joinIo t =>
      if isFinished threads t then
        some ({ s with ioThread := if s.ioThread = some t then none else s.ioThread },
          some .checkHeartbeat)
      else none
  | .checkHeartbeat =>
      match s.heartbeatThread with
      | none => some (s, none)
      | some t => some (s, if t = self then none else some (.joinHeartbeat t))
  | .joinHeartbeat t =>
      if isFinished threads t then
        some ({ s with
          heartbeatThread := if s.heartbeatThread = some t then none else s.heartbeatThread }, none)
      else none

/-- A step inside a call: the shared state, where the call goes on (nowhere if it has
returned), and the new thread if one is started. -/
structure CallMove where
  shared : ClientShared
  call : Option CallPc
  spawn : Option ThreadBody := none
  output : ClientOutput := .silent

def connectStep (s : ClientShared) (threads : List ClientThread) (self : Nat) :
    ConnectPc → Option CallMove
  | .loadAlive => some { shared := s, call := if s.alive then some (.connect .loadClosing) else none }
  | .loadClosing => some { shared := s, call := if s.closing then none else some (.connect .casStarted) }
  | .casStarted =>
      if s.started then some { shared := s, call := none }
      else some { shared := { s with started := true }, call := some (.connect (.tearDown .stopIo)) }
  | .tearDown pc =>
      match tearDownStep s threads self pc with
      | none => none
      | some (s', some pc') => some { shared := s', call := some (.connect (.tearDown pc')) }
      | some (s', none) => some { shared := s', call := some (.connect .newContext) }
  | .newContext =>
      some {
        shared := { s with ioc := some s.contexts.length, contexts := s.contexts ++ [⟨false, []⟩] }
        call := some (.connect .clearConnected)
        output := .ioContext }
  | .clearConnected => some { shared := { s with connected := false }, call := some (.connect .clearClosing) }
  | .clearClosing =>
      some { shared := { s with closing := false }, call := some (.connect .clearHeartbeatStop) }
  | .clearHeartbeatStop =>
      some { shared := { s with heartbeatStop := false }, call := some (.connect .startIo) }
  | .startIo =>
      match s.ioThread with
      -- Assigning to a joinable thread ends the program.
      | some _ => none
      | none =>
          some {
            shared := { s with ioThread := some threads.length }
            call := some (.connect .postResolve)
            spawn := some .starting
            output := .ioThread }
  | .postResolve => some { shared := s.addTask .doResolve, call := none }

def closeStep (s : ClientShared) (threads : List ClientThread) (self : Nat) :
    ClosePc → Option CallMove
  | .exchange =>
      if s.closing then some { shared := s, call := none, output := .closeReturned }
      else some { shared := { s with closing := true }, call := some (.close .clearAlive) }
  | .clearAlive => some { shared := { s with alive := false }, call := some (.close .clearConnected) }
  | .clearConnected =>
      some { shared := { s with connected := false }, call := some (.close .setHeartbeatStop) }
  | .setHeartbeatStop =>
      some { shared := { s with heartbeatStop := true }, call := some (.close .clearAutoReconnect) }
  | .clearAutoReconnect =>
      some { shared := { s with autoReconnect := false }, call := some (.close .clearScheduled) }
  | .clearScheduled =>
      some { shared := { s with reconnectScheduled := false }, call := some (.close .postClose) }
  | .postClose => some { shared := s.addTask .asyncClose, call := some (.close (.tearDown .stopIo)) }
  | .tearDown pc =>
      match tearDownStep s threads self pc with
      | none => none
      | some (s', some pc') => some { shared := s', call := some (.close (.tearDown pc')) }
      | some (s', none) => some { shared := s', call := none, output := .closeReturned }

def sendStep (s : ClientShared) (task : IoTask) : SendPc → CallMove
  | .loadConnected => { shared := s, call := if s.connected then some (.send task .loadClosing) else none }
  | .loadClosing => { shared := s, call := if s.closing then none else some (.send task .post) }
  | .post => { shared := s.addTask task, call := none }

def callStep (s : ClientShared) (threads : List ClientThread) (self : Nat) : CallPc → Option CallMove
  | .connect pc => connectStep s threads self pc
  | .close pc => closeStep s threads self pc
  | .send task pc => some (sendStep s task pc)

/-! ## Threads -/

def AfterCallback.pc : AfterCallback → HandlerPc
  | .opened => .loadHeartbeatEnabled
  | .failed ec => .loadAutoReconnect ec
  | .readFailed ec => .clearConnected ec
  | .readMore => .checkClosing
  | .done => .idle

/-- A handler starts: what it does to the context, and where it goes on. `result` is the
result of the operation, and `more` says whether the write queue asks for a write. -/
def startTask (s : ClientShared) (result : Option ClientError) (more : Bool) :
    IoTask → ClientShared × HandlerPc
  | .doResolve => (s.addTask .onResolve, .idle)
  | .sendPing => (if s.closing then s else s.addTask .onPing, .idle)
  | .sendText => (if s.closing then s else if more then s.addTask .onWrite else s, .idle)
  | .asyncClose => (s.addTask .onClose, .idle)
  | .onResolve =>
      match result with
      | none => (s.addTask .onConnect, .idle)
      | some ec => (s, .callback (.failed ec))
  | .onConnect =>
      match result with
      | none => (s.addTask .onHandshake, .idle)
      | some ec => (s, .callback (.failed ec))
  | .onHandshake =>
      match result with
      | none => (s, .setConnected)
      | some ec => (s, .callback (.failed ec))
  | .onRead =>
      match result with
      | none => (s, .callback .readMore)
      | some .other => (s, .callback (.readFailed .other))
      | some ec => (s, .clearConnected ec)
  | .onPing =>
      match result with
      | none => (s, .idle)
      | some .aborted => (s, .idle)
      | some ec => (s, .callback (.failed ec))
  | .onWrite =>
      match result with
      | none => (if more && !s.closing then s.addTask .onWrite else s, .idle)
      | some .aborted => (if more && !s.closing then s.addTask .onWrite else s, .idle)
      | some ec => (s, .callback (.failed ec))
  | .onClose =>
      match result with
      | none => (s, .idle)
      | some .aborted => (s, .idle)
      | some _ => (s, .callback .done)

def handlerStep (s : ClientShared) (threads : List ClientThread) (context : Nat) :
    HandlerPc → Option Move
  | .idle => none
  | .setConnected =>
      some { shared := { s with connected := true }, thread := ⟨.io context .openHandler, none⟩ }
  | .openHandler =>
      some { shared := s, thread := ⟨.io context (.callback .opened), none⟩, output := .openHandler }
  | .callback after => some { shared := s, thread := ⟨.io context after.pc, none⟩ }
  | .loadHeartbeatEnabled =>
      some { shared := s
             thread := ⟨.io context (if s.heartbeatEnabled then .startHeartbeat else .startRead), none⟩ }
  | .startHeartbeat =>
      match s.heartbeatThread with
      | some _ => some { shared := s, thread := ⟨.io context .startRead, none⟩ }
      | none =>
          some { shared := { s with heartbeatThread := some threads.length }
                 thread := ⟨.io context .startRead, none⟩
                 spawn := some (.heartbeat .loadStop) }
  | .startRead => some { shared := s.addTask .onRead, thread := ⟨.io context .idle, none⟩ }
  | .checkClosing =>
      some { shared := s, thread := ⟨.io context (if s.closing then .idle else .startRead), none⟩ }
  | .clearConnected ec =>
      some { shared := { s with connected := false }
             thread := ⟨.io context (.callback (.failed ec)), none⟩ }
  | .loadAutoReconnect ec =>
      some { shared := s
             thread := ⟨.io context (if s.autoReconnect then .loadClosing ec else .idle), none⟩ }
  | .loadClosing ec =>
      some { shared := s, thread := ⟨.io context (if s.closing then .idle else .loadAlive ec), none⟩ }
  | .loadAlive ec =>
      some { shared := s, thread := ⟨.io context (if s.alive then .casScheduled ec else .idle), none⟩ }
  | .casScheduled ec =>
      if ec ≠ .other ∨ s.reconnectScheduled = true then
        some { shared := s, thread := ⟨.io context .idle, none⟩ }
      else
        some { shared := { s with reconnectScheduled := true }
               thread := ⟨.io context .spawnReconnect, none⟩ }
  | .spawnReconnect =>
      some { shared := s, thread := ⟨.io context .idle, none⟩, spawn := some (.reconnect .sleeping) }
  | .leaving => some { shared := s, thread := ⟨.finished, none⟩ }

def reconnectStep (s : ClientShared) : ReconnectPc → Move
  | .sleeping => { shared := s, thread := ⟨.reconnect .loadAlive, none⟩ }
  | .loadAlive =>
      { shared := s, thread := ⟨.reconnect (if s.alive then .loadClosing else .giveUp), none⟩ }
  | .loadClosing =>
      { shared := s, thread := ⟨.reconnect (if s.closing then .giveUp else .clearStarted), none⟩ }
  | .giveUp => { shared := { s with reconnectScheduled := false }, thread := ⟨.finished, none⟩ }
  | .clearStarted =>
      { shared := { s with started := false }, thread := ⟨.reconnect .clearScheduled, none⟩ }
  | .clearScheduled =>
      { shared := { s with reconnectScheduled := false }
        thread := ⟨.reconnect .connecting, some (.connect .loadAlive)⟩ }
  | .connecting => { shared := s, thread := ⟨.finished, none⟩ }

def heartbeatStep (s : ClientShared) : HeartbeatPc → Move
  | .loadStop =>
      { shared := s, thread := ⟨if s.heartbeatStop then .finished else .heartbeat .loadAlive, none⟩ }
  | .loadAlive =>
      { shared := s, thread := ⟨if s.alive then .heartbeat .sleeping else .finished, none⟩ }
  | .sleeping => { shared := s, thread := ⟨.heartbeat .loadConnected, none⟩ }
  | .loadConnected =>
      { shared := s, thread := ⟨.heartbeat (if s.connected then .loadClosing else .loadStop), none⟩ }
  | .loadClosing =>
      { shared := s, thread := ⟨.heartbeat (if s.closing then .loadStop else .loadStopAgain), none⟩ }
  | .loadStopAgain =>
      { shared := s
        thread := ⟨.heartbeat .loadStop,
          if s.heartbeatStop then none else some (.send .sendPing .loadConnected)⟩ }

def bodyStep (s : ClientShared) (threads : List ClientThread) : ThreadBody → Option Move
  | .user => none
  | .starting => s.ioc.map fun c => { shared := s, thread := ⟨.io c .idle, none⟩ }
  | .io context pc => handlerStep s threads context pc
  | .reconnect pc => some (reconnectStep s pc)
  | .heartbeat pc => some (heartbeatStep s pc)
  | .finished => none

/-! ## The client -/

inductive ClientCall where
  | connect
  | close
  | sendPing
  | sendText
  deriving Repr, DecidableEq

def ClientCall.entry : ClientCall → CallPc
  | .connect => .connect .loadAlive
  | .close => .close .exchange
  | .sendPing => .send .sendPing .loadConnected
  | .sendText => .send .sendText .loadConnected

/-- Code of the program runs on the thread: it is one of the program's own, or a
handler has called one of the program's. -/
def ThreadBody.isProgram : ThreadBody → Bool
  | .user => true
  | .io _ (.callback _) => true
  | .io _ .leaving => true
  | _ => false

/-- `step` is the next step of the thread. `runTask` starts a handler on the io thread;
`exitIo` is the end of `run`, because the context was stopped or had nothing left to
do, and `throwIo` is an exception out of one of the program's handlers. -/
inductive ClientEvent where
  | newThread
  | begin (t : Nat) (call : ClientCall)
  | enableAutoReconnect (t : Nat) (enable : Bool)
  | enableHeartbeat (t : Nat) (enable : Bool)
  | step (t : Nat)
  | runTask (t : Nat) (i : Nat) (result : Option ClientError) (more : Bool)
  | exitIo (t : Nat)
  | throwIo (t : Nat)
  deriving Repr, DecidableEq

structure WsClient where
  shared : ClientShared
  threads : List ClientThread
  deriving Repr, DecidableEq

namespace WsClient

def start : WsClient := ⟨.start, []⟩

def step (s : WsClient) (t : Nat) (th : ClientThread) : Option Move :=
  match th.call with
  | some call =>
      (callStep s.shared s.threads t call).map fun m =>
        { shared := m.shared, thread := { th with call := m.call }, spawn := m.spawn, output := m.output }
  | none => bodyStep s.shared s.threads th.body

def runTask (s : WsClient) (th : ClientThread) (i : Nat) (result : Option ClientError) (more : Bool) :
    Option Move :=
  match th with
  | ⟨.io c .idle, none⟩ =>
      match s.shared.contexts[c]? with
      | none => none
      | some context =>
          if context.stopped then none
          else
            match context.tasks[i]? with
            | none => none
            | some task =>
                let s' := { s.shared with
                  contexts := s.shared.contexts.set c { context with tasks := context.tasks.eraseIdx i } }
                let r := startTask s' result more task
                some { shared := r.1, thread := ⟨.io c r.2, none⟩ }
  | _ => none

def move (s : WsClient) (th : ClientThread) : ClientEvent → Option Move
  | .newThread => none
  | .begin _ call =>
      if th.body.isProgram = true ∧ th.call = none then
        some { shared := s.shared, thread := { th with call := some call.entry } }
      else none
  | .enableAutoReconnect _ enable =>
      if th.body.isProgram = true ∧ th.call = none then
        some { shared := { s.shared with autoReconnect := enable }, thread := th }
      else none
  | .enableHeartbeat _ enable =>
      if th.body.isProgram = true ∧ th.call = none then
        some { shared := { s.shared with heartbeatEnabled := enable }, thread := th }
      else none
  | .step t => s.step t th
  | .runTask _ i result more => s.runTask th i result more
  | .exitIo _ =>
      match th with
      | ⟨.io _ .idle, none⟩ => some { shared := s.shared, thread := ⟨.finished, none⟩ }
      | _ => none
  | .throwIo _ =>
      match th with
      | ⟨.io c (.callback _), none⟩ => some { shared := s.shared, thread := ⟨.io c .leaving, none⟩ }
      | _ => none

end WsClient

def ClientEvent.thread : ClientEvent → Option Nat
  | .newThread => none
  | .begin t _ => some t
  | .enableAutoReconnect t _ => some t
  | .enableHeartbeat t _ => some t
  | .step t => some t
  | .runTask t _ _ _ => some t
  | .exitIo t => some t
  | .throwIo t => some t

namespace WsClient

/-- The thread has moved; a thread it has started comes last. -/
def apply (s : WsClient) (t : Nat) (m : Move) : WsClient where
  shared := m.shared
  threads := s.threads.set t m.thread ++ (m.spawn.map fun body => ⟨body, none⟩).toList

def next (s : WsClient) (e : ClientEvent) : Option (WsClient × ClientOutput) :=
  match e.thread with
  | none => some ({ s with threads := s.threads ++ [⟨.user, none⟩] }, .silent)
  | some t =>
      match s.threads[t]? with
      | none => none
      | some th => (s.move th e).map fun m => (s.apply t m, m.output)

end WsClient

def clientMachine : Rtl.Base.Machine WsClient ClientEvent ClientOutput where
  init s := s = .start
  next := WsClient.next

end Rtl.Ws
