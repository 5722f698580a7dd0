import Rtl.Ws.Session

/-! # The server and its sessions

`WsServer` keeps weak pointers to the sessions that are open, and `WsEngine` accepts the
connections. The registry is guarded by a mutex. A call of `stop` asks every session it finds
to shut down and then sleeps on a condition variable until the registry is empty or the drain
timer has run out. Sessions, calls of `start` and `stop`, broadcasts, the accept handlers and the
timer's handlers take their steps in any order; a step is a critical section, an access to an
atomic flag or a call on one session. What the users' handlers do is up to the environment, and
so is the outcome of an accept. The io threads are the engine's own, which `stop` joins.
-/

namespace Rtl.Ws

open Rtl.Base

inductive ServerState where
  | init
  | running
  | stopping
  | stopped
  deriving Repr, DecidableEq

inductive RegistryNote where
  | opened
  | closed
  deriving Repr, DecidableEq

/-- A session the engine has made; it is expired once no shared pointer owns it. -/
structure Peer where
  session : Session
  expired : Bool := false
  deriving Repr, DecidableEq

/-! ## Where the threads are -/

inductive StartAt where
  | enter
  | allowAccepts
  | accept
  | runIo
  | leave
  deriving Repr, DecidableEq

inductive StopAt where
  | enter
  | requestStop
  | look
  | collect
  | close (targets : List Nat)
  | clearWait
  | arm
  | test
  | asleep
  | disarm
  | stopIo
  | joinIo
  | leave
  deriving Repr, DecidableEq

inductive CallerAt where
  | start (at_ : StartAt)
  | stop (at_ : StopAt)
  | returned
  deriving Repr, DecidableEq

/-- An `async_accept` and its handler, which looks at the stop flag three times. -/
inductive AcceptAt where
  | waiting
  | beforeClient
  | client
  | beforeAccept
  | again
  deriving Repr, DecidableEq

/-- `on_wait_timer_timeout` after it has set the flag. -/
inductive DrainAt where
  | collect
  | close (targets : List Nat)
  deriving Repr, DecidableEq

def CallerAt.targets : CallerAt → List Nat
  | .stop (.close targets) => targets
  | _ => []

def DrainAt.targets : DrainAt → List Nat
  | .close targets => targets
  | .collect => []

/-- A broadcast holds the mutex while it goes through the registry. `passed` are the entries it
is done with, `offered` those of them that were given the message. -/
structure Broadcast where
  isBinary : Bool
  data : List UInt8
  passed : List Nat
  offered : List Nat
  remaining : List Nat
  deriving Repr, DecidableEq

def Broadcast.call (b : Broadcast) : Call := if b.isBinary then .sendBinary b.data else .sendText b.data

/-- `timerWaits` counts the waits of the drain timer that have not completed, `notifiers` the
calls of `unregister_session` that have left the mutex and not notified. -/
structure WsServer where
  serverState : ServerState
  sessions : List Nat
  stopWait : Bool
  cv : CondVar Nat
  lock : Option Broadcast
  callers : List CallerAt
  timerWaits : Nat
  handlers : List DrainAt
  notifiers : Nat
  stopRequested : Bool
  ioStarted : Bool
  ioStopped : Bool
  accepts : List AcceptAt
  peers : List Peer
  deriving Repr, DecidableEq

/-! ## The router -/

def Gate.unnoted {ν : Type*} (gate : Gate Unit) : Gate ν :=
  { calls := gate.calls, principal := gate.principal, decision := gate.decision }

def Callback.noted {ν : Type*} (callback : Callback Unit) (notes : List ν) : Callback ν :=
  { calls := callback.calls, throws := callback.throws, notes := notes }

/-- `setup_handlers_for_router`: a session is registered before the user's open handler is
called and unregistered before the close handler. -/
def serverRouter (user : Router Unit) : Router RegistryNote where
  handleAuth ctx := (user.handleAuth ctx).unnoted
  handleAccept ctx := (user.handleAccept ctx).unnoted
  handleOpen ctx := (user.handleOpen ctx).noted [.opened]
  handleClose ctx := (user.handleClose ctx).noted [.closed]
  handleError ctx := (user.handleError ctx).noted []
  handleMessage ctx payload := (user.handleMessage ctx payload).noted []

def SessionEvent.routed : SessionEvent Unit → SessionEvent RegistryNote
  | .call c => .call c
  | .complete k outcome input user => .complete k outcome input (serverRouter user)
  | .pong => .pong

/-- A call may come from any thread; the rest runs on the io threads. -/
def SessionEvent.isCall {ν : Type*} : SessionEvent ν → Bool
  | .call _ => true
  | _ => false

namespace WsServer

def create : WsServer where
  serverState := .init
  sessions := []
  stopWait := false
  cv := .empty
  lock := none
  callers := []
  timerWaits := 0
  handlers := []
  notifiers := 0
  stopRequested := false
  ioStarted := false
  ioStopped := false
  accepts := []
  peers := []

/-! ## The registry -/

def expired (s : WsServer) (i : Nat) : Bool :=
  match s.peers[i]? with
  | some peer => peer.expired
  | none => true

def removeInvalidSessions (s : WsServer) : WsServer :=
  { s with sessions := s.sessions.filter fun i => !s.expired i }

def registerSession (s : WsServer) (i : Nat) : WsServer := { s with sessions := s.sessions ++ [i] }

/-- The notification follows in a step of its own. -/
def unregisterSession (s : WsServer) (i : Nat) : WsServer :=
  { s with
    sessions := s.sessions.filter fun j => !(s.expired j || j == i)
    notifiers := s.notifiers + 1 }

def note (i : Nat) (s : WsServer) : RegistryNote → WsServer
  | .opened => s.registerSession i
  | .closed => s.unregisterSession i

/-! ## Sessions -/

def callSession (s : WsServer) (i : Nat) (c : Call) : WsServer :=
  match s.peers[i]? with
  | none => s
  | some peer => { s with peers := s.peers.set i { peer with session := peer.session.call c } }

def ioRunning (s : WsServer) : Bool := s.ioStarted && !s.ioStopped

/-- No io thread is inside a handler. Once the context is stopped, `join_io_threads` waits for this. -/
def ioIdle (s : WsServer) : Bool :=
  s.handlers.isEmpty && s.notifiers == 0 && s.accepts.all (· == .waiting)

/-- A step of a session. If it has something to tell the server it needs the mutex. -/
def sessionStep (cfg : WsConfig) (s : WsServer) (i : Nat) (e : SessionEvent Unit) :
    Option (WsServer × List (Nat × RegistryNote)) :=
  match s.peers[i]? with
  | none => none
  | some peer =>
      if peer.expired || !(e.isCall || s.ioRunning) then none
      else
        match peer.session.next cfg e.routed with
        | none => none
        | some (session, notes) =>
            if notes ≠ [] ∧ s.lock.isSome then none
            else
              some (notes.foldl (note i) { s with peers := s.peers.set i { peer with session } },
                notes.map fun n => (i, n))

/-- Every operation but a ping owns its session, and so does a list of live sessions. -/
def owned (s : WsServer) (i : Nat) (session : Session) : Bool :=
  session.pending.any (· != .ping) || s.callers.any (i ∈ ·.targets) ||
    s.handlers.any (i ∈ ·.targets)

def expire (s : WsServer) (i : Nat) : Option WsServer :=
  match s.peers[i]? with
  | none => none
  | some peer =>
      if peer.expired || s.owned i peer.session then none
      else some { s with peers := s.peers.set i { peer with expired := true } }

/-! ## Calls of start and stop -/

def setCaller (s : WsServer) (j : Nat) (at_ : CallerAt) : WsServer :=
  { s with callers := s.callers.set j at_ }

/-- Critical sections wait for a broadcast to end. -/
def locked (s : WsServer) (critical : WsServer) : Option WsServer :=
  if s.lock.isSome then none else some critical

def startStep (s : WsServer) (j : Nat) : StartAt → Option WsServer
  | .enter =>
      s.locked (s.setCaller j (if s.serverState = .running then .returned else .start .allowAccepts))
  | .allowAccepts => some ({ s with stopRequested := false }.setCaller j (.start .accept))
  | .accept => some ({ s with accepts := s.accepts ++ [AcceptAt.waiting] }.setCaller j (.start .runIo))
  | .runIo => some ({ s with ioStarted := true }.setCaller j (.start .leave))
  | .leave => s.locked ({ s with serverState := .running }.setCaller j .returned)

/-- The predicate of the wait, which tidies the registry up; the thread goes on or sleeps. -/
def test (s : WsServer) (j : Nat) : WsServer :=
  let s := s.removeInvalidSessions
  if s.sessions = [] ∨ s.stopWait then s.setCaller j (.stop .disarm)
  else { s with cv := s.cv.park j }.setCaller j (.stop .asleep)

def stopStep (s : WsServer) (j : Nat) : StopAt → Option WsServer
  | .enter =>
      s.locked <|
        if s.serverState = .stopping ∨ s.serverState = .stopped then s.setCaller j .returned
        else { s with serverState := .stopping }.setCaller j (.stop .requestStop)
  | .requestStop => some ({ s with stopRequested := true }.setCaller j (.stop .look))
  | .look =>
      s.locked (s.setCaller j (.stop (if s.serverState = .stopped then .stopIo else .collect)))
  | .collect =>
      let s' := s.removeInvalidSessions
      s.locked (s'.setCaller j (.stop (.close s'.sessions)))
  | .close [] => some (s.setCaller j (.stop .clearWait))
  | .close (i :: rest) =>
      some ((s.callSession i .closeForShutdown).setCaller j (.stop (.close rest)))
  | .clearWait => some ({ s with stopWait := false }.setCaller j (.stop .arm))
  | .arm => some ({ s with timerWaits := s.timerWaits + 1 }.setCaller j (.stop .test))
  | .test => s.locked (s.test j)
  | .asleep => none
  | .disarm => some (s.setCaller j (.stop .stopIo))
  | .stopIo => some ({ s with ioStopped := true }.setCaller j (.stop .joinIo))
  | .joinIo => if s.ioIdle then some (s.setCaller j (.stop .leave)) else none
  | .leave => s.locked ({ s with serverState := .stopped }.setCaller j .returned)

def callerStep (s : WsServer) (j : Nat) : Option WsServer :=
  match s.callers[j]? with
  | some (.start at_) => s.startStep j at_
  | some (.stop at_) => s.stopStep j at_
  | _ => none

/-! ## Accepts, the drain timer and broadcasts -/

def acceptStep (s : WsServer) (j : Nat) (failed : Bool) (remote : Option (String × UInt16)) :
    AcceptAt → Option WsServer
  | .waiting =>
      if !s.ioRunning then none
      else if s.stopRequested then some { s with accepts := s.accepts.eraseIdx j }
      else some { s with accepts := s.accepts.set j (if failed then .beforeAccept else .beforeClient) }
  | .beforeClient =>
      some { s with accepts := s.accepts.set j (if s.stopRequested then .beforeAccept else .client) }
  | .client =>
      some { s with
        accepts := s.accepts.set j .beforeAccept
        peers := s.peers ++ [{ session := Session.start remote }] }
  | .beforeAccept =>
      if s.stopRequested then some { s with accepts := s.accepts.eraseIdx j }
      else some { s with accepts := s.accepts.set j .again }
  | .again => some { s with accepts := s.accepts.set j .waiting }

/-- The error code of the wait is not looked at, so that a cancelled one does the same. -/
def timerFires (s : WsServer) : Option WsServer :=
  if s.ioRunning ∧ 0 < s.timerWaits then
    some { s with
      timerWaits := s.timerWaits - 1
      stopWait := true
      handlers := s.handlers ++ [.collect] }
  else none

def handlerStep (s : WsServer) (j : Nat) : DrainAt → Option WsServer
  | .collect =>
      let s' := s.removeInvalidSessions
      s.locked { s' with handlers := s'.handlers.set j (.close s'.sessions) }
  | .close [] => some { s with cv := s.cv.notifyAll, handlers := s.handlers.eraseIdx j }
  | .close (i :: rest) =>
      let s' := s.callSession i .closeForcefully
      some { s' with handlers := s'.handlers.set j (.close rest) }

def broadcast (s : WsServer) (isBinary : Bool) (data : List UInt8) : Option WsServer :=
  s.locked <|
    if s.serverState = .running then
      let s' := s.removeInvalidSessions
      { s' with lock := some ⟨isBinary, data, [], [], s'.sessions⟩ }
    else s

/-- The next entry of the registry; after the last one the mutex is released. -/
def broadcastNext (s : WsServer) : Option WsServer :=
  match s.lock with
  | none => none
  | some b =>
      match b.remaining with
      | [] => some { s with lock := none }
      | i :: rest =>
          let b' := { b with passed := b.passed ++ [i], remaining := rest }
          if s.expired i then some { s with lock := some b' }
          else
            some { s.callSession i b.call with
              lock := some { b' with offered := b.offered ++ [i] } }

end WsServer

/-! ## The machine -/

inductive WsServerEvent where
  | start
  | stop
  | caller (j : Nat)
  | wake (k : Nat)
  | resume (cause : Cause) (k : Nat)
  | accept (j : Nat) (failed : Bool) (remote : Option (String × UInt16))
  | timer
  | handler (j : Nat)
  | notify
  | broadcast (isBinary : Bool) (data : List UInt8)
  | broadcastNext
  | session (i : Nat) (e : SessionEvent Unit)
  | expire (i : Nat)

namespace WsServer

def next (cfg : WsConfig) (s : WsServer) :
    WsServerEvent → Option (WsServer × List (Nat × RegistryNote))
  | .start => some ({ s with callers := s.callers ++ [.start .enter] }, [])
  | .stop => some ({ s with callers := s.callers ++ [.stop .enter] }, [])
  | .caller j => (s.callerStep j).map (·, [])
  | .wake k => (s.cv.wake k).map fun cv => ({ s with cv := cv }, [])
  | .resume cause k =>
      match s.cv.resume cause k with
      | none => none
      | some (j, cv) => (s.locked ({ s with cv := cv }.test j)).map (·, [])
  | .accept j failed remote =>
      match s.accepts[j]? with
      | none => none
      | some at_ => (s.acceptStep j failed remote at_).map (·, [])
  | .timer => s.timerFires.map (·, [])
  | .handler j =>
      match s.handlers[j]? with
      | none => none
      | some at_ => (s.handlerStep j at_).map (·, [])
  | .notify =>
      if 0 < s.notifiers then
        some ({ s with notifiers := s.notifiers - 1, cv := s.cv.notifyAll }, [])
      else none
  | .broadcast isBinary data => (s.broadcast isBinary data).map (·, [])
  | .broadcastNext => s.broadcastNext.map (·, [])
  | .session i e => s.sessionStep cfg i e
  | .expire i => (s.expire i).map (·, [])

end WsServer

def wsServerMachine (cfg : WsConfig) :
    Machine WsServer WsServerEvent (List (Nat × RegistryNote)) where
  init s := s = .create
  next := WsServer.next cfg

end Rtl.Ws
