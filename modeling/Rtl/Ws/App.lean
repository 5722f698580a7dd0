import Rtl.Ws.Protocol
import Rtl.Ws.Session

/-! # The application server

`WsApp` registers handlers and a middleware, and installs the callbacks through
which `WsServer` and `WsRouter` reach it from a session: the authentication and the
accept gate of the handshake, and the dispatch of messages. Handlers are known by
numbers. What an authenticator answers and what a handler does is chosen by the
environment, at each call anew.
-/

namespace Rtl.Ws

open Rtl.Base

structure App where
  middleware : Option Nat
  endpHndlMap : List (String × Nat)
  nestedHdnlMap : List (String × List (String × Nat))
  deriving Repr, DecidableEq

namespace App

def empty : App := ⟨none, [], []⟩

def addEndpoint (app : App) (endpoint : String) (handler : Option Nat) : App :=
  if endpoint.isEmpty then app
  else
    match handler with
    | none => app
    | some h =>
        if (app.endpHndlMap.lookup endpoint).isSome then app
        else { app with endpHndlMap := app.endpHndlMap ++ [(endpoint, h)] }

def emplaceType (type : String) (h : Nat) (endpoint : String) :
    String × List (String × Nat) → String × List (String × Nat)
  | (name, handlers) =>
      if name = endpoint ∧ (handlers.lookup type).isNone then (name, handlers ++ [(type, h)])
      else (name, handlers)

def addMessageHandler (app : App) (endpoint type : String) (handler : Option Nat) : App :=
  if endpoint.isEmpty then app
  else if type.isEmpty then app
  else
    match handler with
    | none => app
    | some h =>
        let nested :=
          if (app.nestedHdnlMap.lookup endpoint).isSome then app.nestedHdnlMap
          else app.nestedHdnlMap ++ [(endpoint, [])]
        { app with nestedHdnlMap := nested.map (emplaceType type h endpoint) }

def setupMiddleware (app : App) (middleware : Option Nat) : App := { app with middleware }

def knows (app : App) (endpoint : String) : Bool :=
  (app.endpHndlMap.lookup endpoint).isSome || (app.nestedHdnlMap.lookup endpoint).isSome

def acceptDecision (app : App) (endpoint : String) : WsAcceptingDecision :=
  if app.knows endpoint then .defaultAccept else .rejectNotFound "Unknown endpoint"

inductive Route where
  | closeSession
  | unknownType
  | invoke (handler : Nat)
  deriving Repr, DecidableEq

def route (app : App) (endpoint type : String) : Route :=
  if type.isEmpty then
    match app.endpHndlMap.lookup endpoint with
    | none => .closeSession
    | some h => .invoke h
  else
    match app.nestedHdnlMap.lookup endpoint with
    | none => .closeSession
    | some handlers =>
        match handlers.lookup type with
        | none => .unknownType
        | some h => .invoke h

end App

/-! ## Callbacks -/

inductive Verdict where
  | principal (principal : AuthenticatedPrincipal)
  | failure (failure : AuthenticationFailure)
  | throws
  deriving Repr, DecidableEq

inductive Note where
  | authenticate (middleware : Nat) (request : AuthenticationRequest) (verdict : Verdict)
  | auth (decision : WsAcceptingDecision)
  | accept (endpoint : String) (decision : WsAcceptingDecision)
  | dispatch (payload : List UInt8)
  | handler (h : Nat) (message : JsonMessage)

structure Environment where
  authenticate : Nat → AuthenticationRequest → Verdict := fun _ _ => .throws
  handlerCalls : List Call := []
  handlerThrows : Bool := false

namespace App

def onAuth (app : App) (env : Environment) (ctx : RequestContext) : Gate Note :=
  match app.middleware with
  | none =>
      { decision := some (.rejectUnauthorized "Unauthorized")
        notes := [.auth (.rejectUnauthorized "Unauthorized")] }
  | some m =>
      let request := authenticationRequestOf ctx
      match env.authenticate m request with
      | .principal p =>
          { principal := some p
            decision := some .acceptAuthorized
            notes := [.authenticate m request (.principal p), .auth .acceptAuthorized] }
      | .failure f =>
          { decision := some (rejectOnAuthFailure f)
            notes := [.authenticate m request (.failure f), .auth (rejectOnAuthFailure f)] }
      | .throws => { decision := none, notes := [.authenticate m request .throws] }

def onAccept (app : App) (ctx : RequestContext) : Gate Note :=
  let decision := app.acceptDecision ctx.endpoint
  { decision := some decision, notes := [.accept ctx.endpoint decision] }

/-- The message handler of the server with the typed handler of `setup_messaging`. -/
def onMessage (app : App) (parse : List UInt8 → Option Json) (env : Environment)
    (ctx : RequestContext) (payload : List UInt8) : Callback Note :=
  match stringToMessage parse payload with
  | none => { notes := [.dispatch payload] }
  | some message =>
      match app.route ctx.endpoint message.type with
      | .closeSession => { calls := [.close], notes := [.dispatch payload] }
      | .unknownType => { notes := [.dispatch payload] }
      | .invoke h =>
          { calls := env.handlerCalls
            throws := env.handlerThrows
            notes := [.dispatch payload, .handler h message] }

def router (app : App) (parse : List UInt8 → Option Json) (env : Environment) : Router Note where
  handleAuth := app.onAuth env
  handleAccept := app.onAccept
  handleMessage := app.onMessage parse env

end App

/-! ## The machine -/

/-- Sessions are known by the order of their connections. -/
structure Server where
  app : App
  sessions : List Session
  deriving Repr, DecidableEq

inductive ServerEvent where
  | connect (remote : Option (String × UInt16))
  | call (i : Nat) (c : Call)
  | complete (i k : Nat) (outcome : Outcome) (input : Input) (env : Environment)
  | pong (i : Nat)
  | addEndpoint (endpoint : String) (handler : Option Nat)
  | addMessageHandler (endpoint type : String) (handler : Option Nat)
  | setupMiddleware (middleware : Option Nat)

namespace Server

def sessionStep (cfg : WsConfig) (s : Server) (i : Nat) (e : SessionEvent Note) :
    Option (Server × List (Nat × Note)) :=
  match s.sessions[i]? with
  | none => none
  | some session =>
      (session.next cfg e).map fun r =>
        ({ s with sessions := s.sessions.set i r.1 }, r.2.map fun note => (i, note))

def next (cfg : WsConfig) (parse : List UInt8 → Option Json) (s : Server) :
    ServerEvent → Option (Server × List (Nat × Note))
  | .connect remote => some ({ s with sessions := s.sessions ++ [Session.start remote] }, [])
  | .call i c => s.sessionStep cfg i (.call c)
  | .complete i k outcome input env =>
      s.sessionStep cfg i (.complete k outcome input (s.app.router parse env))
  | .pong i => s.sessionStep cfg i .pong
  | .addEndpoint endpoint handler => some ({ s with app := s.app.addEndpoint endpoint handler }, [])
  | .addMessageHandler endpoint type handler =>
      some ({ s with app := s.app.addMessageHandler endpoint type handler }, [])
  | .setupMiddleware middleware => some ({ s with app := s.app.setupMiddleware middleware }, [])

end Server

def serverMachine (cfg : WsConfig) (parse : List UInt8 → Option Json) :
    Machine Server ServerEvent (List (Nat × Note)) where
  init s := s = ⟨.empty, []⟩
  next := Server.next cfg parse

end Rtl.Ws
