/-! # Upgrade requests and authentication requests

What a session keeps of its upgrade request, and the request an authenticator is
given. The maps of the source are association lists; `emplace` keeps the entry
that is already there.
-/

namespace Rtl.Ws

structure HttpRequest where
  target : String
  fields : List (String × String)
  deriving Repr, DecidableEq

abbrev Headers := List (String × String)

def Headers.emplace (headers : Headers) (key value : String) : Headers :=
  if (headers.lookup key).isSome then headers else headers ++ [(key, value)]

structure HttpEndpoint where
  headers : Headers := []
  endpoint : String := ""
  rawTarget : String := ""
  payload : String := ""
  deriving Repr, DecidableEq

namespace HttpEndpoint

def copyHeaders (h : HttpEndpoint) (request : HttpRequest) : HttpEndpoint :=
  { h with headers :=
      request.fields.foldl (fun headers field => headers.emplace field.1.toLower field.2) h.headers }

def parseRawEndpoint (h : HttpEndpoint) : HttpEndpoint :=
  let target := h.rawTarget.toList
  match target.dropWhile (· ≠ '?') with
  | [] => { h with endpoint := h.rawTarget }
  | _ :: query =>
      { h with
        endpoint := String.ofList (target.takeWhile (· ≠ '?'))
        payload := String.ofList query }

def setHttpRequest (h : HttpEndpoint) (request : HttpRequest) : HttpEndpoint :=
  ({ h with rawTarget := request.target }.copyHeaders request).parseRawEndpoint

end HttpEndpoint

structure ConnectionInfo where
  remoteAddress : String := ""
  remotePort : UInt16 := 0
  deriving Repr, DecidableEq

structure RequestContext where
  httpInfo : HttpEndpoint := {}
  connectionInfo : ConnectionInfo := {}
  deriving Repr, DecidableEq

namespace RequestContext

def setHttpRequest (ctx : RequestContext) (request : HttpRequest) : RequestContext :=
  { ctx with httpInfo := ctx.httpInfo.setHttpRequest request }

/-- `setTcpSocket`: without a remote end point nothing is recorded. -/
def setTcpSocket (ctx : RequestContext) (remote : Option (String × UInt16)) : RequestContext :=
  match remote with
  | none => ctx
  | some (address, port) => { ctx with connectionInfo := ⟨address, port⟩ }

def endpoint (ctx : RequestContext) : String := ctx.httpInfo.endpoint

end RequestContext

/-! ## Authentication -/

structure AuthenticationRequest where
  authorizationHeader : Option String
  normalizedHeaders : Headers
  endpoint : String
  rawTarget : String
  queryString : String
  remoteAddress : String
  remotePort : UInt16
  host : String
  origin : String
  userAgent : String
  deriving Repr, DecidableEq

structure AuthenticatedPrincipal where
  userId : String
  authScheme : String := ""
  subject : String := ""
  issuer : String := ""
  roles : List String := []
  scopes : List String := []
  expiresAt : Option Int := none
  deriving Repr, DecidableEq

inductive AuthenticationFailureCode where
  | missingCredentials
  | malformedCredentials
  | invalidToken
  | expiredToken
  | invalidIssuer
  | invalidAudience
  | forbidden
  | temporarilyUnavailable
  deriving Repr, DecidableEq

structure AuthenticationFailure where
  code : AuthenticationFailureCode
  message : String
  deriving Repr, DecidableEq

def authenticationRequestOf (ctx : RequestContext) : AuthenticationRequest :=
  let headers := ctx.httpInfo.headers
  { authorizationHeader := headers.lookup "authorization"
    normalizedHeaders := headers
    endpoint := ctx.endpoint
    rawTarget := ctx.httpInfo.rawTarget
    queryString := ctx.httpInfo.payload
    remoteAddress := ctx.connectionInfo.remoteAddress
    remotePort := ctx.connectionInfo.remotePort
    host := (headers.lookup "host").getD ""
    origin := (headers.lookup "origin").getD ""
    userAgent := (headers.lookup "user-agent").getD "" }

/-! ## Decisions of the handshake gates -/

structure WsAcceptingDecision where
  status : Nat
  message : String
  accept : Bool
  deriving Repr, DecidableEq

namespace WsAcceptingDecision

def makeAccept (status : Nat) (message : String) : WsAcceptingDecision := ⟨status, message, true⟩

def reject (status : Nat) (message : String) : WsAcceptingDecision := ⟨status, message, false⟩

def defaultAccept : WsAcceptingDecision := makeAccept 101 ""

def acceptAuthorized : WsAcceptingDecision := makeAccept 202 "Authorized"

def rejectUnauthorized (message : String) : WsAcceptingDecision := reject 401 message

def rejectForbidden (message : String) : WsAcceptingDecision := reject 403 message

def rejectNotFound (message : String) : WsAcceptingDecision := reject 404 message

def rejectServiceUnavailable (message : String) : WsAcceptingDecision := reject 503 message

end WsAcceptingDecision

def rejectOnAuthFailure (fail : AuthenticationFailure) : WsAcceptingDecision :=
  let messageOr (fallback : String) := if fail.message.isEmpty then fallback else fail.message
  match fail.code with
  | .forbidden => .rejectForbidden (messageOr "Forbidden")
  | .temporarilyUnavailable => .rejectServiceUnavailable (messageOr "Service Unavailable")
  | _ => .rejectUnauthorized (messageOr "Unauthorized")

theorem rejectOnAuthFailure_rejects (fail : AuthenticationFailure) :
    (rejectOnAuthFailure fail).accept = false := by
  obtain ⟨code, message⟩ := fail
  cases code <;> rfl

end Rtl.Ws
