import Rtl.Base.KeyedList
import Rtl.Ws.App

/-! # Routing and the history of registrations

The two tables of `WsApp` are filled by calls that may come in any order, be invalid
or be repeated. What the accept handler and the dispatch read from them is what the
history of the calls says: the first valid call for a name counts.
-/

namespace Rtl.Ws

open Rtl.Base

inductive Registration where
  | addEndpoint (endpoint : String) (handler : Option Nat)
  | addMessageHandler (endpoint type : String) (handler : Option Nat)
  deriving Repr, DecidableEq

namespace Registration

def valid : Registration → Bool
  | .addEndpoint endpoint handler => !endpoint.isEmpty && handler.isSome
  | .addMessageHandler endpoint type handler => !endpoint.isEmpty && !type.isEmpty && handler.isSome

def endpoint : Registration → String
  | .addEndpoint endpoint _ => endpoint
  | .addMessageHandler endpoint _ _ => endpoint

def endpointHandler (name : String) (call : Registration) : Option Nat :=
  match call with
  | .addEndpoint endpoint handler => if call.valid && name == endpoint then handler else none
  | .addMessageHandler .. => none

def addsType (name : String) (call : Registration) : Bool :=
  match call with
  | .addEndpoint .. => false
  | .addMessageHandler endpoint _ _ => call.valid && name == endpoint

def typeHandler (name typeName : String) (call : Registration) : Option Nat :=
  match call with
  | .addEndpoint .. => none
  | .addMessageHandler _ type handler =>
      if call.addsType name && typeName == type then handler else none

end Registration

namespace App

def register (app : App) : Registration → App
  | .addEndpoint endpoint handler => app.addEndpoint endpoint handler
  | .addMessageHandler endpoint type handler => app.addMessageHandler endpoint type handler

def ofHistory (calls : List Registration) : App := calls.foldl register .empty

def typeHandler (app : App) (endpoint type : String) : Option Nat :=
  (app.nestedHdnlMap.lookup endpoint).bind (·.lookup type)

/-! ## One call -/

theorem lookup_emplaceType (nested : List (String × List (String × Nat))) (type : String) (h : Nat)
    (endpoint name : String) :
    (nested.map (emplaceType type h endpoint)).lookup name =
      (nested.lookup name).map fun handlers =>
        if name = endpoint ∧ (handlers.lookup type).isNone then handlers ++ [(type, h)]
        else handlers := by
  rw [← lookup_map_snd fun name handlers =>
    if name = endpoint ∧ (handlers.lookup type).isNone then handlers ++ [(type, h)] else handlers]
  congr 2
  funext entry
  obtain ⟨entryName, handlers⟩ := entry
  simp only [emplaceType]
  split <;> rfl

/-- An invalid call does nothing. -/
theorem register_invalid (app : App) {call : Registration} (invalid : call.valid = false) :
    app.register call = app := by
  cases call with
  | addEndpoint endpoint handler =>
      simp only [register, addEndpoint]
      cases handler with
      | none => split <;> rfl
      | some h => rw [if_pos (by simpa [Registration.valid] using invalid)]
  | addMessageHandler endpoint type handler =>
      simp only [register, addMessageHandler]
      cases handler with
      | none =>
          split
          · rfl
          · split <;> rfl
      | some h =>
          by_cases named : endpoint.isEmpty = true
          · rw [if_pos named]
          · rw [if_neg named, if_pos (by simpa [Registration.valid, named] using invalid)]

theorem addEndpoint_valid (app : App) {endpoint : String} {handler : Option Nat}
    (valid : (Registration.addEndpoint endpoint handler).valid = true) :
    ∃ h, handler = some h ∧ app.addEndpoint endpoint handler =
      { app with endpHndlMap :=
          if (app.endpHndlMap.lookup endpoint).isSome then app.endpHndlMap
          else app.endpHndlMap ++ [(endpoint, h)] } := by
  simp only [Registration.valid, Bool.and_eq_true, Bool.not_eq_true'] at valid
  obtain ⟨h, rfl⟩ := Option.isSome_iff_exists.mp valid.2
  refine ⟨h, rfl, ?_⟩
  simp only [addEndpoint, valid.1, Bool.false_eq_true, if_false]
  split <;> rfl

theorem addMessageHandler_valid (app : App) {endpoint type : String} {handler : Option Nat}
    (valid : (Registration.addMessageHandler endpoint type handler).valid = true) :
    ∃ h, handler = some h ∧ app.addMessageHandler endpoint type handler =
      { app with nestedHdnlMap :=
          (if (app.nestedHdnlMap.lookup endpoint).isSome then app.nestedHdnlMap
            else app.nestedHdnlMap ++ [(endpoint, [])]).map (emplaceType type h endpoint) } := by
  simp only [Registration.valid, Bool.and_eq_true, Bool.not_eq_true'] at valid
  obtain ⟨⟨named, typed⟩, filled⟩ := valid
  obtain ⟨h, rfl⟩ := Option.isSome_iff_exists.mp filled
  refine ⟨h, rfl, ?_⟩
  simp only [addMessageHandler, named, typed, Bool.false_eq_true, if_false]

theorem lookup_register (app : App) (call : Registration) (name : String) :
    (app.register call).endpHndlMap.lookup name =
      (app.endpHndlMap.lookup name).or (call.endpointHandler name) := by
  cases valid : call.valid with
  | false =>
      rw [register_invalid app valid]
      cases call <;> simp [Registration.endpointHandler, valid]
  | true =>
      cases call with
      | addEndpoint endpoint handler =>
          obtain ⟨h, rfl, eq⟩ := addEndpoint_valid app valid
          simp only [register, eq, Registration.endpointHandler, valid, Bool.true_and]
          exact lookup_emplace _ _ _ _
      | addMessageHandler endpoint type handler =>
          obtain ⟨h, rfl, eq⟩ := addMessageHandler_valid app valid
          simp only [register, eq, Registration.endpointHandler, Option.or_none]

/-- The nested table has an endpoint as soon as one of its types was registered. -/
theorem isSome_lookup_nested_register (app : App) (call : Registration) (name : String) :
    ((app.register call).nestedHdnlMap.lookup name).isSome =
      ((app.nestedHdnlMap.lookup name).isSome || call.addsType name) := by
  cases valid : call.valid with
  | false =>
      rw [register_invalid app valid]
      cases call <;> simp [Registration.addsType, valid]
  | true =>
      cases call with
      | addEndpoint endpoint handler =>
          obtain ⟨h, rfl, eq⟩ := addEndpoint_valid app valid
          simp only [register, eq, Registration.addsType, Bool.or_false]
      | addMessageHandler endpoint type handler =>
          obtain ⟨h, rfl, eq⟩ := addMessageHandler_valid app valid
          simp only [register, eq, Registration.addsType, valid, Bool.true_and]
          rw [lookup_emplaceType, Option.isSome_map, lookup_emplace]
          cases name == endpoint <;> simp

theorem lookup_emplaced (handlers : List (String × Nat)) (type : String) (h : Nat)
    (typeName : String) :
    (if (handlers.lookup type).isNone then handlers ++ [(type, h)] else handlers).lookup typeName =
      (handlers.lookup typeName).or (if typeName == type then some h else none) := by
  rw [← lookup_emplace]
  cases handlers.lookup type <;> rfl

theorem typeHandler_register (app : App) (call : Registration) (name typeName : String) :
    (app.register call).typeHandler name typeName =
      (app.typeHandler name typeName).or (call.typeHandler name typeName) := by
  cases valid : call.valid with
  | false =>
      rw [register_invalid app valid]
      cases call <;> simp [Registration.typeHandler, Registration.addsType, valid]
  | true =>
      cases call with
      | addEndpoint endpoint handler =>
          obtain ⟨h, rfl, eq⟩ := addEndpoint_valid app valid
          simp only [register, eq, typeHandler, Registration.typeHandler, Option.or_none]
      | addMessageHandler endpoint type handler =>
          obtain ⟨h, rfl, eq⟩ := addMessageHandler_valid app valid
          simp only [register, eq, typeHandler, Registration.typeHandler, Registration.addsType, valid,
            Bool.true_and]
          rw [lookup_emplaceType, lookup_emplace]
          cases here : name == endpoint with
          | false =>
              have other : ¬ name = endpoint := beq_eq_false_iff_ne.mp here
              simp [other]
          | true =>
              obtain rfl := eq_of_beq here
              -- a new endpoint starts with an empty table of types
              cases found : app.nestedHdnlMap.lookup name with
              | none => simpa using lookup_emplaced [] type h typeName
              | some handlers =>
                  simp only [Option.some_or, Option.map_some, Option.bind_some, true_and]
                  exact lookup_emplaced handlers type h typeName

/-! ## All calls -/

/-- A table that each call can only add to shows the first call that adds. -/
theorem observe_foldl {f : Registration → Option Nat} {g : App → Option Nat}
    (step : ∀ app call, g (register app call) = (g app).or (f call)) (app : App)
    (calls : List Registration) : g (calls.foldl register app) = (g app).or (calls.findSome? f) := by
  induction calls generalizing app with
  | nil => simp
  | cons call rest ih =>
      rw [List.foldl_cons, ih, step, List.findSome?_cons]
      cases f call with
      | none => simp
      | some h => cases g app <;> rfl

theorem lookup_ofHistory (calls : List Registration) (name : String) :
    (ofHistory calls).endpHndlMap.lookup name = calls.findSome? (·.endpointHandler name) :=
  observe_foldl (g := fun app => app.endpHndlMap.lookup name)
    (fun app call => lookup_register app call name) .empty calls

theorem typeHandler_ofHistory (calls : List Registration) (name typeName : String) :
    (ofHistory calls).typeHandler name typeName = calls.findSome? (·.typeHandler name typeName) :=
  observe_foldl (g := fun app => app.typeHandler name typeName)
    (fun app call => typeHandler_register app call name typeName) .empty calls

theorem isSome_lookup_nested_foldl (app : App) (calls : List Registration) (name : String) :
    ((calls.foldl register app).nestedHdnlMap.lookup name).isSome =
      ((app.nestedHdnlMap.lookup name).isSome || calls.any (·.addsType name)) := by
  induction calls generalizing app with
  | nil => simp
  | cons call rest ih =>
      rw [List.foldl_cons, ih, isSome_lookup_nested_register, List.any_cons, Bool.or_assoc]

theorem isSome_lookup_nested_ofHistory (calls : List Registration) (name : String) :
    ((ofHistory calls).nestedHdnlMap.lookup name).isSome = calls.any (·.addsType name) :=
  isSome_lookup_nested_foldl .empty calls name

theorem isSome_endpointHandler (call : Registration) (name : String) :
    (call.endpointHandler name).isSome = true ∨ call.addsType name = true ↔
      call.valid = true ∧ call.endpoint = name := by
  cases call with
  | addEndpoint endpoint handler =>
      simp only [Registration.endpointHandler, Registration.addsType, Registration.endpoint,
        Bool.false_eq_true, or_false]
      cases valid : (Registration.addEndpoint endpoint handler).valid with
      | false => simp
      | true =>
          simp only [Registration.valid, Bool.and_eq_true] at valid
          cases here : name == endpoint with
          | true => simp [valid.2, eq_of_beq here]
          | false => simp [Ne.symm (beq_eq_false_iff_ne.mp here)]
  | addMessageHandler endpoint type handler =>
      simp only [Registration.endpointHandler, Registration.addsType, Registration.endpoint,
        Option.isSome_none, Bool.false_eq_true, false_or, Bool.and_eq_true, beq_iff_eq]
      rw [eq_comm (a := name)]

/-- An endpoint is known from its first valid call on. -/
theorem knows_ofHistory (calls : List Registration) (name : String) :
    (ofHistory calls).knows name = true ↔
      ∃ call ∈ calls, call.valid = true ∧ call.endpoint = name := by
  rw [knows, lookup_ofHistory, isSome_lookup_nested_ofHistory, Bool.or_eq_true, List.any_eq_true,
    List.findSome?_isSome_iff, ← exists_or]
  apply exists_congr
  intro call
  rw [← and_or_left, isSome_endpointHandler]

end App

/-! ## Messages -/

def firstHandler (calls : List Registration) (endpoint type : String) : Option Nat :=
  if type = "" then calls.findSome? (·.endpointHandler endpoint)
  else calls.findSome? (·.typeHandler endpoint type)

theorem App.route_ofHistory (calls : List Registration) (endpoint type : String) :
    (App.ofHistory calls).route endpoint type =
      match firstHandler calls endpoint type with
      | some h => .invoke h
      | none =>
          if type ≠ "" ∧ calls.any (·.addsType endpoint) then .unknownType else .closeSession := by
  have typed := typeHandler_ofHistory calls endpoint type
  have known := isSome_lookup_nested_ofHistory calls endpoint
  unfold App.route firstHandler
  by_cases empty : type = ""
  · have unnamed : "".isEmpty = true := by decide
    simp only [empty, unnamed, if_true, lookup_ofHistory, ne_eq, not_true, false_and,
      if_false]
    cases calls.findSome? (·.endpointHandler endpoint) <;> rfl
  · have named : type.isEmpty = false := by simpa using empty
    simp only [named, empty, Bool.false_eq_true, if_false, ← typed, ← known, App.typeHandler]
    cases (App.ofHistory calls).nestedHdnlMap.lookup endpoint with
    | none => simp
    | some handlers =>
        cases found : handlers.lookup type <;> simp [found, empty]

def invocations (notes : List Note) : List (Nat × JsonMessage) :=
  notes.filterMap fun
    | .handler h message => some (h, message)
    | _ => none

/-- The reaction to a message that the history of registrations asks for. Without a
handler for it the session is closed, unless the endpoint has handlers of other types. -/
structure RoutedBy (calls : List Registration) (endpoint : String) (message : JsonMessage)
    (env : Environment) (reaction : Callback Note) : Prop where
  invokes : invocations reaction.notes =
    ((firstHandler calls endpoint message.type).map fun h => (h, message)).toList
  leaves : ∀ h, firstHandler calls endpoint message.type = some h →
    reaction.calls = env.handlerCalls ∧ reaction.throws = env.handlerThrows
  closes : firstHandler calls endpoint message.type = none →
    reaction.throws = false ∧
      ((message.type ≠ "" ∧ calls.any (·.addsType endpoint) = true ∧ reaction.calls = []) ∨
        ((message.type = "" ∨ calls.any (·.addsType endpoint) = false) ∧ reaction.calls = [.close]))

theorem App.onMessage_routedBy (calls : List Registration) {parse : List UInt8 → Option Json}
    (env : Environment) (ctx : RequestContext) {payload : List UInt8} {message : JsonMessage}
    (decoded : stringToMessage parse payload = some message) :
    RoutedBy calls ctx.endpoint message env
      ((App.ofHistory calls).onMessage parse env ctx payload) := by
  have route := App.route_ofHistory calls ctx.endpoint message.type
  unfold App.onMessage
  simp only [decoded, route]
  cases found : firstHandler calls ctx.endpoint message.type with
  | some h => exact ⟨by simp [invocations, found], by simp, by simp [found]⟩
  | none =>
      simp only
      by_cases others : message.type ≠ "" ∧ calls.any (·.addsType ctx.endpoint) = true
      · rw [if_pos others]
        exact ⟨by simp [invocations, found], by simp [found],
          fun _ => ⟨rfl, .inl ⟨others.1, others.2, rfl⟩⟩⟩
      · rw [if_neg others]
        refine ⟨by simp [invocations, found], by simp [found], fun _ => ⟨rfl, .inr ⟨?_, rfl⟩⟩⟩
        rw [not_and_or, not_not, Bool.not_eq_true] at others
        exact others

/-- For every history of registrations: an endpoint is accepted if and only if a valid
call registered it, and a message goes to the handler of the first valid call for its
endpoint and type. -/
theorem app_routing_first_wins (calls : List Registration) :
    (∀ endpoint, ((App.ofHistory calls).acceptDecision endpoint).accept = true ↔
      ∃ call ∈ calls, call.valid = true ∧ call.endpoint = endpoint) ∧
    ∀ parse env (ctx : RequestContext) payload message,
      stringToMessage parse payload = some message →
      RoutedBy calls ctx.endpoint message env
        ((App.ofHistory calls).onMessage parse env ctx payload) := by
  refine ⟨?_, fun parse env ctx payload message => App.onMessage_routedBy calls env ctx⟩
  intro endpoint
  rw [← App.knows_ofHistory, App.acceptDecision]
  cases (App.ofHistory calls).knows endpoint <;>
    simp [WsAcceptingDecision.defaultAccept, WsAcceptingDecision.makeAccept,
      WsAcceptingDecision.rejectNotFound, WsAcceptingDecision.reject]

def twoRegistrations : List Registration :=
  [.addMessageHandler "/chat" "" (some 0), .addMessageHandler "/chat" "say" (some 1),
    .addEndpoint "/chat" none, .addMessageHandler "/chat" "say" (some 2)]

def chatContext : RequestContext := { httpInfo := { endpoint := "/chat" } }

/-- The call with the empty type does not count, and the second one for a type neither. -/
theorem app_routing_twoRegistrations :
    RoutedBy twoRegistrations "/chat" { type := "say" } {}
      ((App.ofHistory twoRegistrations).onMessage
        (fun _ => some (.object [("type", .string "say")])) {} chatContext []) ∧
    firstHandler twoRegistrations "/chat" "say" = some 1 :=
  ⟨(app_routing_first_wins twoRegistrations).2 _ {} chatContext [] { type := "say" } rfl, rfl⟩

/-! ## The registrations of a running server -/

def ServerEvent.registration : ServerEvent → Option Registration
  | .addEndpoint endpoint handler => some (.addEndpoint endpoint handler)
  | .addMessageHandler endpoint type handler => some (.addMessageHandler endpoint type handler)
  | _ => none

def registrations (ts : List (Transition Server ServerEvent (List (Nat × Note)))) :
    List Registration :=
  ts.filterMap (·.event.registration)

theorem App.register_setupMiddleware (app : App) (call : Registration) (middleware : Option Nat) :
    (app.setupMiddleware middleware).register call = (app.register call).setupMiddleware middleware := by
  cases call with
  | addEndpoint endpoint handler =>
      simp only [register, addEndpoint, setupMiddleware]
      split
      · rfl
      · cases handler with
        | none => rfl
        | some h =>
            by_cases known : (app.endpHndlMap.lookup endpoint).isSome = true
            · simp only [known, if_true]
            · simp only [known, if_false, Bool.false_eq_true]
  | addMessageHandler endpoint type handler =>
      simp only [register, addMessageHandler, setupMiddleware]
      split
      · rfl
      · split
        · rfl
        · cases handler <;> rfl

theorem Server.sessionStep_app {cfg : WsConfig} {s t : Server} {i : Nat} {e : SessionEvent Note}
    {output : List (Nat × Note)} (h : s.sessionStep cfg i e = some (t, output)) : t.app = s.app := by
  unfold sessionStep at h
  split at h
  · cases h
  · obtain ⟨r, -, h⟩ := Option.map_eq_some_iff.mp h
    cases h
    rfl

/-- In a run, whatever the sessions do, the tables are those of the registrations so
far. -/
theorem server_app_of_run {cfg : WsConfig} {parse : List UInt8 → Option Json} {s₀ s : Server}
    {ts : List (Transition Server ServerEvent (List (Nat × Note)))}
    (init : (serverMachine cfg parse).init s₀) (run : (serverMachine cfg parse).Run s₀ ts s) :
    ∃ middleware, s.app = (App.ofHistory (registrations ts)).setupMiddleware middleware := by
  refine run.history (H := fun ts s => ∃ middleware,
    s.app = (App.ofHistory (registrations ts)).setupMiddleware middleware) ?_ ?_
  · rw [show s₀ = ⟨.empty, []⟩ from init]
    exact ⟨none, rfl⟩
  · rintro ts s e t output ⟨middleware, app⟩ h
    have more : registrations (ts ++ [⟨s, e, output, t⟩]) =
        registrations ts ++ e.registration.toList := by
      rw [registrations, List.filterMap_append]
      cases registered : e.registration <;> simp [registered, registrations]
    have registers : ∀ call, e.registration = some call → t.app = s.app.register call →
        ∃ middleware, t.app =
          (App.ofHistory (registrations (ts ++ [⟨s, e, output, t⟩]))).setupMiddleware middleware := by
      intro call registered added
      refine ⟨middleware, ?_⟩
      rw [more, registered, added, app, App.register_setupMiddleware, App.ofHistory, App.ofHistory,
        Option.toList_some, List.foldl_append]
      rfl
    have keeps : e.registration = none → t.app = s.app →
        ∃ middleware, t.app =
          (App.ofHistory (registrations (ts ++ [⟨s, e, output, t⟩]))).setupMiddleware middleware := by
      intro registered same
      rw [more, registered, same, Option.toList_none, List.append_nil]
      exact ⟨middleware, app⟩
    cases e with
    | connect remote =>
        cases h
        exact keeps rfl rfl
    | call i c => exact keeps rfl (Server.sessionStep_app h)
    | complete i k outcome input env => exact keeps rfl (Server.sessionStep_app h)
    | pong i => exact keeps rfl (Server.sessionStep_app h)
    | addEndpoint endpoint handler =>
        cases h
        exact registers _ rfl rfl
    | addMessageHandler endpoint type handler =>
        cases h
        exact registers _ rfl rfl
    | setupMiddleware m =>
        cases h
        refine ⟨m, ?_⟩
        rw [more, show (ServerEvent.setupMiddleware m).registration = none from rfl,
          Option.toList_none, List.append_nil]
        simp only [app]
        rfl

end Rtl.Ws
