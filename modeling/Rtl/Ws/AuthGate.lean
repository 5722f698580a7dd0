import Rtl.Ws.Handshake

/-! # The authentication gate

A handler of the application is only reached by a read of a live session, and a
session is only made live by the step that admits it. The history of a session
keeps that step; a session that a gate has rejected stays without one.
-/

namespace Rtl.Ws

open Rtl.Base

/-! ## Steps -/

namespace Server

variable {cfg : WsConfig} {parse : List UInt8 → Option Json} {s t : Server} {e : ServerEvent}
  {output : List (Nat × Note)} {i : Nat}

/-- The step admits session `i`: its upgrade request has been read, the middleware
was set and `authenticate` answered with the principal, and the endpoint was
registered. -/
def Admits (t : Transition Server ServerEvent (List (Nat × Note))) (i : Nat)
    (p : AuthenticatedPrincipal) (ctx : RequestContext) : Prop :=
  ∃ k input env session m, t.event = .complete i k .success input env ∧
    t.before.sessions[i]? = some session ∧ session.pending[k]? = some .httpRead ∧
    ctx = session.requestContext.setHttpRequest input.request ∧
    Session.Admission t.before.app env ctx m p ∧
    t.output = (Session.admissionNotes ctx m p).map fun note => (i, note)

def Rejects (t : Transition Server ServerEvent (List (Nat × Note))) (i : Nat) : Prop :=
  ∃ decision, decision.accept = false ∧
    ((i, .auth decision) ∈ t.output ∨ ∃ endpoint, (i, .accept endpoint decision) ∈ t.output)

inductive Step (s : Server) : ServerEvent → Server → List (Nat × Note) → Prop where
  | connect {e : ServerEvent} (remote : Option (String × UInt16)) :
      Step s e { s with sessions := s.sessions ++ [Session.start remote] } []
  | register {e : ServerEvent} (app : App) : Step s e { s with app := app } []
  | behind {e : ServerEvent} {i : Nat} {session session' : Session} {notes : List Note} :
      s.sessions[i]? = some session → session'.Behind session →
      (notes = [] ∨ (.wsRead ∈ session.pending ∧ ∃ parse env payload,
        notes = (s.app.onMessage parse env session.requestContext payload).notes)) →
      Step s e { s with sessions := s.sessions.set i session' } (notes.map fun note => (i, note))
  | handshake {cfg : WsConfig} {parse : List UInt8 → Option Json} {i k : Nat} {outcome : Outcome}
      {input : Input} {env : Environment} {session session' : Session} {rest : List Pending}
      {notes : List Note} :
      s.sessions[i]? = some session → session.pending[k]? = some .httpRead →
      session.pending.Perm (.httpRead :: rest) →
      (session', notes) = ({ session with pending := rest } : Session).run cfg
        (s.app.router parse env) input outcome .httpRead →
      Step s (.complete i k outcome input env) { s with sessions := s.sessions.set i session' }
        (notes.map fun note => (i, note))

theorem step_of_sessionStep (parse : List UInt8 → Option Json) (env : Environment)
    {e' : SessionEvent Note}
    (mine : ∀ k outcome input router, e' = .complete k outcome input router →
      router = s.app.router parse env ∧ e = .complete i k outcome input env)
    (h : s.sessionStep cfg i e' = some (t, output)) : Step s e t output := by
  unfold sessionStep at h
  cases at_i : s.sessions[i]? with
  | none => simp [at_i] at h
  | some session =>
      simp only [at_i, Option.map_eq_some_iff, Prod.mk.injEq] at h
      obtain ⟨⟨session', notes⟩, step, rfl, rfl⟩ := h
      rcases Session.next_cases step fun k outcome input router h => (mine k outcome input router h).1
        with ⟨behind, noted⟩ | ⟨k, outcome, input, rest, event, http, perm, result⟩
      · refine .behind at_i behind ?_
        rcases noted with none | ⟨read, payload, notes⟩
        · exact .inl none
        · exact .inr ⟨read, parse, env, payload, notes⟩
      · rw [(mine k outcome input _ event).2]
        exact .handshake at_i http perm result

theorem step_of_next (h : s.next cfg parse e = some (t, output)) : Step s e t output := by
  cases e with
  | connect remote =>
      cases h
      exact .connect remote
  | call i c => exact step_of_sessionStep parse {} (by simp) h
  | complete i k outcome input env =>
      refine step_of_sessionStep parse env ?_ h
      rintro k outcome input router ⟨⟩
      exact ⟨rfl, rfl⟩
  | pong i => exact step_of_sessionStep parse {} (by simp) h
  | addEndpoint endpoint handler =>
      cases h
      exact .register _
  | addMessageHandler endpoint type handler =>
      cases h
      exact .register _
  | setupMiddleware middleware =>
      cases h
      exact .register _

/-! ## Histories -/

def Silent (ts : List (Transition Server ServerEvent (List (Nat × Note)))) (i : Nat) : Prop :=
  ∀ t ∈ ts, ∀ note, (i, note) ∉ t.output

/-- What the transitions so far say about session `i`: if it is live it has been
admitted, while its request is outstanding nothing has happened, and once rejected
it is not live and nothing is dispatched. -/
structure SessionHistory (ts : List (Transition Server ServerEvent (List (Nat × Note)))) (i : Nat)
    (session : Session) : Prop where
  live : session.Live →
    ∃ t ∈ ts, ∃ p, Admits t i p session.requestContext ∧ session.authPrincipal = some p
  fresh : .httpRead ∈ session.pending →
    session.pending.count .httpRead = 1 ∧ ¬ session.Live ∧ Silent ts i
  rejected : (∃ t ∈ ts, Rejects t i) → ¬ session.Live ∧ .httpRead ∉ session.pending ∧
    ∀ t ∈ ts, ∀ payload, (i, .dispatch payload) ∉ t.output

variable {ts : List (Transition Server ServerEvent (List (Nat × Note)))}
  {u : Transition Server ServerEvent (List (Nat × Note))} {session session' : Session}

theorem Rejects.noted (rejects : Rejects u i) : ∃ note, note.ofGate ∧ (i, note) ∈ u.output := by
  obtain ⟨decision, _, auth | ⟨endpoint, accept⟩⟩ := rejects
  · exact ⟨.auth decision, trivial, auth⟩
  · exact ⟨.accept endpoint decision, trivial, accept⟩

theorem Silent.concat (silent : Silent ts i) (quiet : ∀ note, (i, note) ∉ u.output) :
    Silent (ts ++ [u]) i := by
  intro t mem
  rcases List.mem_append.mp mem with old | new
  · exact silent t old
  · rw [List.mem_singleton.mp new]
    exact quiet

theorem Silent.not_rejected (silent : Silent ts i) : ¬ ∃ t ∈ ts, Rejects t i := by
  rintro ⟨t, mem, rejects⟩
  obtain ⟨note, _, noted⟩ := rejects.noted
  exact silent t mem note noted

theorem SessionHistory.start (remote : Option (String × UInt16)) (silent : Silent ts i) :
    SessionHistory ts i (Session.start remote) := by
  have dead : ¬ (Session.start remote).Live := by simp [Session.Live, Session.start]
  exact ⟨fun live => absurd live dead, fun _ => ⟨by simp [Session.start], dead, silent⟩,
    fun rejected => absurd rejected silent.not_rejected⟩

theorem SessionHistory.live_concat (history : SessionHistory ts i session) (live : session.Live) :
    ∃ t ∈ ts ++ [u], ∃ p, Admits t i p session.requestContext ∧ session.authPrincipal = some p := by
  obtain ⟨t, mem, admitted⟩ := history.live live
  exact ⟨t, List.mem_append_left _ mem, admitted⟩

/-- A step that notes nothing about the session. -/
theorem SessionHistory.frame (history : SessionHistory ts i session)
    (quiet : ∀ note, (i, note) ∉ u.output) : SessionHistory (ts ++ [u]) i session := by
  refine ⟨history.live_concat, ?_, ?_⟩
  · intro http
    obtain ⟨once, dead, silent⟩ := history.fresh http
    exact ⟨once, dead, silent.concat quiet⟩
  · rintro ⟨t, mem, rejects⟩
    rcases List.mem_append.mp mem with old | new
    · obtain ⟨dead, http, none⟩ := history.rejected ⟨t, old, rejects⟩
      refine ⟨dead, http, ?_⟩
      intro v mem payload
      rcases List.mem_append.mp mem with old | new
      · exact none v old payload
      · rw [List.mem_singleton.mp new]
        exact quiet _
    · rw [List.mem_singleton.mp new] at rejects
      obtain ⟨note, _, noted⟩ := rejects.noted
      exact absurd noted (quiet note)

/-- A session that falls behind keeps its history. -/
theorem SessionHistory.behind (history : SessionHistory ts i session)
    (behind : session'.Behind session) : SessionHistory ts i session' := by
  have inside : .httpRead ∈ session'.pending → .httpRead ∈ session.pending := by
    intro mem
    have one := List.count_pos_iff.mpr mem
    exact List.count_pos_iff.mp (Nat.lt_of_lt_of_le one behind.handshakes)
  refine ⟨?_, ?_, ?_⟩
  · intro live
    rw [behind.context, behind.principal]
    exact history.live (behind.live live)
  · intro http
    obtain ⟨once, dead, silent⟩ := history.fresh (inside http)
    have some := List.count_pos_iff.mpr http
    have less := behind.handshakes
    exact ⟨by omega, fun live => dead (behind.live live), silent⟩
  · intro rejected
    obtain ⟨dead, http, none⟩ := history.rejected rejected
    exact ⟨fun live => dead (behind.live live), fun mem => http (inside mem), none⟩

theorem onMessage_notes (app : App) (parse : List UInt8 → Option Json) (env : Environment)
    (ctx : RequestContext) (payload : List UInt8) :
    ∀ note ∈ (app.onMessage parse env ctx payload).notes, ¬ note.ofGate := by
  unfold App.onMessage
  split
  · simp [Note.ofGate]
  · split <;> simp [Note.ofGate]

theorem onMessage_handler {app : App} {parse : List UInt8 → Option Json} {env : Environment}
    {ctx : RequestContext} {payload : List UInt8} {h : Nat} {message : JsonMessage}
    (noted : .handler h message ∈ (app.onMessage parse env ctx payload).notes) :
    app.route ctx.endpoint message.type = .invoke h := by
  unfold App.onMessage at noted
  split at noted
  · simp at noted
  · split at noted
    · simp at noted
    · simp at noted
    · rename_i route
      simp only [List.mem_cons, reduceCtorEq, Note.handler.injEq, List.not_mem_nil, or_false,
        false_or] at noted
      rw [noted.1, noted.2]
      exact route

/-- A message is dispatched on a live session. -/
theorem SessionHistory.dispatch (history : SessionHistory ts i session)
    (noted : u.output = [] ∨ (.wsRead ∈ session.pending ∧ ∃ app parse env ctx payload,
      u.output = ((App.onMessage app parse env ctx payload).notes.map fun note => (i, note)))) :
    SessionHistory (ts ++ [u]) i session := by
  rcases noted with none | ⟨read, app, parse, env, ctx, payload, notes⟩
  · exact history.frame (by simp [none])
  · have live : session.Live := .inr (.inr read)
    refine ⟨history.live_concat, ?_, ?_⟩
    · intro http
      exact absurd live (history.fresh http).2.1
    · rintro ⟨t, mem, rejects⟩
      rcases List.mem_append.mp mem with old | new
      · exact absurd live (history.rejected ⟨t, old, rejects⟩).1
      · rw [List.mem_singleton.mp new] at rejects
        obtain ⟨note, ofGate, inside⟩ := rejects.noted
        rw [notes] at inside
        obtain ⟨note', mem', same⟩ := List.mem_map.mp inside
        cases same
        exact absurd ofGate (onMessage_notes app parse env ctx payload note mem')

/-- The answer to the upgrade request: nothing has been noted before it, and the
session cannot have another one. -/
theorem SessionHistory.answered {outcome : Outcome} {input : Input} {env : Environment}
    {rest : List Pending} {notes : List Note} (history : SessionHistory ts i session)
    (perm : session.pending.Perm (.httpRead :: rest))
    (result : (session', notes) = ({ session with pending := rest } : Session).run cfg
      (s.app.router parse env) input outcome .httpRead) :
    let ctx := session.requestContext.setHttpRequest input.request
    Silent ts i ∧ .httpRead ∉ session'.pending ∧ (∀ note ∈ notes, note.ofGate) ∧
      ((outcome = .success ∧ session'.requestContext = ctx ∧ ∃ m p,
          Session.Admission s.app env ctx m p ∧ session'.authPrincipal = some p ∧
          notes = Session.admissionNotes ctx m p) ∨
        ¬ session'.Live) := by
  obtain ⟨once, dead, silent⟩ := history.fresh (perm.mem_iff.mpr (List.mem_cons_self ..))
  rw [perm.count_eq, List.count_cons_self] at once
  have taken := Session.behind_taken perm
  obtain ⟨handshakes, answer⟩ := Session.run_httpRead cfg s.app parse env
    (fun live => dead (taken.live live)) input outcome
  rw [← result] at handshakes answer
  refine ⟨silent, ?_, answer⟩
  intro mem
  have one := List.count_pos_iff.mpr mem
  simp only at handshakes
  omega

theorem SessionHistory.handshake {k : Nat} {outcome : Outcome} {input : Input} {env : Environment}
    {rest : List Pending} {notes : List Note} (history : SessionHistory ts i session)
    (at_i : s.sessions[i]? = some session) (http : session.pending[k]? = some .httpRead)
    (perm : session.pending.Perm (.httpRead :: rest))
    (result : (session', notes) = ({ session with pending := rest } : Session).run cfg
      (s.app.router parse env) input outcome .httpRead) :
    SessionHistory (ts ++ [⟨s, .complete i k outcome input env, notes.map fun note => (i, note), t⟩]) i
      session' := by
  obtain ⟨silent, spent, ofGate, admitted | refused⟩ := history.answered perm result
  · obtain ⟨rfl, context, m, p, admission, principal, noted⟩ := admitted
    refine ⟨fun _ => ?_, fun mem => absurd mem spent, ?_⟩
    · refine ⟨_, List.mem_append_right _ (List.mem_singleton_self _), p, ?_, principal⟩
      rw [context]
      exact ⟨k, input, env, session, m, rfl, at_i, http, rfl, admission, by rw [noted]⟩
    · rintro ⟨v, mem, rejects⟩
      rcases List.mem_append.mp mem with old | new
      · exact absurd ⟨v, old, rejects⟩ silent.not_rejected
      · rw [List.mem_singleton.mp new] at rejects
        obtain ⟨decision, reject, decided⟩ := rejects
        simp only [noted, List.mem_map, Prod.mk.injEq, true_and, exists_eq_right] at decided
        simp [Session.admissionNotes_accept decided] at reject
  · refine ⟨fun live => absurd live refused, fun mem => absurd mem spent, fun _ => ⟨refused, spent, ?_⟩⟩
    intro v mem payload
    rcases List.mem_append.mp mem with old | new
    · exact silent v old _
    · rw [List.mem_singleton.mp new]
      intro inside
      obtain ⟨note, mem', same⟩ := List.mem_map.mp inside
      cases same
      exact ofGate _ mem'

structure History (ts : List (Transition Server ServerEvent (List (Nat × Note)))) (s : Server) :
    Prop where
  each : ∀ i session, s.sessions[i]? = some session → SessionHistory ts i session
  unknown : ∀ i, s.sessions.length ≤ i → Silent ts i

/-- A step of session `i` only: the histories of the other sessions are framed. -/
theorem History.set (history : History ts s) {event : ServerEvent} {notes : List Note}
    (known : i < s.sessions.length)
    (mine : SessionHistory
      (ts ++ [⟨s, event, notes.map fun note => (i, note), { s with sessions := s.sessions.set i session' }⟩])
      i session') :
    History
      (ts ++ [⟨s, event, notes.map fun note => (i, note), { s with sessions := s.sessions.set i session' }⟩])
      { s with sessions := s.sessions.set i session' } := by
  have others : ∀ j, j ≠ i → ∀ note, (j, note) ∉ notes.map fun note => (i, note) := by
    intro j ne note mem
    obtain ⟨_, _, same⟩ := List.mem_map.mp mem
    exact ne (Prod.mk.inj same).1.symm
  constructor
  · intro j session at_j
    by_cases same : j = i
    · subst same
      simp only [List.getElem?_set_self known, Option.some.injEq] at at_j
      rw [← at_j]
      exact mine
    · rw [List.getElem?_set_ne (Ne.symm same)] at at_j
      exact (history.each j session at_j).frame (others j same)
  · intro j beyond
    rw [List.length_set] at beyond
    exact (history.unknown j beyond).concat (others j (by omega))

theorem History.step (history : History ts s) (h : Step s e t output) :
    History (ts ++ [⟨s, e, output, t⟩]) t := by
  cases h with
  | connect remote =>
      constructor
      · intro i session at_i
        rcases concat_at.mp at_i with old | ⟨rfl, rfl⟩
        · exact (history.each i session old).frame (by simp)
        · exact (SessionHistory.start remote (history.unknown _ (Nat.le_refl _))).frame (by simp)
      · intro i beyond
        rw [List.length_append] at beyond
        exact (history.unknown i (by omega)).concat (by simp)
  | register app =>
      exact ⟨fun i session at_i => (history.each i session at_i).frame (by simp),
        fun i beyond => (history.unknown i beyond).concat (by simp)⟩
  | behind at_i behind noted =>
      refine history.set (List.getElem?_eq_some_iff.mp at_i).1 ?_
      refine SessionHistory.behind ((history.each _ _ at_i).dispatch ?_) behind
      rcases noted with rfl | ⟨read, parse, env, payload, rfl⟩
      · exact .inl rfl
      · exact .inr ⟨read, s.app, parse, env, _, payload, rfl⟩
  | handshake at_i http perm result =>
      exact history.set (List.getElem?_eq_some_iff.mp at_i).1
        ((history.each _ _ at_i).handshake at_i http perm result)

theorem history_of_run {s₀ : Server} (init : (serverMachine cfg parse).init s₀)
    (run : (serverMachine cfg parse).Run s₀ ts s) : History ts s := by
  refine run.history ?_ fun ts s e t output history h => history.step (step_of_next h)
  rw [show s₀ = ⟨.empty, []⟩ from init]
  exact ⟨fun i session at_i => by simp at at_i, fun _ _ t mem => by cases mem⟩

/-- A handler is invoked by a read of a live session, where the route leads. -/
theorem History.handled (history : History ts s) (step : Step s e t output) {h : Nat}
    {message : JsonMessage} (noted : (i, .handler h message) ∈ output) :
    ∃ session, s.sessions[i]? = some session ∧ session.Live ∧
      s.app.route session.requestContext.endpoint message.type = .invoke h := by
  cases step with
  | connect | register => cases noted
  | behind at_i behind notes =>
      obtain ⟨note, mem, same⟩ := List.mem_map.mp noted
      cases same
      rcases notes with rfl | ⟨read, parse, env, payload, rfl⟩
      · cases mem
      · exact ⟨_, at_i, .inr (.inr read), onMessage_handler mem⟩
  | handshake at_i http perm result =>
      obtain ⟨note, mem, same⟩ := List.mem_map.mp noted
      cases same
      obtain ⟨_, _, ofGate, _⟩ := (history.each _ _ at_i).answered perm result
      exact absurd (ofGate _ mem) id

/-- A gate rejects in answer to the upgrade request, before anything is noted. -/
theorem History.rejecting (history : History ts s) (step : Step s e t output)
    (rejects : Rejects ⟨s, e, output, t⟩ i) : Silent ts i := by
  obtain ⟨note, ofGate, noted⟩ := rejects.noted
  cases step with
  | connect | register => cases noted
  | behind at_i behind notes =>
      obtain ⟨note, mem, same⟩ := List.mem_map.mp noted
      cases same
      rcases notes with rfl | ⟨read, parse, env, payload, rfl⟩
      · cases mem
      · exact absurd ofGate (onMessage_notes _ _ _ _ _ _ mem)
  | handshake at_i http perm result =>
      obtain ⟨note, mem, same⟩ := List.mem_map.mp noted
      cases same
      exact ((history.each _ _ at_i).answered perm result).1

theorem Admits.noted {p : AuthenticatedPrincipal} {ctx : RequestContext} (admits : Admits u i p ctx) :
    ∃ note, (i, note) ∈ u.output := by
  obtain ⟨k, input, env, session, m, _, _, _, _, _, output⟩ := admits
  rw [output]
  exact ⟨_, List.mem_cons_self ..⟩

theorem Silent.not_live (silent : Silent ts i) (history : SessionHistory ts i session) :
    ¬ session.Live := by
  intro live
  obtain ⟨t, mem, p, admits, _⟩ := history.live live
  obtain ⟨note, noted⟩ := admits.noted
  exact silent t mem note noted

/-- A session that is rejected somewhere in a run is live nowhere in it. -/
theorem not_live_of_rejects {s₀ v : Server} (init : (serverMachine cfg parse).init s₀)
    (run : (serverMachine cfg parse).Run s₀ ts s) (mem : u ∈ ts) (rejects : Rejects u i)
    (visits : Machine.Visits s₀ ts v) (at_i : v.sessions[i]? = some session) : ¬ session.Live := by
  obtain ⟨us, ⟨rest, all⟩, head⟩ := run.visits_run visits
  have mine := (history_of_run init head).each i session at_i
  obtain ⟨before, after, rfl⟩ := List.append_of_mem mem
  obtain ⟨first, takes, _⟩ := run.at
  have silent := (history_of_run init first).rejecting (step_of_next takes) rejects
  -- the state is visited before the rejection, or the rejection is part of its run
  rcases List.append_eq_append_iff.mp all with ⟨more, rfl, _⟩ | ⟨more, rfl, next⟩
  · exact Silent.not_live (fun t mem => silent t (List.mem_append_left _ mem)) mine
  · cases more with
    | nil =>
        rw [List.append_nil] at mine
        exact Silent.not_live silent mine
    | cons w more =>
        cases (List.cons.inj next).1
        exact (mine.rejected ⟨u, by simp, rejects⟩).1

theorem not_dispatched_of_rejects (history : History ts s) (mem : u ∈ ts) (rejects : Rejects u i) :
    ∀ t ∈ ts, ∀ payload, (i, .dispatch payload) ∉ t.output := by
  have known : i < s.sessions.length := by
    by_contra beyond
    exact (history.unknown i (by omega)).not_rejected ⟨u, mem, rejects⟩
  exact ((history.each i _ (List.getElem?_eq_getElem known)).rejected ⟨u, mem, rejects⟩).2.2

end Server

/-! ## The gate -/

/-- In every run of the server, a handler is only invoked for a session that an
earlier step has admitted: the session still holds the principal which the
middleware answered on its own upgrade request, and its endpoint was registered.
A session that a gate rejects is not open in any state of the run, and no message
of it is dispatched. -/
theorem app_authentication_gate (cfg : WsConfig) (parse : List UInt8 → Option Json) {s₀ s : Server}
    {ts : List (Transition Server ServerEvent (List (Nat × Note)))}
    (init : (serverMachine cfg parse).init s₀) (run : (serverMachine cfg parse).Run s₀ ts s) :
    (∀ us t ws, ts = us ++ t :: ws → ∀ i h message, (i, .handler h message) ∈ t.output →
      ∃ session p, t.before.sessions[i]? = some session ∧ session.authPrincipal = some p ∧
        (∃ u ∈ us, Server.Admits u i p session.requestContext) ∧
        t.before.app.route session.requestContext.endpoint message.type = .invoke h) ∧
    ∀ u ∈ ts, ∀ i, Server.Rejects u i →
      (∀ v, Machine.Visits s₀ ts v → ∀ session, v.sessions[i]? = some session →
        session.curState ≠ .opened) ∧
      ∀ t ∈ ts, ∀ payload, (i, .dispatch payload) ∉ t.output := by
  constructor
  · rintro us t ws rfl i h message noted
    obtain ⟨head, takes, _⟩ := run.at
    have history := Server.history_of_run init head
    obtain ⟨session, at_i, live, route⟩ := history.handled (Server.step_of_next takes) noted
    obtain ⟨u, mem, p, admits, principal⟩ := (history.each i session at_i).live live
    exact ⟨session, p, at_i, principal, ⟨u, mem, admits⟩, route⟩
  · intro u mem i rejects
    constructor
    · intro v visits session at_i opened
      exact Server.not_live_of_rejects init run mem rejects visits at_i (.inl opened)
    · exact Server.not_dispatched_of_rejects (Server.history_of_run init run) mem rejects

/-- Two upgrade requests to the same endpoint: the first is answered with a
principal, the second with a failure. The first session then reads a message. -/
def twoSessionsTrace : List ServerEvent :=
  let request : Input := { request := ⟨"/chat", [("Authorization", "Bearer t")]⟩ }
  [.setupMiddleware (some 0), .addEndpoint "/chat" (some 7), .connect none, .connect none,
    .complete 0 0 .success request { authenticate := fun _ _ => .principal { userId := "ann" } },
    .complete 1 0 .success request { authenticate := fun _ _ => .failure ⟨.invalidToken, ""⟩ },
    .complete 0 0 .success {} {}, .complete 0 0 .success { payload := [123, 125] } {}]

theorem app_authentication_gate_two_sessions :
    ∃ us t s, (serverMachine ⟨1024, 16, 0, 0⟩ fun _ => some (.object [])).exec ⟨.empty, []⟩
        twoSessionsTrace = some (us ++ [t], s) ∧
      (∃ u ∈ us, ∃ ctx, Server.Admits u 0 { userId := "ann" } ctx) ∧
      (0, .handler 7 {}) ∈ t.output ∧
      ∃ u ∈ us, Server.Rejects u 1 ∧
        ∀ v, Machine.Visits ⟨.empty, []⟩ (us ++ [t]) v → ∀ session, v.sessions[1]? = some session →
          session.curState ≠ .opened := by
  have h : (serverMachine ⟨1024, 16, 0, 0⟩ fun _ => some (.object [])).exec ⟨.empty, []⟩
      twoSessionsTrace = some ([_, _, _, _, _, _, _] ++ [_], _) := rfl
  obtain ⟨handled, rejected⟩ := app_authentication_gate _ _ rfl (Machine.Run.of_exec h)
  have noted : (0, Note.handler 7 {}) ∈ [(0, Note.dispatch [123, 125]), (0, .handler 7 {})] := by simp
  obtain ⟨session, p, at_0, principal, ⟨u, mem, admits⟩, _⟩ := handled _ _ [] rfl 0 7 {} noted
  cases at_0
  cases principal
  refine ⟨_, _, _, h, ⟨u, mem, _, admits⟩, noted, ?_⟩
  refine ⟨_, List.mem_of_getElem? (i := 5) rfl, ?rejects,
    (rejected _ (List.mem_of_getElem? (i := 5) rfl) 1 ?rejects).1⟩
  exact ⟨rejectOnAuthFailure ⟨.invalidToken, ""⟩, rfl,
    .inl (List.mem_cons_of_mem _ (List.mem_cons_self ..))⟩

end Rtl.Ws
