import Rtl.Ws.App

/-! # The handshake of a session

A session is live once it is about to be accepted, open or reading. Only the
handler of the upgrade request makes a session live, and only if both gates accept;
every other handler keeps the request, the principal and, at most, the liveness.
-/

namespace Rtl.Ws

open Rtl.Base

def Note.ofGate : Note → Prop
  | .dispatch _ => False
  | .handler _ _ => False
  | _ => True

namespace Session

variable {ν : Type*} {cfg : WsConfig} {router : Router ν} {s t u : Session}

def Live (s : Session) : Prop :=
  s.curState = .opened ∨ .wsAccept ∈ s.pending ∨ .wsRead ∈ s.pending

/-- `t` is no more open than `s`, and about the same request. -/
structure Behind (t s : Session) : Prop where
  context : t.requestContext = s.requestContext
  principal : t.authPrincipal = s.authPrincipal
  live : t.Live → s.Live
  handshakes : t.pending.count .httpRead ≤ s.pending.count .httpRead

theorem Behind.refl (s : Session) : s.Behind s := ⟨rfl, rfl, id, Nat.le_refl _⟩

theorem Behind.trans (first : u.Behind t) (second : t.Behind s) : u.Behind s :=
  ⟨first.context.trans second.context, first.principal.trans second.principal,
    fun live => second.live (first.live live), Nat.le_trans first.handshakes second.handshakes⟩

/-- Leaving `open` and changing fields that are not about the handshake. -/
theorem behind_of_eq (state : t.curState = .opened → s.curState = .opened)
    (pending : t.pending = s.pending) (context : t.requestContext = s.requestContext)
    (principal : t.authPrincipal = s.authPrincipal) : t.Behind s := by
  refine ⟨context, principal, ?_, by rw [pending]⟩
  unfold Live
  rw [pending]
  exact Or.imp_left state

theorem behind_state (s : Session) {state : SessionState} (left : state ≠ .opened) :
    ({ s with curState := state } : Session).Behind s :=
  behind_of_eq (fun opened => absurd opened left) rfl rfl rfl

theorem behind_post (s : Session) {p : Pending} (accept : p ≠ .wsAccept) (read : p ≠ .wsRead)
    (http : p ≠ .httpRead) : (s.post p).Behind s := by
  refine ⟨rfl, rfl, ?_, ?_⟩
  · unfold Live post
    simp only [List.mem_append, List.mem_singleton]
    rintro (opened | (old | new) | old | new)
    · exact .inl opened
    · exact .inr (.inl old)
    · exact absurd new.symm accept
    · exact .inr (.inr old)
    · exact absurd new.symm read
  · simp [post, List.count_append, http]

/-- A post into an open session makes it no more live. -/
theorem behind_doRead (s : Session) : s.doRead.Behind s := by
  unfold doRead
  by_cases isOpen : s.isOpen = true
  · rw [if_pos isOpen]
    refine ⟨rfl, rfl, fun _ => .inl (by simpa [Session.isOpen] using isOpen), ?_⟩
    simp [post, List.count_append]
  · rw [if_neg isOpen]
    exact .refl s

theorem behind_call (s : Session) (c : Call) : (s.call c).Behind s := by
  have posted : ∀ isBinary data, (s.send isBinary data).Behind s := by
    intro isBinary data
    unfold send
    by_cases isOpen : s.isOpen = true
    · rw [if_pos isOpen]
      exact behind_post s (by simp) (by simp) (by simp)
    · rw [if_neg isOpen]
      exact .refl s
  cases c with
  | sendText data => exact posted false data
  | sendBinary data => exact posted true data
  | close => exact behind_post s (by simp) (by simp) (by simp)
  | closeForShutdown =>
      show s.closeForShutdown.Behind s
      unfold closeForShutdown
      by_cases late : s.isClosingOrClosed = true
      · rw [if_pos late]
        exact .refl s
      · rw [if_neg late]
        exact behind_post s (by simp) (by simp) (by simp)
  | closeForcefully => exact behind_post s (by simp) (by simp) (by simp)

theorem behind_calls (s : Session) (cs : List Call) : (s.calls cs).Behind s := by
  induction cs generalizing s with
  | nil => exact .refl s
  | cons c cs ih => exact (ih (s.call c)).trans (behind_call s c)

theorem behind_runIdleTimer (s : Session) : (s.runIdleTimer cfg).Behind s := by
  unfold runIdleTimer
  by_cases off : cfg.idleTimeout ≤ 0
  · rw [if_pos off]
    exact .refl s
  · rw [if_neg off]
    exact behind_post s (by simp) (by simp) (by simp)

theorem behind_doHeartbeatNext (s : Session) : (s.doHeartbeatNext cfg).Behind s := by
  unfold doHeartbeatNext
  refine (behind_post _ (by simp) (by simp) (by simp)).trans ?_
  unfold runHeartbeatTimer
  by_cases off : cfg.pingInterval ≤ 0
  · rw [if_pos off]
    exact .refl s
  · rw [if_neg off]
    exact behind_post s (by simp) (by simp) (by simp)

theorem behind_doHeartbeat (s : Session) : (s.doHeartbeat cfg).Behind s := by
  unfold doHeartbeat
  by_cases on : 0 < cfg.pingInterval
  · rw [if_pos on]
    exact behind_doHeartbeatNext s
  · rw [if_neg on]
    exact .refl s

theorem behind_doDrainQueue (s : Session) : s.doDrainQueue.Behind s := by
  unfold doDrainQueue
  by_cases writing : s.writing = true
  · rw [if_pos writing]
    exact .refl s
  · rw [if_neg writing]
    cases s.writeQueue with
    | nil =>
        refine (behind_post _ (by simp) (by simp) (by simp)).trans ?_
        exact behind_of_eq id rfl rfl rfl
    | cons m rest =>
        refine (behind_post _ (by simp) (by simp) (by simp)).trans ?_
        exact behind_of_eq id rfl rfl rfl

theorem behind_doWriteNext (s : Session) : s.doWriteNext.Behind s := by
  unfold doWriteNext
  split
  · exact (behind_doDrainQueue _).trans (behind_of_eq id rfl rfl rfl)
  · split
    · exact behind_of_eq id rfl rfl rfl
    · split
      · exact behind_of_eq id rfl rfl rfl
      · refine (behind_post _ (by simp) (by simp) (by simp)).trans ?_
        exact behind_of_eq id rfl rfl rfl

theorem behind_popWritten (s : Session) (m : WriteMessage) (outcome : Outcome) :
    (s.popWritten m outcome).Behind s := by
  unfold popWritten
  split
  · exact behind_of_eq id rfl rfl rfl
  · exact .refl s

theorem behind_doEnqueueMessage (s : Session) (isBinary : Bool) (data : List UInt8)
    (overflowThrows : Bool) : (s.doEnqueueMessage cfg isBinary data overflowThrows).Behind s := by
  unfold doEnqueueMessage
  split
  · exact behind_doWriteNext s
  · split
    · exact .refl s
    · cases fits : s.checkMessageSize cfg data.length with
      | none =>
          simp only
          split
          · exact .refl s
          · exact behind_post s (by simp) (by simp) (by simp)
      | some t =>
          have pushed : (t.pushBack isBinary data).Behind s := by
            unfold checkMessageSize at fits
            split at fits
            · cases fits
            · cases fits
              exact behind_of_eq id rfl rfl rfl
          simp only
          split
          · exact pushed
          · exact (behind_doWriteNext _).trans pushed

theorem behind_beginClosing (h : s.beginClosing = some t) : t.Behind s := by
  unfold beginClosing at h
  split at h
  · cases h
  · cases h
    exact behind_of_eq (by simp) rfl rfl rfl

theorem behind_markClosed (router : Router ν) (s : Session) :
    (s.markClosedAndNotifyOnce router).1.Behind s := by
  unfold markClosedAndNotifyOnce
  split
  · exact behind_state s (by simp)
  · exact (behind_calls _ _).trans (behind_of_eq (by simp) rfl rfl rfl)

theorem behind_failStream (router : Router ν) (s : Session) : (s.failStream router).1.Behind s := by
  unfold failStream
  refine (behind_markClosed router _).trans ?_
  cases h : s.beginClosing with
  | none => exact .refl s
  | some t => exact behind_beginClosing h

theorem behind_onAcceptError (router : Router ν) (s : Session) :
    (s.onAcceptError router).1.Behind s :=
  (behind_calls _ _).trans (behind_state s (by simp))

theorem behind_onRead (s : Session) (payload : List UInt8) :
    (s.onRead cfg router payload).1.Behind s := by
  unfold onRead
  have called := behind_calls s (router.handleMessage s.requestContext payload).calls
  simp only
  split
  · exact called
  · split
    · exact ((behind_doRead _).trans (behind_runIdleTimer _)).trans called
    · exact called

/-- Every handler but those of the handshake leaves the session behind. -/
theorem behind_run {input : Input} {outcome : Outcome} {p : Pending} (http : p ≠ .httpRead)
    (accept : p ≠ .wsAccept) : (s.run cfg router input outcome p).1.Behind s := by
  have closed : ∀ {c : Prop} [Decidable c] {t : Session}, t.Behind s → (if c then t else s).Behind s := by
    intro c _ t behind
    split
    · exact behind
    · exact .refl s
  cases p with
  | httpRead => exact absurd rfl http
  | wsAccept => exact absurd rfl accept
  | rejectWrite status message => exact behind_state s (by simp)
  | wsRead =>
      simp only [run]
      split
      · exact behind_onRead s input.payload
      · exact behind_failStream router s
  | write m =>
      have popped := behind_popWritten s m outcome
      simp only [run]
      split
      · exact (behind_doWriteNext _).trans popped
      · exact (behind_failStream router _).trans popped
  | drain m =>
      have popped := behind_popWritten s m outcome
      simp only [run]
      split
      · dsimp only
        refine (behind_doDrainQueue _).trans (Behind.trans ?_ popped)
        exact behind_of_eq id rfl rfl rfl
      · exact (behind_call _ .closeForcefully).trans popped
  | wsClose =>
      simp only [run]
      split
      · exact .refl s
      · exact behind_markClosed router s
  | idleWait | heartbeatWait => exact closed (behind_call s .close)
  | drainWait => exact closed (behind_call s .closeForcefully)
  | enqueue isBinary data => exact behind_doEnqueueMessage s isBinary data input.overflowThrows
  | close =>
      simp only [run]
      cases h : s.beginClosing with
      | none => exact .refl s
      | some t => exact (behind_post t (by simp) (by simp) (by simp)).trans (behind_beginClosing h)
  | closeForShutdown =>
      refine (behind_doDrainQueue _).trans ?_
      exact (behind_post _ (by simp) (by simp) (by simp)).trans (behind_state s (by simp))
  | closeForcefully =>
      simp only [run]
      split
      · exact .refl s
      · exact (behind_post _ (by simp) (by simp) (by simp)).trans (behind_state s (by simp))
  | ping =>
      simp only [run]
      split
      · exact .refl s
      · exact behind_call s .close

/-- `on_accept` ends up behind the session with its state set to open. -/
theorem behind_onAccept (cfg : WsConfig) (router : Router ν) (s : Session) :
    (s.onAccept cfg router).1.Behind { s with curState := .opened } := by
  unfold onAccept
  have called := behind_calls ({ s with curState := .opened } : Session)
    (router.handleOpen s.requestContext).calls
  simp only
  split
  · exact called
  · exact (((behind_doRead _).trans (behind_runIdleTimer _)).trans (behind_doHeartbeat _)).trans called

theorem behind_taken {p : Pending} {rest : List Pending} (picked : s.pending.Perm (p :: rest)) :
    ({ s with pending := rest } : Session).Behind s := by
  have inside : ∀ q ∈ rest, q ∈ s.pending := fun q mem => picked.mem_iff.mpr (List.mem_cons_of_mem p mem)
  refine ⟨rfl, rfl, ?_, ?_⟩
  · rintro (opened | accept | read)
    · exact .inl opened
    · exact .inr (.inl (inside _ accept))
    · exact .inr (.inr (inside _ read))
  · rw [picked.count_eq, List.count_cons]
    exact Nat.le_add_right _ _

/-- A handler other than that of the upgrade request leaves the session behind. -/
theorem behind_complete (cfg : WsConfig) (router : Router ν) (input : Input) (outcome : Outcome)
    {p : Pending} {rest : List Pending} (picked : s.pending.Perm (p :: rest)) (http : p ≠ .httpRead) :
    (({ s with pending := rest } : Session).run cfg router input outcome p).1.Behind s := by
  have taken := behind_taken picked
  by_cases accept : p = .wsAccept
  · subst accept
    have pending : Pending.wsAccept ∈ s.pending := picked.mem_iff.mpr (List.mem_cons_self ..)
    simp only [run]
    split
    · have opened := behind_onAccept cfg router ({ s with pending := rest } : Session)
      exact ⟨opened.context, opened.principal, fun _ => .inr (.inl pending),
        Nat.le_trans opened.handshakes taken.handshakes⟩
    · exact (behind_onAcceptError router _).trans taken
  · exact (behind_run http accept).trans taken

/-! ## Notes -/

structure Quiet (router : Router ν) : Prop where
  openNotes : ∀ ctx, (router.handleOpen ctx).notes = []
  closeNotes : ∀ ctx, (router.handleClose ctx).notes = []
  errorNotes : ∀ ctx, (router.handleError ctx).notes = []

theorem markClosed_notes (quiet : Quiet router) (s : Session) :
    (s.markClosedAndNotifyOnce router).2 = [] := by
  unfold markClosedAndNotifyOnce
  split
  · rfl
  · exact quiet.closeNotes _

theorem onRead_notes (s : Session) (payload : List UInt8) :
    (s.onRead cfg router payload).2 = (router.handleMessage s.requestContext payload).notes := by
  unfold onRead
  simp only
  split
  · rfl
  · split <;> rfl

theorem onAccept_notes (quiet : Quiet router) (s : Session) : (s.onAccept cfg router).2 = [] := by
  unfold onAccept
  simp only
  split <;> exact quiet.openNotes _

/-- Outside the handshake only a message that has been read leaves notes. -/
theorem run_notes (cfg : WsConfig) (quiet : Quiet router) (input : Input) (outcome : Outcome)
    {p : Pending} (http : p ≠ .httpRead) :
    (s.run cfg router input outcome p).2 = [] ∨ (p = .wsRead ∧
      (s.run cfg router input outcome p).2 =
        (router.handleMessage s.requestContext input.payload).notes) := by
  cases p with
  | httpRead => exact absurd rfl http
  | wsAccept =>
      simp only [run]
      split
      · exact .inl (onAccept_notes quiet s)
      · exact .inl (quiet.errorNotes _)
  | wsRead =>
      simp only [run]
      split
      · exact .inr ⟨trivial, onRead_notes s input.payload⟩
      · exact .inl (markClosed_notes quiet _)
  | write m =>
      simp only [run]
      split
      · exact .inl rfl
      · exact .inl (markClosed_notes quiet _)
  | drain m =>
      simp only [run]
      split <;> exact .inl rfl
  | wsClose =>
      simp only [run]
      split
      · exact .inl rfl
      · exact .inl (markClosed_notes quiet _)
  | close =>
      simp only [run]
      split <;> exact .inl rfl
  | rejectWrite | idleWait | drainWait | heartbeatWait | enqueue | closeForShutdown
  | closeForcefully | ping => exact .inl rfl

/-! ## The upgrade request -/

variable {app : App} {parse : List UInt8 → Option Json} {env : Environment}

structure Admission (app : App) (env : Environment) (ctx : RequestContext) (m : Nat)
    (p : AuthenticatedPrincipal) : Prop where
  middleware : app.middleware = some m
  authenticated : env.authenticate m (authenticationRequestOf ctx) = .principal p
  endpoint : app.knows ctx.endpoint = true

def admissionNotes (ctx : RequestContext) (m : Nat) (p : AuthenticatedPrincipal) : List Note :=
  [.authenticate m (authenticationRequestOf ctx) (.principal p), .auth .acceptAuthorized,
    .accept ctx.endpoint .defaultAccept]

theorem admissionNotes_accept {ctx : RequestContext} {m : Nat} {p : AuthenticatedPrincipal}
    {decision : WsAcceptingDecision}
    (noted : .auth decision ∈ admissionNotes ctx m p ∨
      ∃ endpoint, .accept endpoint decision ∈ admissionNotes ctx m p) : decision.accept = true := by
  rcases noted with auth | ⟨endpoint, accept⟩
  · simp only [admissionNotes, List.mem_cons, reduceCtorEq, false_or, Note.auth.injEq,
      List.not_mem_nil, or_false] at auth
    rw [auth]
    rfl
  · simp only [admissionNotes, List.mem_cons, reduceCtorEq, false_or, Note.accept.injEq,
      List.not_mem_nil, or_false] at accept
    rw [accept.2]
    rfl

theorem behind_rejectHandshake (s : Session) (decision : WsAcceptingDecision) :
    (s.rejectHandshake decision).Behind s :=
  (behind_post _ (by simp) (by simp) (by simp)).trans (behind_state s (by simp))

/-- A gate that does not accept leaves the session behind. -/
theorem passGate_refused (next : Session → Session × List ν) {gate : Gate ν}
    (principal : gate.principal = none)
    (refused : ∀ decision, gate.decision = some decision → decision.accept = false) :
    (s.passGate gate next).1.Behind s ∧ (s.passGate gate next).2 = gate.notes := by
  have called : ({ s with authPrincipal := gate.principal <|> s.authPrincipal }.calls gate.calls).Behind s := by
    refine (behind_calls _ _).trans (behind_of_eq id rfl rfl ?_)
    rw [principal]
    rfl
  unfold passGate
  cases decided : gate.decision with
  | none => exact ⟨called, rfl⟩
  | some decision =>
      simp only [refused decision decided, Bool.false_eq_true, if_false]
      exact ⟨(behind_rejectHandshake _ decision).trans called, trivial⟩

theorem passGate_accepted {gate : Gate ν} {next : Session → Session × List ν}
    {decision : WsAcceptingDecision} (decided : gate.decision = some decision)
    (accepted : decision.accept = true) (silent : gate.calls = []) :
    s.passGate gate next =
      ((next { s with authPrincipal := gate.principal <|> s.authPrincipal }).1,
        gate.notes ++ (next { s with authPrincipal := gate.principal <|> s.authPrincipal }).2) := by
  simp [passGate, decided, accepted, silent, calls]

/-- The authentication gate accepts if and only if the middleware names a principal. -/
theorem onAuth_cases (app : App) (env : Environment) (ctx : RequestContext) :
    (∃ m p, app.middleware = some m ∧
      env.authenticate m (authenticationRequestOf ctx) = .principal p ∧
      app.onAuth env ctx = { principal := some p, decision := some .acceptAuthorized, notes :=
        [.authenticate m (authenticationRequestOf ctx) (.principal p), .auth .acceptAuthorized] }) ∨
    ((app.onAuth env ctx).principal = none ∧
      (∀ decision, (app.onAuth env ctx).decision = some decision → decision.accept = false) ∧
      ∀ note ∈ (app.onAuth env ctx).notes, note.ofGate) := by
  cases middleware : app.middleware with
  | none =>
      right
      simp [App.onAuth, middleware, WsAcceptingDecision.rejectUnauthorized, WsAcceptingDecision.reject,
        Note.ofGate]
  | some m =>
      cases verdict : env.authenticate m (authenticationRequestOf ctx) with
      | principal p => exact .inl ⟨m, p, rfl, verdict, by simp [App.onAuth, middleware, verdict]⟩
      | failure f =>
          right
          simp [App.onAuth, middleware, verdict, rejectOnAuthFailure_rejects, Note.ofGate]
      | throws =>
          right
          simp [App.onAuth, middleware, verdict, Note.ofGate]

theorem onAccept_cases (app : App) (ctx : RequestContext) :
    (app.knows ctx.endpoint = true ∧
      app.onAccept ctx = { notes := [.accept ctx.endpoint .defaultAccept] }) ∨
    ((app.onAccept ctx).principal = none ∧
      (∀ decision, (app.onAccept ctx).decision = some decision → decision.accept = false) ∧
      ∀ note ∈ (app.onAccept ctx).notes, note.ofGate) := by
  cases knows : app.knows ctx.endpoint with
  | true => exact .inl ⟨rfl, by simp [App.onAccept, App.acceptDecision, knows]⟩
  | false =>
      right
      simp [App.onAccept, App.acceptDecision, knows, WsAcceptingDecision.rejectNotFound,
        WsAcceptingDecision.reject, Note.ofGate]

/-- The handler of the upgrade request admits the session, or leaves it not live. -/
theorem run_httpRead (cfg : WsConfig) (app : App) (parse : List UInt8 → Option Json)
    (env : Environment) (dead : ¬ s.Live) (input : Input) (outcome : Outcome) :
    let ctx := s.requestContext.setHttpRequest input.request
    let r := s.run cfg (app.router parse env) input outcome .httpRead
    r.1.pending.count .httpRead ≤ s.pending.count .httpRead ∧ (∀ note ∈ r.2, note.ofGate) ∧
    ((outcome = .success ∧ r.1.requestContext = ctx ∧ ∃ m p, Admission app env ctx m p ∧
        r.1.authPrincipal = some p ∧ r.2 = admissionNotes ctx m p) ∨
      ¬ r.1.Live) := by
  intro ctx r
  by_cases ok : outcome = .success
  · have unfolded : r = ({ s with requestContext := ctx } : Session).passGate (app.onAuth env ctx)
        fun s => s.passGate (app.onAccept s.requestContext) fun s => (s.post .wsAccept, []) := by
      simp only [r, run, ok, if_true]
      rfl
    rcases onAuth_cases app env ctx with ⟨m, p, middleware, authenticated, gate⟩ | ⟨none, refused, ofGate⟩
    · rw [passGate_accepted (by rw [gate]) rfl (by rw [gate]), gate] at unfolded
      rcases onAccept_cases app ctx with ⟨endpoint, gate'⟩ | ⟨none, refused, ofGate⟩
      · simp only at unfolded
        rw [passGate_accepted (by rw [gate']) rfl (by rw [gate']), gate'] at unfolded
        rw [unfolded]
        refine ⟨by simp [post, List.count_append], ?_, .inl ⟨ok, rfl, m, p, ?_, rfl, rfl⟩⟩
        · simp [Note.ofGate]
        · exact ⟨middleware, authenticated, endpoint⟩
      · simp only at unfolded
        obtain ⟨behind, notes⟩ := passGate_refused
          (s := ({ s with requestContext := ctx, authPrincipal := some p } : Session))
          (fun s => (s.post .wsAccept, [])) none refused
        rw [unfolded]
        refine ⟨behind.handshakes, ?_, .inr fun live => dead (behind.live live)⟩
        intro note mem
        rcases List.mem_append.mp mem with first | second
        · rcases List.mem_pair.mp first with rfl | rfl <;> trivial
        · exact ofGate note (notes ▸ second)
    · obtain ⟨behind, notes⟩ := passGate_refused
        (s := ({ s with requestContext := ctx } : Session))
        (fun s => s.passGate (app.onAccept s.requestContext) fun s => (s.post .wsAccept, []))
        none refused
      rw [unfolded]
      refine ⟨behind.handshakes, ?_, .inr fun live => dead (behind.live live)⟩
      rw [notes]
      exact ofGate
  · have behind := behind_onAcceptError (app.router parse env) s
    have failed : r = s.onAcceptError (app.router parse env) := by
      simp only [r, run, ok, if_false]
    rw [failed]
    refine ⟨behind.handshakes, ?_, .inr fun live => dead (behind.live live)⟩
    intro note mem
    cases mem

theorem quiet_router (app : App) (parse : List UInt8 → Option Json) (env : Environment) :
    Quiet (app.router parse env) :=
  ⟨fun _ => rfl, fun _ => rfl, fun _ => rfl⟩

/-- The steps of a session of the application: the handler of the upgrade request,
or one that leaves the session behind and dispatches only what it has read. -/
theorem next_cases {e : SessionEvent Note} {notes : List Note} (h : s.next cfg e = some (t, notes))
    (mine : ∀ k outcome input router, e = .complete k outcome input router →
      router = app.router parse env) :
    (t.Behind s ∧ (notes = [] ∨ (.wsRead ∈ s.pending ∧ ∃ payload,
      notes = (app.onMessage parse env s.requestContext payload).notes))) ∨
    ∃ k outcome input rest, e = .complete k outcome input (app.router parse env) ∧
      s.pending[k]? = some .httpRead ∧ s.pending.Perm (.httpRead :: rest) ∧
      (t, notes) = ({ s with pending := rest } : Session).run cfg (app.router parse env) input outcome
        .httpRead := by
  cases e with
  | call c =>
      cases h
      exact .inl ⟨behind_call s c, .inl rfl⟩
  | pong =>
      simp only [next] at h
      split at h
      · cases h
        exact .inl ⟨behind_doHeartbeatNext s, .inl rfl⟩
      · cases h
  | complete k outcome input router =>
      cases mine k outcome input router rfl
      simp only [next] at h
      cases picked : pickAt s.pending k with
      | none => simp [picked] at h
      | some r =>
          obtain ⟨p, rest⟩ := r
          have perm := pickAt_perm picked
          simp only [picked, Option.some.injEq] at h
          by_cases http : p = .httpRead
          · subst http
            exact .inr ⟨k, outcome, input, rest, rfl, pickAt_at picked, perm, h.symm⟩
          · left
            have behind := behind_complete cfg (app.router parse env) input outcome perm http
            have noted := run_notes (s := ({ s with pending := rest } : Session)) cfg
              (quiet_router app parse env) input outcome http
            rw [h] at behind noted
            refine ⟨behind, ?_⟩
            rcases noted with none | ⟨read, notes⟩
            · exact .inl none
            · subst read
              exact .inr ⟨perm.mem_iff.mpr (List.mem_cons_self ..), input.payload, notes⟩

end Session

end Rtl.Ws
