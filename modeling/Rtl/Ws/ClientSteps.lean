import Rtl.Ws.Client

/-! # What one step of a client's thread can do

The threads of a client have some fifty positions, but only few of them matter for the
end of a client: those of a `connect` that has passed its checks, of a `close` in
progress, and of a handler that is about to call the open handler. `Effect` says once
what a step can do to them and to the shared members.
-/

namespace Rtl.Ws

open Rtl.Base

/-! ## Positions -/

/-- `connect` has found the client alive and not closing, and has not started its io
thread yet. -/
@[simp] def CallPc.inWindow : CallPc → Bool
  | .connect .loadAlive => false
  | .connect .loadClosing => false
  | .connect .postResolve => false
  | .connect _ => true
  | _ => false

/-- `init_io` has made the new context, and the thread that runs it is not started. -/
@[simp] def CallPc.renewing : CallPc → Bool
  | .connect .clearConnected => true
  | .connect .clearClosing => true
  | .connect .clearHeartbeatStop => true
  | .connect .startIo => true
  | _ => false

@[simp] def CallPc.isClosing : CallPc → Bool
  | .close .exchange => false
  | .close _ => true
  | _ => false

def CallPc.clearedAlive : CallPc → Bool
  | .close .exchange => false
  | .close .clearAlive => false
  | .close _ => true
  | _ => false

def CallPc.joinsHeartbeat : CallPc → Option Nat
  | .connect (.tearDown (.joinHeartbeat t)) => some t
  | .close (.tearDown (.joinHeartbeat t)) => some t
  | _ => none

namespace ClientThread

def inWindow (th : ClientThread) : Bool := th.call.any CallPc.inWindow
def renewing (th : ClientThread) : Bool := th.call.any CallPc.renewing
def isClosing (th : ClientThread) : Bool := th.call.any CallPc.isClosing
def clearedAlive (th : ClientThread) : Bool := th.call.any CallPc.clearedAlive
def joinsHeartbeat (th : ClientThread) : Option Nat := th.call.bind CallPc.joinsHeartbeat

end ClientThread

def ThreadBody.isIo : ThreadBody → Bool
  | .starting => true
  | .io _ _ => true
  | _ => false

/-- The open handler is called before this handler ends. -/
def ThreadBody.opening : ThreadBody → Bool
  | .io _ .setConnected => true
  | .io _ .openHandler => true
  | _ => false

def ThreadBody.context : ThreadBody → Option Nat
  | .io c _ => some c
  | _ => none

def ThreadBody.isHeartbeat : ThreadBody → Bool
  | .heartbeat _ => true
  | _ => false

def ClientShared.isStopped (s : ClientShared) (c : Nat) : Bool :=
  (s.contexts[c]?.map (·.stopped)).getD true

/-! ## Effects -/

structure Effect (s : WsClient) (th : ClientThread) (m : Move) : Prop where
  closing : m.shared.closing = s.shared.closing ∨
    (th.inWindow = true ∧ m.shared.closing = false) ∨
    (th.call = some (.close .exchange) ∧ m.shared.closing = true ∧ m.thread.isClosing = true)
  entersWindow : m.thread.inWindow = true → th.inWindow = true ∨ s.shared.closing = false
  entersClosing : m.thread.isClosing = true → th.isClosing = true ∨
    th.call = some (.close .exchange) ∧ m.shared.closing = true
  ioc : m.shared.ioc = s.shared.ioc ∨ th.inWindow = true ∧ m.thread.renewing = true
  renewed : th.renewing = true → m.thread.renewing = true ∨ s.shared.ioThread = none
  stopped : th.inWindow = true ∨ ∀ c, s.shared.isStopped c = true → m.shared.isStopped c = true
  ioThread : m.shared.ioThread = s.shared.ioThread ∨
    (∃ t, s.shared.ioThread = some t ∧ isFinished s.threads t = true ∧ m.shared.ioThread = none) ∨
    (s.shared.ioThread = none ∧ m.shared.ioThread = some s.threads.length)
  spawns : ∀ body, m.spawn = some body → body.isIo = true →
    th.inWindow = true ∧ body = .starting ∧ s.shared.ioThread = none ∧
      m.shared.ioThread = some s.threads.length
  staysIo : m.thread.body.isIo = true → th.body.isIo = true
  context : ∀ c, m.thread.body.context = some c →
    th.body.context = some c ∨ th.body = .starting ∧ s.shared.ioc = some c
  opening : m.thread.body.opening = true → th.body.opening = true ∨
    ∃ c, th.body.context = some c ∧ s.shared.isStopped c = false
  calling : m.thread.call ≠ none →
    m.thread.body.opening = false ∨ th.call ≠ none ∧ m.thread.body = th.body
  newContext : m.output = .ioContext → th.inWindow = true
  newThread : m.output = .ioThread → th.inWindow = true
  opened : m.output = .openHandler → th.body.opening = true
  returned : m.output = .closeReturned → m.thread.call = none ∧
    (th.isClosing = true ∨ th.call = some (.close .exchange) ∧ s.shared.closing = true)

section Stopped

variable {s : ClientShared} {c : Nat}

theorem isStopped_modify {d : Nat} {f : IoContext → IoContext}
    (keeps : ∀ x, x.stopped = true → (f x).stopped = true)
    (h : (s.contexts[c]?.map (·.stopped)).getD true = true) :
    ((s.contexts.modify d f)[c]?.map (·.stopped)).getD true = true := by
  rw [List.getElem?_modify]
  cases found : s.contexts[c]? with
  | none => rfl
  | some x =>
      have stopped : x.stopped = true := by simpa [found] using h
      by_cases here : d = c
      · simp [here, keeps x stopped]
      · simp [here, stopped]

theorem isStopped_addTask {task : IoTask} (h : s.isStopped c = true) :
    (s.addTask task).isStopped c = true := by
  unfold ClientShared.addTask ClientShared.isStopped
  split
  · exact h
  · refine isStopped_modify ?_ h
    intro x stopped
    exact stopped

theorem isStopped_stopIo (h : s.isStopped c = true) : s.stopIo.isStopped c = true := by
  unfold ClientShared.stopIo ClientShared.isStopped
  split
  · exact h
  · refine isStopped_modify ?_ h
    intro x _
    rfl

/-- After `m_ioc->stop()` the latest context is stopped. -/
theorem stopIo_stops (here : s.ioc = some c) : s.stopIo.isStopped c = true := by
  simp only [ClientShared.stopIo, ClientShared.isStopped, here, List.getElem?_modify]
  cases s.contexts[c]? <;> simp

end Stopped

/-- The members that matter for the end of the client are left alone; a context may be
stopped. -/
structure SameCore (s s' : ClientShared) : Prop where
  closing : s'.closing = s.closing
  ioc : s'.ioc = s.ioc
  ioThread : s'.ioThread = s.ioThread
  stopped : ∀ c, s.isStopped c = true → s'.isStopped c = true

theorem SameCore.refl (s : ClientShared) : SameCore s s := ⟨rfl, rfl, rfl, fun _ h => h⟩

theorem SameCore.trans {s s' s'' : ClientShared} (first : SameCore s s') (second : SameCore s' s'') :
    SameCore s s'' :=
  ⟨second.closing.trans first.closing, second.ioc.trans first.ioc, second.ioThread.trans first.ioThread,
    fun c h => second.stopped c (first.stopped c h)⟩

theorem SameCore.addTask (s : ClientShared) (task : IoTask) : SameCore s (s.addTask task) :=
  ⟨rfl, rfl, rfl, fun _ h => isStopped_addTask h⟩

section Steps

variable {s : WsClient} {t : Nat} {body : ThreadBody}

def CallMove.toMove (m : CallMove) (body : ThreadBody) : Move :=
  { shared := m.shared, thread := ⟨body, m.call⟩, spawn := m.spawn, output := m.output }

/-- Where a call goes on that does not renew the context and does not begin to close. -/
structure Passes (s : ClientShared) (call : CallPc) (next : Option CallPc) : Prop where
  window : next.any CallPc.inWindow = true → call.inWindow = true ∨ s.closing = false
  renewing : call.renewing = true → next.any CallPc.renewing = true
  closing : next.any CallPc.isClosing = true → call.isClosing = true

/-- A step inside a call that does nothing with contexts and threads. -/
theorem Effect.of_call {call : CallPc} {m : CallMove} (core : SameCore s.shared m.shared)
    (passes : Passes s.shared call m.call) (spawn : m.spawn = none)
    (output : m.output = .silent ∨ m.output = .closeReturned ∧ m.call = none ∧
      (call.isClosing = true ∨ call = .close .exchange ∧ s.shared.closing = true)) :
    Effect s ⟨body, some call⟩ (m.toMove body) where
  closing := .inl core.closing
  entersWindow := passes.window
  entersClosing h := .inl (passes.closing h)
  ioc := .inl core.ioc
  renewed h := .inl (passes.renewing h)
  stopped := .inr core.stopped
  ioThread := .inl core.ioThread
  spawns body h := by simp [CallMove.toMove, spawn] at h
  staysIo h := h
  context c h := .inl h
  opening h := .inl h
  calling _ := .inr ⟨by simp, rfl⟩
  newContext h := by rcases output with o | ⟨o, _⟩ <;> simp [CallMove.toMove, o] at h
  newThread h := by rcases output with o | ⟨o, _⟩ <;> simp [CallMove.toMove, o] at h
  opened h := by rcases output with o | ⟨o, _⟩ <;> simp [CallMove.toMove, o] at h
  returned h := by
    rcases output with o | ⟨_, ended, which⟩
    · simp [CallMove.toMove, o] at h
    · exact ⟨ended, which.imp id fun ⟨exchange, closing⟩ => ⟨congrArg some exchange, closing⟩⟩

theorem stopIo_core : SameCore s.shared s.shared.stopIo :=
  ⟨rfl, rfl, rfl, fun _ h => isStopped_stopIo h⟩

theorem tearDownStep_effect {pc : TearDown} {s' : ClientShared} {pc' : Option TearDown}
    (h : tearDownStep s.shared s.threads t pc = some (s', pc')) :
    SameCore s.shared s' ∨ SameCore { s.shared with ioThread := none } s' ∧
      ∃ u, s.shared.ioThread = some u ∧ isFinished s.threads u = true := by
  cases pc with
  | stopIo =>
      cases h
      exact .inl stopIo_core
  | checkIo =>
      simp only [tearDownStep] at h
      split at h <;> cases h <;> exact .inl (SameCore.refl _)
  | joinIo u =>
      simp only [tearDownStep] at h
      split at h
      · next finished =>
          cases h
          by_cases mine : s.shared.ioThread = some u
          · exact .inr ⟨⟨rfl, rfl, if_pos mine, fun _ h => h⟩, u, mine, finished⟩
          · exact .inl ⟨rfl, rfl, if_neg mine, fun _ h => h⟩
      · cases h
  | checkHeartbeat =>
      simp only [tearDownStep] at h
      split at h <;> cases h <;> exact .inl (SameCore.refl _)
  | joinHeartbeat u =>
      simp only [tearDownStep] at h
      split at h
      · cases h
        exact .inl ⟨rfl, rfl, rfl, fun _ h => h⟩
      · cases h

/-- A step of the common part, in `connect` or in `close`. -/
theorem Effect.of_tearDown {pc : TearDown} {pc' : Option TearDown} {call : CallPc} {m : CallMove}
    (h : tearDownStep s.shared s.threads t pc = some (m.shared, pc'))
    (passes : Passes s.shared call m.call) (renewing : call.renewing = false)
    (spawn : m.spawn = none)
    (output : m.output = .silent ∨ m.output = .closeReturned ∧ m.call = none ∧
      (call.isClosing = true ∨ call = .close .exchange ∧ s.shared.closing = true)) :
    Effect s ⟨body, some call⟩ (m.toMove body) := by
  rcases tearDownStep_effect h with core | ⟨core, u, mine, finished⟩
  · exact Effect.of_call core passes spawn output
  · have plain : Effect { s with shared := { s.shared with ioThread := none } } ⟨body, some call⟩
        (m.toMove body) :=
      Effect.of_call core ⟨passes.window, passes.renewing, passes.closing⟩ spawn output
    exact { plain with
      renewed := fun h => absurd (renewing.symm.trans h) Bool.false_ne_true
      ioThread := .inr (.inl ⟨u, mine, finished, core.ioThread⟩)
      spawns := fun body h => by simp [CallMove.toMove, spawn] at h }

theorem newContext_effect : Effect s ⟨body, some (.connect .newContext)⟩
    { shared := { s.shared with
        ioc := some s.shared.contexts.length, contexts := s.shared.contexts ++ [⟨false, []⟩] }
      thread := ⟨body, some (.connect .clearConnected)⟩
      output := .ioContext } where
  closing := .inl rfl
  entersWindow _ := .inl rfl
  entersClosing h := by cases h
  ioc := .inr ⟨rfl, rfl⟩
  renewed h := by cases h
  stopped := .inl rfl
  ioThread := .inl rfl
  spawns body h := by cases h
  staysIo h := h
  context c h := .inl h
  opening h := .inl h
  calling _ := .inr ⟨by simp, rfl⟩
  newContext _ := rfl
  newThread h := by cases h
  opened h := by cases h
  returned h := by cases h

theorem clearClosing_effect : Effect s ⟨body, some (.connect .clearClosing)⟩
    { shared := { s.shared with closing := false }
      thread := ⟨body, some (.connect .clearHeartbeatStop)⟩ } where
  closing := .inr (.inl ⟨rfl, rfl⟩)
  entersWindow _ := .inl rfl
  entersClosing h := by cases h
  ioc := .inl rfl
  renewed _ := .inl rfl
  stopped := .inl rfl
  ioThread := .inl rfl
  spawns body h := by cases h
  staysIo h := h
  context c h := .inl h
  opening h := .inl h
  calling _ := .inr ⟨by simp, rfl⟩
  newContext h := by cases h
  newThread h := by cases h
  opened h := by cases h
  returned h := by cases h

theorem startIo_effect (free : s.shared.ioThread = none) : Effect s ⟨body, some (.connect .startIo)⟩
    { shared := { s.shared with ioThread := some s.threads.length }
      thread := ⟨body, some (.connect .postResolve)⟩
      spawn := some .starting
      output := .ioThread } where
  closing := .inl rfl
  entersWindow h := by cases h
  entersClosing h := by cases h
  ioc := .inl rfl
  renewed _ := .inr free
  stopped := .inl rfl
  ioThread := .inr (.inr ⟨free, rfl⟩)
  spawns body h _ := by
    cases h
    exact ⟨rfl, rfl, free, rfl⟩
  staysIo h := h
  context c h := .inl h
  opening h := .inl h
  calling _ := .inr ⟨by simp, rfl⟩
  newContext h := by cases h
  newThread _ := rfl
  opened h := by cases h
  returned h := by cases h

theorem connectStep_effect {pc : ConnectPc} {m : CallMove}
    (h : connectStep s.shared s.threads t pc = some m) :
    Effect s ⟨body, some (.connect pc)⟩ (m.toMove body) := by
  cases pc with
  | loadAlive =>
      cases h
      refine Effect.of_call (SameCore.refl _) ?_ rfl (.inl rfl)
      split <;> constructor <;> simp
  | loadClosing =>
      cases h
      refine Effect.of_call (SameCore.refl _) ?_ rfl (.inl rfl)
      split <;> constructor <;> simp_all
  | casStarted =>
      simp only [connectStep] at h
      split at h <;> cases h
      · exact Effect.of_call (SameCore.refl _) (by constructor <;> simp) rfl (.inl rfl)
      · exact Effect.of_call ⟨rfl, rfl, rfl, fun _ h => h⟩ (by constructor <;> simp) rfl (.inl rfl)
  | tearDown pc =>
      simp only [connectStep] at h
      split at h
      · cases h
      · next step =>
          cases h
          exact Effect.of_tearDown step (by constructor <;> simp) rfl rfl (.inl rfl)
      · next step =>
          cases h
          exact Effect.of_tearDown step (by constructor <;> simp) rfl rfl (.inl rfl)
  | newContext =>
      cases h
      exact newContext_effect
  | clearConnected =>
      cases h
      exact Effect.of_call ⟨rfl, rfl, rfl, fun _ h => h⟩ (by constructor <;> simp) rfl (.inl rfl)
  | clearClosing =>
      cases h
      exact clearClosing_effect
  | clearHeartbeatStop =>
      cases h
      exact Effect.of_call ⟨rfl, rfl, rfl, fun _ h => h⟩ (by constructor <;> simp) rfl (.inl rfl)
  | startIo =>
      simp only [connectStep] at h
      split at h
      · cases h
      · next free =>
          cases h
          exact startIo_effect free
  | postResolve =>
      cases h
      exact Effect.of_call (SameCore.addTask _ _) (by constructor <;> simp) rfl (.inl rfl)

theorem exchange_effect : Effect s ⟨body, some (.close .exchange)⟩
    { shared := { s.shared with closing := true }
      thread := ⟨body, some (.close .clearAlive)⟩ } where
  closing := .inr (.inr ⟨rfl, rfl, rfl⟩)
  entersWindow h := by cases h
  entersClosing _ := .inr ⟨rfl, rfl⟩
  ioc := .inl rfl
  renewed h := by cases h
  stopped := .inr fun c h => h
  ioThread := .inl rfl
  spawns body h := by cases h
  staysIo h := h
  context c h := .inl h
  opening h := .inl h
  calling _ := .inr ⟨by simp, rfl⟩
  newContext h := by cases h
  newThread h := by cases h
  opened h := by cases h
  returned h := by cases h

theorem closeStep_effect {pc : ClosePc} {m : CallMove}
    (h : closeStep s.shared s.threads t pc = some m) :
    Effect s ⟨body, some (.close pc)⟩ (m.toMove body) := by
  cases pc with
  | exchange =>
      simp only [closeStep] at h
      split at h
      · next closing =>
          cases h
          exact Effect.of_call (SameCore.refl _) (by constructor <;> simp) rfl
            (.inr ⟨rfl, rfl, .inr ⟨rfl, closing⟩⟩)
      · cases h
        exact exchange_effect
  | postClose =>
      cases h
      exact Effect.of_call (SameCore.addTask _ _) (by constructor <;> simp) rfl (.inl rfl)
  | tearDown pc =>
      simp only [closeStep] at h
      split at h
      · cases h
      · next step =>
          cases h
          exact Effect.of_tearDown step (by constructor <;> simp) rfl rfl (.inl rfl)
      · next step =>
          cases h
          exact Effect.of_tearDown step (by constructor <;> simp) rfl rfl (.inr ⟨rfl, rfl, .inl rfl⟩)
  | _ =>
      -- The stores to the other flags.
      cases h
      exact Effect.of_call ⟨rfl, rfl, rfl, fun _ h => h⟩ (by constructor <;> simp) rfl (.inl rfl)

theorem sendStep_effect {task : IoTask} {pc : SendPc} :
    Effect s ⟨body, some (.send task pc)⟩ ((sendStep s.shared task pc).toMove body) := by
  cases pc with
  | loadConnected =>
      refine Effect.of_call (SameCore.refl _) ?_ rfl (.inl rfl)
      simp only [sendStep]
      split <;> constructor <;> simp
  | loadClosing =>
      refine Effect.of_call (SameCore.refl _) ?_ rfl (.inl rfl)
      simp only [sendStep]
      split <;> constructor <;> simp
  | post =>
      exact Effect.of_call (SameCore.addTask _ _) (by constructor <;> simp [sendStep]) rfl (.inl rfl)

theorem callStep_effect {call : CallPc} {m : CallMove}
    (h : callStep s.shared s.threads t call = some m) :
    Effect s ⟨body, some call⟩ (m.toMove body) := by
  cases call with
  | connect pc => exact connectStep_effect h
  | close pc => exact closeStep_effect h
  | send task pc =>
      cases h
      exact sendStep_effect

/-! ### Bodies -/

/-- A step outside of any call that does nothing with contexts and io threads. -/
theorem Effect.of_body {m : Move} (core : SameCore s.shared m.shared)
    (calm : m.thread.inWindow = false ∧ m.thread.isClosing = false)
    (output : m.output = .silent) (spawn : ∀ body, m.spawn = some body → body.isIo = false)
    (staysIo : m.thread.body.isIo = true → body.isIo = true)
    (context : ∀ c, m.thread.body.context = some c →
      body.context = some c ∨ body = .starting ∧ s.shared.ioc = some c)
    (opening : m.thread.body.opening = true → body.opening = true ∨
      ∃ c, body.context = some c ∧ s.shared.isStopped c = false)
    (calling : m.thread.call ≠ none → m.thread.body.opening = false) :
    Effect s ⟨body, none⟩ m where
  closing := .inl core.closing
  entersWindow h := by simp [calm.1] at h
  entersClosing h := by simp [calm.2] at h
  ioc := .inl core.ioc
  renewed h := by cases h
  stopped := .inr core.stopped
  ioThread := .inl core.ioThread
  spawns body h io := by simp [spawn body h] at io
  staysIo := staysIo
  context := context
  opening := opening
  calling h := .inl (calling h)
  newContext h := by simp [output] at h
  newThread h := by simp [output] at h
  opened h := by simp [output] at h
  returned h := by simp [output] at h

theorem not_opening_of_not_io {b : ThreadBody} (other : b.isIo = false) :
    b.context = none ∧ b.opening = false := by
  cases b <;> first | exact ⟨rfl, rfl⟩ | cases other

/-- The thread is not the io thread after the step. -/
theorem Effect.of_other {m : Move} (core : SameCore s.shared m.shared)
    (calm : m.thread.inWindow = false ∧ m.thread.isClosing = false) (output : m.output = .silent)
    (spawn : m.spawn = none) (other : m.thread.body.isIo = false) : Effect s ⟨body, none⟩ m := by
  obtain ⟨noContext, notOpening⟩ := not_opening_of_not_io other
  exact Effect.of_body core calm output (by simp [spawn]) (by simp [other]) (by simp [noContext])
    (by simp [notOpening]) (fun _ => notOpening)

theorem reconnectStep_effect {pc : ReconnectPc} :
    Effect s ⟨.reconnect pc, none⟩ (reconnectStep s.shared pc) := by
  cases pc <;> exact Effect.of_other ⟨rfl, rfl, rfl, fun _ h => h⟩ ⟨rfl, rfl⟩ rfl rfl rfl

theorem heartbeatStep_effect {pc : HeartbeatPc} :
    Effect s ⟨.heartbeat pc, none⟩ (heartbeatStep s.shared pc) := by
  cases pc with
  | loadStop =>
      refine Effect.of_other (SameCore.refl _) ⟨rfl, rfl⟩ rfl rfl ?_
      simp only [heartbeatStep]
      split <;> rfl
  | loadAlive =>
      refine Effect.of_other (SameCore.refl _) ⟨rfl, rfl⟩ rfl rfl ?_
      simp only [heartbeatStep]
      split <;> rfl
  | loadStopAgain =>
      refine Effect.of_other (SameCore.refl _) ?_ rfl rfl rfl
      simp only [heartbeatStep]
      split <;> exact ⟨rfl, rfl⟩
  | _ => exact Effect.of_other (SameCore.refl _) ⟨rfl, rfl⟩ rfl rfl rfl

/-- The handler goes on in its context, and the open handler is not ahead of it. -/
theorem Effect.of_handler {c : Nat} {pc pc' : HandlerPc} {m : Move} (core : SameCore s.shared m.shared)
    (thread : m.thread = ⟨.io c pc', none⟩) (output : m.output = .silent)
    (spawn : ∀ body, m.spawn = some body → body.isIo = false)
    (opening : (ThreadBody.io c pc').opening = false) : Effect s ⟨.io c pc, none⟩ m := by
  refine Effect.of_body core ?_ output spawn ?_ ?_ ?_ ?_
  · rw [thread]
    exact ⟨rfl, rfl⟩
  · intro _
    rfl
  · intro d h
    rw [thread] at h
    exact .inl h
  · intro h
    rw [thread, opening] at h
    cases h
  · intro h
    rw [thread] at h
    exact absurd rfl h

theorem handlerStep_effect {c : Nat} {pc : HandlerPc} {m : Move}
    (h : handlerStep s.shared s.threads c pc = some m) : Effect s ⟨.io c pc, none⟩ m := by
  cases pc with
  | idle => cases h
  | setConnected =>
      cases h
      exact Effect.of_body ⟨rfl, rfl, rfl, fun _ h => h⟩ ⟨rfl, rfl⟩ rfl (by simp) (fun _ => rfl)
        (fun _ h => .inl h) (fun _ => .inl rfl) (fun h => absurd rfl h)
  | openHandler =>
      cases h
      have quiet : Effect s ⟨.io c .openHandler, none⟩
          { shared := s.shared, thread := ⟨.io c (.callback .opened), none⟩ } :=
        Effect.of_handler (SameCore.refl _) rfl rfl (by simp) rfl
      exact { quiet with
        newContext := fun h => by cases h
        newThread := fun h => by cases h
        opened := fun _ => rfl
        returned := fun h => by cases h }
  | callback after =>
      cases h
      refine Effect.of_handler (SameCore.refl _) rfl rfl (by simp) ?_
      cases after <;> rfl
  | startHeartbeat =>
      simp only [handlerStep] at h
      split at h <;> cases h
      · exact Effect.of_handler (SameCore.refl _) rfl rfl (by simp) rfl
      · refine Effect.of_handler ⟨rfl, rfl, rfl, fun _ h => h⟩ rfl rfl ?_ rfl
        intro body same
        cases same
        rfl
  | startRead =>
      cases h
      exact Effect.of_handler (SameCore.addTask _ _) rfl rfl (by simp) rfl
  | clearConnected ec =>
      cases h
      exact Effect.of_handler ⟨rfl, rfl, rfl, fun _ h => h⟩ rfl rfl (by simp) rfl
  | casScheduled ec =>
      simp only [handlerStep] at h
      split at h <;> cases h
      · exact Effect.of_handler (SameCore.refl _) rfl rfl (by simp) rfl
      · exact Effect.of_handler ⟨rfl, rfl, rfl, fun _ h => h⟩ rfl rfl (by simp) rfl
  | spawnReconnect =>
      cases h
      refine Effect.of_handler (SameCore.refl _) rfl rfl ?_ rfl
      intro body same
      cases same
      rfl
  | leaving =>
      cases h
      exact Effect.of_other (SameCore.refl _) ⟨rfl, rfl⟩ rfl rfl rfl
  | _ =>
      -- The loads of a flag, each with two ways to go on.
      cases h
      refine Effect.of_handler (SameCore.refl _) rfl rfl (by simp) ?_
      split <;> rfl

/-- A task leaves its context. -/
theorem takeTask_core (s : ClientShared) {c : Nat} {context : IoContext} (tasks : List IoTask)
    (found : s.contexts[c]? = some context) :
    SameCore s { s with contexts := s.contexts.set c { context with tasks := tasks } } := by
  refine ⟨rfl, rfl, rfl, ?_⟩
  intro d h
  simp only [ClientShared.isStopped] at h ⊢
  by_cases here : c = d
  · subst here
    rw [set_at found]
    rwa [found] at h
  · rwa [List.getElem?_set_ne here]

theorem startTask_core (s : ClientShared) (result : Option ClientError) (more : Bool) (task : IoTask) :
    SameCore s (startTask s result more task).1 := by
  unfold startTask
  repeat' split
  all_goals first
    | exact SameCore.refl _
    | exact SameCore.addTask _ _

theorem runTask_effect {th : ClientThread} {i : Nat} {result : Option ClientError} {more : Bool}
    {m : Move} (h : s.runTask th i result more = some m) : Effect s th m := by
  unfold WsClient.runTask at h
  split at h
  · next c =>
      split at h
      · cases h
      · next context found =>
          split at h
          · cases h
          · next running =>
              split at h
              · cases h
              · next task _ =>
                  cases h
                  have stopped : s.shared.isStopped c = false := by
                    simpa [ClientShared.isStopped, found] using running
                  exact Effect.of_body ((takeTask_core s.shared _ found).trans (startTask_core ..))
                    ⟨rfl, rfl⟩ rfl
                    (by simp) (fun _ => rfl) (fun _ h => .inl h) (fun _ => .inr ⟨c, rfl, stopped⟩)
                    (fun h => absurd rfl h)
  · cases h

theorem bodyStep_effect {m : Move} (h : bodyStep s.shared s.threads body = some m) :
    Effect s ⟨body, none⟩ m := by
  cases body with
  | user => cases h
  | starting =>
      obtain ⟨c, here, rfl⟩ := Option.map_eq_some_iff.mp h
      refine Effect.of_body (SameCore.refl _) ⟨rfl, rfl⟩ rfl (by simp) (fun _ => rfl) ?_ ?_ ?_
      · intro d same
        cases same
        exact .inr ⟨rfl, here⟩
      · intro h
        cases h
      · intro h
        exact absurd rfl h
  | io c pc => exact handlerStep_effect h
  | reconnect pc =>
      cases h
      exact reconnectStep_effect
  | heartbeat pc =>
      cases h
      exact heartbeatStep_effect
  | finished => cases h

theorem move_effect {th : ClientThread} {e : ClientEvent} {m : Move} (h : s.move th e = some m) :
    Effect s th m := by
  obtain ⟨body, call⟩ := th
  cases e with
  | newThread => cases h
  | begin u called =>
      simp only [WsClient.move] at h
      split at h
      · next program =>
          obtain ⟨program, rfl⟩ := program
          cases h
          have notOpening : body.opening = false := by
            unfold ThreadBody.isProgram at program
            split at program <;> first | rfl | cases program
          refine Effect.of_body (SameCore.refl _) ?_ rfl (by simp) (fun h => h) (fun _ h => .inl h)
            (fun h => .inl h) (fun _ => notOpening)
          cases called <;> exact ⟨rfl, rfl⟩
      · cases h
  | enableAutoReconnect u enable =>
      simp only [WsClient.move] at h
      split at h
      · next program =>
          obtain ⟨_, rfl⟩ := program
          cases h
          exact Effect.of_body ⟨rfl, rfl, rfl, fun _ h => h⟩ ⟨rfl, rfl⟩ rfl (by simp) (fun h => h)
            (fun _ h => .inl h) (fun h => .inl h) (fun h => absurd rfl h)
      · cases h
  | enableHeartbeat u enable =>
      simp only [WsClient.move] at h
      split at h
      · next program =>
          obtain ⟨_, rfl⟩ := program
          cases h
          exact Effect.of_body ⟨rfl, rfl, rfl, fun _ h => h⟩ ⟨rfl, rfl⟩ rfl (by simp) (fun h => h)
            (fun _ h => .inl h) (fun h => .inl h) (fun h => absurd rfl h)
      · cases h
  | step u =>
      simp only [WsClient.move, WsClient.step] at h
      cases call with
      | none => exact bodyStep_effect h
      | some call =>
          obtain ⟨m, step, rfl⟩ := Option.map_eq_some_iff.mp h
          exact callStep_effect step
  | runTask u i result more => exact runTask_effect h
  | exitIo u =>
      simp only [WsClient.move] at h
      split at h
      · next same =>
          cases same
          cases h
          exact Effect.of_other (SameCore.refl _) ⟨rfl, rfl⟩ rfl rfl rfl
      · cases h
  | throwIo u =>
      simp only [WsClient.move] at h
      split at h
      · next same =>
          cases same
          cases h
          exact Effect.of_handler (SameCore.refl _) rfl rfl (by simp) rfl
      · cases h

/-! ### The state after a step -/

theorem next_cases {e : ClientEvent} {s' : WsClient} {o : ClientOutput} (h : s.next e = some (s', o)) :
    (s' = { s with threads := s.threads ++ [⟨.user, none⟩] } ∧ o = .silent) ∨
      ∃ t th m, e.thread = some t ∧ s.threads[t]? = some th ∧ s.move th e = some m ∧
        s' = s.apply t m ∧ o = m.output := by
  unfold WsClient.next at h
  split at h
  · cases h
    exact .inl ⟨rfl, rfl⟩
  · next t event =>
      split at h
      · cases h
      · next th found =>
          obtain ⟨m, moved, same⟩ := Option.map_eq_some_iff.mp h
          cases same
          exact .inr ⟨t, th, m, event, found, moved, rfl, rfl⟩

/-- The threads after a step: the others, the one that has moved, and a new one. -/
theorem apply_at {m : Move} {u : Nat} {th' : ClientThread}
    (h : (s.apply t m).threads[u]? = some th') :
    (u ≠ t ∧ s.threads[u]? = some th') ∨ (u = t ∧ th' = m.thread) ∨
      (u = s.threads.length ∧ ∃ b, m.spawn = some b ∧ th' = ⟨b, none⟩) := by
  simp only [WsClient.apply] at h
  by_cases inside : u < s.threads.length
  · rw [List.getElem?_append_left (by simpa using inside)] at h
    by_cases here : t = u
    · subst here
      rw [List.getElem?_set_self inside] at h
      exact .inr (.inl ⟨rfl, (Option.some_inj.mp h).symm⟩)
    · rw [List.getElem?_set_ne here] at h
      exact .inl ⟨fun same => here same.symm, h⟩
  · rw [List.getElem?_append_right (by simpa using inside), List.length_set] at h
    cases spawn : m.spawn with
    | none => simp [spawn] at h
    | some b =>
        have place : u - s.threads.length = 0 := by
          by_contra later
          simp [spawn, later] at h
        refine .inr (.inr ⟨by omega, b, rfl, ?_⟩)
        simpa [spawn, place, eq_comm] using h

theorem apply_self {m : Move} {th : ClientThread} (found : s.threads[t]? = some th) :
    (s.apply t m).threads[t]? = some m.thread := by
  have inside := (List.getElem?_eq_some_iff.mp found).1
  simp only [WsClient.apply]
  rw [List.getElem?_append_left (by simpa using inside), List.getElem?_set_self inside]

theorem apply_other {m : Move} {u : Nat} {th : ClientThread} (other : u ≠ t)
    (found : s.threads[u]? = some th) : (s.apply t m).threads[u]? = some th := by
  have inside := (List.getElem?_eq_some_iff.mp found).1
  simp only [WsClient.apply]
  rw [List.getElem?_append_left (by simpa using inside), List.getElem?_set_ne (Ne.symm other), found]

theorem newThread_at {u : Nat} {th' : ClientThread}
    (h : (s.threads ++ [(⟨.user, none⟩ : ClientThread)])[u]? = some th') :
    s.threads[u]? = some th' ∨ th' = ⟨.user, none⟩ := by
  by_cases inside : u < s.threads.length
  · rw [List.getElem?_append_left inside] at h
    exact .inl h
  · rw [List.getElem?_append_right (Nat.not_lt.mp inside)] at h
    exact .inr (List.mem_singleton.mp (List.mem_of_getElem? h))

theorem newThread_keeps {u : Nat} {th : ClientThread} (h : s.threads[u]? = some th) :
    (s.threads ++ [(⟨.user, none⟩ : ClientThread)])[u]? = some th := by
  rw [List.getElem?_append_left (List.getElem?_eq_some_iff.mp h).1, h]

/-- The thread of a call moves only inside the call. -/
theorem move_of_call {th : ClientThread} {m : Move} {e : ClientEvent} {call : CallPc}
    (event : e.thread = some t)
    (calls : th.call = some call) (h : s.move th e = some m) :
    e = .step t ∧ ∃ m', callStep s.shared s.threads t call = some m' ∧ m = m'.toMove th.body := by
  obtain ⟨body, _⟩ := th
  cases calls
  cases e with
  | step u =>
      cases event
      obtain ⟨m', step, rfl⟩ := Option.map_eq_some_iff.mp h
      exact ⟨rfl, m', step, rfl⟩
  | _ => simp [WsClient.move, WsClient.runTask] at h

/-- How the common part goes on. -/
theorem tearDownStep_next {pc pc' : TearDown} {s' : ClientShared}
    (step : tearDownStep s.shared s.threads t pc = some (s', some pc')) :
    (pc = .stopIo ∧ pc' = .checkIo ∧ s' = s.shared.stopIo) ∨
      (∃ u, pc = .checkIo ∧ pc' = .joinIo u ∧ s.shared.ioThread = some u) ∨
      (pc = .checkIo ∧ pc' = .checkHeartbeat ∧ ∀ u, s.shared.ioThread = some u → u = t) ∨
      (∃ u, pc = .joinIo u ∧ pc' = .checkHeartbeat ∧ isFinished s.threads u = true) ∨
      (∃ u, pc = .checkHeartbeat ∧ pc' = .joinHeartbeat u ∧ s.shared.heartbeatThread = some u ∧
        u ≠ t) := by
  cases pc with
  | stopIo =>
      cases step
      exact .inl ⟨rfl, rfl, rfl⟩
  | checkIo =>
      simp only [tearDownStep] at step
      split at step
      · next none =>
          cases step
          exact .inr (.inr (.inl ⟨rfl, rfl, by simp [none]⟩))
      · next u mine =>
          by_cases self : u = t
          · rw [if_pos self] at step
            cases step
            exact .inr (.inr (.inl ⟨rfl, rfl, by simp [mine, self]⟩))
          · rw [if_neg self] at step
            cases step
            exact .inr (.inl ⟨u, rfl, rfl, mine⟩)
  | joinIo u =>
      simp only [tearDownStep] at step
      split at step
      · next finished =>
          cases step
          exact .inr (.inr (.inr (.inl ⟨u, rfl, rfl, finished⟩)))
      · cases step
  | checkHeartbeat =>
      simp only [tearDownStep] at step
      split at step
      · cases step
      · next u mine =>
          by_cases self : u = t
          · rw [if_pos self] at step
            cases step
          · rw [if_neg self] at step
            cases step
            exact .inr (.inr (.inr (.inr ⟨u, rfl, rfl, mine, self⟩)))
  | joinHeartbeat u =>
      simp only [tearDownStep] at step
      split at step <;> cases step

theorem tearDownStep_over {pc : TearDown} {s' : ClientShared}
    (step : tearDownStep s.shared s.threads t pc = some (s', none)) :
    pc = .checkHeartbeat ∨ ∃ u, pc = .joinHeartbeat u := by
  cases pc with
  | stopIo => cases step
  | checkIo =>
      simp only [tearDownStep] at step
      split at step <;> cases step
  | joinIo u =>
      simp only [tearDownStep] at step
      split at step <;> cases step
  | checkHeartbeat => exact .inl rfl
  | joinHeartbeat u => exact .inr ⟨u, rfl⟩

theorem closeStep_tearDown {pc : TearDown} {m' : CallMove}
    (h : closeStep s.shared s.threads t (.tearDown pc) = some m') :
    ∃ pc', tearDownStep s.shared s.threads t pc = some (m'.shared, pc') ∧
      m'.call = pc'.map fun pc => .close (.tearDown pc) := by
  simp only [closeStep] at h
  split at h
  · cases h
  · next pc' step =>
      cases h
      exact ⟨some pc', step, rfl⟩
  · next step =>
      cases h
      exact ⟨none, step, rfl⟩

end Steps

end Rtl.Ws
