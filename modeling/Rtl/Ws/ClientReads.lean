import Mathlib.Algebra.GroupWithZero.Nat
import Mathlib.Algebra.BigOperators.Group.List.Basic
import Rtl.Ws.ClientSteps

/-! # The reads of the client

A call of `connect` that makes an `io_context` starts one chain of operations: resolve, connect,
handshake, and then reads, each started by the end of the one before. The chain is followed through the
tasks of the contexts and the places of the threads, whatever calls of `connect` overlap: there are no
more chains than contexts, a chain calls the open handler at most once, and after that it has at most one
read outstanding.
-/

namespace Rtl.Ws

open Rtl.Base

/-- What the tasks of a context and the places of a thread count for. -/
structure Tally where
  task : IoTask → Nat
  handler : HandlerPc → Nat
  connect : ConnectPc → Nat

namespace Tally

variable (w : Tally)

def body : ThreadBody → Nat
  | .io _ pc => w.handler pc
  | .user | .starting | .reconnect _ | .heartbeat _ | .finished => 0

def call : CallPc → Nat
  | .connect pc => w.connect pc
  | .close _ => 0
  | .send task _ => w.task task

def calls : Option CallPc → Nat
  | none => 0
  | some pc => w.call pc

def thread (th : ClientThread) : Nat := w.body th.body + w.calls th.call

def context (c : IoContext) : Nat := (c.tasks.map w.task).sum

def tasks (s : ClientShared) : Nat := (s.contexts.map w.context).sum

def spawned : Option ThreadBody → Nat
  | none => 0
  | some body => w.body body

def total (s : WsClient) : Nat := w.tasks s.shared + (s.threads.map w.thread).sum

/-! ## Tasks -/

theorem sum_modify_le (f : IoContext → IoContext) {extra : Nat}
    (grows : ∀ x, w.context (f x) ≤ w.context x + extra) (contexts : List IoContext) (c : Nat) :
    ((contexts.modify c f).map w.context).sum ≤ (contexts.map w.context).sum + extra := by
  induction contexts generalizing c with
  | nil => simp
  | cons x rest ih =>
      cases c with
      | zero =>
          have more := grows x
          simp only [List.modify_zero_cons, List.map_cons, List.sum_cons]
          omega
      | succ c =>
          have more := ih c
          simp only [List.modify_succ_cons, List.map_cons, List.sum_cons]
          omega

theorem tasks_addTask (s : ClientShared) (task : IoTask) :
    w.tasks (s.addTask task) ≤ w.tasks s + w.task task := by
  unfold tasks ClientShared.addTask
  cases s.ioc with
  | none => exact Nat.le_add_right _ _
  | some c =>
      refine w.sum_modify_le _ ?_ s.contexts c
      intro x
      simp [context]

theorem tasks_stopIo (s : ClientShared) : w.tasks s.stopIo ≤ w.tasks s := by
  unfold tasks ClientShared.stopIo
  cases s.ioc with
  | none => exact Nat.le_refl _
  | some c =>
      exact w.sum_modify_le (fun x => { x with stopped := true }) (fun x => Nat.le_add_right _ 0)
        s.contexts c

theorem tasks_newContext (s : ClientShared) (c : Nat) :
    w.tasks { s with ioc := some c, contexts := s.contexts ++ [⟨false, []⟩] } = w.tasks s := by
  simp [tasks, context]

/-- A handler starts with its task taken out of its context. -/
theorem tasks_take {s : ClientShared} {c i : Nat} {context : IoContext} {task : IoTask}
    (found : s.contexts[c]? = some context) (at_i : context.tasks[i]? = some task) :
    w.task task + w.tasks { s with
      contexts := s.contexts.set c { context with tasks := context.tasks.eraseIdx i } } = w.tasks s := by
  have swapped := sum_map_set w.context { context with tasks := context.tasks.eraseIdx i } found
  have inside := (List.getElem?_eq_some_iff.mp at_i).1
  have same := (List.getElem?_eq_some_iff.mp at_i).2
  have taken := ((List.getElem_cons_eraseIdx_perm inside).map w.task).sum_eq
  rw [same, List.map_cons, List.sum_cons] at taken
  unfold tasks
  simp only [Tally.context] at swapped taken ⊢
  omega

theorem tasks_tearDown {s s' : ClientShared} {threads : List ClientThread} {self : Nat} {pc : TearDown}
    {pc' : Option TearDown} (h : tearDownStep s threads self pc = some (s', pc')) :
    w.tasks s' ≤ w.tasks s := by
  cases pc with
  | stopIo =>
      cases h
      exact w.tasks_stopIo s
  | checkIo | checkHeartbeat =>
      simp only [tearDownStep] at h
      split at h <;> cases h <;> exact Nat.le_refl _
  | joinIo | joinHeartbeat =>
      simp only [tearDownStep] at h
      split at h
      · cases h
        exact Nat.le_refl _
      · cases h

/-! ## Steps -/

/-- The step `m` of the thread `th` leaves a tally that is smaller by `cost`, up to what it gains. -/
def Pays (s : WsClient) (th : ClientThread) (m : Move) (cost gain : Nat) : Prop :=
  w.tasks m.shared + w.thread m.thread + w.spawned m.spawn + cost ≤
    w.tasks s.shared + w.thread th + gain

theorem total_apply {s : WsClient} {t : Nat} {th : ClientThread} {m : Move} {cost gain : Nat}
    (found : s.threads[t]? = some th) (pays : w.Pays s th m cost gain) :
    w.total (s.apply t m) + cost ≤ w.total s + gain := by
  have swapped := sum_map_set w.thread m.thread found
  have new : (((m.spawn.map fun body => (⟨body, none⟩ : ClientThread)).toList).map w.thread).sum =
      w.spawned m.spawn := by
    cases m.spawn <;> simp [spawned, thread, calls]
  unfold Pays at pays
  simp only [total, WsClient.apply, List.map_append, List.sum_append, new]
  omega

end Tally

def connecting : Tally where
  task
    | .doResolve | .onResolve | .onConnect | .onHandshake => 1
    | _ => 0
  handler
    | .setConnected | .openHandler => 1
    | _ => 0
  connect
    | .clearConnected | .clearClosing | .clearHeartbeatStop | .startIo | .postResolve => 1
    | _ => 0

def reading : Tally where
  task
    | .onRead => 1
    | _ => 0
  handler
    | .callback .opened | .loadHeartbeatEnabled | .startHeartbeat | .startRead => 1
    | .callback .readMore | .checkClosing => 1
    | _ => 0
  connect _ := 0

def ClientOutput.opens : ClientOutput → Nat
  | .openHandler => 1
  | _ => 0

def ClientOutput.makes : ClientOutput → Nat
  | .ioContext => 1
  | _ => 0

/-- Each context is worth one call of the open handler, and each of these one read. -/
structure Follows (s : WsClient) (th : ClientThread) (m : Move) : Prop where
  contexts : m.shared.contexts.length = s.shared.contexts.length + m.output.makes
  connecting : connecting.Pays s th m m.output.opens m.output.makes
  reading : reading.Pays s th m 0 m.output.opens

namespace Follows

variable {s : WsClient} {th : ClientThread} {m : Move}

theorem length_addTask (s : ClientShared) (task : IoTask) :
    (s.addTask task).contexts.length = s.contexts.length := by
  unfold ClientShared.addTask
  cases s.ioc <;> simp

theorem length_stopIo (s : ClientShared) : s.stopIo.contexts.length = s.contexts.length := by
  unfold ClientShared.stopIo
  cases s.ioc <;> simp

theorem length_tearDown {s s' : ClientShared} {threads : List ClientThread} {self : Nat} {pc : TearDown}
    {pc' : Option TearDown} (h : tearDownStep s threads self pc = some (s', pc')) :
    s'.contexts.length = s.contexts.length := by
  cases pc with
  | stopIo =>
      cases h
      exact length_stopIo s
  | checkIo | checkHeartbeat =>
      simp only [tearDownStep] at h
      split at h <;> cases h <;> rfl
  | joinIo | joinHeartbeat =>
      simp only [tearDownStep] at h
      split at h
      · cases h
        rfl
      · cases h

/-- A step that adds no task, spawns no thread with a part in a chain and shows nothing. -/
theorem of_quiet (contexts : m.shared.contexts = s.shared.contexts) (output : m.output = .silent)
    (fresh : ∀ w : Tally, w.spawned m.spawn = 0)
    (before : Rtl.Ws.connecting.thread m.thread ≤ Rtl.Ws.connecting.thread th)
    (after : Rtl.Ws.reading.thread m.thread ≤ Rtl.Ws.reading.thread th) : Follows s th m := by
  have same (w : Tally) : w.tasks m.shared = w.tasks s.shared := by
    unfold Tally.tasks
    rw [contexts]
  refine ⟨by simp [contexts, output, ClientOutput.makes], ?_, ?_⟩
  · simp only [Tally.Pays, same, fresh, output, ClientOutput.opens, ClientOutput.makes]
    omega
  · simp only [Tally.Pays, same, fresh, output, ClientOutput.opens]
    omega

/-- A step that gives a task to the latest context. -/
theorem of_addTask {task : IoTask} (shared : m.shared = s.shared.addTask task)
    (output : m.output = .silent)
    (fresh : m.spawn = none)
    (before : Rtl.Ws.connecting.thread m.thread + Rtl.Ws.connecting.task task ≤
      Rtl.Ws.connecting.thread th)
    (after : Rtl.Ws.reading.thread m.thread + Rtl.Ws.reading.task task ≤ Rtl.Ws.reading.thread th) :
    Follows s th m := by
  refine ⟨by simp [shared, output, ClientOutput.makes, length_addTask], ?_, ?_⟩
  · have more := Rtl.Ws.connecting.tasks_addTask s.shared task
    simp only [Tally.Pays, shared, fresh, output, ClientOutput.opens, ClientOutput.makes, Tally.spawned]
    omega
  · have more := Rtl.Ws.reading.tasks_addTask s.shared task
    simp only [Tally.Pays, shared, fresh, output, ClientOutput.opens, Tally.spawned]
    omega

/-! ### Calls -/

variable {body : ThreadBody} {m' : CallMove} {call : CallPc}

/-- A step inside a call that adds no task and shows nothing; the place in the call counts for no more
than before. -/
theorem of_call (contexts : m'.shared.contexts = s.shared.contexts) (output : m'.output = .silent)
    (fresh : ∀ w : Tally, w.spawned m'.spawn = 0)
    (before : Rtl.Ws.connecting.calls m'.call ≤ Rtl.Ws.connecting.call call)
    (after : Rtl.Ws.reading.calls m'.call ≤ Rtl.Ws.reading.call call) :
    Follows s ⟨body, some call⟩ (m'.toMove body) :=
  of_quiet contexts output fresh (Nat.add_le_add_left before _) (Nat.add_le_add_left after _)

/-- The same for the steps that `connect` and `close` have in common. -/
theorem of_tearDown {pc : TearDown} {pc' : Option TearDown} {threads : List ClientThread} {self : Nat}
    (step : tearDownStep s.shared threads self pc = some (m'.shared, pc')) (output : m'.output = .silent)
    (fresh : m'.spawn = none) (before : Rtl.Ws.connecting.calls m'.call = 0)
    (after : Rtl.Ws.reading.calls m'.call = 0) : Follows s ⟨body, some call⟩ (m'.toMove body) := by
  refine ⟨?_, ?_, ?_⟩
  · simp [CallMove.toMove, output, ClientOutput.makes, length_tearDown step]
  · have fewer := Rtl.Ws.connecting.tasks_tearDown step
    simp only [Tally.Pays, CallMove.toMove, output, fresh, ClientOutput.opens, ClientOutput.makes,
      Tally.spawned, Tally.thread, before]
    omega
  · have fewer := Rtl.Ws.reading.tasks_tearDown step
    simp only [Tally.Pays, CallMove.toMove, output, fresh, ClientOutput.opens, Tally.spawned,
      Tally.thread, after]
    omega

theorem connectStep_follows {pc : ConnectPc} {threads : List ClientThread} {self : Nat}
    (h : connectStep s.shared threads self pc = some m') :
    Follows s ⟨body, some (.connect pc)⟩ (m'.toMove body) := by
  cases pc with
  | loadAlive | loadClosing =>
      cases h
      refine of_call rfl rfl (fun _ => rfl) ?_ ?_ <;> split <;> exact Nat.le_refl _
  | casStarted =>
      simp only [connectStep] at h
      split at h <;> cases h <;> exact of_call rfl rfl (fun _ => rfl) (Nat.le_refl _) (Nat.le_refl _)
  | tearDown pc =>
      simp only [connectStep] at h
      split at h
      · cases h
      · rename_i step
        cases h
        exact of_tearDown step rfl rfl rfl rfl
      · rename_i step
        cases h
        exact of_tearDown step rfl rfl rfl rfl
  | newContext =>
      cases h
      refine ⟨by simp [CallMove.toMove, ClientOutput.makes], ?_, ?_⟩
      · have same := Rtl.Ws.connecting.tasks_newContext s.shared s.shared.contexts.length
        simp only [Tally.Pays, CallMove.toMove, same, ClientOutput.opens, ClientOutput.makes]
        exact Nat.le_of_eq (Nat.add_right_comm _ _ _)
      · have same := Rtl.Ws.reading.tasks_newContext s.shared s.shared.contexts.length
        simp only [Tally.Pays, CallMove.toMove, same, ClientOutput.opens]
        exact Nat.le_refl _
  | clearConnected | clearClosing | clearHeartbeatStop =>
      cases h
      exact of_call rfl rfl (fun _ => rfl) (Nat.le_refl _) (Nat.le_refl _)
  | startIo =>
      simp only [connectStep] at h
      split at h
      · cases h
      · cases h
        refine ⟨rfl, ?_, ?_⟩
        · exact Nat.le_refl _
        · exact Nat.le_refl _
  | postResolve =>
      cases h
      exact of_addTask rfl rfl rfl (Nat.le_refl _) (Nat.le_refl _)

theorem closeStep_follows {pc : ClosePc} {threads : List ClientThread} {self : Nat}
    (h : closeStep s.shared threads self pc = some m') :
    Follows s ⟨body, some (.close pc)⟩ (m'.toMove body) := by
  cases pc with
  | exchange =>
      simp only [closeStep] at h
      split at h
      · cases h
        exact ⟨rfl, Nat.le_refl _, Nat.le_refl _⟩
      · cases h
        exact of_call rfl rfl (fun _ => rfl) (Nat.le_refl _) (Nat.le_refl _)
  | clearAlive | clearConnected | setHeartbeatStop | clearAutoReconnect | clearScheduled =>
      cases h
      exact of_call rfl rfl (fun _ => rfl) (Nat.le_refl _) (Nat.le_refl _)
  | postClose =>
      cases h
      exact of_addTask rfl rfl rfl (Nat.le_refl _) (Nat.le_refl _)
  | tearDown pc =>
      simp only [closeStep] at h
      split at h
      · cases h
      · rename_i step
        cases h
        exact of_tearDown step rfl rfl rfl rfl
      · rename_i step
        cases h
        refine ⟨length_tearDown step, ?_, ?_⟩
        · exact Nat.add_le_add_right (Rtl.Ws.connecting.tasks_tearDown step) _
        · exact Nat.add_le_add_right (Rtl.Ws.reading.tasks_tearDown step) _

theorem sendStep_follows {task : IoTask} {pc : SendPc} :
    Follows s ⟨body, some (.send task pc)⟩ ((sendStep s.shared task pc).toMove body) := by
  cases pc with
  | loadConnected | loadClosing =>
      refine of_call rfl rfl (fun _ => rfl) ?_ ?_ <;> simp only [sendStep] <;> split <;>
        first | exact Nat.le_refl _ | exact Nat.zero_le _
  | post => exact of_addTask rfl rfl rfl (Nat.le_of_eq (by rfl)) (Nat.le_of_eq (by rfl))

theorem callStep_follows {threads : List ClientThread} {self : Nat}
    (h : callStep s.shared threads self call = some m') :
    Follows s ⟨body, some call⟩ (m'.toMove body) := by
  cases call with
  | connect pc => exact connectStep_follows h
  | close pc => exact closeStep_follows h
  | send task pc =>
      cases h
      exact sendStep_follows

/-! ### Threads -/

/-- A thread without a call goes on without one. -/
theorem of_body {body' : ThreadBody} (contexts : m.shared.contexts = s.shared.contexts)
    (output : m.output = .silent) (fresh : ∀ w : Tally, w.spawned m.spawn = 0)
    (thread : m.thread = ⟨body', none⟩)
    (before : Rtl.Ws.connecting.body body' ≤ Rtl.Ws.connecting.body body)
    (after : Rtl.Ws.reading.body body' ≤ Rtl.Ws.reading.body body) : Follows s ⟨body, none⟩ m := by
  refine of_quiet contexts output fresh ?_ ?_
  · rw [thread]
    exact Nat.add_le_add_right before _
  · rw [thread]
    exact Nat.add_le_add_right after _

theorem handlerStep_follows {c : Nat} {pc : HandlerPc} {threads : List ClientThread}
    (h : handlerStep s.shared threads c pc = some m) : Follows s ⟨.io c pc, none⟩ m := by
  cases pc with
  | idle => cases h
  | setConnected | clearConnected | leaving =>
      cases h
      exact of_body rfl rfl (fun _ => rfl) rfl (Nat.le_of_ble_eq_true rfl) (Nat.le_of_ble_eq_true rfl)
  | openHandler =>
      cases h
      exact ⟨rfl, Nat.le_of_eq rfl, Nat.le_of_eq rfl⟩
  | callback after =>
      cases h
      refine of_body rfl rfl (fun _ => rfl) rfl ?_ ?_ <;> cases after <;> exact Nat.le_refl _
  | loadHeartbeatEnabled =>
      cases h
      refine of_body rfl rfl (fun _ => rfl) rfl ?_ ?_ <;> split <;> exact Nat.le_refl _
  | checkClosing | loadAutoReconnect | loadClosing | loadAlive =>
      cases h
      refine of_body rfl rfl (fun _ => rfl) rfl ?_ ?_ <;> split <;>
        first | exact Nat.le_refl _ | exact Nat.zero_le _
  | startHeartbeat =>
      simp only [handlerStep] at h
      split at h <;> cases h <;>
        exact of_body rfl rfl (fun _ => rfl) rfl (Nat.le_refl _) (Nat.le_refl _)
  | startRead =>
      cases h
      exact of_addTask rfl rfl rfl (Nat.le_refl _) (Nat.le_refl _)
  | casScheduled =>
      simp only [handlerStep] at h
      split at h <;> cases h <;>
        exact of_body rfl rfl (fun _ => rfl) rfl (Nat.le_refl _) (Nat.le_refl _)
  | spawnReconnect =>
      cases h
      exact of_body rfl rfl (fun _ => rfl) rfl (Nat.le_refl _) (Nat.le_refl _)

theorem reconnectStep_follows {pc : ReconnectPc} :
    Follows s ⟨.reconnect pc, none⟩ (reconnectStep s.shared pc) := by
  cases pc <;> exact of_quiet rfl rfl (fun _ => rfl) (Nat.le_refl _) (Nat.le_refl _)

theorem heartbeatStep_follows {pc : HeartbeatPc} :
    Follows s ⟨.heartbeat pc, none⟩ (heartbeatStep s.shared pc) := by
  cases pc with
  | sleeping => exact of_quiet rfl rfl (fun _ => rfl) (Nat.le_refl _) (Nat.le_refl _)
  | loadStop | loadAlive | loadConnected | loadClosing | loadStopAgain =>
      refine of_quiet rfl rfl (fun _ => rfl) ?_ ?_ <;> simp only [heartbeatStep] <;> split <;>
        exact Nat.le_refl _

theorem bodyStep_follows {threads : List ClientThread} (h : bodyStep s.shared threads body = some m) :
    Follows s ⟨body, none⟩ m := by
  cases body with
  | user | finished => cases h
  | starting =>
      obtain ⟨c, _, rfl⟩ := Option.map_eq_some_iff.mp h
      exact of_quiet rfl rfl (fun _ => rfl) (Nat.le_refl _) (Nat.le_refl _)
  | io c pc => exact handlerStep_follows h
  | reconnect pc =>
      cases h
      exact reconnectStep_follows
  | heartbeat pc =>
      cases h
      exact heartbeatStep_follows

/-- A handler that starts leaves the context alone or gives it one more task; with its place it counts
for no more than the task that was taken out for it. -/
theorem startTask_cases (shared : ClientShared) (result : Option ClientError) (more : Bool)
    (task : IoTask) :
    (∃ pc, startTask shared result more task = (shared, pc) ∧
      ∀ w ∈ [Rtl.Ws.connecting, Rtl.Ws.reading], w.handler pc ≤ w.task task) ∨
    ∃ added pc, startTask shared result more task = (shared.addTask added, pc) ∧
      ∀ w ∈ [Rtl.Ws.connecting, Rtl.Ws.reading], w.task added + w.handler pc ≤ w.task task := by
  have keeps (pc : HandlerPc) (task : IoTask)
      (le : Rtl.Ws.connecting.handler pc ≤ Rtl.Ws.connecting.task task)
      (le' : Rtl.Ws.reading.handler pc ≤ Rtl.Ws.reading.task task) :
      ∀ w ∈ [Rtl.Ws.connecting, Rtl.Ws.reading], w.handler pc ≤ w.task task := by
    simp [le, le']
  have adds (added task : IoTask)
      (le : Rtl.Ws.connecting.task added ≤ Rtl.Ws.connecting.task task)
      (le' : Rtl.Ws.reading.task added ≤ Rtl.Ws.reading.task task) :
      ∀ w ∈ [Rtl.Ws.connecting, Rtl.Ws.reading], w.task added + w.handler .idle ≤ w.task task := by
    intro w mem
    simp only [List.mem_cons, List.not_mem_nil, or_false] at mem
    rcases mem with rfl | rfl
    · exact le
    · exact le'
  cases task with
  | doResolve | asyncClose => exact .inr ⟨_, _, rfl, adds _ _ (by decide) (by decide)⟩
  | sendPing =>
      simp only [startTask]
      split
      · exact .inl ⟨_, rfl, keeps _ _ (by decide) (by decide)⟩
      · exact .inr ⟨_, _, rfl, adds _ _ (by decide) (by decide)⟩
  | sendText =>
      simp only [startTask]
      split
      · exact .inl ⟨_, rfl, keeps _ _ (by decide) (by decide)⟩
      · split
        · exact .inr ⟨_, _, rfl, adds _ _ (by decide) (by decide)⟩
        · exact .inl ⟨_, rfl, keeps _ _ (by decide) (by decide)⟩
  | onResolve | onConnect =>
      cases result with
      | none => exact .inr ⟨_, _, rfl, adds _ _ (by decide) (by decide)⟩
      | some ec => exact .inl ⟨_, rfl, keeps _ _ (Nat.zero_le _) (Nat.zero_le _)⟩
  | onHandshake =>
      cases result with
      | none => exact .inl ⟨_, rfl, keeps _ _ (by decide) (by decide)⟩
      | some ec => exact .inl ⟨_, rfl, keeps _ _ (Nat.zero_le _) (Nat.zero_le _)⟩
  | onRead | onPing | onClose =>
      cases result with
      | none => exact .inl ⟨_, rfl, keeps _ _ (by decide) (by decide)⟩
      | some ec => cases ec <;> exact .inl ⟨_, rfl, keeps _ _ (by decide) (by decide)⟩
  | onWrite =>
      have writes : (∃ pc, (if (more && !shared.closing) = true then shared.addTask .onWrite else shared,
          HandlerPc.idle) = (shared, pc) ∧
            ∀ w ∈ [Rtl.Ws.connecting, Rtl.Ws.reading], w.handler pc ≤ w.task .onWrite) ∨
          ∃ added pc, (if (more && !shared.closing) = true then shared.addTask .onWrite else shared,
            HandlerPc.idle) = (shared.addTask added, pc) ∧
            ∀ w ∈ [Rtl.Ws.connecting, Rtl.Ws.reading], w.task added + w.handler pc ≤
              w.task .onWrite := by
        split
        · exact .inr ⟨_, _, rfl, adds _ _ (by decide) (by decide)⟩
        · exact .inl ⟨_, rfl, keeps _ _ (by decide) (by decide)⟩
      cases result with
      | none => exact writes
      | some ec =>
          cases ec with
          | aborted => exact writes
          | closed | other => exact .inl ⟨_, rfl, keeps _ _ (by decide) (by decide)⟩

theorem startTask_pays (shared : ClientShared) (result : Option ClientError) (more : Bool)
    (task : IoTask) :
    (startTask shared result more task).1.contexts.length = shared.contexts.length ∧
    ∀ w ∈ [Rtl.Ws.connecting, Rtl.Ws.reading],
      w.tasks (startTask shared result more task).1 + w.handler (startTask shared result more task).2 ≤
        w.tasks shared + w.task task := by
  rcases startTask_cases shared result more task with ⟨pc, same, less⟩ | ⟨added, pc, same, less⟩
  · rw [same]
    exact ⟨rfl, fun w mem => Nat.add_le_add_left (less w mem) _⟩
  · rw [same]
    refine ⟨length_addTask shared added, ?_⟩
    intro w mem
    have more := w.tasks_addTask shared added
    have bound := less w mem
    simp only
    omega

theorem runTask_follows {i : Nat} {result : Option ClientError} {more : Bool}
    (h : s.runTask th i result more = some m) : Follows s th m := by
  unfold WsClient.runTask at h
  split at h
  · rename_i c
    split at h
    · cases h
    · rename_i context found
      split at h
      · cases h
      · split at h
        · cases h
        · rename_i task at_i
          cases h
          obtain ⟨length, pays⟩ := startTask_pays { s.shared with
            contexts := s.shared.contexts.set c { context with tasks := context.tasks.eraseIdx i } }
            result more task
          refine ⟨length.trans (by simp [ClientOutput.makes]), ?_, ?_⟩
          · have taken := Rtl.Ws.connecting.tasks_take found at_i
            have less := pays Rtl.Ws.connecting (by simp)
            simp only [Tally.Pays, Tally.thread, Tally.body, Tally.calls, Tally.spawned,
              ClientOutput.opens, ClientOutput.makes] at taken less ⊢
            omega
          · have taken := Rtl.Ws.reading.tasks_take found at_i
            have less := pays Rtl.Ws.reading (by simp)
            simp only [Tally.Pays, Tally.thread, Tally.body, Tally.calls, Tally.spawned,
              ClientOutput.opens] at taken less ⊢
            omega
  · cases h

theorem of_move {e : ClientEvent} (h : s.move th e = some m) : Follows s th m := by
  obtain ⟨body, call⟩ := th
  cases e with
  | newThread => cases h
  | begin u called =>
      simp only [WsClient.move] at h
      split at h
      · rename_i program
        obtain ⟨_, rfl⟩ := program
        cases h
        cases called <;> exact of_quiet rfl rfl (fun _ => rfl) (Nat.le_refl _) (Nat.le_refl _)
      · cases h
  | enableAutoReconnect u enable | enableHeartbeat u enable =>
      simp only [WsClient.move] at h
      split at h
      · cases h
        exact of_quiet rfl rfl (fun _ => rfl) (Nat.le_refl _) (Nat.le_refl _)
      · cases h
  | step u =>
      simp only [WsClient.move, WsClient.step] at h
      cases call with
      | none => exact bodyStep_follows h
      | some call =>
          obtain ⟨m, step, rfl⟩ := Option.map_eq_some_iff.mp h
          exact callStep_follows step
  | runTask u i result more => exact runTask_follows h
  | exitIo u | throwIo u =>
      simp only [WsClient.move] at h
      split at h
      · cases h
        exact of_quiet rfl rfl (fun _ => rfl) (Nat.zero_le _) (Nat.zero_le _)
      · cases h

end Follows

/-! ## In every run -/

def WsClient.reads (s : WsClient) : Nat := (s.shared.contexts.map fun c => c.tasks.count .onRead).sum

def openCalls (ts : List (Transition WsClient ClientEvent ClientOutput)) : Nat :=
  ts.countP fun t => t.output == .openHandler

theorem reading_context (c : IoContext) : reading.context c = c.tasks.count .onRead := by
  obtain ⟨stopped, tasks⟩ := c
  unfold Tally.context
  induction tasks with
  | nil => rfl
  | cons task rest ih =>
      simp only [List.map_cons, List.sum_cons, List.count_cons] at ih ⊢
      rw [ih, Nat.add_comm]
      cases task <;> rfl

theorem WsClient.reads_le (s : WsClient) : s.reads ≤ reading.total s := by
  have same : s.reads = reading.tasks s.shared := by
    unfold WsClient.reads Tally.tasks
    congr 2
    funext c
    exact (reading_context c).symm
  unfold Tally.total
  omega

theorem openCalls_snoc (ts : List (Transition WsClient ClientEvent ClientOutput))
    (t : Transition WsClient ClientEvent ClientOutput) :
    openCalls (ts ++ [t]) = openCalls ts + t.output.opens := by
  unfold openCalls
  rw [List.countP_append, List.countP_singleton]
  cases t.output <;> rfl

/-- The chains that have not called the open handler and the calls of it are no more than the contexts;
those that have called it are no more than its calls. -/
theorem chains_run {s₀ s : WsClient} {ts : List (Transition WsClient ClientEvent ClientOutput)}
    (init : clientMachine.init s₀) (run : clientMachine.Run s₀ ts s) :
    connecting.total s + openCalls ts ≤ s.shared.contexts.length ∧ reading.total s ≤ openCalls ts := by
  refine run.history (H := fun ts s => connecting.total s + openCalls ts ≤ s.shared.contexts.length ∧
    reading.total s ≤ openCalls ts) ?_ ?_
  · have first : s₀ = .start := init
    rw [first]
    exact ⟨Nat.le_refl _, Nat.le_refl _⟩
  · intro ts s e t o held h
    rw [openCalls_snoc]
    rcases next_cases h with ⟨rfl, rfl⟩ | ⟨u, th, m, _, found, moved, rfl, rfl⟩
    · have idle (w : Tally) : w.total { s with threads := s.threads ++ [⟨.user, none⟩] } =
        w.total s := by
        simp [Tally.total, Tally.thread, Tally.body, Tally.calls]
      rw [idle, idle]
      exact held
    · have follows := Follows.of_move moved
      have before := connecting.total_apply found follows.connecting
      have after := reading.total_apply found follows.reading
      have contexts : (s.apply u m).shared.contexts.length = _ := follows.contexts
      simp only [contexts]
      omega

/-- In every run, whichever calls of `connect` and reconnects overlap, there are at most as many reads
outstanding as there were calls of the open handler, and no more of these than contexts were made. These
are totals: where two calls of `connect` overlap, both may go on with the later context. -/
theorem client_reads_follow_opens {s₀ s : WsClient}
    {ts : List (Transition WsClient ClientEvent ClientOutput)} (init : clientMachine.init s₀)
    (run : clientMachine.Run s₀ ts s) :
    s.reads ≤ openCalls ts ∧ openCalls ts ≤ s.shared.contexts.length := by
  obtain ⟨before, after⟩ := chains_run init run
  have outstanding := s.reads_le
  omega

def firstRead : List ClientEvent :=
  [.newThread, .begin 0 .connect] ++ List.replicate 12 (.step 0) ++ [.step 1] ++
    List.replicate 4 (.runTask 1 0 none false) ++ List.replicate 5 (.step 1)

theorem client_reads_follow_opens_firstRead :
    ∃ ts s, clientMachine.exec .start firstRead = some (ts, s) ∧ s.reads = 1 ∧
      s.reads ≤ openCalls ts ∧ openCalls ts ≤ s.shared.contexts.length := by
  have h : clientMachine.exec .start firstRead = some (_, _) := rfl
  exact ⟨_, _, h, rfl, client_reads_follow_opens rfl (.of_exec h)⟩

end Rtl.Ws
