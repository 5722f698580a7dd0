import Rtl.Base.Machine
import Rtl.Coro.Task

/-! # `sync_wait`

The thread that calls `sync_wait` makes a runner coroutine, resumes it, and waits for the
flag that the runner sets when the awaited task is done. Coroutines of the nest move to
executor threads through `schedule`. A step is one step of a coroutine on the thread that
runs it, an executor thread that takes a post, or a step of `sync_wait` itself. To destroy the
frame of a coroutine that is running is undefined: nothing is said of what follows, and a
run ends there.
-/

namespace Rtl.Coro

universe u v

/-- What `submit_fire_and_forget` does with a post. -/
inductive Submit where
  | accepted
  | refused
  | threw
  deriving Repr, DecidableEq

def ExecutorScheduler.post (scheduler : ExecutorScheduler) (answer : Submit) : Bool :=
  if scheduler.hasExecutor then
    match answer with
    | .accepted => true
    | .refused => false
    | .threw => false
  else false

/-! ## The shared state -/

inductive Party where
  | waiter
  | runner
  deriving Repr, DecidableEq

/-- `SyncWaitState`; there is no result for a `Task<void>`. -/
structure SyncWaitState (ν : Type u) (ε : Type v) where
  mtx : Option Party
  done : Bool
  result : Option ν
  exception : Option (Exn ε)

/-- Where `sync_wait_runner` is. It has the result of the awaited task from `lock` on until
it has stored it. -/
inductive RunnerPc (ν : Type u) (ε : Type v) (k : TaskKind) where
  | initial
  | awaiting
  | lock (value : Flow ν ε k false)
  | store (value : Flow ν ε k false)
  | unlock
  | notify
  | returning
  | final

/-- Where `sync_wait` is. `resuming` is the call of `runner.resume()`, `check` the predicate
of the wait; from `leave` on it has what it will return or throw. It is `undefined` once it has
destroyed a runner that was running. -/
inductive WaitPc (ν : Type u) (ε : Type v) (k : TaskKind) where
  | start
  | resuming
  | lock
  | check
  | blocked
  | leave (value : Flow ν ε k false)
  | destroyRunner (value : Flow ν ε k false)
  | destroyState (value : Flow ν ε k false)
  | returned (value : Flow ν ε k false)
  | undefined

/-- A call of `sync_wait` for a task of kind `k`. Thread 0 is the caller, the others are
executor threads. `posts` records what each post returned. -/
structure SyncWait (ν : Type u) (ε : Type v) (k : TaskKind) where
  frames : List (Frame ν ε)
  pending : List Handle
  running : List (Option Handle)
  runner : RunnerPc ν ε k
  wait : WaitPc ν ε k
  state : SyncWaitState ν ε
  runnerLive : Bool
  stateLive : Bool
  posts : List Bool

/-- A parent that suspends for a child, and a parent that goes on after a child. -/
inductive CoroOutput where
  | silent
  | awaited (parent : Handle) (child : Nat)
  | resumed (parent : Handle) (child : Nat)
  deriving Repr, DecidableEq

variable {ν : Type u} {ε : Type v} {k : TaskKind}

def RunnerPc.isFinal : RunnerPc ν ε k → Bool
  | .final => true
  | _ => false

def WaitPc.isResuming : WaitPc ν ε k → Bool
  | .resuming => true
  | _ => false

def WaitPc.isUndefined : WaitPc ν ε k → Bool
  | .undefined => true
  | _ => false

/-- `notify_one` on a caller that may be in the wait. -/
def WaitPc.notified : WaitPc ν ε k → WaitPc ν ε k
  | .blocked => .lock
  | pc => pc

namespace SyncWaitState

def start : SyncWaitState ν ε := ⟨none, false, none, none⟩

def store (state : SyncWaitState ν ε) : (k : TaskKind) → Flow ν ε k false → SyncWaitState ν ε
  | .value, .returns v => { state with result := some v, done := true }
  | .void, .returns _ => { state with done := true }
  | _, .throws e => { state with exception := some e, done := true }

/-- What `sync_wait` returns or throws after the wait. -/
def take (state : SyncWaitState ν ε) : (k : TaskKind) → Flow ν ε k false
  | .value =>
      match state.exception with
      | some e => .throws e
      | none =>
          match state.result with
          | none => .throws (.coro .emptyResult "Task completed without result")
          | some v => .returns v
  | .void =>
      match state.exception with
      | some e => .throws e
      | none => .returns ⟨⟩

end SyncWaitState

namespace SyncWait

/-- The runner holds the task, frame 0, and is suspended. There is at least one executor
thread. -/
def start (moreWorkers : Nat) (body : Body ν ε k false) : SyncWait ν ε k where
  frames := [.create body]
  pending := []
  running := List.replicate (moreWorkers + 2) none
  runner := .initial
  wait := .start
  state := .start
  runnerLive := true
  stateLive := true
  posts := []

/-! ## Coroutines -/

def setFrame (s : SyncWait ν ε k) (i : Nat) (c : TaskKind) (r : Promise ν ε × Control ν ε c) :
    SyncWait ν ε k :=
  { s with frames := s.frames.set i ⟨c, r.1, r.2⟩ }

def setRunning (s : SyncWait ν ε k) (t : Nat) (h : Option Handle) : SyncWait ν ε k :=
  { s with running := s.running.set t h }

def isDone (s : SyncWait ν ε k) : Handle → Bool
  | .runner => s.runner.isFinal
  | .frame i => s.frames[i]?.any (·.isDone)

/-- The frame of the child is destroyed with its awaiter, after `await_resume`. -/
def destroyFrame (s : SyncWait ν ε k) (i : Nat) : SyncWait ν ε k :=
  { s with frames := s.frames.modify i fun frame => ⟨frame.kind, frame.promise, .destroyed⟩ }

def setContinuation (s : SyncWait ν ε k) (i : Nat) (parent : Handle) : SyncWait ν ε k :=
  { s with
    frames := s.frames.modify i fun frame =>
      ⟨frame.kind, { frame.promise with continuation := some parent }, frame.control⟩ }

/-- `await_ready` and `await_suspend`: unless the child is done already, the thread leaves
the parent and goes on with the child. -/
def suspendFor (s : SyncWait ν ε k) (t : Nat) (parent : Handle) (child : Nat) : SyncWait ν ε k :=
  if s.isDone (.frame child) then s
  else (s.setContinuation child parent).setRunning t (some (.frame child))

def awaitChild (s : SyncWait ν ε k) (t i : Nat) {c d : TaskKind} {b : Bool} (promise : Promise ν ε)
    (child : Body ν ε d false) (next : d.Result ν → Body ν ε c b) (tries : Tries ν ε c b) :
    SyncWait ν ε k × CoroOutput :=
  let n := s.frames.length
  let awaiting : SyncWait ν ε k := s.setFrame i c (promise, .awaiting d n next tries)
  let created : SyncWait ν ε k := { awaiting with frames := awaiting.frames ++ [.create child] }
  (created.suspendFor t (.frame i) n, .awaited (.frame i) n)

def runBody (s : SyncWait ν ε k) (t i : Nat) (answer : Submit) {c : TaskKind} (promise : Promise ν ε) :
    {b : Bool} → Body ν ε c b → Tries ν ε c b → SyncWait ν ε k × CoroOutput
  | _, .coReturn result, _ => (s.setFrame i c (promise.returnResult c result, .returning), .silent)
  | _, .raise e, tries => (s.setFrame i c (throwIn promise e tries), .silent)
  | _, .finish locals, .trying _ next rest =>
      (s.setFrame i c (promise, .goesOn (next locals) rest), .silent)
  | _, .finish locals, .catching next rest =>
      (s.setFrame i c (promise, .goesOn (next locals) rest), .silent)
  | _, .tryCatch block handler next, tries =>
      (s.setFrame i c (promise, .goesOn block (.trying handler next tries)), .silent)
  | _, .coAwait child next, tries => s.awaitChild t i promise child next tries
  | _, .schedule scheduler next, tries =>
      if scheduler.post answer then
        let suspended : SyncWait ν ε k :=
          (s.setFrame i c (promise, .goesOn next tries)).setRunning t none
        ({ suspended with pending := s.pending ++ [.frame i], posts := s.posts ++ [true] }, .silent)
      else
        let thrown : SyncWait ν ε k := s.setFrame i c (throwIn promise scheduleRejected tries)
        ({ thrown with posts := s.posts ++ [false] }, .silent)

/-- One step of frame `i` on thread `t`. `final_suspend` transfers to the continuation. -/
def runFrame (s : SyncWait ν ε k) (t i : Nat) (answer : Submit) : Option (SyncWait ν ε k × CoroOutput) :=
  match s.frames[i]? with
  | none => none
  | some ⟨c, promise, control⟩ =>
      match control with
      | .goesOn body tries => some (s.runBody t i answer promise body tries)
      | .awaiting d child next tries =>
          match s.frames[child]? with
          | none => none
          | some frame =>
              let result : Flow ν ε d false := frame.promise.awaitResume d
              some ((s.setFrame i c (continueWith promise next tries result)).destroyFrame child,
                .resumed (.frame i) child)
      | .returning =>
          some ((s.setFrame i c (promise, .final)).setRunning t promise.continuation, .silent)
      | .final => none
      | .destroyed => none

/-- One step of `sync_wait_runner`. Its task is frame 0; its own promise never has a
continuation, so that the thread leaves it at `final_suspend`. -/
def runRunner (s : SyncWait ν ε k) (t : Nat) : Option (SyncWait ν ε k × CoroOutput) :=
  match s.runner with
  | .initial =>
      let suspended : SyncWait ν ε k := { s with runner := .awaiting }
      some (suspended.suspendFor t .runner 0, .awaited .runner 0)
  | .awaiting =>
      match s.frames[0]? with
      | none => none
      | some frame =>
          let resumed : SyncWait ν ε k := { s with runner := .lock (frame.promise.awaitResume k) }
          some (resumed.destroyFrame 0, .resumed .runner 0)
  | .lock value =>
      match s.state.mtx with
      | some _ => none
      | none =>
          some ({ s with state := { s.state with mtx := some .runner }, runner := .store value },
            .silent)
  | .store value => some ({ s with state := s.state.store k value, runner := .unlock }, .silent)
  | .unlock => some ({ s with state := { s.state with mtx := none }, runner := .notify }, .silent)
  | .notify => some ({ s with wait := s.wait.notified, runner := .returning }, .silent)
  | .returning => some (({ s with runner := .final } : SyncWait ν ε k).setRunning t none, .silent)
  | .final => none

/-! ## The caller -/

/-- One step of `sync_wait`. The lock is released, the runner destroyed and the state
destroyed in this order when it returns or throws; only a runner at its final suspension
may be destroyed. -/
def stepWait (s : SyncWait ν ε k) : Option (SyncWait ν ε k × CoroOutput) :=
  match s.wait with
  | .start =>
      let called : SyncWait ν ε k := { s with wait := .resuming }
      some (if s.isDone .runner then called else called.setRunning 0 (some .runner), .silent)
  | .resuming => if s.running[0]? = some none then some ({ s with wait := .lock }, .silent) else none
  | .lock =>
      match s.state.mtx with
      | some _ => none
      | none => some ({ s with state := { s.state with mtx := some .waiter }, wait := .check }, .silent)
  | .check =>
      if s.state.done then some ({ s with wait := .leave (s.state.take k) }, .silent)
      else some ({ s with state := { s.state with mtx := none }, wait := .blocked }, .silent)
  | .blocked => none
  | .leave value =>
      some ({ s with state := { s.state with mtx := none }, wait := .destroyRunner value }, .silent)
  | .destroyRunner value =>
      let pc : WaitPc ν ε k := if s.isDone .runner then .destroyState value else .undefined
      some ({ s with runnerLive := false, wait := pc }, .silent)
  | .destroyState value => some ({ s with stateLive := false, wait := .returned value }, .silent)
  | .returned _ => none
  | .undefined => none

/-- An executor thread takes a post. An executor that runs a post inside `submit` runs it on
the thread of the coroutine that posts. -/
def execute (s : SyncWait ν ε k) (t j : Nat) : Option (SyncWait ν ε k × CoroOutput) :=
  match s.running[t]? == some none && (t != 0 || s.wait.isResuming), s.pending[j]? with
  | true, some h =>
      let taken : SyncWait ν ε k := { s with pending := s.pending.eraseIdx j }
      some (if s.isDone h then taken else taken.setRunning t (some h), .silent)
  | _, _ => none

end SyncWait

/-! ## The whole system -/

/-- `run` is a step of the coroutine on a thread; `answer` is what the executor does if
the step is a post. `wake` is a spurious wake-up of the caller. -/
inductive CoroEvent where
  | run (t : Nat) (answer : Submit)
  | execute (t j : Nat)
  | wait
  | wake
  deriving Repr, DecidableEq

namespace SyncWait

def step (s : SyncWait ν ε k) : CoroEvent → Option (SyncWait ν ε k × CoroOutput)
  | .run t answer =>
      match s.running[t]? with
      | some (some .runner) => s.runRunner t
      | some (some (.frame i)) => s.runFrame t i answer
      | _ => none
  | .execute t j => s.execute t j
  | .wait => s.stepWait
  | .wake =>
      match s.wait with
      | .blocked => some ({ s with wait := .lock }, .silent)
      | _ => none

def next (s : SyncWait ν ε k) (e : CoroEvent) : Option (SyncWait ν ε k × CoroOutput) :=
  if s.wait.isUndefined then none else s.step e

end SyncWait

def coroMachine (ν : Type u) (ε : Type v) (k : TaskKind) :
    Rtl.Base.Machine (SyncWait ν ε k) CoroEvent CoroOutput where
  init s := ∃ moreWorkers body, s = SyncWait.start moreWorkers body
  next := SyncWait.next

end Rtl.Coro
