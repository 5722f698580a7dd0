import Rtl.Stp.Queue

/-! # Callables of the thread pool: put calls, queue and worker loops

The part of `ThreadPool` that moves callables. A `put` call gives its callable a
fresh number, loads the pool state, and hands the closure to the task queue as the
rejection policy says; a worker takes closures out and runs them. Each access to
the pool state and each critical section of the queue is a step. What happens to a
callable is reported in notes, from which its history is read.

A call made by a running callable keeps that callable from finishing, so a task
that blocks in its own `put` blocks its worker.
-/

namespace Rtl.Stp

open Rtl.Base

inductive RejectionPolicy where
  | throwException
  | block
  | blockFor
  | callerRuns
  deriving Repr, DecidableEq

structure ThreadPoolOptions where
  workersCount : Nat := 6
  maxWorkers : Nat := 20
  maxPeriodicTasks : Nat := 10
  maxQueueSize : Nat := 0
  rejectionPolicy : RejectionPolicy := .throwException
  enqueueTimeoutMs : Nat := 0
  deriving Repr, DecidableEq

def ThreadPoolOptions.setupThreads (opt : ThreadPoolOptions) : ThreadPoolOptions :=
  { opt with
    workersCount := max 1 opt.workersCount
    maxWorkers := max opt.maxWorkers (max 1 opt.workersCount)
    maxPeriodicTasks := max 1 opt.maxPeriodicTasks }

/-! ## Errors -/

inductive ErrorCode where
  | unknown
  | poolStopped
  | taskRejected
  | queueClosed
  | queueFull
  | invalidPoolOptions
  deriving Repr, DecidableEq

structure ThreadPoolError where
  code : ErrorCode
  what : String
  deriving Repr, DecidableEq

def threadPoolStopped : ThreadPoolError := ⟨.poolStopped, "Thread pool is stopped"⟩

def taskRejected (message : String := "Task rejected") : ThreadPoolError :=
  ⟨.taskRejected, message⟩

def queueFull : ThreadPoolError := ⟨.queueFull, "Queue is full"⟩

/-! ## Threads -/

/-- Who calls `put`: a thread outside the pool, a running callable, or the
callback of a periodic worker. -/
inductive Caller where
  | outside
  | task (c : Nat)
  | periodic (i : Nat)
  deriving Repr, DecidableEq

/-- A put call that has read `running`, is inside a waiting queue operation, or
runs its own callable. -/
inductive PutPhase where
  | loaded
  | queued
  | inline
  deriving Repr, DecidableEq

structure PutCall where
  task : Nat
  caller : Caller
  phase : PutPhase
  deriving Repr, DecidableEq

def PutCall.isAt (k : PutCall) (c : Nat) (phase : PutPhase) : Bool :=
  k.task == c && k.phase == phase

/-- Where the loop of `add_thread` stands; `taking` is inside the wait of `tryTake`. -/
inductive WorkerPc where
  | looping
  | taking
  | holding (c : Nat)
  | running (c : Nat)
  | exited
  deriving Repr, DecidableEq

inductive NoteKind where
  | enqueued
  | future
  | threw (error : ThreadPoolError)
  | started
  | finished
  deriving Repr, DecidableEq

structure Note where
  task : Nat
  kind : NoteKind
  deriving Repr, DecidableEq

structure Tasks where
  queue : QueueState (List Nat) Nat Nat
  workers : List WorkerPc
  calls : List PutCall
  nextTask : Nat
  deriving Repr, DecidableEq

inductive TaskEvent where
  | submit (c pick : Nat)
  | producerWakes (k : Nat)
  | producerResumes (cause : Cause) (k : Nat) (timedOut : Bool) (pick : Nat)
  | finishInline (c : Nat)
  | take (w : Nat)
  | takerWakes (k : Nat)
  | takerResumes (cause : Cause) (k : Nat) (timedOut : Bool)
  | notifyNotFull (pick : Nat)
  | start (w : Nat)
  | finish (w : Nat)
  deriving Repr, DecidableEq

namespace Tasks

def start (opt : ThreadPoolOptions) : Tasks where
  queue := .start (dequeOps Nat).toContainer opt.maxQueueSize
  workers := List.replicate opt.workersCount .looping
  calls := []
  nextTask := 0

def calling (s : Tasks) (c : Nat) : Bool := s.calls.any fun k => k.caller == .task c

def mayCall (s : Tasks) : Caller → Bool
  | .outside => true
  | .task c => (s.workers.contains (.running c) || s.calls.any (·.isAt c .inline)) && !s.calling c
  | .periodic i => !s.calls.any fun k => k.caller == .periodic i

def put (s : Tasks) (caller : Caller) (running : Bool) : Option (Tasks × List Note) :=
  if s.mayCall caller then
    if running then
      some ({ s with
        calls := ⟨s.nextTask, caller, .loaded⟩ :: s.calls
        nextTask := s.nextTask + 1 }, [])
    else some ({ s with nextTask := s.nextTask + 1 }, [⟨s.nextTask, .threw threadPoolStopped⟩])
  else none

def putEvent (c pick : Nat) : RejectionPolicy → QueueEvent Nat Nat
  | .throwException => .put c pick
  | .block => .putWait c pick
  | .blockFor => .putWaitFor c pick
  | .callerRuns => .put c pick

/-- How `put` ends on a result of the queue, the inline run apart. -/
def putEnd : PutResultErrorCode → List NoteKind
  | .accepted => [.enqueued, .future]
  | .closed => [.threw threadPoolStopped]
  | .full => [.threw queueFull]
  | .timeout => [.threw (taskRejected "Rejected on timeout")]

/-- Continue the put call `k`, taken off the list of calls, after a critical
section of its queue operation. Without a result the call is parked. -/
def continuePut (s : Tasks) (policy : RejectionPolicy) (k : PutCall) :
    QueueOutput Nat Nat → Tasks × List Note
  | .put _ code =>
      if policy = .callerRuns ∧ code = .full then
        ({ s with calls := { k with phase := .inline } :: s.calls }, [⟨k.task, .started⟩])
      else (s, (putEnd code).map (Note.mk k.task))
  | _ => ({ s with calls := { k with phase := .queued } :: s.calls }, [])

/-- Where the worker loop goes on a result of `tryTake`. A closure handed to the
queue is never an empty `std::function`. -/
def afterTake : TakeResult Nat → WorkerPc
  | ⟨_, .closed⟩ => .exited
  | ⟨_, .timeout⟩ => .looping
  | ⟨none, .item⟩ => .looping
  | ⟨some c, .item⟩ => .holding c

def continueTake (s : Tasks) (w : Nat) : QueueOutput Nat Nat → Tasks
  | .took _ result => { s with workers := s.workers.set w (afterTake result) }
  | _ => { s with workers := s.workers.set w .taking }

def queueStep (s : Tasks) (e : QueueEvent Nat Nat) : Option (Tasks × List Note) :=
  (s.queue.next (dequeOps Nat).toContainer e).map fun r => ({ s with queue := r.1 }, [])

def next (policy : RejectionPolicy) (s : Tasks) : TaskEvent → Option (Tasks × List Note)
  | .submit c pick =>
      match s.calls.find? (·.isAt c .loaded) with
      | none => none
      | some k =>
          (s.queue.next (dequeOps Nat).toContainer (putEvent c pick policy)).map fun r =>
            continuePut { s with queue := r.1, calls := s.calls.erase k } policy k r.2
  | .producerWakes k => s.queueStep (.producerWakes k)
  | .producerResumes cause k timedOut pick =>
      match s.queue.notFull.resume cause k with
      | none => none
      | some (p, _) =>
          match s.calls.find? (·.isAt p.item .queued) with
          | none => none
          | some call =>
              (s.queue.next (dequeOps Nat).toContainer
                (.producerResumes cause k timedOut pick)).map fun r =>
                continuePut { s with queue := r.1, calls := s.calls.erase call } policy call r.2
  | .finishInline c =>
      match s.calls.find? (·.isAt c .inline) with
      | none => none
      | some k =>
          if s.calling c then none
          else some ({ s with calls := s.calls.erase k }, [⟨c, .finished⟩, ⟨c, .future⟩])
  | .take w =>
      if s.workers[w]? = some .looping then
        (s.queue.next (dequeOps Nat).toContainer (.tryTake w)).map fun r =>
          (continueTake { s with queue := r.1 } w r.2, [])
      else none
  | .takerWakes k => s.queueStep (.takerWakes k)
  | .takerResumes cause k timedOut =>
      match s.queue.notEmpty.resume cause k with
      | none => none
      | some (t, _) =>
          (s.queue.next (dequeOps Nat).toContainer (.takerResumes cause k timedOut)).map fun r =>
            (continueTake { s with queue := r.1 } t.who r.2, [])
  | .notifyNotFull pick => s.queueStep (.notifyNotFull pick)
  | .start w =>
      match s.workers[w]? with
      | some (.holding c) =>
          some ({ s with workers := s.workers.set w (.running c) }, [⟨c, .started⟩])
      | _ => none
  | .finish w =>
      match s.workers[w]? with
      | some (.running c) =>
          if s.calling c then none
          else some ({ s with workers := s.workers.set w .looping }, [⟨c, .finished⟩])
      | _ => none

end Tasks

end Rtl.Stp
