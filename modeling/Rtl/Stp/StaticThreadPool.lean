import Rtl.Base.Machine
import Rtl.Base.CondVar

/-! # The static thread pool

The older pool: workers take tasks from an `UnboundedMPMCQueue` until a flag is set or an empty
task comes. `joinAll` sets the flag, puts one empty task for each worker and joins them. Each
critical section of the queue and each access to the flag is a step. A task that runs may put
further tasks; it is assumed to return and not to throw. `joinAll` is called from outside the pool,
by one thread at a time.
-/

namespace Rtl.Stp

open Rtl.Base

inductive StaticWorkerAt where
  | check
  | recheck
  | lookEmpty
  | take
  | asleep
  | running (task : Nat)
  | done
  deriving Repr, DecidableEq

/-- Where a call of `joinAll` is; `put` counts the empty tasks still to put, `join` is at a thread. -/
inductive JoinAt where
  | idle
  | release
  | put (left : Nat)
  | join (k : Nat)
  | joined
  deriving Repr, DecidableEq

/-- An entry of the buffer is a task or empty. `vector` is the size of `m_workers`. -/
structure StaticThreadPool where
  threadCount : Nat
  buffer : List (Option Nat)
  notEmpty : CondVar Nat
  workers : List StaticWorkerAt
  releaseAllWorkers : Bool
  vector : Nat
  joiner : JoinAt
  deriving Repr, DecidableEq

inductive StaticPoolEvent where
  | put (task : Option Nat) (pick : Nat)
  | joinAll
  | joinStep (pick : Nat)
  | worker (w : Nat)
  | wake (k : Nat)
  | resume (cause : Cause) (k : Nat)
  deriving Repr, DecidableEq

inductive StaticPoolOutput where
  | silent
  | put (item : Option Nat)
  | took (item : Option Nat)
  deriving Repr, DecidableEq

namespace StaticThreadPool

def start (threadCount : Nat) : StaticThreadPool where
  threadCount := threadCount
  buffer := []
  notEmpty := .empty
  workers := List.replicate threadCount .check
  releaseAllWorkers := false
  vector := threadCount
  joiner := .idle

/-- `UnboundedMPMCQueue::put` notifies under the lock. -/
def put (s : StaticThreadPool) (item : Option Nat) (pick : Nat) : StaticThreadPool :=
  { s with buffer := s.buffer ++ [item], notEmpty := s.notEmpty.notifyOne pick }

def setWorker (s : StaticThreadPool) (w : Nat) (at_ : StaticWorkerAt) : StaticThreadPool :=
  { s with workers := s.workers.set w at_ }

/-- An empty task ends the worker. -/
def withTask : Option Nat → StaticWorkerAt
  | none => .done
  | some task => .running task

/-- `take` with the lock in hand: wait, or remove the front entry. -/
def take (s : StaticThreadPool) (w : Nat) : StaticThreadPool × StaticPoolOutput :=
  match s.buffer with
  | [] => ({ s with notEmpty := s.notEmpty.park w }.setWorker w .asleep, .silent)
  | item :: rest => ({ s with buffer := rest }.setWorker w (withTask item), .took item)

def workerStep (s : StaticThreadPool) (w : Nat) :
    StaticWorkerAt → Option (StaticThreadPool × StaticPoolOutput)
  | .check => some (s.setWorker w (if s.releaseAllWorkers then .done else .recheck), .silent)
  | .recheck => some (s.setWorker w (if s.releaseAllWorkers then .lookEmpty else .take), .silent)
  | .lookEmpty => some (s.setWorker w (if s.buffer.isEmpty then .done else .take), .silent)
  | .take => some (s.take w)
  | .asleep => none
  | .running _ => some (s.setWorker w .check, .silent)
  | .done => none

/-- A thread is joined once it has returned; after the last one the vector is cleared. -/
def joinStep (s : StaticThreadPool) (pick : Nat) :
    JoinAt → Option (StaticThreadPool × StaticPoolOutput)
  | .idle => none
  | .release => some ({ s with releaseAllWorkers := true, joiner := .put s.threadCount }, .silent)
  | .put (left + 1) => some ({ s.put none pick with joiner := .put left }, .put none)
  | .put 0 => some ({ s with joiner := .join 0 }, .silent)
  | .join k =>
      if k < s.vector then
        if s.workers[k]? = some .done then some ({ s with joiner := .join (k + 1) }, .silent) else none
      else some ({ s with vector := 0, joiner := .joined }, .silent)
  | .joined => none

/-- `joinAll` is not called while a call of it is in progress. -/
def next (s : StaticThreadPool) : StaticPoolEvent → Option (StaticThreadPool × StaticPoolOutput)
  | .put task pick => some (s.put task pick, .put task)
  | .joinAll =>
      if s.joiner = .idle ∨ s.joiner = .joined then some ({ s with joiner := .release }, .silent)
      else none
  | .joinStep pick => s.joinStep pick s.joiner
  | .worker w =>
      match s.workers[w]? with
      | none => none
      | some at_ => s.workerStep w at_
  | .wake k => (s.notEmpty.wake k).map fun cv => ({ s with notEmpty := cv }, .silent)
  | .resume cause k =>
      match s.notEmpty.resume cause k with
      | none => none
      | some (w, cv) => some ({ s with notEmpty := cv }.take w)

end StaticThreadPool

def staticPoolMachine (threadCount : Nat) :
    Machine StaticThreadPool StaticPoolEvent StaticPoolOutput where
  init s := s = .start threadCount
  next := StaticThreadPool.next

end Rtl.Stp
