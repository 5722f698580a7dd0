import Rtl.Stp.TaskLedger

/-! # The thread pool

The pool state, the two mutexes, the calls of `shutdown_graceful` and `join`, and
the periodic workers, on top of the callables. A closing call keeps its place in
the list of calls after it has returned, so that a mutex can name its owner. The
critical sections that consist of one access to shared data are single steps;
those of `shutdown_graceful` and of the stopping loop of `join` are not, since
unlocked code of other threads runs between their accesses.
-/

namespace Rtl.Stp

open Rtl.Base

inductive PoolState where
  | running
  | stopping
  | stopped
  deriving Repr, DecidableEq

/-- `shutdown_graceful` up to `notifyNotFull`, then the rest of `join`. -/
inductive CloserPhase where
  | lock
  | store
  | notify
  | close
  | notifyNotEmpty
  | notifyNotFull
  | joinLock
  | joinPeriodic (i : Nat)
  | joinActive (i : Nat)
  | stop
  | leave
  | returned
  deriving Repr, DecidableEq

/-- A call of `shutdown_graceful` or, when `join`, of `join`. -/
structure Closer where
  join : Bool
  phase : CloserPhase
  deriving Repr, DecidableEq

/-- Where the loop of `add_periodic_thread` stands; `sleeping` is inside its wait, and
`starting` between the second load of the pool state and the call of the callback. -/
inductive PeriodicPc where
  | top
  | locking
  | sleeping
  | checking
  | starting
  | invoking
  | exited
  deriving Repr, DecidableEq

structure Pool where
  poolState : PoolState
  tasks : Tasks
  /-- The owner of `m_mtx` between two steps. -/
  mtx : Option Nat
  /-- The owner of `m_joinMtx`. -/
  joinMtx : Option Nat
  closers : List Closer
  /-- Whether the thread objects of `m_activeWorkers` are joinable. -/
  joinable : List Bool
  periodic : List PeriodicPc
  periodicJoinable : List Bool
  cv : CondVar Nat
  periodicCount : Nat
  deriving Repr, DecidableEq

inductive PoolEvent where
  | put (caller : Caller)
  | shutdownGraceful
  | join
  | putPeriodic (intervalMs : Nat)
  | task (e : TaskEvent)
  | closer (k : Nat)
  | periodicTop (i : Nat)
  | periodicLock (i : Nat)
  | periodicWakes (k : Nat)
  | periodicResumes (cause : Cause) (k : Nat) (timedOut : Bool)
  | periodicCheck (i : Nat)
  | periodicStart (i : Nat)
  | periodicFinish (i : Nat) (throws : Bool)
  deriving Repr, DecidableEq

inductive PoolOutput where
  | silent
  | notes (log : List Note)
  | shutdownReturned
  | joinReturned
  | periodicRefused (error : ThreadPoolError)
  | periodicStarted (i : Nat)
  | periodicFinished (i : Nat)
  deriving Repr, DecidableEq

/-- A call from outside, as opposed to the next step of a thread at work. -/
def PoolEvent.isCall : PoolEvent → Bool
  | .put _ => true
  | .shutdownGraceful => true
  | .join => true
  | .putPeriodic _ => true
  | _ => false

namespace Pool

def start (opt : ThreadPoolOptions) : Pool where
  poolState := .running
  tasks := .start opt
  mtx := none
  joinMtx := none
  closers := []
  joinable := List.replicate opt.workersCount true
  periodic := []
  periodicJoinable := []
  cv := .empty
  periodicCount := 0

/-! ## Closing calls -/

def setPhase (s : Pool) (k : Nat) (c : Closer) (phase : CloserPhase) : Pool :=
  { s with closers := s.closers.set k { c with phase := phase } }

def shutdownReturns (s : Pool) (k : Nat) (c : Closer) : Pool × PoolOutput :=
  if c.join then (s.setPhase k c .joinLock, .silent)
  else (s.setPhase k c .returned, .shutdownReturned)

/-- `if (threads[i].joinable()) threads[i].join();`, which waits for the thread. -/
def joinThread (joinable : List Bool) (i : Nat) (exited : Bool) : Option (List Bool) :=
  if joinable[i]? = some true then
    if exited then some (joinable.set i false) else none
  else some joinable

def closerStep (s : Pool) (k : Nat) (c : Closer) : CloserPhase → Option (Pool × PoolOutput)
  | .lock =>
      if s.mtx ≠ none then none
      else if s.poolState ≠ .running then some (s.shutdownReturns k c)
      else some ({ s with mtx := some k }.setPhase k c .store, .silent)
  | .store => some ({ s with poolState := .stopping }.setPhase k c .notify, .silent)
  | .notify => some ({ s with cv := s.cv.notifyAll }.setPhase k c .close, .silent)
  | .close =>
      (s.tasks.queueStep .close).map fun r =>
        ({ s with tasks := r.1 }.setPhase k c .notifyNotEmpty, .silent)
  | .notifyNotEmpty =>
      (s.tasks.queueStep .closeNotifiesNotEmpty).map fun r =>
        ({ s with tasks := r.1 }.setPhase k c .notifyNotFull, .silent)
  | .notifyNotFull =>
      (s.tasks.queueStep .closeNotifiesNotFull).map fun r =>
        { s with tasks := r.1, mtx := none }.shutdownReturns k c
  | .joinLock =>
      if s.joinMtx ≠ none then none
      else if s.poolState = .stopped then some (s.setPhase k c .returned, .joinReturned)
      else some ({ s with joinMtx := some k }.setPhase k c (.joinPeriodic 0), .silent)
  | .joinPeriodic i =>
      if i < s.periodic.length then
        (joinThread s.periodicJoinable i (s.periodic[i]? == some .exited)).map fun joinable =>
          ({ s with periodicJoinable := joinable }.setPhase k c (.joinPeriodic (i + 1)), .silent)
      else some (s.setPhase k c (.joinActive 0), .silent)
  | .joinActive i =>
      if i < s.tasks.workers.length then
        (joinThread s.joinable i (s.tasks.workers[i]? == some .exited)).map fun joinable =>
          ({ s with joinable := joinable }.setPhase k c (.joinActive (i + 1)), .silent)
      else some (s.setPhase k c .stop, .silent)
  | .stop => some ({ s with poolState := .stopped }.setPhase k c .leave, .silent)
  | .leave => some ({ s with joinMtx := none }.setPhase k c .returned, .joinReturned)
  | .returned => none

/-! ## Periodic workers -/

/-- `put_periodic` with `add_periodic_thread`, under `m_mtx`. A task made by
`std::bind` is never an empty `std::function`. -/
def putPeriodic (opt : ThreadPoolOptions) (s : Pool) (intervalMs : Nat) :
    Option (Pool × PoolOutput) :=
  if s.mtx ≠ none then none
  else if s.poolState ≠ .running then some (s, .periodicRefused threadPoolStopped)
  else if s.periodicCount ≥ opt.maxPeriodicTasks then some (s, .periodicRefused taskRejected)
  else if intervalMs = 0 then some (s, .periodicRefused taskRejected)
  else some ({ s with
    periodic := s.periodic ++ [.top]
    periodicJoinable := s.periodicJoinable ++ [true]
    periodicCount := s.periodicCount + 1 }, .silent)

def setPeriodic (s : Pool) (i : Nat) (pc : PeriodicPc) : Pool :=
  { s with periodic := s.periodic.set i pc }

def afterLoad (s : Pool) (i : Nat) (pc : PeriodicPc) : Pool :=
  if s.poolState ≠ .running then s.setPeriodic i .exited else s.setPeriodic i pc

/-- The callback of a periodic worker can only call `put` while it runs. -/
def callerReady (s : Pool) : Caller → Bool
  | .periodic i => s.periodic[i]? == some .invoking
  | _ => true

def next (opt : ThreadPoolOptions) (s : Pool) : PoolEvent → Option (Pool × PoolOutput)
  | .put caller =>
      if s.callerReady caller then
        (s.tasks.put caller (s.poolState = .running)).map fun r =>
          ({ s with tasks := r.1 }, .notes r.2)
      else none
  | .shutdownGraceful => some ({ s with closers := s.closers ++ [⟨false, .lock⟩] }, .silent)
  | .join => some ({ s with closers := s.closers ++ [⟨true, .lock⟩] }, .silent)
  | .putPeriodic intervalMs => s.putPeriodic opt intervalMs
  | .task e =>
      (s.tasks.next opt.rejectionPolicy e).map fun r => ({ s with tasks := r.1 }, .notes r.2)
  | .closer k =>
      match s.closers[k]? with
      | none => none
      | some c => s.closerStep k c c.phase
  | .periodicTop i =>
      if s.periodic[i]? = some .top then some (s.afterLoad i .locking, .silent) else none
  | .periodicLock i =>
      if s.periodic[i]? = some .locking ∧ s.mtx = none then
        if s.poolState = .stopping then some (s.setPeriodic i .checking, .silent)
        else some ({ s with cv := s.cv.park i }.setPeriodic i .sleeping, .silent)
      else none
  | .periodicWakes k => (s.cv.wake k).map fun cv => ({ s with cv := cv }, .silent)
  | .periodicResumes cause k timedOut =>
      if s.mtx ≠ none then none
      else
        match s.cv.resume cause k with
        | none => none
        | some (i, cv) =>
            if s.poolState = .stopping ∨ timedOut then
              some ({ s with cv := cv }.setPeriodic i .checking, .silent)
            else some ({ s with cv := cv.park i }, .silent)
  | .periodicCheck i =>
      if s.periodic[i]? = some .checking then some (s.afterLoad i .starting, .silent) else none
  | .periodicStart i =>
      if s.periodic[i]? = some .starting then
        some (s.setPeriodic i .invoking, .periodicStarted i)
      else none
  | .periodicFinish i _ =>
      if s.periodic[i]? = some .invoking ∧
          (s.tasks.calls.any fun k => k.caller == .periodic i) = false then
        some (s.setPeriodic i .top, .periodicFinished i)
      else none

end Pool

def poolMachine (opt : ThreadPoolOptions) : Machine Pool PoolEvent PoolOutput where
  init s := s = Pool.start opt.setupThreads
  next := Pool.next opt.setupThreads

end Rtl.Stp
