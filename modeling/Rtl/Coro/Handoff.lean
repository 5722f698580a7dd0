import Rtl.Coro.SyncWait

/-! # The runner and the caller

The runner stores the result under the lock, sets the flag and notifies; the caller takes
the lock, looks at the flag and waits. What the two rely on: the lock has one owner, the
flag says how far the runner is, a caller in the wait will still be notified, and a
caller that leaves has the stored result.
-/

namespace Rtl.Coro

universe u v

variable {ν : Type u} {ε : Type v} {k : TaskKind}

/-! ## What the coroutines of the nest leave alone -/

structure Sync (ν : Type u) (ε : Type v) (k : TaskKind) where
  runner : RunnerPc ν ε k
  wait : WaitPc ν ε k
  state : SyncWaitState ν ε
  runnerLive : Bool
  stateLive : Bool

namespace SyncWait

def sync (s : SyncWait ν ε k) : Sync ν ε k := ⟨s.runner, s.wait, s.state, s.runnerLive, s.stateLive⟩

theorem suspendFor_sync (s : SyncWait ν ε k) (t : Nat) (parent : Handle) (child : Nat) :
    (s.suspendFor t parent child).sync = s.sync := by
  unfold suspendFor
  split <;> rfl

theorem runBody_sync (s : SyncWait ν ε k) (t i : Nat) (answer : Submit) {c : TaskKind} {b : Bool}
    (promise : Promise ν ε) (body : Body ν ε c b) (tries : Tries ν ε c b) :
    (s.runBody t i answer promise body tries).1.sync = s.sync := by
  cases body with
  | coReturn | raise | tryCatch => rfl
  | finish locals => cases tries <;> rfl
  | coAwait child next => exact suspendFor_sync ..
  | schedule scheduler next =>
      simp only [runBody]
      split <;> rfl

theorem runFrame_sync {s s' : SyncWait ν ε k} {t i : Nat} {answer : Submit} {o : CoroOutput}
    (h : s.runFrame t i answer = some (s', o)) : s'.sync = s.sync := by
  unfold runFrame at h
  split at h
  · cases h
  · next c promise control _ =>
      cases control with
      | goesOn body tries =>
          have step : (s.runBody t i answer promise body tries).1 = s' :=
            congrArg Prod.fst (Option.some.inj h)
          rw [← step]
          exact runBody_sync ..
      | awaiting d child next tries =>
          simp only at h
          split at h
          · cases h
          · cases h
            rfl
      | returning =>
          cases h
          rfl
      | final | destroyed => cases h

theorem execute_sync {s s' : SyncWait ν ε k} {t j : Nat} {o : CoroOutput}
    (h : s.execute t j = some (s', o)) :
    s'.sync = s.sync := by
  simp only [execute] at h
  split at h
  · cases h
    split <;> rfl
  · cases h

end SyncWait

/-! ## The protocol of the two -/

namespace RunnerPc

def holdsLock : RunnerPc ν ε k → Bool
  | .store _ => true
  | .unlock => true
  | _ => false

def hasStored : RunnerPc ν ε k → Bool
  | .unlock => true
  | .notify => true
  | .returning => true
  | .final => true
  | _ => false

def hasNotified : RunnerPc ν ε k → Bool
  | .returning => true
  | .final => true
  | _ => false

theorem not_hasNotified {pc : RunnerPc ν ε k} (early : pc.hasStored = false) :
    pc.hasNotified = false := by
  cases pc <;> first | rfl | cases early

end RunnerPc

namespace WaitPc

def holdsLock : WaitPc ν ε k → Bool
  | .check => true
  | .leave _ => true
  | _ => false

def isBlocked : WaitPc ν ε k → Bool
  | .blocked => true
  | _ => false

def value : WaitPc ν ε k → Option (Flow ν ε k false)
  | .leave value => some value
  | .destroyRunner value => some value
  | .destroyState value => some value
  | .returned value => some value
  | _ => none

theorem notified_holdsLock (pc : WaitPc ν ε k) : pc.notified.holdsLock = pc.holdsLock := by
  cases pc <;> rfl

theorem notified_isBlocked (pc : WaitPc ν ε k) : pc.notified.isBlocked = false := by
  cases pc <;> rfl

theorem notified_value (pc : WaitPc ν ε k) : pc.notified.value = pc.value := by
  cases pc <;> rfl

end WaitPc

structure SyncInv (y : Sync ν ε k) : Prop where
  waiterLock : y.state.mtx = some .waiter ↔ y.wait.holdsLock = true
  runnerLock : y.state.mtx = some .runner ↔ y.runner.holdsLock = true
  done : y.state.done = y.runner.hasStored
  fresh : y.state.done = false → y.state.exception = none
  notified : y.wait.isBlocked = true → y.runner.hasNotified = false
  leaving : ∀ value, y.wait.value = some value → y.state.done = true ∧ y.state.take k = value

theorem take_mtx (state : SyncWaitState ν ε) (mtx : Option Party) (k : TaskKind) :
    ({ state with mtx := mtx } : SyncWaitState ν ε).take k = state.take k := by
  cases k <;> rfl

/-- What the caller takes is what the runner has stored. -/
theorem take_store {state : SyncWaitState ν ε} (fresh : state.exception = none)
    (flow : Flow ν ε k false) :
    (state.store k flow).take k = flow := by
  cases k <;> cases flow <;> simp [SyncWaitState.store, SyncWaitState.take, fresh]

theorem store_mtx (state : SyncWaitState ν ε) (flow : Flow ν ε k false) :
    (state.store k flow).mtx = state.mtx := by
  cases k <;> cases flow <;> rfl

theorem store_done (state : SyncWaitState ν ε) (flow : Flow ν ε k false) :
    (state.store k flow).done = true := by
  cases k <;> cases flow <;> rfl

theorem syncInv_start (moreWorkers : Nat) (body : Body ν ε k false) :
    SyncInv (SyncWait.start moreWorkers body).sync := by
  constructor <;> simp [SyncWait.start, SyncWait.sync, SyncWaitState.start, WaitPc.holdsLock, RunnerPc.holdsLock,
    RunnerPc.hasStored, WaitPc.isBlocked, WaitPc.value]

/-! ## What the two do -/

inductive RunnerStep (y y' : Sync ν ε k) : Prop where
  | begins (pc : y.runner = .initial) (next : y' = { y with runner := .awaiting })
  | resumes (value : Flow ν ε k false) (pc : y.runner = .awaiting)
      (next : y' = { y with runner := .lock value })
  | locks (value : Flow ν ε k false) (pc : y.runner = .lock value) (free : y.state.mtx = none)
      (next : y' = { y with runner := .store value, state := { y.state with mtx := some .runner } })
  | stores (value : Flow ν ε k false) (pc : y.runner = .store value)
      (next : y' = { y with runner := .unlock, state := y.state.store k value })
  | unlocks (pc : y.runner = .unlock)
      (next : y' = { y with runner := .notify, state := { y.state with mtx := none } })
  | notifies (pc : y.runner = .notify)
      (next : y' = { y with runner := .returning, wait := y.wait.notified })
  | ends (pc : y.runner = .returning) (next : y' = { y with runner := .final })

inductive CallerStep (y y' : Sync ν ε k) : Prop where
  | calls (pc : y.wait = .start) (next : y' = { y with wait := .resuming })
  | comesBack (pc : y.wait = .resuming) (next : y' = { y with wait := .lock })
  | locks (pc : y.wait = .lock) (free : y.state.mtx = none)
      (next : y' = { y with wait := .check, state := { y.state with mtx := some .waiter } })
  | leaves (pc : y.wait = .check) (done : y.state.done = true)
      (next : y' = { y with wait := .leave (y.state.take k) })
  | parks (pc : y.wait = .check) (early : y.state.done = false)
      (next : y' = { y with wait := .blocked, state := { y.state with mtx := none } })
  | unlocks (value : Flow ν ε k false) (pc : y.wait = .leave value)
      (next : y' = { y with wait := .destroyRunner value, state := { y.state with mtx := none } })
  | destroysRunner (value : Flow ν ε k false) (pc : y.wait = .destroyRunner value)
      (ended : y.runner.isFinal = true)
      (next : y' = { y with wait := .destroyState value, runnerLive := false })
  | breaks (value : Flow ν ε k false) (pc : y.wait = .destroyRunner value)
      (running : y.runner.isFinal = false)
      (next : y' = { y with wait := .undefined, runnerLive := false })
  | destroysState (value : Flow ν ε k false) (pc : y.wait = .destroyState value)
      (next : y' = { y with wait := .returned value, stateLive := false })

section Steps

variable {s s' : SyncWait ν ε k} {t : Nat} {o : CoroOutput} {y y' : Sync ν ε k}

theorem runRunner_step (h : s.runRunner t = some (s', o)) : RunnerStep s.sync s'.sync := by
  unfold SyncWait.runRunner at h
  cases pc : s.runner with
  | initial =>
      simp only [pc] at h
      cases h
      exact .begins pc (SyncWait.suspendFor_sync ..)
  | awaiting =>
      simp only [pc] at h
      split at h <;> cases h
      exact .resumes _ pc rfl
  | lock value =>
      simp only [pc] at h
      split at h
      · cases h
      · next free =>
          cases h
          exact .locks value pc free rfl
  | store value =>
      simp only [pc] at h
      cases h
      exact .stores value pc rfl
  | unlock =>
      simp only [pc] at h
      cases h
      exact .unlocks pc rfl
  | notify =>
      simp only [pc] at h
      cases h
      exact .notifies pc rfl
  | returning =>
      simp only [pc] at h
      cases h
      exact .ends pc rfl
  | final =>
      simp only [pc] at h
      cases h

theorem stepWait_step (h : s.stepWait = some (s', o)) : CallerStep s.sync s'.sync := by
  unfold SyncWait.stepWait at h
  cases pc : s.wait with
  | start =>
      simp only [pc] at h
      cases h
      refine .calls pc ?_
      split <;> rfl
  | resuming =>
      simp only [pc] at h
      split at h <;> cases h
      exact .comesBack pc rfl
  | lock =>
      simp only [pc] at h
      split at h
      · cases h
      · next free =>
          cases h
          exact .locks pc free rfl
  | check =>
      simp only [pc] at h
      split at h
      · next done =>
          cases h
          exact .leaves pc done rfl
      · next early =>
          cases h
          exact .parks pc ((Bool.not_eq_true _).mp early) rfl
  | leave value =>
      simp only [pc] at h
      cases h
      exact .unlocks value pc rfl
  | destroyRunner value =>
      simp only [pc] at h
      cases h
      cases ended : s.isDone .runner with
      | true => exact .destroysRunner value pc ended (by simp [SyncWait.sync])
      | false => exact .breaks value pc ended (by simp [SyncWait.sync])
  | destroyState value =>
      simp only [pc] at h
      cases h
      exact .destroysState value pc rfl
  | blocked | returned value | undefined =>
      simp only [pc] at h
      cases h

/-- A caller that leaves does not mind a change of the lock. -/
theorem SyncInv.leaving_mtx (inv : SyncInv y) (mtx : Option Party) (value : Flow ν ε k false)
    (leaves : y.wait.value = some value) :
    y.state.done = true ∧ ({ y.state with mtx := mtx } : SyncWaitState ν ε).take k = value := by
  have old := inv.leaving value leaves
  exact ⟨old.1, (take_mtx ..).trans old.2⟩

theorem SyncInv.runner (inv : SyncInv y) (step : RunnerStep y y') : SyncInv y' := by
  have leaving_mtx := inv.leaving_mtx
  obtain ⟨waiterLock, runnerLock, done, fresh, notified, leaving⟩ := inv
  cases step with
  | begins pc next | resumes value pc next =>
      rw [pc] at runnerLock done
      rw [next]
      exact ⟨waiterLock, runnerLock, done, fresh, fun _ => rfl, leaving⟩
  | locks value pc free next =>
      rw [pc] at done
      rw [free] at waiterLock
      rw [next]
      refine ⟨?_, by simp [RunnerPc.holdsLock], done, fresh, fun _ => rfl, leaving_mtx _⟩
      simpa using waiterLock
  | stores value pc next =>
      rw [pc] at runnerLock done
      have early : y.state.done = false := done
      rw [next]
      refine ⟨?_, ?_, store_done .., ?_, fun _ => rfl, ?_⟩
      · rw [store_mtx]
        exact waiterLock
      · rw [store_mtx]
        exact runnerLock
      · intro old
        cases (store_done ..).symm.trans old
      · intro value leaves
        cases early.symm.trans (leaving value leaves).1
  | unlocks pc next =>
      rw [pc] at runnerLock done
      have held : y.state.mtx = some .runner := runnerLock.mpr rfl
      rw [held] at waiterLock
      rw [next]
      refine ⟨?_, by simp [RunnerPc.holdsLock], done, fresh, fun _ => rfl, leaving_mtx _⟩
      simpa using waiterLock
  | notifies pc next =>
      rw [pc] at runnerLock done
      rw [next]
      refine ⟨?_, runnerLock, done, fresh, ?_, ?_⟩
      · rw [WaitPc.notified_holdsLock]
        exact waiterLock
      · rw [WaitPc.notified_isBlocked]
        intro impossible
        cases impossible
      · rw [WaitPc.notified_value]
        exact leaving
  | ends pc next =>
      rw [pc] at runnerLock done notified
      rw [next]
      exact ⟨waiterLock, runnerLock, done, fresh, notified, leaving⟩

theorem SyncInv.caller (inv : SyncInv y) (step : CallerStep y y') : SyncInv y' := by
  have leaving_mtx := inv.leaving_mtx
  obtain ⟨waiterLock, runnerLock, done, fresh, notified, leaving⟩ := inv
  cases step with
  | calls pc next | comesBack pc next =>
      rw [pc] at waiterLock
      rw [next]
      exact ⟨waiterLock, runnerLock, done, fresh, by simp [WaitPc.isBlocked], by simp [WaitPc.value]⟩
  | locks pc free next =>
      rw [free] at runnerLock
      rw [next]
      refine ⟨by simp [WaitPc.holdsLock], ?_, done, fresh, by simp [WaitPc.isBlocked],
        by simp [WaitPc.value]⟩
      simpa using runnerLock
  | leaves pc stored next =>
      rw [pc] at waiterLock
      rw [next]
      refine ⟨waiterLock, runnerLock, done, fresh, by simp [WaitPc.isBlocked], ?_⟩
      intro value leaves
      exact ⟨stored, Option.some.inj leaves⟩
  | parks pc early next =>
      rw [pc] at waiterLock
      have held : y.state.mtx = some .waiter := waiterLock.mpr rfl
      rw [held] at runnerLock
      have unset : y.runner.hasNotified = false := RunnerPc.not_hasNotified (done.symm.trans early)
      rw [next]
      refine ⟨by simp [WaitPc.holdsLock], ?_, done, fresh, fun _ => unset, by simp [WaitPc.value]⟩
      simpa using runnerLock
  | unlocks value pc next =>
      rw [pc] at waiterLock leaving_mtx
      have held : y.state.mtx = some .waiter := waiterLock.mpr rfl
      rw [held] at runnerLock
      rw [next]
      refine ⟨by simp [WaitPc.holdsLock], ?_, done, fresh, by simp [WaitPc.isBlocked], leaving_mtx _⟩
      simpa using runnerLock
  | destroysRunner value pc ended next | destroysState value pc next =>
      rw [pc] at waiterLock leaving
      rw [next]
      exact ⟨waiterLock, runnerLock, done, fresh, by simp [WaitPc.isBlocked], leaving⟩
  | breaks value pc running next =>
      rw [pc] at waiterLock
      rw [next]
      exact ⟨waiterLock, runnerLock, done, fresh, by simp [WaitPc.isBlocked], by simp [WaitPc.value]⟩

/-- A spurious wake-up. -/
theorem SyncInv.wake (inv : SyncInv y) (blocked : y.wait = .blocked) :
    SyncInv { y with wait := .lock } := by
  obtain ⟨waiterLock, runnerLock, done, fresh, notified, leaving⟩ := inv
  rw [blocked] at waiterLock
  exact ⟨waiterLock, runnerLock, done, fresh, by simp [WaitPc.isBlocked], by simp [WaitPc.value]⟩

end Steps

/-! ## Ranks -/

def RunnerPc.rank : RunnerPc ν ε k → Nat
  | .initial => 9
  | .awaiting => 8
  | .lock _ => 7
  | .store _ => 6
  | .unlock => 5
  | .notify => 4
  | .returning => 1
  | .final => 0

def WaitPc.rank : WaitPc ν ε k → Nat
  | .start => 8
  | .resuming => 7
  | .lock => 6
  | .check => 5
  | .blocked => 4
  | .leave _ => 3
  | .destroyRunner _ => 2
  | .destroyState _ => 1
  | .returned _ => 0
  | .undefined => 0

def Sync.rank (y : Sync ν ε k) : Nat := y.runner.rank + y.wait.rank

section Rank

variable {y y' : Sync ν ε k}

theorem WaitPc.rank_notified (pc : WaitPc ν ε k) : pc.notified.rank ≤ pc.rank + 2 := by
  cases pc <;> simp [WaitPc.notified, WaitPc.rank]

/-- The notification pays for the second look of the caller. -/
theorem RunnerStep.rank (step : RunnerStep y y') : y'.rank + 1 ≤ y.rank := by
  cases step with
  | notifies pc next =>
      have raised := y.wait.rank_notified
      rw [next]
      simp only [Sync.rank, pc, RunnerPc.rank]
      omega
  | begins pc next | resumes value pc next | locks value pc free next | stores value pc next
  | unlocks pc next | ends pc next =>
      rw [next]
      simp only [Sync.rank, pc, RunnerPc.rank]
      omega

theorem CallerStep.rank (step : CallerStep y y') : y'.rank + 1 ≤ y.rank := by
  cases step with
  | calls pc next | comesBack pc next | locks pc free next | leaves pc stored next | parks pc early next
  | unlocks value pc next | destroysRunner value pc ended next | breaks value pc running next
  | destroysState value pc next =>
      rw [next]
      simp only [Sync.rank, pc, WaitPc.rank]
      omega

end Rank

end Rtl.Coro
