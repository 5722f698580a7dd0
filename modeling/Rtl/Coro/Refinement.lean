import Mathlib.Data.List.Nodup
import Rtl.Coro.System

/-! # Whole runs of a nest

`sync_wait` returns what the direct evaluation gives, every parent goes on once for each
child it awaits, some thread can take a step until `sync_wait` has returned, unless it has
destroyed a running coroutine, and the number of steps is bounded, spurious wake-ups apart.
-/

namespace Rtl.Coro

open Rtl.Base

universe u v

variable {ν : Type u} {ε : Type v} {k : TaskKind}

/-! ## Whole runs -/

/-- The waits that have begun, each with the parent and the child. -/
def awaits (ts : List (Transition (SyncWait ν ε k) CoroEvent CoroOutput)) : List (Handle × Nat) :=
  ts.filterMap fun t =>
    match t.output with
    | .awaited parent child => some (parent, child)
    | _ => none

def resumes (ts : List (Transition (SyncWait ν ε k) CoroEvent CoroOutput)) : List (Handle × Nat) :=
  ts.filterMap fun t =>
    match t.output with
    | .resumed parent child => some (parent, child)
    | _ => none

def wakeUps (ts : List (Transition (SyncWait ν ε k) CoroEvent CoroOutput)) : Nat :=
  ts.countP (·.event == .wake)

section Runs

variable {accepts : Nat → Bool} {body : Body ν ε k false} {n : Clock} {s s' : SyncWait ν ε k}
  {e : CoroEvent}
  {o : CoroOutput} {ts : List (Transition (SyncWait ν ε k) CoroEvent CoroOutput)}

theorem count_awaits_concat (p : Handle × Nat) :
    (awaits (ts ++ [⟨s, e, o, s'⟩])).count p =
      (awaits ts).count p + (decide (o = .awaited p.1 p.2)).toNat := by
  obtain ⟨h, i⟩ := p
  cases o with
  | awaited parent child =>
      by_cases same : parent = h ∧ child = i <;> simp [awaits, same]
  | _ => simp [awaits]

theorem count_resumes_concat (p : Handle × Nat) :
    (resumes (ts ++ [⟨s, e, o, s'⟩])).count p =
      (resumes ts).count p + (decide (o = .resumed p.1 p.2)).toNat := by
  obtain ⟨h, i⟩ := p
  cases o with
  | resumed parent child =>
      by_cases same : parent = h ∧ child = i <;> simp [resumes, same]
  | _ => simp [resumes]

/-- A wait that has begun has ended or is still on, and the children are awaited in the order
of their numbers. -/
structure WaitLedger (ts : List (Transition (SyncWait ν ε k) CoroEvent CoroOutput))
    (s : SyncWait ν ε k) : Prop where
  counts : ∀ p : Handle × Nat,
    (awaits ts).count p = (resumes ts).count p + (decide (s.waitsFor p.1 = some p.2)).toNat
  numbers : (awaits ts).map (·.2) = List.range s.awaitedChildren

theorem WaitLedger.step (ledger : WaitLedger ts s) (accounts : s.Accounts s' o) :
    WaitLedger (ts ++ [⟨s, e, o, s'⟩]) s' := by
  refine ⟨?_, ?_⟩
  · intro p
    have before := ledger.counts p
    have change := accounts.waits p.1 p.2
    rw [count_awaits_concat, count_resumes_concat]
    omega
  · cases o with
    | awaited h i =>
        obtain ⟨number, children⟩ := accounts.awaited h i rfl
        have old := ledger.numbers
        simp only [awaits, List.filterMap_append, List.map_append] at old ⊢
        rw [old, children, number, List.range_succ]
        rfl
    | _ =>
        rw [accounts.others (by simp), ← ledger.numbers]
        simp [awaits]

theorem step_posts (h : s.step e = some (s', o)) : ∃ l, s'.posts = s.posts ++ l := by
  cases e with
  | run t answer =>
      simp only [SyncWait.step] at h
      split at h
      · exact (touches_runRunner h).posts
      · exact (touches_runFrame h).posts
      · cases h
  | execute t j => exact (touches_execute h).posts
  | wait => exact (touches_stepWait h).posts
  | wake =>
      simp only [SyncWait.step] at h
      split at h <;> cases h
      exact ⟨[], by simp⟩

theorem Agrees.of_append {posts l : List Bool} (agrees : Agrees accepts (posts ++ l)) :
    Agrees accepts posts := by
  intro i v found
  refine agrees i v ?_
  rw [List.getElem?_append_left (List.getElem?_eq_some_iff.mp found).1]
  exact found

structure RunInv (accepts : Nat → Bool) (body : Body ν ε k false)
    (ts : List (Transition (SyncWait ν ε k) CoroEvent CoroOutput)) (n : Clock) (s : SyncWait ν ε k) :
    Prop where
  nest : NestInv accepts body n s
  ledger : WaitLedger ts s
  length : ts.length + s.sync.rank ≤ n.steps + 17 + 3 * wakeUps ts

theorem runInv_start (accepts : Nat → Bool) (moreWorkers : Nat) (body : Body ν ε k false) :
    RunInv accepts body [] ⟨0, 0⟩ (SyncWait.start moreWorkers body) := by
  refine ⟨nestInv_start accepts moreWorkers body, ⟨?_, rfl⟩, Nat.le_refl _⟩
  intro p
  obtain ⟨h, i⟩ := p
  cases h with
  | runner => rfl
  | frame j =>
      have none : (SyncWait.start moreWorkers body).waitsFor (.frame j) = none := by
        cases j <;> rfl
      simp [awaits, resumes, none]

theorem RunInv.step (inv : RunInv accepts body ts n s) (h : s.step e = some (s', o))
    (agrees : Agrees accepts s'.posts) : ∃ n', RunInv accepts body (ts ++ [⟨s, e, o, s'⟩]) n' s' := by
  obtain ⟨n', nest, accounts, rank⟩ := inv.nest.step h agrees
  refine ⟨n', nest, inv.ledger.step accounts, ?_⟩
  have length := inv.length
  rw [wakeUps, countP_concat, List.length_append, List.length_singleton]
  rw [wakeUps] at length
  by_cases woken : e = .wake
  · simp only [woken, if_pos, beq_self_eq_true, Bool.toNat_true] at *
    omega
  · have other : (e == .wake) = false := by simp [woken]
    simp only [woken, if_neg, not_false_eq_true, other, Bool.toNat_false] at *
    omega

theorem runInv_of_run {moreWorkers : Nat} (run : (coroMachine ν ε k).Run (.start moreWorkers body) ts s)
    (agrees : Agrees accepts s.posts) : ∃ n, RunInv accepts body ts n s := by
  revert agrees
  refine run.history (H := fun ts s => Agrees accepts s.posts → ∃ n, RunInv accepts body ts n s)
    (fun _ => ⟨_, runInv_start accepts moreWorkers body⟩) ?_
  intro ts s e s' o inv h agrees
  obtain ⟨l, posts⟩ := step_posts (step_of_next h)
  obtain ⟨n, inv⟩ := inv (posts ▸ agrees).of_append
  exact inv.step (step_of_next h) agrees

/-! ## The end of a run -/

theorem Going.steps_le (going : Going accepts body n s) : n.steps ≤ (ending accepts body).2.steps := by
  have inside_le : ∀ {m : Clock} {i : Nat}, Inside accepts body m s.frames i →
      m.steps ≤ (ending accepts body).2.steps := by
    intro m i inside
    cases inside with
    | @intro _ _ _ _ _ _ x _ _ awaits means total _ =>
        have outer := awaits.steps x
        rw [total] at outer
        exact Nat.le_trans means.steps (Nat.le_trans outer (Nat.le_succ _))
  cases going with
  | begun _ _ _ time =>
      rw [time]
      exact Nat.zero_le _
  | frame _ _ inside => exact inside_le inside
  | posted _ _ inside => exact Nat.le_of_succ_le (inside_le inside)
  | back _ _ back =>
      cases back with
      | @intro _ c promise m _ _ _ awaits time total _ =>
          have outer := awaits.steps (promise.awaitResume c, m)
          rw [total] at outer
          rw [time]
          exact Nat.succ_le_succ outer
  | settled _ _ total _ | stored _ _ total _ | ended _ _ total _ =>
      exact Nat.le_of_eq (congrArg (·.2.steps) total)

/-- The runner has stored the result, and it is the one of the direct evaluation. -/
theorem Going.stored_result (going : Going accepts body n s) (stored : s.runner.hasStored = true) :
    (s.state.take k, n) = ending accepts body ∧ ∀ h, s.waitsFor h = none := by
  have none_waits : (∀ j, awaitsAt s.frames j = none) → s.runner.hasResumed = true →
      ∀ h, s.waitsFor h = none := by
    intro alone resumed h
    cases h with
    | runner => exact waitsFor_runner_none resumed
    | frame j => exact alone j
  cases going with
  | begun _ pc | frame _ pc | posted _ pc | back _ pc =>
      rw [pc] at stored
      cases stored
  | settled _ pc =>
      rcases pc with pc | pc <;> rw [pc] at stored <;> cases stored
  | stored _ pc total alone =>
      refine ⟨total, none_waits alone ?_⟩
      rcases pc with pc | pc | pc <;> rw [pc] <;> rfl
  | ended _ pc total alone =>
      refine ⟨total, none_waits alone ?_⟩
      rw [pc]
      rfl

theorem NestInv.returned (inv : NestInv accepts body n s) {value : Flow ν ε k false}
    (returned : s.wait = .returned value) :
    body.eval accepts 0 = (value, s.posts.length) ∧ ∀ h, s.waitsFor h = none := by
  have leaves : s.sync.wait.value = some value := by
    rw [SyncWait.sync, returned]
    rfl
  obtain ⟨done, taken⟩ := inv.sync.leaving value leaves
  have stored : s.runner.hasStored = true := inv.sync.done ▸ done
  have going := inv.later (by rw [returned]; rfl)
  obtain ⟨result, none⟩ := going.stored_result stored
  refine ⟨?_, none⟩
  have direct := untimed_timed accepts body ⟨0, 0⟩
  have flow : s.state.take k = (body.timed accepts ⟨0, 0⟩).1 := congrArg Prod.fst result
  have time : n.posts = (body.timed accepts ⟨0, 0⟩).2.posts := congrArg (·.2.posts) result
  rw [← direct, untimed, ← flow, ← time, inv.clock]
  exact congrArg (·, s.posts.length) taken

theorem NestInv.steps_le (inv : NestInv accepts body n s) :
    n.steps ≤ (body.timed accepts ⟨0, 0⟩).2.steps + 1 := by
  cases started : s.wait.isStart with
  | true =>
      rw [(inv.early started).time]
      exact Nat.zero_le _
  | false => exact (inv.later started).steps_le

theorem stepWait_of_holdsLock (holds : s.wait.holdsLock = true) : ∃ r, s.stepWait = some r := by
  unfold SyncWait.stepWait
  cases pc : s.wait with
  | check =>
      simp only
      split <;> exact ⟨_, rfl⟩
  | leave value => exact ⟨_, rfl⟩
  | _ =>
      rw [pc] at holds
      cases holds

/-- A runner that has come to its lock can take a step, or the caller has the lock. -/
theorem runRunner_of_resumed {t : Nat} (sync : SyncInv s.sync) (resumed : s.runner.hasResumed = true)
    (early : s.runner ≠ .final) : (∃ r, s.runRunner t = some r) ∨ s.wait.holdsLock = true := by
  unfold SyncWait.runRunner
  cases pc : s.runner with
  | lock value =>
      cases held : s.state.mtx with
      | none => exact .inl ⟨_, rfl⟩
      | some party =>
          cases party with
          | waiter => exact .inr (sync.waiterLock.mp held)
          | runner =>
              have impossible := sync.runnerLock.mp held
              rw [SyncWait.sync, pc] at impossible
              cases impossible
  | store | unlock | notify | returning => exact .inl ⟨_, rfl⟩
  | final => exact (early pc).elim
  | initial | awaiting =>
      rw [pc] at resumed
      cases resumed

theorem Inside.runFrame {t i : Nat} {m : Clock} (inside : Inside accepts body m s.frames i)
    (answer : Submit) :
    ∃ r, s.runFrame t i answer = some r := by
  cases inside with
  | @intro _ _ control _ _ _ _ found _ _ means _ _ =>
      simp only [SyncWait.runFrame, found]
      cases control with
      | goesOn | returning => exact ⟨_, rfl⟩
      | awaiting | final | destroyed => exact means.elim

theorem Back.runFrame {t i : Nat} (back : Back accepts body n s.frames (.frame i)) (answer : Submit) :
    ∃ r, s.runFrame t i answer = some r := by
  cases back with
  | intro foundChild awaits _ _ _ =>
      cases awaits with
      | frame _ found _ _ _ =>
          simp only [SyncWait.runFrame, found, foundChild]
          exact ⟨_, rfl⟩

theorem step_run {t : Nat} (answer : Submit) {h : Handle} (thread : s.running[t]? = some (some h)) :
    s.step (.run t answer) =
      match h with
      | .runner => s.runRunner t
      | .frame i => s.runFrame t i answer := by
  simp only [SyncWait.step, thread]
  cases h <;> rfl

/-- Some thread can take a step that is not a spurious wake-up. -/
def SyncWait.CanStep (s : SyncWait ν ε k) : Prop := ∃ e s' o, e ≠ .wake ∧ s.next e = some (s', o)

theorem canStep_of_step (defined : s.wait.isUndefined = false) (strict : e ≠ .wake)
    (h : ∃ r, s.step e = some r) : s.CanStep := by
  obtain ⟨⟨s', o⟩, step⟩ := h
  refine ⟨e, s', o, strict, ?_⟩
  rw [SyncWait.next, defined, if_neg Bool.false_ne_true, step]

/-- A runner that has taken the result can go on, or else the caller, who has the lock, can. -/
theorem canStep_of_resumed {posted : Option Handle} (sync : SyncInv s.sync)
    (active : s.Active (some .runner) posted) (resumed : s.runner.hasResumed = true)
    (early : s.runner ≠ .final) (defined : s.wait.isUndefined = false) : s.CanStep := by
  obtain ⟨t, thread⟩ := active.thread
  rcases runRunner_of_resumed (t := t) sync resumed early with step | holds
  · refine canStep_of_step defined (e := .run t .refused) (by simp) ?_
    rw [step_run _ thread]
    exact step
  · exact canStep_of_step defined (e := .wait) (by simp) (stepWait_of_holdsLock holds)

/-- Once the runner is done, nothing holds the caller up. -/
theorem stepWait_of_final (sync : SyncInv s.sync) (pc : s.runner = .final)
    (idle : ∀ x, s.running[0]? = some x → x = none) (threads : 2 ≤ s.running.length)
    (unfinished : ∀ value, s.wait ≠ .returned value) (defined : s.wait.isUndefined = false) :
    ∃ r, s.stepWait = some r := by
  unfold SyncWait.stepWait
  cases waits : s.wait with
  | start | leave | destroyRunner | destroyState => exact ⟨_, rfl⟩
  | resuming =>
      obtain ⟨x, thread⟩ : ∃ x, s.running[0]? = some x := ⟨_, List.getElem?_eq_getElem (by omega)⟩
      cases idle x thread
      simp only [thread]
      exact ⟨_, rfl⟩
  | lock =>
      cases held : s.state.mtx with
      | none => exact ⟨_, rfl⟩
      | some party =>
          cases party with
          | waiter =>
              have impossible := sync.waiterLock.mp held
              rw [SyncWait.sync, waits] at impossible
              cases impossible
          | runner =>
              have impossible := sync.runnerLock.mp held
              rw [SyncWait.sync, pc] at impossible
              cases impossible
  | check =>
      simp only
      split <;> exact ⟨_, rfl⟩
  | blocked =>
      have impossible := sync.notified (by rw [SyncWait.sync, waits]; rfl)
      rw [SyncWait.sync, pc] at impossible
      cases impossible
  | returned value => exact (unfinished value waits).elim
  | undefined =>
      rw [waits] at defined
      cases defined

theorem Going.canStep (going : Going accepts body n s) (sync : SyncInv s.sync)
    (threads : 2 ≤ s.running.length) (unfinished : ∀ value, s.wait ≠ .returned value)
    (defined : s.wait.isUndefined = false) : s.CanStep := by
  cases going with
  | begun active pc =>
      obtain ⟨t, thread⟩ := active.thread
      refine canStep_of_step defined (e := .run t .refused) (by simp) ?_
      rw [step_run _ thread]
      simp only [SyncWait.runRunner, pc]
      exact ⟨_, rfl⟩
  | frame active pc inside =>
      obtain ⟨t, thread⟩ := active.thread
      refine canStep_of_step defined (e := .run t .refused) (by simp) ?_
      rw [step_run _ thread]
      exact inside.runFrame _
  | posted active pc inside =>
      obtain ⟨x, thread⟩ : ∃ x, s.running[1]? = some x := ⟨_, List.getElem?_eq_getElem threads⟩
      cases active.idle thread
      refine canStep_of_step defined (e := .execute 1 0) (by simp) ?_
      simp only [SyncWait.step, SyncWait.execute, thread, active.2]
      exact ⟨_, rfl⟩
  | @back h active pc back =>
      obtain ⟨t, thread⟩ := active.thread
      refine canStep_of_step defined (e := .run t .refused) (by simp) ?_
      rw [step_run _ thread]
      cases h with
      | runner =>
          cases back with
          | intro found awaits _ _ _ =>
              cases awaits
              simp only [SyncWait.runRunner, pc, found]
              exact ⟨_, rfl⟩
      | frame i => exact back.runFrame _
  | settled active pc =>
      refine canStep_of_resumed sync active ?_ ?_ defined <;>
        rcases pc with pc | pc <;> simp [pc, RunnerPc.hasResumed]
  | stored active pc =>
      refine canStep_of_resumed sync active ?_ ?_ defined <;>
        rcases pc with pc | pc | pc <;> simp [pc, RunnerPc.hasResumed]
  | ended active pc =>
      refine canStep_of_step defined (e := .wait) (by simp) ?_
      exact stepWait_of_final sync pc (fun x thread => active.idle thread) threads unfinished defined

/-- Until `sync_wait` has returned or become undefined, some thread can take a step. -/
theorem NestInv.canStep (inv : NestInv accepts body n s)
    (unfinished : ∀ value, s.wait ≠ .returned value) (defined : s.wait.isUndefined = false) :
    s.CanStep := by
  cases started : s.wait.isStart with
  | true =>
      exact canStep_of_step defined (e := .wait) (by simp)
        ⟨_, stepWait_start (WaitPc.eq_start started) (inv.early started).pc⟩
  | false => exact (inv.later started).canStep inv.sync inv.threads unfinished defined

theorem WaitLedger.nodup (ledger : WaitLedger ts s) : (awaits ts).Nodup := by
  refine List.Nodup.of_map (·.2) ?_
  rw [ledger.numbers]
  exact List.nodup_range

theorem WaitLedger.resumes_le (ledger : WaitLedger ts s) (p : Handle × Nat) :
    (resumes ts).count p ≤ (awaits ts).count p := by
  rw [ledger.counts p]
  exact Nat.le_add_right _ _

theorem WaitLedger.resumes_perm (ledger : WaitLedger ts s) (none : ∀ h, s.waitsFor h = none) :
    (resumes ts).Perm (awaits ts) := by
  refine List.perm_iff_count.mpr fun p => ?_
  have counts := ledger.counts p
  rw [none p.1] at counts
  simpa using counts.symm

end Runs

end Rtl.Coro
