import Rtl.Coro.Nest

/-! # Steps of the whole system

The nest, the runner and the caller together. Each step keeps what is known of the three,
and it takes time from the nest or lowers the rank of the runner and the caller; only a
spurious wake-up of the caller gives it back.
-/

namespace Rtl.Coro

open Rtl.Base

universe u v

variable {ν : Type u} {ε : Type v} {k : TaskKind}

/-! ## What a step touches -/

/-- A step on thread `t` records posts at the end, makes something pending by an accepted
post only, and moves no other thread. -/
structure Touches (t : Nat) (s s' : SyncWait ν ε k) : Prop where
  posts : ∃ l, s'.posts = s.posts ++ l
  pending : s'.pending ⊆ s.pending ∨ true ∈ s'.posts
  running : s'.running = s.running ∨ ∃ x, s'.running = s.running.set t x

section Touches

variable {s s' : SyncWait ν ε k} {t i : Nat} {o : CoroOutput}

theorem Touches.quiet (posts : s'.posts = s.posts) (pending : s'.pending = s.pending)
    (running : s'.running = s.running ∨ ∃ x, s'.running = s.running.set t x) : Touches t s s' :=
  ⟨⟨[], by simp [posts]⟩, .inl (by simp [pending]), running⟩

theorem touches_suspendFor (s : SyncWait ν ε k) (t : Nat) (parent : Handle) (child : Nat) :
    Touches t s (s.suspendFor t parent child) := by
  unfold SyncWait.suspendFor
  split
  · exact .quiet rfl rfl (.inl rfl)
  · exact .quiet rfl rfl (.inr ⟨_, rfl⟩)

theorem touches_runBody {c : TaskKind} {b : Bool} {answer : Submit} {promise : Promise ν ε}
    {body : Body ν ε c b}
    {tries : Tries ν ε c b} : Touches t s (s.runBody t i answer promise body tries).1 := by
  cases body with
  | coReturn | raise | tryCatch => exact .quiet rfl rfl (.inl rfl)
  | finish locals => cases tries <;> exact .quiet rfl rfl (.inl rfl)
  | coAwait child next =>
      exact ⟨(touches_suspendFor ..).posts, (touches_suspendFor ..).pending,
        (touches_suspendFor ..).running⟩
  | schedule scheduler next =>
      simp only [SyncWait.runBody]
      split
      · exact ⟨⟨[true], rfl⟩, .inr (by simp), .inr ⟨none, rfl⟩⟩
      · exact ⟨⟨[false], rfl⟩, .inl (List.Subset.refl _), .inl rfl⟩

theorem touches_runFrame {answer : Submit} (h : s.runFrame t i answer = some (s', o)) :
    Touches t s s' := by
  unfold SyncWait.runFrame at h
  split at h
  · cases h
  · next c promise control _ =>
      cases control with
      | goesOn body tries =>
          have step : (s.runBody t i answer promise body tries).1 = s' :=
            congrArg Prod.fst (Option.some.inj h)
          rw [← step]
          exact touches_runBody
      | awaiting d child next tries =>
          simp only at h
          split at h
          · cases h
          · cases h
            exact .quiet rfl rfl (.inl rfl)
      | returning =>
          cases h
          exact .quiet rfl rfl (.inr ⟨_, rfl⟩)
      | final | destroyed => cases h

theorem touches_runRunner (h : s.runRunner t = some (s', o)) : Touches t s s' := by
  unfold SyncWait.runRunner at h
  cases pc : s.runner with
  | initial =>
      simp only [pc] at h
      cases h
      exact ⟨(touches_suspendFor ..).posts, (touches_suspendFor ..).pending,
        (touches_suspendFor ..).running⟩
  | awaiting | lock =>
      simp only [pc] at h
      split at h <;> cases h
      exact .quiet rfl rfl (.inl rfl)
  | store | unlock | notify =>
      simp only [pc] at h
      cases h
      exact .quiet rfl rfl (.inl rfl)
  | returning =>
      simp only [pc] at h
      cases h
      exact .quiet rfl rfl (.inr ⟨none, rfl⟩)
  | final =>
      simp only [pc] at h
      cases h

theorem touches_stepWait (h : s.stepWait = some (s', o)) : Touches 0 s s' := by
  unfold SyncWait.stepWait at h
  cases pc : s.wait with
  | start =>
      simp only [pc] at h
      cases h
      split
      · exact .quiet rfl rfl (.inl rfl)
      · exact .quiet rfl rfl (.inr ⟨_, rfl⟩)
  | resuming | lock | check =>
      simp only [pc] at h
      split at h <;> cases h <;> exact .quiet rfl rfl (.inl rfl)
  | leave | destroyRunner | destroyState =>
      simp only [pc] at h
      cases h
      exact .quiet rfl rfl (.inl rfl)
  | blocked | returned | undefined =>
      simp only [pc] at h
      cases h

theorem touches_execute {j : Nat} (h : s.execute t j = some (s', o)) : Touches t s s' := by
  simp only [SyncWait.execute] at h
  split at h
  · cases h
    split
    · exact ⟨⟨[], by simp⟩, .inl (List.eraseIdx_sublist ..).subset, .inl rfl⟩
    · exact ⟨⟨[], by simp [SyncWait.setRunning]⟩, .inl (List.eraseIdx_sublist ..).subset, .inr ⟨_, rfl⟩⟩
  · cases h

end Touches

/-! ## One step of the system -/

def WaitPc.isStart : WaitPc ν ε k → Bool
  | .start => true
  | _ => false

structure AtStart (body : Body ν ε k false) (n : Clock) (s : SyncWait ν ε k) : Prop where
  active : s.Active none none
  pc : s.runner = .initial
  frames : s.frames = [.create body]
  time : n = ⟨0, 0⟩

structure NestInv (accepts : Nat → Bool) (body : Body ν ε k false) (n : Clock) (s : SyncWait ν ε k) :
    Prop where
  clock : n.posts = s.posts.length
  sync : SyncInv s.sync
  threads : 2 ≤ s.running.length
  caller : ∀ h, s.running[0]? = some (some h) → s.wait.isResuming = true
  early : s.wait.isStart = true → AtStart body n s
  later : s.wait.isStart = false → Going accepts body n s

theorem nestInv_start (accepts : Nat → Bool) (moreWorkers : Nat) (body : Body ν ε k false) :
    NestInv accepts body ⟨0, 0⟩ (SyncWait.start moreWorkers body) := by
  refine ⟨rfl, syncInv_start moreWorkers body, ?_, ?_, ?_, ?_⟩
  · simp [SyncWait.start]
  · simp [SyncWait.start]
  · intro _
    refine ⟨⟨?_, rfl⟩, rfl, rfl, rfl⟩
    simp [SyncWait.start]
  · simp [SyncWait.start, WaitPc.isStart]

section Step

variable {accepts : Nat → Bool} {body : Body ν ε k false} {n : Clock} {s s' : SyncWait ν ε k} {t : Nat}
  {o : CoroOutput}

theorem WaitPc.eq_start {pc : WaitPc ν ε k} (start : pc.isStart = true) : pc = .start := by
  cases pc <;> first | rfl | cases start

theorem stepWait_start (start : s.wait = .start) (pc : s.runner = .initial) :
    s.stepWait = some (({ s with wait := .resuming } : SyncWait ν ε k).setRunning 0 (some .runner),
      .silent) := by
  have early : s.isDone .runner = false := by
    simp [SyncWait.isDone, pc, RunnerPc.isFinal]
  simp [SyncWait.stepWait, start, early]

theorem stepWait_spec (started : s.wait.isStart = false) (h : s.stepWait = some (s', o)) :
    SameNest s s' ∧ o = .silent ∧ s'.wait.isStart = false ∧
      (s.wait.isResuming = true → s.running[0]? = some none) := by
  unfold SyncWait.stepWait at h
  cases pc : s.wait with
  | start =>
      rw [pc] at started
      cases started
  | resuming =>
      simp only [pc] at h
      split at h
      · next idle =>
          cases h
          exact ⟨⟨rfl, rfl, rfl, rfl, rfl, rfl⟩, rfl, rfl, fun _ => idle⟩
      · cases h
  | lock =>
      simp only [pc] at h
      split at h <;> cases h
      exact ⟨⟨rfl, rfl, rfl, rfl, rfl, take_mtx ..⟩, rfl, rfl, by simp [WaitPc.isResuming]⟩
  | check =>
      simp only [pc] at h
      split at h <;> cases h
      · exact ⟨⟨rfl, rfl, rfl, rfl, rfl, rfl⟩, rfl, rfl, by simp [WaitPc.isResuming]⟩
      · exact ⟨⟨rfl, rfl, rfl, rfl, rfl, take_mtx ..⟩, rfl, rfl, by simp [WaitPc.isResuming]⟩
  | leave value =>
      simp only [pc] at h
      cases h
      exact ⟨⟨rfl, rfl, rfl, rfl, rfl, take_mtx ..⟩, rfl, rfl, by simp [WaitPc.isResuming]⟩
  | destroyRunner value =>
      simp only [pc] at h
      cases h
      refine ⟨⟨rfl, rfl, rfl, rfl, rfl, rfl⟩, rfl, ?_, by simp [WaitPc.isResuming]⟩
      simp only
      split <;> rfl
  | destroyState value =>
      simp only [pc] at h
      cases h
      exact ⟨⟨rfl, rfl, rfl, rfl, rfl, rfl⟩, rfl, rfl, by simp [WaitPc.isResuming]⟩
  | blocked | returned value | undefined =>
      simp only [pc] at h
      cases h

theorem RunnerStep.wait {y y' : Sync ν ε k} (step : RunnerStep y y') :
    y'.wait = y.wait ∨ y'.wait = y.wait.notified := by
  cases step with
  | notifies pc next =>
      rw [next]
      exact .inr rfl
  | begins pc next | resumes value pc next | locks value pc free next | stores value pc next
  | unlocks pc next | ends pc next =>
      rw [next]
      exact .inl rfl

theorem notified_isStart (pc : WaitPc ν ε k) : pc.notified.isStart = pc.isStart := by
  cases pc <;> rfl

theorem notified_isResuming {pc : WaitPc ν ε k} (resuming : pc.isResuming = true) :
    pc.notified.isResuming = true := by
  cases pc <;> first | rfl | cases resuming

theorem Touches.length (touches : Touches t s s') : s'.running.length = s.running.length := by
  rcases touches.running with same | ⟨x, set⟩
  · rw [same]
  · rw [set, List.length_set]

/-- If a thread takes a step and the caller is inside a coroutine after it, then the caller was
inside a coroutine before it. -/
theorem Touches.caller {h₀ h : Handle} (touches : Touches t s s')
    (thread : s.running[t]? = some (some h₀))
    (now : s'.running[0]? = some (some h)) : ∃ h, s.running[0]? = some (some h) := by
  rcases touches.running with same | ⟨x, set⟩
  · exact ⟨h, same ▸ now⟩
  · by_cases here : t = 0
    · exact ⟨h₀, here ▸ thread⟩
    · rw [set, List.getElem?_set_ne here] at now
      exact ⟨h, now⟩

def Steps (accepts : Nat → Bool) (body : Body ν ε k false) (n : Clock) (s s' : SyncWait ν ε k)
    (o : CoroOutput) (extra : Nat) : Prop :=
  ∃ n', NestInv accepts body n' s' ∧ s.Accounts s' o ∧
    s'.sync.rank + 1 + n.steps ≤ s.sync.rank + n'.steps + extra

theorem NestInv.not_isStart (inv : NestInv accepts body n s) {h : Handle}
    (thread : s.running[t]? = some (some h)) :
    s.wait.isStart = false := by
  cases started : s.wait.isStart with
  | false => rfl
  | true => cases (inv.early started).active.idle thread

/-- A thread has taken a step of a coroutine. -/
theorem NestInv.thread {h : Handle} {n' : Clock} (inv : NestInv accepts body n s)
    (thread : s.running[t]? = some (some h)) (touches : Touches t s s')
    (wait : s'.wait = s.wait ∨ s'.wait = s.wait.notified) (sync : SyncInv s'.sync)
    (clock : n'.posts = s'.posts.length) (going : Going accepts body n' s') :
    NestInv accepts body n' s' := by
  refine ⟨clock, sync, touches.length ▸ inv.threads, ?_, ?_, fun _ => going⟩
  · intro h now
    obtain ⟨h, before⟩ := touches.caller thread now
    have resuming := inv.caller h before
    rcases wait with same | woken
    · rw [same]
      exact resuming
    · rw [woken]
      exact notified_isResuming resuming
  · intro impossible
    have started := inv.not_isStart thread
    rcases wait with same | woken
    · rw [same, started] at impossible
      cases impossible
    · rw [woken, notified_isStart, started] at impossible
      cases impossible

theorem NestInv.runFrame {i : Nat} {answer : Submit} (inv : NestInv accepts body n s)
    (thread : s.running[t]? = some (some (.frame i))) (h : s.runFrame t i answer = some (s', o))
    (agrees : Agrees accepts s'.posts) : Steps accepts body n s s' o 0 := by
  have same := SyncWait.runFrame_sync h
  obtain ⟨n', going, clock, steps, accounts⟩ :=
    (inv.later (inv.not_isStart thread)).runFrame thread inv.clock h agrees
  refine ⟨n', inv.thread thread (touches_runFrame h) (.inl (congrArg Sync.wait same))
    (same ▸ inv.sync) clock going,
    accounts, ?_⟩
  rw [same]
  omega

theorem NestInv.runRunner (inv : NestInv accepts body n s) (thread : s.running[t]? = some (some .runner))
    (h : s.runRunner t = some (s', o)) : Steps accepts body n s s' o 0 := by
  obtain ⟨going, posts, accounts⟩ := (inv.later (inv.not_isStart thread)).runRunner inv.sync thread h
  have step := runRunner_step h
  refine ⟨n, inv.thread thread (touches_runRunner h) step.wait (inv.sync.runner step) ?_ going,
    accounts, ?_⟩
  · rw [posts]
    exact inv.clock
  · have lower := step.rank
    omega

theorem execute_free {j : Nat} (h : s.execute t j = some (s', o)) :
    t ≠ 0 ∨ s.wait.isResuming = true := by
  simp only [SyncWait.execute] at h
  split at h
  · next free _ => simpa using (Bool.and_eq_true_iff.mp free).2
  · cases h

theorem NestInv.execute {j : Nat} (inv : NestInv accepts body n s) (h : s.execute t j = some (s', o)) :
    Steps accepts body n s s' o 0 := by
  have same := SyncWait.execute_sync h
  have wait : s'.wait = s.wait := congrArg Sync.wait same
  have touches := touches_execute h
  cases started : s.wait.isStart with
  | true =>
      have none : s.pending = [] := (inv.early started).active.2
      simp only [SyncWait.execute, none] at h
      split at h
      · next found => cases found
      · cases h
  | false =>
      obtain ⟨n', going, clock, steps, accounts⟩ := (inv.later started).execute inv.clock h
      refine ⟨n', ⟨clock, same ▸ inv.sync, touches.length ▸ inv.threads, ?_, ?_, fun _ => going⟩,
        accounts, ?_⟩
      · intro h' now
        rw [wait]
        rcases touches.running with kept | ⟨x, set⟩
        · exact inv.caller h' (kept ▸ now)
        · by_cases here : t = 0
          · exact (execute_free h).resolve_left (· here)
          · rw [set, List.getElem?_set_ne here] at now
            exact inv.caller h' now
      · rw [wait, started]
        intro impossible
        cases impossible
      · rw [same]
        omega

theorem NestInv.congr (inv : NestInv accepts body n s) (same : SameNest s s')
    (started : s.wait.isStart = false)
    (later : s'.wait.isStart = false) (sync : SyncInv s'.sync)
    (idle : ∀ h, s.running[0]? ≠ some (some h)) :
    NestInv accepts body n s' := by
  refine ⟨same.posts ▸ inv.clock, sync, same.running ▸ inv.threads, ?_, ?_,
    fun _ => (inv.later started).congr same⟩
  · intro h now
    exact (idle h (same.running ▸ now)).elim
  · rw [later]
    intro impossible
    cases impossible

theorem NestInv.stepWait (inv : NestInv accepts body n s) (h : s.stepWait = some (s', o)) :
    Steps accepts body n s s' o 0 := by
  have lower := (stepWait_step h).rank
  have sync := inv.sync.caller (stepWait_step h)
  cases started : s.wait.isStart with
  | true =>
      obtain ⟨active, pc, frames, time⟩ := inv.early started
      have running : ∃ x, s.running[0]? = some x :=
        ⟨_, List.getElem?_eq_getElem (Nat.lt_of_lt_of_le Nat.zero_lt_two inv.threads)⟩
      obtain ⟨x, thread⟩ := running
      cases active.idle thread
      rw [stepWait_start (WaitPc.eq_start started) pc] at h
      cases h
      refine ⟨n, ⟨inv.clock, sync, ?_, fun _ _ => rfl, ?_, fun _ => ?_⟩,
        accounts_silent (fun h => by cases h <;> rfl) rfl, by omega⟩
      · exact Nat.le_trans inv.threads (Nat.le_of_eq List.length_set.symm)
      · intro impossible
        cases impossible
      · exact .begun ⟨SyncWait.filterMap_set_eq _ thread active.1, active.2⟩ pc frames time
  | false =>
      obtain ⟨same, rfl, later, resuming⟩ := stepWait_spec started h
      refine ⟨n, inv.congr same started later sync ?_, same.accounts, by omega⟩
      intro h inside
      cases inside.symm.trans (resuming (inv.caller h inside))

theorem step_of_next {e : CoroEvent} (h : s.next e = some (s', o)) : s.step e = some (s', o) := by
  unfold SyncWait.next at h
  split at h
  · cases h
  · exact h

theorem NestInv.step {e : CoroEvent} (inv : NestInv accepts body n s) (h : s.step e = some (s', o))
    (agrees : Agrees accepts s'.posts) : Steps accepts body n s s' o (if e = .wake then 3 else 0) := by
  cases e with
  | run t answer =>
      simp only [SyncWait.step] at h
      split at h
      · next thread => exact inv.runRunner thread h
      · next thread => exact inv.runFrame thread h agrees
      · cases h
  | execute t j => exact inv.execute h
  | wait => exact inv.stepWait h
  | wake =>
      simp only [SyncWait.step] at h
      split at h
      · next blocked =>
          cases h
          have sync := inv.sync.wake blocked
          have same : SameNest s { s with wait := .lock } := ⟨rfl, rfl, rfl, rfl, rfl, rfl⟩
          refine ⟨n, inv.congr same (by rw [blocked]; rfl) rfl sync ?_, same.accounts, ?_⟩
          · intro h inside
            have resuming := inv.caller h inside
            rw [blocked] at resuming
            cases resuming
          · simp only [Sync.rank, SyncWait.sync, blocked, WaitPc.rank, if_pos]
            omega
      · cases h

end Step

end Rtl.Coro
