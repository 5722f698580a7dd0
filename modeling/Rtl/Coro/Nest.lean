import Rtl.Coro.Chain
import Rtl.Coro.Handoff

/-! # A nest of tasks under `sync_wait`

Every step of the system keeps the chain of awaiting coroutines and what it will end with.
A parent that awaits a child waits until it goes on with the result of this child, and
it does so once.
-/

namespace Rtl.Coro

open Rtl.Base

universe u v

variable {ν : Type u} {ε : Type v} {k : TaskKind}

/-! ## Who is active -/

namespace SyncWait

/-- The coroutine that runs on a thread, and the one that is posted. -/
def Active (s : SyncWait ν ε k) (runs posted : Option Handle) : Prop :=
  s.running.filterMap id = runs.toList ∧ s.pending = posted.toList

theorem filterMap_set_eq {running : List (Option Handle)} {t : Nat} {x : Option Handle}
    (y : Option Handle)
    (found : running[t]? = some x) (old : running.filterMap id = x.toList) :
    (running.set t y).filterMap id = y.toList := by
  have swap := filterMap_set_perm id y found
  rw [old] at swap
  have rest := (List.perm_append_left_iff _).mp (swap.trans List.perm_append_comm)
  cases y with
  | none => exact List.perm_nil.mp rest
  | some h => exact List.perm_singleton.mp rest

section Active

variable {s : SyncWait ν ε k} {t : Nat} {h h' : Handle} {posted : Option Handle}

theorem Active.eq (active : s.Active (some h) posted) (found : s.running[t]? = some (some h')) :
    h' = h := by
  have mem : h' ∈ s.running.filterMap id :=
    List.mem_filterMap.mpr ⟨some h', List.mem_of_getElem? found, rfl⟩
  rw [active.1] at mem
  exact List.mem_singleton.mp mem

theorem Active.idle (active : s.Active none posted) {x : Option Handle}
    (found : s.running[t]? = some x) : x = none := by
  cases x with
  | none => rfl
  | some h' =>
      have mem : h' ∈ s.running.filterMap id :=
        List.mem_filterMap.mpr ⟨some h', List.mem_of_getElem? found, rfl⟩
      rw [active.1] at mem
      cases mem

/-- Some thread runs the active coroutine. -/
theorem Active.thread (active : s.Active (some h) posted) :
    ∃ t : Nat, s.running[t]? = some (some h) := by
  have mem : h ∈ s.running.filterMap id := by
    rw [active.1]
    exact List.mem_singleton_self h
  obtain ⟨x, inside, rfl⟩ := List.mem_filterMap.mp mem
  exact List.mem_iff_getElem?.mp inside

end Active

/-! ## Who waits for whom -/

def waitsFor (s : SyncWait ν ε k) : Handle → Option Nat
  | .runner =>
      match s.runner with
      | .awaiting => some 0
      | _ => none
  | .frame j => awaitsAt s.frames j

def awaitedChildren (s : SyncWait ν ε k) : Nat :=
  match s.runner with
  | .initial => 0
  | _ => s.frames.length

/-- A step opens or closes at most one wait, the one that its output names, and the children
are awaited in the order of their numbers. -/
structure Accounts (s s' : SyncWait ν ε k) (o : CoroOutput) : Prop where
  waits : ∀ h i, (decide (s'.waitsFor h = some i)).toNat + (decide (o = .resumed h i)).toNat =
    (decide (s.waitsFor h = some i)).toNat + (decide (o = .awaited h i)).toNat
  awaited : ∀ h i, o = .awaited h i → i = s.awaitedChildren ∧ s'.awaitedChildren = i + 1
  others : (∀ h i, o ≠ .awaited h i) → s'.awaitedChildren = s.awaitedChildren

end SyncWait

/-! ## The state of the nest -/

/-- How the nest ends, and when its outermost task has suspended at its end. -/
def ending (accepts : Nat → Bool) (body : Body ν ε k false) : Flow ν ε k false × Clock :=
  ((body.timed accepts ⟨0, 0⟩).1, (body.timed accepts ⟨0, 0⟩).2.tick)

/-- The system after the call of `runner.resume()`, at the time `n`. -/
inductive Going (accepts : Nat → Bool) (body : Body ν ε k false) (n : Clock) (s : SyncWait ν ε k) :
    Prop where
  | begun (active : s.Active (some .runner) none) (pc : s.runner = .initial)
      (frames : s.frames = [.create body])
      (time : n = ⟨0, 0⟩)
  | frame {i : Nat} (active : s.Active (some (.frame i)) none) (pc : s.runner = .awaiting)
      (inside : Inside accepts body n s.frames i)
  | posted {i : Nat} (active : s.Active none (some (.frame i))) (pc : s.runner = .awaiting)
      (inside : Inside accepts body n.tick s.frames i)
  | back {h : Handle} (active : s.Active (some h) none) (pc : s.runner = .awaiting)
      (back : Back accepts body n s.frames h)
  | settled {value : Flow ν ε k false} (active : s.Active (some .runner) none)
      (pc : s.runner = .lock value ∨ s.runner = .store value) (total : (value, n) = ending accepts body)
      (alone : ∀ j, awaitsAt s.frames j = none)
  | stored (active : s.Active (some .runner) none)
      (pc : s.runner = .unlock ∨ s.runner = .notify ∨ s.runner = .returning)
      (total : (s.state.take k, n) = ending accepts body) (alone : ∀ j, awaitsAt s.frames j = none)
  | ended (active : s.Active none none) (pc : s.runner = .final)
      (total : (s.state.take k, n) = ending accepts body)
      (alone : ∀ j, awaitsAt s.frames j = none)

/-- The executor's answers so far are those of `accepts`. -/
def Agrees (accepts : Nat → Bool) (posts : List Bool) : Prop := ∀ i v, posts[i]? = some v → accepts i = v

def Advanced (accepts : Nat → Bool) (body : Body ν ε k false) (n : Clock) (s s' : SyncWait ν ε k)
    (o : CoroOutput) : Prop :=
  ∃ n', Going accepts body n' s' ∧ n'.posts = s'.posts.length ∧ n'.steps = n.steps + 1 ∧ s.Accounts s' o

section Frames

variable {accepts : Nat → Bool} {body : Body ν ε k false} {n : Clock} {s s' : SyncWait ν ε k} {t i : Nat}
  {o : CoroOutput}

/-- A silent step that leaves every wait as it is. -/
theorem accounts_silent (waits : ∀ h, s'.waitsFor h = s.waitsFor h)
    (children : s'.awaitedChildren = s.awaitedChildren) : s.Accounts s' .silent := by
  refine ⟨?_, ?_, fun _ => children⟩
  · intro h i
    rw [waits h]
    rfl
  · intro h i awaited
    cases awaited

theorem accounts_awaited {h : Handle} (before : s.waitsFor h = none) (after : s'.waitsFor h = some i)
    (others : ∀ h', h' ≠ h → s'.waitsFor h' = s.waitsFor h') (number : i = s.awaitedChildren)
    (children : s'.awaitedChildren = i + 1) : s.Accounts s' (.awaited h i) := by
  refine ⟨?_, ?_, fun none => (none h i rfl).elim⟩
  · intro h' j
    by_cases here : h' = h
    · subst here
      by_cases same : i = j <;> simp [before, after, same]
    · have other : h ≠ h' := Ne.symm here
      simp [others h' here, other]
  · intro h' j awaited
    cases awaited
    exact ⟨number, children⟩

theorem accounts_resumed {h : Handle} (before : s.waitsFor h = some i) (after : s'.waitsFor h = none)
    (others : ∀ h', h' ≠ h → s'.waitsFor h' = s.waitsFor h')
    (children : s'.awaitedChildren = s.awaitedChildren) : s.Accounts s' (.resumed h i) := by
  refine ⟨?_, ?_, fun _ => children⟩
  · intro h' j
    by_cases here : h' = h
    · subst here
      by_cases same : i = j <;> simp [before, after, same]
    · have other : h ≠ h' := Ne.symm here
      simp [others h' here, other]
  · intro h' j awaited
    cases awaited

theorem waitsFor_runner (same : s'.runner = s.runner) : s'.waitsFor .runner = s.waitsFor .runner := by
  simp only [SyncWait.waitsFor, same]

theorem awaitedChildren_eq (runner : s'.runner = s.runner)
    (length : s'.frames.length = s.frames.length) :
    s'.awaitedChildren = s.awaitedChildren := by
  simp only [SyncWait.awaitedChildren, runner, length]

/-- A coroutine that does not await takes a step and does not await. -/
theorem accounts_set {c : TaskKind} {f : Frame ν ε} {r : Promise ν ε × Control ν ε c}
    (found : s.frames[i]? = some f) (before : f.control.child = none) (after : r.2.child = none)
    (frames : s'.frames = s.frames.set i ⟨c, r.1, r.2⟩) (runner : s'.runner = s.runner) :
    s.Accounts s' .silent := by
  refine accounts_silent ?_ (awaitedChildren_eq runner (by rw [frames, List.length_set]))
  intro h
  cases h with
  | runner => exact waitsFor_runner runner
  | frame j =>
      simp only [SyncWait.waitsFor, frames]
      rw [awaitsAt_set found, after]
      split
      · next here =>
          rw [here, awaitsAt_of_found found, before]
      · rfl

theorem unwind_returns {c : TaskKind} {b : Bool} (tries : Tries ν ε c b) (r : c.Result ν) (n : Clock) :
    tries.unwind accepts (.returns r, n) = (.returns r, n) := by
  induction tries with
  | nil => rfl
  | trying handler next rest ih => exact ih
  | catching next rest ih => exact ih

/-- What is known of the coroutine that runs: its frame, the chain above it and what the chain
makes of its end. -/
structure Running (accepts : Nat → Bool) (body : Body ν ε k false) (s : SyncWait ν ε k) (t i : Nat)
    (c : TaskKind)
    (h : Handle) (F : Flow ν ε c false × Clock → Flow ν ε k false × Clock) (js : List Nat) : Prop where
  thread : s.running[t]? = some (some (.frame i))
  active : s.Active (some (.frame i)) none
  pc : s.runner = .awaiting
  awaits : Awaits accepts s.frames k h i c F js
  only : ∀ j child, awaitsAt s.frames j = some child → j ∈ js

section Running

variable {c : TaskKind} {h : Handle} {F : Flow ν ε c false × Clock → Flow ν ε k false × Clock}
  {js : List Nat}
  {promise : Promise ν ε}

/-- The coroutine takes a step of its own. -/
theorem Running.advance {f : Frame ν ε} {r : Promise ν ε × Control ν ε c}
    {x : Flow ν ε c false × Clock} {m : Clock}
    (running : Running accepts body s t i c h F js)
    (found : s.frames[i]? = some f) (before : f.control.child = none)
    (continuation : r.1.continuation = some h)
    (means : Means accepts m r.1 r.2 x) (total : F x = body.timed accepts ⟨0, 0⟩)
    (frames : s'.frames = s.frames.set i ⟨c, r.1, r.2⟩) (runner : s'.runner = s.runner)
    (threads : s'.running = s.running) (pending : s'.pending = s.pending)
    (posts : m.posts = s'.posts.length) (steps : m.steps = n.steps + 1) :
    Advanced accepts body n s s' .silent := by
  have active : s'.Active (some (.frame i)) none := by
    unfold SyncWait.Active
    rw [threads, pending]
    exact running.active
  have inside : Inside accepts body m s'.frames i := by
    rw [frames]
    exact inside_set found running.awaits
      (fun j child _ => running.only j child) continuation means total
  exact ⟨m, .frame active (runner.trans running.pc) inside, posts, steps,
    accounts_set found before means.child frames runner⟩

theorem suspendFor_eq {child : Nat} {f : Frame ν ε} (parent : Handle) (found : s.frames[child]? = some f)
    (early : f.isDone = false) :
    s.suspendFor t parent child =
      (s.setContinuation child parent).setRunning t (some (.frame child)) := by
  have unfinished : s.isDone (.frame child) = false := by
    simp [SyncWait.isDone, found, early]
  rw [SyncWait.suspendFor, if_neg (by simp [unfinished])]

/-- The child is new, so that `await_ready` is false. -/
theorem awaitChild_eq {b : Bool} {d : TaskKind} (child : Body ν ε d false)
    (next : d.Result ν → Body ν ε c b)
    (tries : Tries ν ε c b) :
    s.awaitChild t i promise child next tries =
      ({ s with
        frames := s.frames.set i ⟨c, promise, .awaiting d s.frames.length next tries⟩ ++
          [⟨d, ⟨none, none, some (.frame i)⟩, .goesOn child .nil⟩]
        running := s.running.set t (some (.frame s.frames.length)) },
        .awaited (.frame i) s.frames.length) := by
  have length : (s.frames.set i ⟨c, promise, .awaiting d s.frames.length next tries⟩).length =
    s.frames.length :=
    List.length_set
  have last : (s.frames.set i ⟨c, promise, .awaiting d s.frames.length next tries⟩ ++
      [Frame.create child])[s.frames.length]? = some (.create child) :=
    concat_at.mpr (.inr ⟨length.symm, rfl⟩)
  have made := modify_concat (s.frames.set i ⟨c, promise, .awaiting d s.frames.length next tries⟩)
    (Frame.create child) fun frame =>
      ⟨frame.kind, { frame.promise with continuation := some (.frame i) }, frame.control⟩
  rw [length] at made
  simp only [SyncWait.awaitChild, SyncWait.setFrame]
  rw [suspendFor_eq (.frame i) last rfl]
  simp only [SyncWait.setContinuation, SyncWait.setRunning, made]
  rfl

/-- The coroutine suspends for a new child. -/
theorem Running.suspend {b : Bool} {d : TaskKind} {f : Frame ν ε} {child : Body ν ε d false}
    {next : d.Result ν → Body ν ε c b} {tries : Tries ν ε c b}
    (running : Running accepts body s t i c h F js) (found : s.frames[i]? = some f)
    (before : f.control.child = none) (continuation : promise.continuation = some h)
    (clean : promise.exp = none)
    (total : F (tries.unwind accepts ((Body.coAwait child next).timed accepts n)) =
      body.timed accepts ⟨0, 0⟩)
    (clock : n.posts = s.posts.length) (step : s.awaitChild t i promise child next tries = (s', o)) :
    Advanced accepts body n s s' o := by
  rw [awaitChild_eq] at step
  cases step
  refine ⟨n.tick, .frame (i := s.frames.length) ⟨?_, running.active.2⟩ running.pc ?_, clock, rfl, ?_⟩
  · exact SyncWait.filterMap_set_eq _ running.thread running.active.1
  · exact inside_suspend found running.awaits running.only clean continuation total
  · have length : (s.frames.set i ⟨c, promise, .awaiting d s.frames.length next tries⟩).length =
      s.frames.length :=
      List.length_set
    have inside : i < s.frames.length := (List.getElem?_eq_some_iff.mp found).1
    have waits : ∀ j, awaitsAt (s.frames.set i ⟨c, promise, .awaiting d s.frames.length next tries⟩ ++
        [⟨d, ⟨none, none, some (.frame i)⟩, .goesOn child .nil⟩]) j =
        if j = i then some s.frames.length else awaitsAt s.frames j := by
      intro j
      rw [awaitsAt_concat, awaitsAt_set (r := (promise, .awaiting d s.frames.length next tries))
        found, length]
      split
      · next new =>
          rw [if_neg (by omega), awaitsAt, List.getElem?_eq_none (by omega)]
          rfl
      · rfl
    refine accounts_awaited ?_ ?_ ?_ ?_ ?_
    · exact (awaitsAt_of_found found).trans before
    · simp only [SyncWait.waitsFor]
      rw [waits, if_pos rfl]
    · intro h' other
      cases h' with
      | runner => rfl
      | frame j =>
          simp only [SyncWait.waitsFor]
          rw [waits, if_neg]
          rintro rfl
          exact other rfl
    · simp [SyncWait.awaitedChildren, running.pc]
    · simp [SyncWait.awaitedChildren, running.pc]

theorem Running.runBody {b : Bool} {stmt : Body ν ε c b} {tries : Tries ν ε c b} {answer : Submit}
    (running : Running accepts body s t i c h F js)
    (found : s.frames[i]? = some ⟨c, promise, .goesOn stmt tries⟩)
    (continuation : promise.continuation = some h) (clean : promise.exp = none)
    (total : F (tries.unwind accepts (stmt.timed accepts n)) = body.timed accepts ⟨0, 0⟩)
    (clock : n.posts = s.posts.length) (step : s.runBody t i answer promise stmt tries = (s', o))
    (agrees : Agrees accepts s'.posts) : Advanced accepts body n s s' o := by
  cases stmt with
  | coReturn result =>
      cases step
      refine running.advance (m := n.tick) found rfl ?_
        (means_returning _ n.tick) ?_ rfl rfl rfl rfl clock rfl
      · exact (continuation_returnResult ..).trans continuation
      · rw [awaitResume_returnResult clean, ← total]
        exact congrArg F (unwind_returns ..).symm
  | raise e =>
      cases step
      refine running.advance (m := n.tick) found rfl ?_
        (means_throwIn clean e n.tick tries) total rfl rfl rfl rfl clock rfl
      exact (continuation_throwIn ..).trans continuation
  | finish locals =>
      cases tries with
      | trying handler next rest =>
          cases step
          exact running.advance (m := n.tick) found rfl continuation
            (means_goesOn clean _ _ n.tick) total rfl rfl rfl rfl clock rfl
      | catching next rest =>
          cases step
          exact running.advance (m := n.tick) found rfl continuation
            (means_goesOn clean _ _ n.tick) total rfl rfl rfl rfl clock rfl
  | tryCatch block handler next =>
      cases step
      exact running.advance (m := n.tick) found rfl continuation
        (means_goesOn clean _ _ n.tick) total rfl rfl rfl rfl clock rfl
  | @coAwait _ d _ child next =>
      exact running.suspend found rfl continuation clean total clock step
  | schedule scheduler next =>
      simp only [SyncWait.runBody] at step
      split at step
      · cases step
        have accepted : accepts n.posts = true := clock ▸ agrees _ true (concat_at.mpr (.inr ⟨rfl, rfl⟩))
        simp only [Body.timed, accepted, if_true] at total
        refine ⟨n.post.tick, .posted (i := i) ⟨?_, ?_⟩ running.pc ?_, ?_, rfl, ?_⟩
        · exact SyncWait.filterMap_set_eq none running.thread running.active.1
        · exact congrArg (· ++ [Handle.frame i]) running.active.2
        · exact inside_set found running.awaits (fun j child _ => running.only j child) continuation
            (means_goesOn clean next tries _) total
        · simp [clock]
        · exact accounts_set found rfl rfl rfl rfl
      · cases step
        have rejected : accepts n.posts = false :=
          clock ▸ agrees _ false (concat_at.mpr (.inr ⟨rfl, rfl⟩))
        simp only [Body.timed, rejected] at total
        refine running.advance (m := n.post.tick) found rfl ?_
          (means_throwIn clean scheduleRejected _ tries) total rfl rfl rfl rfl
          ?_ rfl
        · exact (continuation_throwIn ..).trans continuation
        · simp [clock]

end Running

/-- The child of the coroutine that runs is done, and the coroutine goes on. -/
theorem Going.resume {answer : Submit} (active : s.Active (some (.frame i)) none)
    (pc : s.runner = .awaiting)
    (back : Back accepts body n s.frames (.frame i)) (clock : n.posts = s.posts.length)
    (h : s.runFrame t i answer = some (s', o)) : Advanced accepts body n s s' o := by
  unfold SyncWait.runFrame at h
  cases found : s.frames[i]? with
  | none =>
      rw [found] at h
      cases h
  | some f =>
      obtain ⟨c, d, b, promise, child, next, tries, done, rfl, foundChild, distinct, inside⟩ :=
        inside_of_back back found
      simp only [found, foundChild] at h
      cases h
      have waits : ∀ j, awaitsAt ((s.frames.set i
        ⟨c, (continueWith promise next tries (done.awaitResume d)).1,
            (continueWith promise next tries (done.awaitResume d)).2⟩).modify child
              fun frame => ⟨frame.kind, frame.promise, .destroyed⟩) j =
          if j = i then none else awaitsAt s.frames j := by
        intro j
        rw [awaitsAt_destroy, awaitsAt_set found, child_continueWith]
        by_cases here : j = child
        · rw [if_pos here, here, awaitsAt_of_found foundChild, if_neg (Ne.symm distinct)]
          rfl
        · rw [if_neg here]
      refine ⟨n.tick, .frame active pc (inside _ rfl), clock, rfl, accounts_resumed ?_ ?_ ?_ ?_⟩
      · exact awaitsAt_of_found found
      · exact (waits i).trans (if_pos rfl)
      · intro h' other
        cases h' with
        | runner => rfl
        | frame j =>
            refine (waits j).trans (if_neg ?_)
            rintro rfl
            exact other rfl
      · exact awaitedChildren_eq rfl (by simp [SyncWait.destroyFrame, SyncWait.setFrame])

theorem Going.runFrame {answer : Submit} (going : Going accepts body n s)
    (thread : s.running[t]? = some (some (.frame i))) (clock : n.posts = s.posts.length)
    (h : s.runFrame t i answer = some (s', o)) (agrees : Agrees accepts s'.posts) :
    Advanced accepts body n s s' o := by
  cases going with
  | begun active | settled active | stored active => cases active.eq thread
  | posted active | ended active => cases active.idle thread
  | back active pc back =>
      obtain rfl := active.eq thread
      exact Going.resume active pc back clock h
  | frame active pc inside =>
      cases active.eq thread
      cases inside with
      | @intro c promise control _ _ _ _ found continuation awaits means total only =>
          have running : Running accepts body s t i c _ _ _ := ⟨thread, active, pc, awaits, only⟩
          simp only [SyncWait.runFrame, found] at h
          cases control with
          | goesOn stmt tries =>
              rw [← means.2] at total
              exact running.runBody found continuation means.1 total clock (Option.some.inj h) agrees
          | returning =>
              cases h
              rw [← means] at total
              refine ⟨n.tick, .back ⟨?_, active.2⟩ pc (back_of_final found awaits only total), clock,
                rfl, ?_⟩
              · rw [← continuation]
                exact SyncWait.filterMap_set_eq _ thread active.1
              · exact accounts_set found rfl rfl rfl rfl
          | awaiting | final | destroyed => exact means.elim

theorem Inside.not_isDone (inside : Inside accepts body n s.frames i) : s.isDone (.frame i) = false := by
  cases inside with
  | @intro c promise control _ _ _ _ found _ _ means _ _ =>
      have early : (⟨c, promise, control⟩ : Frame ν ε).isDone = false := by
        cases control with
        | final => exact means.elim
        | _ => rfl
      simp [SyncWait.isDone, found, early]

/-- An executor thread takes the post. -/
theorem Going.execute {j : Nat} (going : Going accepts body n s) (clock : n.posts = s.posts.length)
    (h : s.execute t j = some (s', o)) : Advanced accepts body n s s' o := by
  simp only [SyncWait.execute] at h
  split at h
  · next free found =>
      cases going with
      | @posted i active pc inside =>
          rw [active.2] at found
          have here : j = 0 := by
            have lt := (List.getElem?_eq_some_iff.mp found).1
            simpa using lt
          subst here
          cases found
          rw [inside.not_isDone] at h
          cases h
          have idle : s.running[t]? = some none := eq_of_beq (Bool.and_eq_true_iff.mp free).1
          refine ⟨n.tick, .frame (i := i) ⟨SyncWait.filterMap_set_eq _ idle active.1, ?_⟩ pc inside,
            clock, rfl,
            accounts_silent (fun h => by cases h <;> rfl) rfl⟩
          exact congrArg (List.eraseIdx · 0) active.2
      | begun active | frame active | back active | settled active | stored active | ended active =>
          rw [active.2] at found
          cases found
  · cases h

end Frames

/-! ## The runner -/

section Runner

variable {accepts : Nat → Bool} {body : Body ν ε k false} {n : Clock} {s s' : SyncWait ν ε k} {t : Nat}
  {o : CoroOutput}

/-- A step of the runner or of the caller takes no time of the nest. -/
def Moved (accepts : Nat → Bool) (body : Body ν ε k false) (n : Clock) (s s' : SyncWait ν ε k)
    (o : CoroOutput) : Prop :=
  Going accepts body n s' ∧ s'.posts = s.posts ∧ s.Accounts s' o

def RunnerPc.hasResumed : RunnerPc ν ε k → Bool
  | .initial => false
  | .awaiting => false
  | _ => true

theorem waitsFor_runner_none (resumed : s.runner.hasResumed = true) : s.waitsFor .runner = none := by
  simp only [SyncWait.waitsFor]
  cases pc : s.runner <;> first | rfl | simp [pc, RunnerPc.hasResumed] at resumed

theorem awaitedChildren_of_begun (begun : s.runner ≠ .initial) :
    s.awaitedChildren = s.frames.length := by
  unfold SyncWait.awaitedChildren
  split
  · next initial => exact (begun initial).elim
  · rfl

/-- The runner takes a step after it has taken the result. -/
theorem accounts_runner (frames : s'.frames = s.frames) (before : s.runner.hasResumed = true)
    (after : s'.runner.hasResumed = true) : s.Accounts s' .silent := by
  have begun : ∀ {pc : RunnerPc ν ε k}, pc.hasResumed = true → pc ≠ .initial := by
    rintro pc resumed rfl
    cases resumed
  refine accounts_silent ?_ ?_
  · intro h
    cases h with
    | runner => rw [waitsFor_runner_none before, waitsFor_runner_none after]
    | frame j => simp only [SyncWait.waitsFor, frames]
  · rw [awaitedChildren_of_begun (begun before), awaitedChildren_of_begun (begun after), frames]

theorem Going.runRunner (going : Going accepts body n s) (inv : SyncInv s.sync)
    (thread : s.running[t]? = some (some .runner)) (h : s.runRunner t = some (s', o)) :
    Moved accepts body n s s' o := by
  unfold SyncWait.runRunner at h
  cases going with
  | frame active => cases active.eq thread
  | posted active | ended active => cases active.idle thread
  | begun active pc frames time =>
      simp only [pc] at h
      have found : s.frames[0]? = some (.create body) := by
        rw [frames]
        rfl
      have awaits : ({ s with runner := .awaiting } : SyncWait ν ε k).suspendFor t .runner 0 =
          { s with
            runner := .awaiting
            frames := [⟨k, ⟨none, none, some .runner⟩, .goesOn body .nil⟩]
            running := s.running.set t (some (.frame 0)) } := by
        rw [suspendFor_eq (s := { s with runner := .awaiting }) .runner found rfl]
        simp only [SyncWait.setContinuation, SyncWait.setRunning, frames]
        rfl
      rw [awaits] at h
      cases h
      have alone : ∀ j, awaitsAt [(⟨k, ⟨none, none, some .runner⟩, .goesOn body .nil⟩ : Frame ν ε)]
        j = none := by
        intro j
        cases j <;> rfl
      have inside : Inside accepts body n
        [(⟨k, ⟨none, none, some .runner⟩, .goesOn body .nil⟩ : Frame ν ε)] 0 := by
        refine .intro rfl rfl .runner (means_goesOn rfl body .nil n) (by rw [time]; rfl) ?_
        intro j child waits
        cases (alone j).symm.trans waits
      refine ⟨.frame (i := 0) ⟨SyncWait.filterMap_set_eq _ thread active.1, active.2⟩ rfl inside, rfl,
        accounts_awaited ?_ rfl ?_ ?_ rfl⟩
      · simp only [SyncWait.waitsFor, pc]
      · intro h other
        cases h with
        | runner => exact (other rfl).elim
        | frame j =>
            simp only [SyncWait.waitsFor]
            rw [alone j, frames]
            cases j <;> rfl
      · simp only [SyncWait.awaitedChildren, pc]
  | back active pc back =>
      cases active.eq thread
      simp only [pc] at h
      cases back with
      | intro found awaits time total only =>
          cases awaits
          simp only [found] at h
          cases h
          have alone : ∀ j, awaitsAt s.frames j = none := by
            intro j
            cases waits : awaitsAt s.frames j with
            | none => rfl
            | some child => cases only j child waits
          have destroyed : ∀ j, awaitsAt
              (s.frames.modify 0 fun frame => ⟨frame.kind, frame.promise, .destroyed⟩) j = none := by
            intro j
            rw [awaitsAt_destroy, alone j, ite_self]
          refine ⟨.settled active (.inl rfl) ?_ destroyed, rfl, accounts_resumed ?_ rfl ?_ ?_⟩
          · rw [ending, ← total, time]
          · simp only [SyncWait.waitsFor, pc]
          · intro h other
            cases h with
            | runner => exact (other rfl).elim
            | frame j => exact (destroyed j).trans (alone j).symm
          · rw [awaitedChildren_of_begun (by simp [SyncWait.destroyFrame]),
              awaitedChildren_of_begun (by simp [pc])]
            simp [SyncWait.destroyFrame]
  | @settled value active pc total alone =>
      rcases pc with pc | pc
      · simp only [pc] at h
        split at h
        · cases h
        · cases h
          exact ⟨.settled active (.inr rfl) total alone, rfl, accounts_runner rfl (by rw [pc]; rfl) rfl⟩
      · simp only [pc] at h
        cases h
        have early : s.state.done = false := inv.done.trans (by rw [SyncWait.sync, pc]; rfl)
        have fresh : s.state.exception = none := inv.fresh early
        exact ⟨.stored active (.inl rfl) (by rw [take_store fresh]; exact total) alone, rfl,
          accounts_runner rfl (by rw [pc]; rfl) rfl⟩
  | stored active pc total alone =>
      rcases pc with pc | pc | pc
      · simp only [pc] at h
        cases h
        exact ⟨.stored active (.inr (.inl rfl)) (by rw [take_mtx]; exact total) alone, rfl,
          accounts_runner rfl (by rw [pc]; rfl) rfl⟩
      · simp only [pc] at h
        cases h
        exact ⟨.stored active (.inr (.inr rfl)) total alone, rfl,
          accounts_runner rfl (by rw [pc]; rfl) rfl⟩
      · simp only [pc] at h
        cases h
        exact ⟨.ended ⟨SyncWait.filterMap_set_eq none thread active.1, active.2⟩ rfl total alone, rfl,
          accounts_runner rfl (by rw [pc]; rfl) rfl⟩

structure SameNest (s s' : SyncWait ν ε k) : Prop where
  frames : s'.frames = s.frames
  running : s'.running = s.running
  pending : s'.pending = s.pending
  runner : s'.runner = s.runner
  posts : s'.posts = s.posts
  take : s'.state.take k = s.state.take k

theorem Going.congr (going : Going accepts body n s) (same : SameNest s s') :
    Going accepts body n s' := by
  have keeps : ∀ {runs posted : Option Handle}, s.Active runs posted → s'.Active runs posted := by
    intro runs posted active
    exact ⟨same.running ▸ active.1, same.pending ▸ active.2⟩
  cases going with
  | begun active pc frames time =>
      exact .begun (keeps active) (same.runner.trans pc) (same.frames.trans frames) time
  | frame active pc inside => exact .frame (keeps active) (same.runner.trans pc) (same.frames ▸ inside)
  | posted active pc inside => exact .posted (keeps active) (same.runner.trans pc) (same.frames ▸ inside)
  | back active pc back => exact .back (keeps active) (same.runner.trans pc) (same.frames ▸ back)
  | settled active pc total alone =>
      exact .settled (keeps active) (same.runner ▸ pc) total (same.frames ▸ alone)
  | stored active pc total alone =>
      exact .stored (keeps active) (same.runner ▸ pc) (same.take ▸ total) (same.frames ▸ alone)
  | ended active pc total alone =>
      exact .ended (keeps active) (same.runner.trans pc) (same.take ▸ total) (same.frames ▸ alone)

theorem SameNest.accounts (same : SameNest s s') : s.Accounts s' .silent := by
  refine accounts_silent ?_ (awaitedChildren_eq same.runner (by rw [same.frames]))
  intro h
  cases h with
  | runner => exact waitsFor_runner same.runner
  | frame j => simp only [SyncWait.waitsFor, same.frames]

end Runner

end Rtl.Coro
