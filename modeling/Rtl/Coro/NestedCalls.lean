import Rtl.Coro.Lifetime

/-! # Nested tasks mean what direct calls mean

What `sync_wait` returns is the direct evaluation, every parent goes on once for each child
it awaits, and a run is no longer than the evaluation allows. That `sync_wait` comes to
return is not so in every run: it may destroy the runner while it runs, and then nothing is
said of what follows. It is so exactly in the runs in which it does not do that.
-/

namespace Rtl.Coro

open Rtl.Base

universe u v

variable {ν : Type u} {ε : Type v} {k : TaskKind}

namespace SyncWait

/-- Unless `sync_wait` has returned, some thread can take a step. -/
def GoesOn (s : SyncWait ν ε k) : Prop := (∀ value, s.wait ≠ .returned value) → s.CanStep

theorem not_goesOn {s : SyncWait ν ε k} (undefined : s.wait.isUndefined = true) : ¬ s.GoesOn := by
  intro goesOn
  have unfinished : ∀ value, s.wait ≠ .returned value := by
    intro value returned
    rw [returned] at undefined
    cases undefined
  obtain ⟨e, s', o, _, step⟩ := goesOn unfinished
  rw [SyncWait.next, undefined, if_pos rfl] at step
  cases step

end SyncWait

variable {accepts : Nat → Bool} {body : Body ν ε k false} {moreWorkers : Nat} {s : SyncWait ν ε k}
  {ts : List (Transition (SyncWait ν ε k) CoroEvent CoroOutput)}

/-- A run is undefined after the destruction of a running runner, and only then. -/
theorem isUndefined_iff (run : (coroMachine ν ε k).Run (.start moreWorkers body) ts s) :
    s.wait.isUndefined = false ↔ ∀ t ∈ ts, t.before.destroysRunning t.event = false := by
  refine run.history (H := fun ts (s : SyncWait ν ε k) => s.wait.isUndefined = false ↔
    ∀ t ∈ ts, t.before.destroysRunning t.event = false) (by simp [SyncWait.start, WaitPc.isUndefined]) ?_
  intro ts s e s' o before h
  have defined : s.wait.isUndefined = false := by
    cases undefined : s.wait.isUndefined with
    | false => rfl
    | true => simp [coroMachine, SyncWait.next, undefined] at h
  have earlier := before.mp defined
  constructor
  · intro after t mem
    rcases List.mem_append.mp mem with old | new
    · exact earlier t old
    · obtain rfl := List.mem_singleton.mp new
      cases running : s.destroysRunning e with
      | false => rfl
      | true =>
          rw [(destroysRunning_step running (step_of_next h)).1] at after
          cases after
  · intro guard
    exact isUndefined_step defined (guard ⟨s, e, o, s'⟩ (by simp)) (step_of_next h)

theorem goesOn_iff (run : (coroMachine ν ε k).Run (.start moreWorkers body) ts s)
    (agrees : Agrees accepts s.posts) :
    s.GoesOn ↔ ∀ t ∈ ts, t.before.destroysRunning t.event = false := by
  obtain ⟨n, inv⟩ := runInv_of_run run agrees
  rw [← isUndefined_iff run]
  constructor
  · intro goesOn
    cases undefined : s.wait.isUndefined with
    | false => rfl
    | true => exact absurd goesOn (SyncWait.not_goesOn undefined)
  · intro defined unfinished
    exact inv.nest.canStep unfinished defined

/-- For every nest and every executor that answers posts as `accepts` says and runs each accepted
one once, under every interleaving: what `sync_wait` returns or throws is the direct
evaluation, with one post for each `schedule` in it; a run is no longer than the
evaluation allows, spurious wake-ups apart; and each wait of a parent for a child ends at
most once, and exactly once by the time `sync_wait` has returned. Until it has returned
some thread can take a step if and only if it has not destroyed a running runner, and it has
not where it does not see the flag early or no post has been accepted. -/
theorem nested_tasks_are_direct_calls
    (run : (coroMachine ν ε k).Run (.start moreWorkers body) ts s) (agrees : Agrees accepts s.posts) :
    (∀ value, s.wait = .returned value → body.eval accepts 0 = (value, s.posts.length)) ∧
      ts.length ≤ (body.timed accepts ⟨0, 0⟩).2.steps + 18 + 3 * wakeUps ts ∧
      (awaits ts).Nodup ∧ (∀ p, (resumes ts).count p ≤ (awaits ts).count p) ∧
      (∀ value, s.wait = .returned value → (resumes ts).Perm (awaits ts)) ∧
      (s.GoesOn ↔ ∀ t ∈ ts, t.before.destroysRunning t.event = false) ∧
      ((∀ t ∈ ts, t.before.seesDoneEarly t.event = false) ∨ true ∉ s.posts → s.GoesOn) := by
  obtain ⟨n, inv⟩ := runInv_of_run run agrees
  have exactly := goesOn_iff run agrees
  refine ⟨fun value returned => (inv.nest.returned returned).1, ?_, inv.ledger.nodup,
    inv.ledger.resumes_le, fun value returned => inv.ledger.resumes_perm (inv.nest.returned returned).2,
    exactly, fun guard => exactly.mpr (destroysRunning_of_guard run guard)⟩
  have length := inv.length
  have time := inv.nest.steps_le
  omega

def catchingNest : Body Nat String .value false :=
  .tryCatch
    (.coAwait (c := .void) (.schedule ⟨true⟩ (.raise (.user "bad"))) fun _ => .finish 0)
    (fun _ => .finish 1) (fun v => .coReturn (v + 40 : Nat))

/-- The child moves to the executor thread, where the rest of the nest is run. -/
def catchingEvents : List CoroEvent :=
  [[.wait], List.replicate 4 (.run 0 .accepted), [.execute 1 0], List.replicate 12 (.run 1 .refused),
    List.replicate 6 .wait].flatten

theorem nested_tasks_are_direct_calls_catching : ∃ ts s,
    (coroMachine Nat String .value).exec (.start 0 catchingNest) catchingEvents = some (ts, s) ∧
      s.wait = .returned (.returns (41 : Nat)) ∧ s.posts = [true] ∧
      catchingNest.eval (fun _ => true) 0 = (.returns (41 : Nat), 1) ∧
      awaits ts = [(.runner, 0), (.frame 0, 1)] ∧ (resumes ts).Perm (awaits ts) ∧
      ∀ t ∈ ts, t.before.destroysRunning t.event = false := by
  have h : (coroMachine Nat String .value).exec (.start 0 catchingNest) catchingEvents =
    some (_, _) := rfl
  have agrees : Agrees (fun _ => true) [true] := by
    intro i v found
    cases i with
    | zero => exact Option.some.inj found
    | succ i => cases found
  obtain ⟨result, -, -, -, perm, exactly, -⟩ :=
    nested_tasks_are_direct_calls (Machine.Run.of_exec h) agrees
  refine ⟨_, _, h, rfl, rfl, result _ rfl, rfl, perm _ rfl, exactly.mp ?_⟩
  intro unfinished
  exact absurd rfl (unfinished _)

/-- The direct evaluation gives 7; the caller has destroyed the runner before it got there. -/
theorem sync_wait_loses_result : ∃ ts s,
    (coroMachine Nat String .value).exec (.start 0 scheduledTask) earlyLook = some (ts, s) ∧
      s.posts = [true] ∧ scheduledTask.eval (fun _ => true) 0 = (.returns (7 : Nat), 1) ∧
      s.wait = .undefined ∧ ¬ s.GoesOn :=
  ⟨_, _, rfl, rfl, rfl, rfl, SyncWait.not_goesOn rfl⟩

end Rtl.Coro
