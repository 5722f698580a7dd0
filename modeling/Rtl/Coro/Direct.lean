import Rtl.Coro.Task

/-! # Direct evaluation

What a nest of tasks means when every `co_await` is a plain call: the child is evaluated
on the spot and its result or exception goes to the parent. A `schedule` does nothing if
its post is accepted and throws if not; the posts are numbered in the order in which they
are made. The timed evaluation also counts the steps that the coroutines take for it.
-/

namespace Rtl.Coro

universe u v w

variable {ν : Type u} {ε : Type v} {κ : Type w} {k c : TaskKind} {b : Bool}

/-! ## Plain calls -/

def andThen (next : ν → κ → Flow ν ε k b × κ) : Flow ν ε k true × κ → Flow ν ε k b × κ
  | (.returns r, n) => (.returns r, n)
  | (.throws e, n) => (.throws e, n)
  | (.falls v, n) => next v n

def catchWith (handler : Exn ε → κ → Flow ν ε k true × κ) : Flow ν ε k true × κ → Flow ν ε k true × κ
  | (.returns r, n) => (.returns r, n)
  | (.throws e, n) => handler e n
  | (.falls v, n) => (.falls v, n)

def afterCall (next : c.Result ν → κ → Flow ν ε k b × κ) : Flow ν ε c false × κ → Flow ν ε k b × κ
  | (.returns v, n) => next v n
  | (.throws e, n) => (.throws e, n)

/-- How the body ends and how many posts have been made by then, if `n` had been made before
it. `accepts` says which posts are accepted. -/
def Body.eval (accepts : Nat → Bool) : {k : TaskKind} → {b : Bool} → Body ν ε k b → Nat →
    Flow ν ε k b × Nat
  | _, _, .coReturn r, n => (.returns r, n)
  | _, _, .raise e, n => (.throws e, n)
  | _, _, .finish v, n => (.falls v, n)
  | _, _, .tryCatch block handler next, n =>
      andThen (fun v => (next v).eval accepts)
        (catchWith (fun e => (handler e).eval accepts) (block.eval accepts n))
  | _, _, .coAwait child next, n => afterCall (fun v => (next v).eval accepts) (child.eval accepts n)
  | _, _, .schedule _ next, n =>
      if accepts n then next.eval accepts (n + 1) else (.throws scheduleRejected, n + 1)

/-! ## Counting steps -/

structure Clock where
  posts : Nat
  steps : Nat
  deriving Repr, DecidableEq

namespace Clock

def tick (n : Clock) : Clock := { n with steps := n.steps + 1 }

def post (n : Clock) : Clock := { n with posts := n.posts + 1 }

@[simp] theorem tick_posts (n : Clock) : n.tick.posts = n.posts := rfl
@[simp] theorem tick_steps (n : Clock) : n.tick.steps = n.steps + 1 := rfl
@[simp] theorem post_posts (n : Clock) : n.post.posts = n.posts + 1 := rfl
@[simp] theorem post_steps (n : Clock) : n.post.steps = n.steps := rfl

end Clock

/-- A child takes one step to suspend at its end, and the parent one to go on. -/
def handOver (x : Flow ν ε c false × Clock) : Flow ν ε c false × Clock := (x.1, x.2.tick.tick)

/-- The evaluation with the steps of the coroutines: one for a statement, one more to run
an accepted post, and three for a `co_await`. -/
def Body.timed (accepts : Nat → Bool) :
    {k : TaskKind} → {b : Bool} → Body ν ε k b → Clock → Flow ν ε k b × Clock
  | _, _, .coReturn r, n => (.returns r, n.tick)
  | _, _, .raise e, n => (.throws e, n.tick)
  | _, _, .finish v, n => (.falls v, n.tick)
  | _, _, .tryCatch block handler next, n =>
      andThen (fun v => (next v).timed accepts)
        (catchWith (fun e => (handler e).timed accepts) (block.timed accepts n.tick))
  | _, _, .coAwait child next, n =>
      afterCall (fun v => (next v).timed accepts) (handOver (child.timed accepts n.tick))
  | _, _, .schedule _ next, n =>
      if accepts n.posts then next.timed accepts n.post.tick.tick else
        (.throws scheduleRejected, n.post.tick)

def untimed (x : Flow ν ε k b × Clock) : Flow ν ε k b × Nat := (x.1, x.2.posts)

theorem untimed_andThen {next : ν → Clock → Flow ν ε k b × Clock} {next' : ν → Nat → Flow ν ε k b × Nat}
    (same : ∀ v n, untimed (next v n) = next' v n.posts) (x : Flow ν ε k true × Clock) :
    untimed (andThen next x) = andThen next' (untimed x) := by
  obtain ⟨flow, n⟩ := x
  cases flow with
  | returns r => rfl
  | throws e => rfl
  | falls v => exact same v n

theorem untimed_catchWith {handler : Exn ε → Clock → Flow ν ε k true × Clock}
    {handler' : Exn ε → Nat → Flow ν ε k true × Nat}
    (same : ∀ e n, untimed (handler e n) = handler' e n.posts) (x : Flow ν ε k true × Clock) :
    untimed (catchWith handler x) = catchWith handler' (untimed x) := by
  obtain ⟨flow, n⟩ := x
  cases flow with
  | returns r => rfl
  | throws e => exact same e n
  | falls v => rfl

theorem untimed_afterCall {next : c.Result ν → Clock → Flow ν ε k b × Clock}
    {next' : c.Result ν → Nat → Flow ν ε k b × Nat}
    (same : ∀ v n, untimed (next v n) = next' v n.posts) (x : Flow ν ε c false × Clock) :
    untimed (afterCall next x) = afterCall next' (untimed x) := by
  obtain ⟨flow, n⟩ := x
  cases flow with
  | returns v => exact same v n
  | throws e => rfl

theorem untimed_timed (accepts : Nat → Bool) (body : Body ν ε k b) (n : Clock) :
    untimed (body.timed accepts n) = body.eval accepts n.posts := by
  induction body generalizing n with
  | coReturn r => rfl
  | raise e => rfl
  | finish v => rfl
  | tryCatch block handler next blockIh handlerIh nextIh =>
      simp only [Body.timed, Body.eval]
      rw [untimed_andThen nextIh, untimed_catchWith handlerIh, blockIh, Clock.tick_posts]
  | coAwait child next childIh nextIh =>
      simp only [Body.timed, Body.eval]
      rw [untimed_afterCall nextIh, ← Clock.tick_posts n, ← childIh]
      rfl
  | schedule scheduler next ih =>
      simp only [Body.timed, Body.eval]
      split
      · exact ih _
      · rfl

/-! ## The code around a statement -/

/-- What is left to do when the code inside some blocks has ended. -/
def Tries.unwind (accepts : Nat → Bool) :
    {b : Bool} → Tries ν ε k b → Flow ν ε k b × Clock → Flow ν ε k false × Clock
  | _, .nil, x => x
  | _, .trying handler next rest, x =>
      rest.unwind accepts (andThen (fun v => (next v).timed accepts)
        (catchWith (fun e => (handler e).timed accepts) x))
  | _, .catching next rest, x => rest.unwind accepts (andThen (fun v => (next v).timed accepts) x)

/-! ## Steps only add up -/

theorem steps_andThen {next : ν → Clock → Flow ν ε k b × Clock}
    (later : ∀ v n, n.steps ≤ (next v n).2.steps) (x : Flow ν ε k true × Clock) :
    x.2.steps ≤ (andThen next x).2.steps := by
  obtain ⟨flow, n⟩ := x
  cases flow with
  | returns r => exact Nat.le_refl _
  | throws e => exact Nat.le_refl _
  | falls v => exact later v n

theorem steps_catchWith {handler : Exn ε → Clock → Flow ν ε k true × Clock}
    (later : ∀ e n, n.steps ≤ (handler e n).2.steps) (x : Flow ν ε k true × Clock) :
    x.2.steps ≤ (catchWith handler x).2.steps := by
  obtain ⟨flow, n⟩ := x
  cases flow with
  | returns r => exact Nat.le_refl _
  | throws e => exact later e n
  | falls v => exact Nat.le_refl _

theorem steps_afterCall {next : c.Result ν → Clock → Flow ν ε k b × Clock}
    (later : ∀ v n, n.steps ≤ (next v n).2.steps) (x : Flow ν ε c false × Clock) :
    x.2.steps ≤ (afterCall next x).2.steps := by
  obtain ⟨flow, n⟩ := x
  cases flow with
  | returns v => exact later v n
  | throws e => exact Nat.le_refl _

theorem steps_timed (accepts : Nat → Bool) (body : Body ν ε k b) (n : Clock) :
    n.steps ≤ (body.timed accepts n).2.steps := by
  induction body generalizing n with
  | coReturn r => exact Nat.le_succ _
  | raise e => exact Nat.le_succ _
  | finish v => exact Nat.le_succ _
  | tryCatch block handler next blockIh handlerIh nextIh =>
      have inner := blockIh n.tick
      have handled := steps_catchWith handlerIh (block.timed accepts n.tick)
      have outer := steps_andThen nextIh
        (catchWith (fun e => (handler e).timed accepts) (block.timed accepts n.tick))
      simp only [Body.timed, Clock.tick_steps] at *
      omega
  | coAwait child next childIh nextIh =>
      have called := childIh n.tick
      have outer := steps_afterCall nextIh (handOver (child.timed accepts n.tick))
      simp only [Body.timed, handOver, Clock.tick_steps] at *
      omega
  | schedule scheduler next ih =>
      have rest := ih n.post.tick.tick
      simp only [Body.timed, Clock.tick_steps, Clock.post_steps] at *
      split
      · omega
      · exact Nat.le_succ _

theorem steps_unwind (accepts : Nat → Bool) (tries : Tries ν ε k b) (x : Flow ν ε k b × Clock) :
    x.2.steps ≤ (tries.unwind accepts x).2.steps := by
  induction tries with
  | nil => exact Nat.le_refl _
  | trying handler next rest ih =>
      refine Nat.le_trans (steps_catchWith (fun e => steps_timed accepts (handler e)) x) ?_
      refine Nat.le_trans (steps_andThen (fun v => steps_timed accepts (next v)) _) (ih _)
  | catching next rest ih =>
      exact Nat.le_trans (steps_andThen (fun v => steps_timed accepts (next v)) x) (ih _)

end Rtl.Coro
