import Rtl.Base.ListUpdate
import Rtl.Coro.Direct
import Rtl.Coro.SyncWait

/-! # The chain of awaiting coroutines

At any time at most one coroutine runs or is posted. It was awaited by another one, which
waits for it with a continuation of its own, and so on up to the runner of `sync_wait`.
What the coroutines on this chain will do with the result of the one below them is a
function, and this function applied to what the running coroutine will end with is
always the direct evaluation of the whole nest.
-/

namespace Rtl.Coro

open Rtl.Base

universe u v

variable {ν : Type u} {ε : Type v} {k : TaskKind}

/-! ## What a coroutine will end with -/

section Means

variable {c d : TaskKind} {b : Bool} {accepts : Nat → Bool}

/-- Going on with the coroutine at the time `n`, until it is done, ends with `x`. -/
def Means (accepts : Nat → Bool) (n : Clock) (promise : Promise ν ε) :
    {c : TaskKind} → Control ν ε c → Flow ν ε c false × Clock → Prop
  | _, .goesOn body tries, x => promise.exp = none ∧ tries.unwind accepts (body.timed accepts n) = x
  | c, .returning, x => (promise.awaitResume c, n) = x
  | _, _, _ => False

theorem means_goesOn {promise : Promise ν ε} (clean : promise.exp = none) (body : Body ν ε c b)
    (tries : Tries ν ε c b) (n : Clock) :
    Means accepts n promise (.goesOn body tries) (tries.unwind accepts (body.timed accepts n)) :=
  ⟨clean, rfl⟩

theorem means_returning (promise : Promise ν ε) (n : Clock) :
    Means accepts n promise (.returning : Control ν ε c) (promise.awaitResume c, n) :=
  rfl

theorem awaitResume_returnResult {promise : Promise ν ε} (clean : promise.exp = none) (r : c.Result ν) :
    (promise.returnResult c r).awaitResume c = .returns r := by
  cases c with
  | value => simp [Promise.returnResult, Promise.awaitResume, clean]
  | void => simp [Promise.returnResult, Promise.awaitResume, clean]

theorem awaitResume_unhandledException (promise : Promise ν ε) (e : Exn ε) :
    (promise.unhandledException e).awaitResume c = .throws e := by
  cases c <;> rfl

theorem means_throwIn {promise : Promise ν ε} (clean : promise.exp = none) (e : Exn ε) (n : Clock)
    (tries : Tries ν ε c b) :
    Means accepts n (throwIn promise e tries).1 (throwIn promise e tries).2
      (tries.unwind accepts (.throws e, n)) := by
  induction tries with
  | nil =>
      simp only [throwIn, Means, awaitResume_unhandledException]
      rfl
  | trying handler next rest _ => exact means_goesOn clean ..
  | catching next rest ih => exact ih

theorem means_continueWith {promise : Promise ν ε} (clean : promise.exp = none)
    (next : d.Result ν → Body ν ε c b) (tries : Tries ν ε c b) (flow : Flow ν ε d false) (n : Clock) :
    Means accepts n (continueWith promise next tries flow).1 (continueWith promise next tries flow).2
      (tries.unwind accepts (afterCall (fun v => (next v).timed accepts) (flow, n))) := by
  cases flow with
  | returns v => exact means_goesOn clean ..
  | throws e => exact means_throwIn clean e n tries

theorem continuation_throwIn (promise : Promise ν ε) (e : Exn ε) (tries : Tries ν ε c b) :
    (throwIn promise e tries).1.continuation = promise.continuation := by
  induction tries with
  | nil => rfl
  | trying handler next rest _ => rfl
  | catching next rest ih => exact ih

theorem continuation_continueWith (promise : Promise ν ε) (next : d.Result ν → Body ν ε c b)
    (tries : Tries ν ε c b) (flow : Flow ν ε d false) :
    (continueWith promise next tries flow).1.continuation = promise.continuation := by
  cases flow with
  | returns v => rfl
  | throws e => exact continuation_throwIn promise e tries

theorem continuation_returnResult (promise : Promise ν ε) (r : c.Result ν) :
    (promise.returnResult c r).continuation = promise.continuation := by
  cases c <;> rfl

theorem Means.steps {n : Clock} {promise : Promise ν ε} {control : Control ν ε c}
    {x : Flow ν ε c false × Clock}
    (means : Means accepts n promise control x) : n.steps ≤ x.2.steps := by
  cases control with
  | goesOn body tries =>
      rw [← means.2]
      exact Nat.le_trans (steps_timed accepts body n) (steps_unwind accepts tries _)
  | returning =>
      rw [← means]
  | awaiting | final | destroyed => exact means.elim

end Means

/-! ## The chain -/

def Control.child {c : TaskKind} : Control ν ε c → Option Nat
  | .awaiting _ child _ _ => some child
  | _ => none

theorem child_throwIn {c : TaskKind} {b : Bool} (promise : Promise ν ε) (e : Exn ε)
    (tries : Tries ν ε c b) :
    (throwIn promise e tries).2.child = none := by
  induction tries with
  | nil => rfl
  | trying handler next rest _ => rfl
  | catching next rest ih => exact ih

theorem child_continueWith {c d : TaskKind} {b : Bool} (promise : Promise ν ε)
    (next : d.Result ν → Body ν ε c b)
    (tries : Tries ν ε c b) (flow : Flow ν ε d false) :
    (continueWith promise next tries flow).2.child = none := by
  cases flow with
  | returns v => rfl
  | throws e => exact child_throwIn promise e tries

def awaitsAt (frames : List (Frame ν ε)) (j : Nat) : Option Nat :=
  frames[j]?.bind fun frame => frame.control.child

theorem awaitsAt_of_found {frames : List (Frame ν ε)} {j : Nat} {f : Frame ν ε}
    (found : frames[j]? = some f) :
    awaitsAt frames j = f.control.child := by
  simp [awaitsAt, found]

/-- The coroutine `h` awaits the child, of kind `c`. When the child is about to suspend at its
end with the result and at the time `x`, going on up the chain ends with `F x`; `js` are
the frames on the chain. A parent was there before its child. -/
inductive Awaits (accepts : Nat → Bool) (frames : List (Frame ν ε)) (k : TaskKind) :
    Handle → Nat → (c : TaskKind) → (Flow ν ε c false × Clock → Flow ν ε k false × Clock) → List Nat →
      Prop where
  | runner : Awaits accepts frames k .runner 0 k (fun x => x) []
  | frame {j child : Nat} {c d : TaskKind} {b : Bool} {promise : Promise ν ε}
    {next : d.Result ν → Body ν ε c b}
      {tries : Tries ν ε c b} {h : Handle} {F : Flow ν ε c false × Clock → Flow ν ε k false × Clock}
      {js : List Nat} (older : j < child)
      (found : frames[j]? = some ⟨c, promise, .awaiting d child next tries⟩) (clean : promise.exp = none)
      (continuation : promise.continuation = some h) (outer : Awaits accepts frames k h j c F js) :
      Awaits accepts frames k (.frame j) child d
        (fun x => F (tries.unwind accepts (afterCall (fun v => (next v).timed accepts) (handOver x))))
          (j :: js)

section Awaits

variable {accepts : Nat → Bool} {frames frames' : List (Frame ν ε)} {h : Handle} {i : Nat} {c : TaskKind}
  {F : Flow ν ε c false × Clock → Flow ν ε k false × Clock} {js : List Nat}

/-- The chain above a child only depends on older frames. -/
theorem Awaits.congr (awaits : Awaits accepts frames k h i c F js)
    (same : ∀ j, j < i → frames'[j]? = frames[j]?) : Awaits accepts frames' k h i c F js := by
  induction awaits with
  | runner => exact .runner
  | frame older found clean continuation _ ih =>
      exact .frame older ((same _ older).trans found) clean continuation
        (ih fun j lt => same j (Nat.lt_trans lt older))

theorem Awaits.steps (awaits : Awaits accepts frames k h i c F js) (x : Flow ν ε c false × Clock) :
    x.2.steps ≤ (F x).2.steps := by
  induction awaits with
  | runner => exact Nat.le_refl _
  | @frame _ _ _ _ _ _ next tries _ _ _ _ _ _ _ _ ih =>
      have handed : x.2.steps ≤ (handOver x).2.steps := Nat.le_add_right _ 2
      refine Nat.le_trans handed (Nat.le_trans ?_ (ih _))
      exact Nat.le_trans (steps_afterCall (fun v => steps_timed accepts (next v)) _)
        (steps_unwind accepts tries _)

end Awaits

/-- Frame `i` is the end of the chain, and going on with it at the time `n` gives the direct
evaluation of the nest. Only coroutines on the chain await. -/
inductive Inside (accepts : Nat → Bool) (body : Body ν ε k false) (n : Clock) (frames : List (Frame ν ε))
    (i : Nat) : Prop where
  | intro {c : TaskKind} {promise : Promise ν ε} {control : Control ν ε c} {h : Handle}
      {F : Flow ν ε c false × Clock → Flow ν ε k false × Clock} {js : List Nat}
      {x : Flow ν ε c false × Clock}
      (found : frames[i]? = some ⟨c, promise, control⟩) (continuation : promise.continuation = some h)
      (awaits : Awaits accepts frames k h i c F js) (means : Means accepts n promise control x)
      (total : F x = body.timed accepts ⟨0, 0⟩)
      (only : ∀ j child, awaitsAt frames j = some child → j ∈ js)

/-- The child `i` has suspended at its end at the time `n`, and `h` is to go on. -/
inductive Back (accepts : Nat → Bool) (body : Body ν ε k false) (n : Clock) (frames : List (Frame ν ε))
    (h : Handle) : Prop where
  | intro {i : Nat} {c : TaskKind} {promise : Promise ν ε} {m : Clock}
      {F : Flow ν ε c false × Clock → Flow ν ε k false × Clock} {js : List Nat}
      (found : frames[i]? = some ⟨c, promise, .final⟩) (awaits : Awaits accepts frames k h i c F js)
      (time : n = m.tick) (total : F (promise.awaitResume c, m) = body.timed accepts ⟨0, 0⟩)
      (only : ∀ j child, awaitsAt frames j = some child → j ∈ js)

section Inside

variable {accepts : Nat → Bool} {body : Body ν ε k false} {n : Clock} {frames : List (Frame ν ε)}
  {i : Nat}

theorem set_older {l : List (Frame ν ε)} {i j : Nat} {f : Frame ν ε} (older : j < i) :
    (l.set i f)[j]? = l[j]? :=
  List.getElem?_set_ne (by omega)

theorem awaitsAt_set {c : TaskKind} {f : Frame ν ε} {r : Promise ν ε × Control ν ε c}
    (found : frames[i]? = some f) (j : Nat) :
    awaitsAt (frames.set i ⟨c, r.1, r.2⟩) j = if j = i then r.2.child else awaitsAt frames j := by
  unfold awaitsAt
  by_cases here : j = i
  · subst here
    rw [set_at found, if_pos rfl]
    rfl
  · rw [List.getElem?_set_ne (Ne.symm here), if_neg here]

theorem Means.child {c : TaskKind} {promise : Promise ν ε} {control : Control ν ε c}
    {x : Flow ν ε c false × Clock}
    (means : Means accepts n promise control x) : control.child = none := by
  cases control with
  | awaiting => exact means.elim
  | _ => rfl

/-- The coroutine at the end of the chain takes a step of its own. -/
theorem inside_set {c : TaskKind} {f : Frame ν ε} {h : Handle}
    {F : Flow ν ε c false × Clock → Flow ν ε k false × Clock} {js : List Nat}
    {x : Flow ν ε c false × Clock}
    {r : Promise ν ε × Control ν ε c}
    (found : frames[i]? = some f) (awaits : Awaits accepts frames k h i c F js)
    (only : ∀ j child, j ≠ i → awaitsAt frames j = some child → j ∈ js)
    (continuation : r.1.continuation = some h)
    (means : Means accepts n r.1 r.2 x) (total : F x = body.timed accepts ⟨0, 0⟩) :
    Inside accepts body n (frames.set i ⟨c, r.1, r.2⟩) i := by
  refine .intro (set_at found) continuation (awaits.congr fun j older => set_older older) means total ?_
  intro j child waits
  rw [awaitsAt_set found] at waits
  split at waits
  · rw [means.child] at waits
    cases waits
  · next other => exact only j child other waits

theorem awaitsAt_concat (l : List (Frame ν ε)) (f : Frame ν ε) (j : Nat) :
    awaitsAt (l ++ [f]) j = if j = l.length then f.control.child else awaitsAt l j := by
  unfold awaitsAt
  by_cases new : j = l.length
  · subst new
    simp
  · rw [if_neg new]
    by_cases old : j < l.length
    · rw [List.getElem?_append_left old]
    · rw [List.getElem?_eq_none (l := l ++ [f])
        (by rw [List.length_append, List.length_singleton]; omega),
        List.getElem?_eq_none (l := l) (by omega)]

theorem awaitsAt_destroy (l : List (Frame ν ε)) (i j : Nat) :
    awaitsAt (l.modify i fun frame => ⟨frame.kind, frame.promise, .destroyed⟩) j =
      if j = i then none else awaitsAt l j := by
  unfold awaitsAt
  rw [List.getElem?_modify]
  by_cases here : j = i
  · cases l[j]? <;> simp [here, Control.child]
  · simp [here, Ne.symm here]

/-- The coroutine at the end of the chain suspends for a new child. -/
theorem inside_suspend {c d : TaskKind} {b : Bool} {f : Frame ν ε} {h : Handle} {promise : Promise ν ε}
    {F : Flow ν ε c false × Clock → Flow ν ε k false × Clock} {js : List Nat} {child : Body ν ε d false}
    {next : d.Result ν → Body ν ε c b} {tries : Tries ν ε c b}
    (found : frames[i]? = some f) (awaits : Awaits accepts frames k h i c F js)
    (only : ∀ j child, awaitsAt frames j = some child → j ∈ js) (clean : promise.exp = none)
    (continuation : promise.continuation = some h)
    (total : F (tries.unwind accepts (afterCall (fun v => (next v).timed accepts)
      (handOver (child.timed accepts n)))) = body.timed accepts ⟨0, 0⟩) :
    Inside accepts body n (frames.set i ⟨c, promise, .awaiting d frames.length next tries⟩ ++
      [⟨d, ⟨none, none, some (.frame i)⟩, .goesOn child .nil⟩]) frames.length := by
  have inside : i < frames.length := (List.getElem?_eq_some_iff.mp found).1
  have length : (frames.set i ⟨c, promise, .awaiting d frames.length next tries⟩).length =
    frames.length :=
    List.length_set
  have parent : Awaits accepts (frames.set i ⟨c, promise, .awaiting d frames.length next tries⟩) k
    (.frame i)
      frames.length d _ (i :: js) :=
    .frame inside (set_at found) clean continuation (awaits.congr fun j older => set_older older)
  have last : (frames.set i ⟨c, promise, .awaiting d frames.length next tries⟩ ++
      [⟨d, ⟨none, none, some (.frame i)⟩, .goesOn child .nil⟩])[frames.length]? =
      some ⟨d, ⟨none, none, some (.frame i)⟩, .goesOn child .nil⟩ :=
    concat_at.mpr (.inr ⟨length.symm, rfl⟩)
  refine .intro last rfl (parent.congr fun j older => ?_) ⟨rfl, rfl⟩ total ?_
  · exact List.getElem?_append_left (by omega)
  · intro j other waits
    rw [awaitsAt_concat] at waits
    split at waits
    · cases waits
    · rw [awaitsAt_set (r := (promise, .awaiting d frames.length next tries)) found] at waits
      split at waits
      · next here => exact here ▸ List.mem_cons_self
      · exact List.mem_cons_of_mem _ (only j other waits)

/-- The coroutine at the end of the chain suspends at its end. -/
theorem back_of_final {c : TaskKind} {f : Frame ν ε} {h : Handle} {promise : Promise ν ε}
    {F : Flow ν ε c false × Clock → Flow ν ε k false × Clock} {js : List Nat}
    (found : frames[i]? = some f) (awaits : Awaits accepts frames k h i c F js)
    (only : ∀ j child, awaitsAt frames j = some child → j ∈ js)
    (total : F (promise.awaitResume c, n) = body.timed accepts ⟨0, 0⟩) :
    Back accepts body n.tick (frames.set i ⟨c, promise, .final⟩) h := by
  refine .intro (set_at found) (awaits.congr fun j older => set_older older) rfl total ?_
  intro j child waits
  rw [awaitsAt_set (r := (promise, .final)) found] at waits
  split at waits
  · cases waits
  · exact only j child waits

/-- A frame that is newer than the end of the chain is destroyed. -/
theorem Inside.destroy {child : Nat} (inside : Inside accepts body n frames i) (newer : i < child) :
    Inside accepts body n (frames.modify child fun frame => ⟨frame.kind, frame.promise, .destroyed⟩)
      i := by
  have same : ∀ j, j ≤ i →
      (frames.modify child fun frame => ⟨frame.kind, frame.promise, .destroyed⟩)[j]? = frames[j]? := by
    intro j le
    have other : child ≠ j := by omega
    simp [other]
  cases inside with
  | intro found continuation awaits means total only =>
      refine .intro ((same i (Nat.le_refl i)).trans found) continuation
        (awaits.congr fun j older => same j (Nat.le_of_lt older)) means total ?_
      intro j other waits
      rw [awaitsAt_destroy] at waits
      split at waits
      · cases waits
      · exact only j other waits

/-- What a coroutine does when its child is done: the awaiter gives the result of the child
and destroys it. -/
theorem inside_of_back {j : Nat} {f : Frame ν ε} (back : Back accepts body n frames (.frame j))
    (found : frames[j]? = some f) :
    ∃ (c d : TaskKind) (b : Bool) (promise : Promise ν ε) (child : Nat)
    (next : d.Result ν → Body ν ε c b)
      (tries : Tries ν ε c b) (done : Promise ν ε), f = ⟨c, promise, .awaiting d child next tries⟩ ∧
      frames[child]? = some ⟨d, done, .final⟩ ∧ j ≠ child ∧
      ∀ r, r = continueWith promise next tries (done.awaitResume d) →
        Inside accepts body n.tick
          ((frames.set j ⟨c, r.1, r.2⟩).modify child
            fun frame => ⟨frame.kind, frame.promise, .destroyed⟩) j := by
  cases back with
  | @intro child d done m F js found' awaits time total only =>
      cases awaits with
      | @frame _ _ c _ b promise next tries h F js older foundj clean continuation outer =>
          cases foundj.symm.trans found
          refine ⟨c, d, b, promise, child, next, tries, done, rfl, found', by omega, ?_⟩
          rintro r rfl
          refine Inside.destroy (inside_set found outer ?_ ?_
            (means_continueWith clean next tries _ _) ?_) older
          · intro i other distinct waits
            exact (List.mem_cons.mp (only i other waits)).resolve_left distinct
          · rw [continuation_continueWith]
            exact continuation
          · rw [time]
            exact total

end Inside

end Rtl.Coro
