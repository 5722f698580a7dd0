/-! # Tasks

A `Task` is a lazy coroutine. It is written here as the tree of what its body does, one
node for each `co_return`, `throw`, `try`, `co_await` and `schedule`; the code in between
is in the functions that lead from one node to the next. A frame is what the compiler
makes of a task: the promise, and the place where the coroutine goes on.
-/

namespace Rtl.Coro

universe u v

inductive ErrorCode where
  | unknown
  | invalidTask
  | taskNotReady
  | emptyResult
  | scheduleRejected
  deriving Repr, DecidableEq

/-- What a coroutine can throw: an exception of the program or a `CoroError`. -/
inductive Exn (ε : Type v) where
  | user (e : ε)
  | coro (code : ErrorCode) (message : String)
  deriving Repr, DecidableEq

def scheduleRejected {ε : Type v} : Exn ε := .coro .scheduleRejected "Post rejected"

inductive TaskKind where
  | value
  | void
  deriving Repr, DecidableEq

abbrev TaskKind.Result (ν : Type u) : TaskKind → Type u
  | .value => ν
  | .void => PUnit

/-- `m_executor` may be a null pointer. -/
structure ExecutorScheduler where
  hasExecutor : Bool
  deriving Repr, DecidableEq

/-! ## Bodies -/

/-- What the body of a coroutine does. `ν` holds the values of every `T` in the nest and
the local variables that code after a `try` uses. The flag says that the code is inside
a `try` or a handler, the only places with an end to fall off: a coroutine ends with a
`co_return`. A handler may await, which C++ does not allow. -/
inductive Body (ν : Type u) (ε : Type v) : TaskKind → Bool → Type (max u v) where
  | coReturn {k : TaskKind} {b : Bool} (result : k.Result ν) : Body ν ε k b
  | raise {k : TaskKind} {b : Bool} (e : Exn ε) : Body ν ε k b
  | finish {k : TaskKind} (locals : ν) : Body ν ε k true
  | tryCatch {k : TaskKind} {b : Bool} (block : Body ν ε k true) (handler : Exn ε → Body ν ε k true)
      (next : ν → Body ν ε k b) : Body ν ε k b
  | coAwait {k c : TaskKind} {b : Bool} (child : Body ν ε c false) (next : c.Result ν → Body ν ε k b) :
      Body ν ε k b
  | schedule {k : TaskKind} {b : Bool} (scheduler : ExecutorScheduler) (next : Body ν ε k b) :
      Body ν ε k b

/-- How code ends: by `co_return`, by an exception, or at the end of its block. -/
inductive Flow (ν : Type u) (ε : Type v) (k : TaskKind) : Bool → Type (max u v) where
  | returns {b : Bool} (result : k.Result ν) : Flow ν ε k b
  | throws {b : Bool} (e : Exn ε) : Flow ν ε k b
  | falls (locals : ν) : Flow ν ε k true

/-- The blocks that the code is in, from the inside out: a `try`, or a handler. -/
inductive Tries (ν : Type u) (ε : Type v) (k : TaskKind) : Bool → Type (max u v) where
  | nil : Tries ν ε k false
  | trying {b : Bool} (handler : Exn ε → Body ν ε k true) (next : ν → Body ν ε k b)
      (rest : Tries ν ε k b) : Tries ν ε k true
  | catching {b : Bool} (next : ν → Body ν ε k b) (rest : Tries ν ε k b) : Tries ν ε k true

/-! ## Frames -/

inductive Handle where
  | runner
  | frame (i : Nat)
  deriving Repr, DecidableEq

/-- `promise_type`; in a `Task<void>` there is no value. -/
structure Promise (ν : Type u) (ε : Type v) where
  currentValue : Option ν
  exp : Option (Exn ε)
  continuation : Option Handle

/-- Where a coroutine goes on when it is resumed. At `returning` it has called
`return_value` or `unhandled_exception`, and at `final` it is suspended for good. -/
inductive Control (ν : Type u) (ε : Type v) (k : TaskKind) where
  | goesOn {b : Bool} (body : Body ν ε k b) (tries : Tries ν ε k b)
  | awaiting {b : Bool} (c : TaskKind) (child : Nat) (next : c.Result ν → Body ν ε k b)
      (tries : Tries ν ε k b)
  | returning
  | final
  | destroyed

structure Frame (ν : Type u) (ε : Type v) where
  kind : TaskKind
  promise : Promise ν ε
  control : Control ν ε kind

variable {ν : Type u} {ε : Type v}

namespace Promise

def empty : Promise ν ε := ⟨none, none, none⟩

def returnResult (promise : Promise ν ε) : (k : TaskKind) → k.Result ν → Promise ν ε
  | .value, v => { promise with currentValue := some v }
  | .void, _ => promise

def unhandledException (promise : Promise ν ε) (e : Exn ε) : Promise ν ε :=
  { promise with exp := some e }

def awaitResume (promise : Promise ν ε) : (k : TaskKind) → Flow ν ε k false
  | .value =>
      match promise.exp with
      | some e => .throws e
      | none =>
          match promise.currentValue with
          | none => .throws (.coro .emptyResult "Empty value")
          | some v => .returns v
  | .void =>
      match promise.exp with
      | some e => .throws e
      | none => .returns ⟨⟩

end Promise

/-- A coroutine before its first step: `initial_suspend` suspends it at once. -/
def Frame.create {k : TaskKind} (body : Body ν ε k false) : Frame ν ε := ⟨k, .empty, .goesOn body .nil⟩

/-- An exception in the body goes to the innermost `try`, past the handlers, and else into
the promise. -/
def throwIn {k : TaskKind} (promise : Promise ν ε) (e : Exn ε) :
    {b : Bool} → Tries ν ε k b → Promise ν ε × Control ν ε k
  | _, .nil => (promise.unhandledException e, .returning)
  | _, .trying handler next rest => (promise, .goesOn (handler e) (.catching next rest))
  | _, .catching _ rest => throwIn promise e rest

/-- The coroutine goes on after a `co_await` that gave a result or threw. -/
def continueWith {k c : TaskKind} {b : Bool} (promise : Promise ν ε) (next : c.Result ν → Body ν ε k b)
    (tries : Tries ν ε k b) : Flow ν ε c false → Promise ν ε × Control ν ε k
  | .returns v => (promise, .goesOn (next v) tries)
  | .throws e => throwIn promise e tries

def Frame.isDone (frame : Frame ν ε) : Bool :=
  match frame.control with
  | .final => true
  | _ => false

end Rtl.Coro
