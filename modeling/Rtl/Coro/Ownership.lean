import Rtl.Base.Machine
import Rtl.Base.Teardown

/-! # Owners of coroutine frames

`Task` and `Awaiter` hold the handle of a coroutine and destroy its frame when they end. Both
live outside of all frames or inside of one, as the `Awaiter` of a `co_await` does, and end
with it. `Task<T>` and `Task<void>` have the same members for this. An object keeps its place
in the list of objects after it has ended, with the handle it had.
-/

namespace Rtl.Coro.Ownership

open Rtl.Base

inductive Kind where
  | task
  | awaiter
  deriving Repr, DecidableEq

structure Object where
  kind : Kind
  /-- The frame the object lives in. -/
  home : Option Nat
  /-- `m_handle`, `handle`. -/
  handle : Option Nat
  alive : Bool := true
  deriving Repr, DecidableEq

structure Heap where
  /-- The coroutines called so far, numbered in this order. -/
  frames : Nat := 0
  objects : List Object := []
  /-- The calls of `destroy()`, in order. -/
  destroyed : List Nat := []
  deriving Repr, DecidableEq

inductive Event where
  /-- A call of a coroutine, with `get_return_object`. -/
  | create (home : Option Nat)
  | moveConstruct (home : Option Nat) (source : Nat)
  | moveAssign (target source : Nat)
  /-- `operator co_await() &&`; the awaiter lives in the frame that awaits. -/
  | coAwait (frame source : Nat)
  /-- The end of a task, or of an awaiter when its `co_await` is complete. -/
  | destruct (object : Nat)
  deriving Repr, DecidableEq

namespace Heap

/-- The handles in a frame, in the order in which their objects end. -/
def children (s : Heap) (f : Nat) : List Nat :=
  (s.objects.filterMap fun o => if o.alive ∧ o.home = some f then o.handle else none).reverse

def teardown (s : Heap) (f : Nat) : List Nat := Base.teardown s.children (s.frames + 1) f

def endIn (torn : List Nat) (o : Object) : Object :=
  match o.home with
  | some f => if f ∈ torn then { o with alive := false } else o
  | none => o

/-- `handle.destroy()`. What lives in the frame ends, which destroys further frames. -/
def destroy (s : Heap) (f : Nat) : Heap :=
  { s with
    objects := s.objects.map (endIn (s.teardown f))
    destroyed := s.destroyed ++ s.teardown f }

/-- `if (handle) handle.destroy();` -/
def destroyHandle (s : Heap) : Option Nat → Heap
  | some f => s.destroy f
  | none => s

def setHandle (s : Heap) (k : Nat) (handle : Option Nat) : Heap :=
  { s with objects := s.objects.modify k fun o => { o with handle := handle } }

def handleOf (s : Heap) (k : Nat) : Option Nat := s.objects[k]?.bind (·.handle)

/-- `target.handle = source.handle; source.handle = nullptr;` -/
def moveHandle (s : Heap) (target source : Nat) : Heap :=
  (s.setHandle target (s.handleOf source)).setHandle source none

def construct (s : Heap) (o : Object) : Heap := { s with objects := s.objects ++ [o] }

def endObject (s : Heap) (k : Nat) : Heap :=
  { s with objects := s.objects.modify k fun o => { o with alive := false } }

def Live (s : Heap) (f : Nat) : Prop := f < s.frames ∧ f ∉ s.destroyed

instance (s : Heap) (f : Nat) : Decidable (s.Live f) := inferInstanceAs (Decidable (_ ∧ _))

def hosts (s : Heap) : Option Nat → Bool
  | some f => s.Live f
  | none => true

def find (s : Heap) (k : Nat) : Option Object := s.objects[k]?.filter (·.alive)

def next (s : Heap) : Event → Option (Heap × Unit)
  | .create home =>
      if s.hosts home then
        some ({ s with frames := s.frames + 1 }.construct ⟨.task, home, some s.frames, true⟩, ())
      else none
  | .moveConstruct home source =>
      match s.find source with
      | none => none
      | some o =>
          if s.hosts home then
            some ((s.construct ⟨o.kind, home, none, true⟩).moveHandle s.objects.length source, ())
          else none
  | .moveAssign target source =>
      match s.find target, s.find source with
      | some t, some o =>
          if t.kind = o.kind then
            if target = source then some (s, ())
            else some ((s.destroyHandle t.handle).moveHandle target source, ())
          else none
      | _, _ => none
  | .coAwait frame source =>
      match s.find source with
      | none => none
      | some o =>
          if o.kind = .task ∧ s.hosts (some frame) then
            some ((s.construct ⟨.awaiter, some frame, none, true⟩).moveHandle s.objects.length source, ())
          else none
  | .destruct k =>
      match s.find k with
      | none => none
      | some o => some ((s.destroyHandle o.handle).endObject k, ())

end Heap

def machine : Machine Heap Event Unit where
  init s := s = {}
  next := Heap.next

end Rtl.Coro.Ownership
