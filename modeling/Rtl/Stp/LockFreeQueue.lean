import Rtl.Base.Machine

/-! # The lock-free queue

`LockFreeQueue` is a Michael-Scott queue that frees a node as soon as `pop` has moved the
head past it. Any number of threads push and pop; a step is one atomic load or
compare-exchange, an allocation or a release, and a `compare_exchange_weak` may fail for
no reason. `new` may return the address of a node that has been deleted, and whoever
follows a pointer to a deleted node finds anything there.
-/

namespace Rtl.Stp

/-- A place in memory that holds or held a node; the address is its index. -/
structure Cell (τ : Type*) where
  value : Option τ
  next : Option Nat
  live : Bool
  deriving Repr, DecidableEq

/-- What a thread finds if it follows a pointer to a node that has been deleted. -/
structure Stale (τ : Type*) where
  value : Option τ
  next : Option Nat
  deriving Repr, DecidableEq

/-- Where a thread is, with the variables of the call that it still uses. -/
inductive LfqPc (τ : Type*) where
  | idle
  -- `push`
  | loadTail (newNode : Nat)
  | loadNext (newNode curTail : Nat)
  | reloadTail (newNode curTail : Nat) (curTailNext : Option Nat)
  | casNext (newNode curTail : Nat)
  | helpTail (newNode curTail curTailNext : Nat)
  | casTail (newNode curTail : Nat)
  -- `pop`
  | popLoadHead
  | popLoadTail (curHead : Option Nat)
  | popLoadNext (curHead : Option Nat) (curTail : Nat)
  | popHelpTail (curTail headNext : Nat)
  | popCasHead (curHead : Nat) (headNext : Option Nat)
  | popReadValue (curHead : Nat) (headNext : Option Nat) (ticket : Nat)
  | popDelete (curHead : Nat) (data : Option τ) (ticket : Nat)
  deriving Repr, DecidableEq

def LfqPc.holds {τ : Type*} : LfqPc τ → List Nat
  | .idle => []
  | .loadTail newNode => [newNode]
  | .loadNext newNode curTail => [newNode, curTail]
  | .reloadTail newNode curTail curTailNext => newNode :: curTail :: curTailNext.toList
  | .casNext newNode curTail => [newNode, curTail]
  | .helpTail newNode curTail curTailNext => [newNode, curTail, curTailNext]
  | .casTail newNode curTail => [newNode, curTail]
  | .popLoadHead => []
  | .popLoadTail curHead => curHead.toList
  | .popLoadNext curHead curTail => curTail :: curHead.toList
  | .popHelpTail curTail headNext => [curTail, headNext]
  | .popCasHead curHead headNext => curHead :: headNext.toList
  | .popReadValue curHead headNext _ => curHead :: headNext.toList
  | .popDelete curHead _ _ => [curHead]

/-- The addresses that the next step follows or deletes. -/
def LfqPc.follows {τ : Type*} : LfqPc τ → List Nat
  | .loadNext _ curTail => [curTail]
  | .casNext _ curTail => [curTail]
  | .popLoadNext curHead _ => curHead.toList
  | .popReadValue _ headNext _ => headNext.toList
  | .popDelete curHead _ _ => [curHead]
  | _ => []

/-- The shared state, with a record of the values in the order in which their nodes
were linked, and of the values in the order in which `pop` took them. -/
structure LfqShared (τ : Type*) where
  heap : List (Cell τ)
  head : Option Nat
  tail : Nat
  linked : List (Option τ)
  taken : List (Option τ)
  deriving Repr, DecidableEq

inductive LfqOutput (τ : Type*) where
  | silent
  | pushed
  | empty
  | popped (ticket : Nat) (data : Option τ)
  deriving Repr, DecidableEq

namespace LfqShared

variable {τ : Type*}

def start : LfqShared τ where
  heap := [⟨none, none, true⟩]
  head := some 0
  tail := 0
  linked := []
  taken := []

def nextOf (s : LfqShared τ) (a : Nat) : Option Nat := s.heap[a]?.bind (·.next)

def valueOf (s : LfqShared τ) (a : Nat) : Option τ := s.heap[a]?.bind (·.value)

def isLive (s : LfqShared τ) (a : Nat) : Bool := s.heap[a]?.any (·.live)

def readNext (s : LfqShared τ) (stale : Stale τ) (a : Nat) : Option Nat :=
  if s.isLive a then s.nextOf a else stale.next

def readValue (s : LfqShared τ) (stale : Stale τ) (a : Nat) : Option τ :=
  if s.isLive a then s.valueOf a else stale.value

/-- `new Node(value)` at an address that is not in use. -/
def allocate (s : LfqShared τ) (a : Nat) (value : τ) : Option (LfqShared τ) :=
  if a = s.heap.length then some { s with heap := s.heap ++ [⟨some value, none, true⟩] }
  else if a < s.heap.length ∧ s.isLive a = false then
    some { s with heap := s.heap.set a ⟨some value, none, true⟩ }
  else none

def casTail (s : LfqShared τ) (weak : Bool) (expected desired : Nat) : LfqShared τ :=
  if s.tail = expected ∧ weak = false then { s with tail := desired } else s

def setNext (s : LfqShared τ) (a n : Nat) : LfqShared τ :=
  { s with heap := s.heap.modify a fun cell => { cell with next := some n } }

def delete (s : LfqShared τ) (a : Nat) : LfqShared τ :=
  { s with heap := s.heap.modify a fun cell => { cell with live := false } }

/-- The next step of a thread: the shared state, where the thread goes on, and what it
returns. `weak` makes a compare-exchange fail for no reason; `stale` is what there is in a
deleted node. -/
def step (s : LfqShared τ) (weak : Bool) (stale : Stale τ) :
    LfqPc τ → Option (LfqShared τ × LfqPc τ × LfqOutput τ)
  | .idle => none
  | .loadTail newNode => some (s, .loadNext newNode s.tail, .silent)
  | .loadNext newNode curTail => some (s, .reloadTail newNode curTail (s.readNext stale curTail), .silent)
  | .reloadTail newNode curTail curTailNext =>
      if curTail ≠ s.tail then some (s, .loadTail newNode, .silent)
      else
        match curTailNext with
        | none => some (s, .casNext newNode curTail, .silent)
        | some n => some (s, .helpTail newNode curTail n, .silent)
  | .casNext newNode curTail =>
      if s.readNext stale curTail = none ∧ weak = false then
        some ({ s.setNext curTail newNode with linked := s.linked ++ [s.valueOf newNode] },
          .casTail newNode curTail, .silent)
      else some (s, .loadTail newNode, .silent)
  | .helpTail newNode curTail curTailNext =>
      some (s.casTail weak curTail curTailNext, .loadTail newNode, .silent)
  | .casTail newNode curTail => some (s.casTail weak curTail newNode, .idle, .pushed)
  | .popLoadHead => some (s, .popLoadTail s.head, .silent)
  | .popLoadTail curHead => some (s, .popLoadNext curHead s.tail, .silent)
  | .popLoadNext curHead curTail =>
      match curHead with
      | none => none
      | some h =>
          if h = curTail then
            match s.readNext stale h with
            | none => some (s, .idle, .empty)
            | some n => some (s, .popHelpTail curTail n, .silent)
          else some (s, .popCasHead h (s.readNext stale h), .silent)
  | .popHelpTail curTail headNext => some (s.casTail weak curTail headNext, .popLoadHead, .silent)
  | .popCasHead curHead headNext =>
      if s.head = some curHead ∧ weak = false then
        some ({ s with head := headNext, taken := s.taken ++ [headNext.bind s.valueOf] },
          .popReadValue curHead headNext s.taken.length, .silent)
      else some (s, .popLoadHead, .silent)
  | .popReadValue curHead headNext ticket =>
      match headNext with
      | none => none
      | some n => some (s, .popDelete curHead (s.readValue stale n) ticket, .silent)
  | .popDelete curHead data ticket => some (s.delete curHead, .idle, .popped ticket data)

end LfqShared

/-- Calls, and steps of a thread. The address of a push is the one `new` returns. -/
inductive LfqEvent (τ : Type*) where
  | push (t : Nat) (value : τ) (address : Nat)
  | pop (t : Nat)
  | step (t : Nat) (weak : Bool) (stale : Stale τ)
  deriving Repr, DecidableEq

structure LockFreeQueue (τ : Type*) where
  shared : LfqShared τ
  threads : List (LfqPc τ)
  deriving Repr, DecidableEq

namespace LockFreeQueue

variable {τ : Type*}

def start (threads : Nat) : LockFreeQueue τ := ⟨.start, List.replicate threads .idle⟩

def next (s : LockFreeQueue τ) : LfqEvent τ → Option (LockFreeQueue τ × LfqOutput τ)
  | .push t value address =>
      match s.threads[t]? with
      | some .idle =>
          match s.shared.allocate address value with
          | none => none
          | some shared => some (⟨shared, s.threads.set t (.loadTail address)⟩, .silent)
      | _ => none
  | .pop t =>
      match s.threads[t]? with
      | some .idle => some (⟨s.shared, s.threads.set t .popLoadHead⟩, .silent)
      | _ => none
  | .step t weak stale =>
      match s.threads[t]? with
      | none => none
      | some pc =>
          match s.shared.step weak stale pc with
          | none => none
          | some (shared, pc', output) => some (⟨shared, s.threads.set t pc'⟩, output)

/-- A pop deletes a node whose address another call in progress still has in a variable. -/
def deletesHeld (s : LockFreeQueue τ) : LfqEvent τ → Bool
  | .step t _ _ =>
      match s.threads[t]? with
      | some (.popDelete curHead _ _) =>
          (s.threads.eraseIdx t).any fun pc => pc.holds.contains curHead
      | _ => false
  | _ => false

/-- No thread is about to follow or delete a pointer to a node that has been deleted. -/
def Safe (s : LockFreeQueue τ) : Prop :=
  ∀ pc ∈ s.threads, ∀ a ∈ pc.follows, s.shared.isLive a = true

end LockFreeQueue

def lockFreeQueueMachine (τ : Type*) :
    Rtl.Base.Machine (LockFreeQueue τ) (LfqEvent τ) (LfqOutput τ) where
  init s := ∃ threads, s = LockFreeQueue.start threads
  next := LockFreeQueue.next

end Rtl.Stp
