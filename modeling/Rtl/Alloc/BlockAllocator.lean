import Mathlib.Data.List.Sort
import Rtl.Base.Machine
import Rtl.Base.Spans

/-! # The block allocator

`BlockAllocator` cuts blocks out of a buffer of one mebibyte and keeps two tables of
1024 entries: the blocks it has allocated and the blocks that are free. A pointer is
the offset into the buffer, and none is null. A failed `assert` ends the program.
-/

namespace Rtl.Alloc

open Rtl.Base

structure AllocatorBlock where
  blockSize : Nat := 0
  blockPtr : Option Nat := none
  deriving Repr, DecidableEq

def blocksSize : Nat := 1024

def linearAllocatorBlockSize : Nat := 1024 * 1024

/-- The type of the elements, as far as the allocator knows it. -/
structure ElementType where
  size : Nat
  size_pos : 0 < size

/-- `n * sizeof(T)` in a `size_t`. -/
def ElementType.bytes (T : ElementType) (n : Nat) : Nat := n * T.size % 2 ^ 64

namespace AllocatorBlock

/-- `std::less` on the pointers; null is the least. -/
def less (left right : AllocatorBlock) : Bool :=
  match left.blockPtr, right.blockPtr with
  | none, some _ => true
  | some p, some q => p < q
  | _, none => false

def makeBlockNullptr : AllocatorBlock := {}

/-- The bytes of the buffer the entry stands for. -/
def span (b : AllocatorBlock) : Option Span := b.blockPtr.map fun p => ⟨p, b.blockSize⟩

def fits (bytes : Nat) (b : AllocatorBlock) : Bool := b.blockPtr.isSome && bytes ≤ b.blockSize

/-- The first block ends where the second begins. -/
def touches (current next : AllocatorBlock) : Bool :=
  match current.blockPtr, next.blockPtr with
  | some p, some q => p + current.blockSize == q
  | _, _ => false

end AllocatorBlock

/-- What `std::sort` promises; the order of entries with one pointer is open. -/
structure BlockSort where
  sort : List AllocatorBlock → List AllocatorBlock
  perm : ∀ blocks, (sort blocks).Perm blocks
  sorted : ∀ blocks, (sort blocks).Pairwise fun left right => right.less left = false

def AllocatorBlock.NotAfter (left right : AllocatorBlock) : Prop := right.less left = false

instance : DecidableRel AllocatorBlock.NotAfter := fun left right =>
  inferInstanceAs (Decidable (right.less left = false))

instance : Std.Total AllocatorBlock.NotAfter where
  total := by
    rintro ⟨_, _ | p⟩ ⟨_, _ | q⟩ <;> simp [AllocatorBlock.NotAfter, AllocatorBlock.less]
    omega

instance : IsTrans AllocatorBlock AllocatorBlock.NotAfter where
  trans := by
    rintro ⟨_, _ | p⟩ ⟨_, _ | q⟩ ⟨_, _ | r⟩ <;> simp [AllocatorBlock.NotAfter, AllocatorBlock.less]
    omega

def BlockSort.insertion : BlockSort where
  sort := List.insertionSort AllocatorBlock.NotAfter
  perm := List.perm_insertionSort AllocatorBlock.NotAfter
  sorted := List.pairwise_insertionSort AllocatorBlock.NotAfter

/-! ## Tables -/

structure BlockTable where
  blocks : List AllocatorBlock
  length_eq : blocks.length = blocksSize
  deriving DecidableEq

namespace BlockTable

def empty : BlockTable := ⟨List.replicate blocksSize {}, List.length_replicate⟩

def set (t : BlockTable) (i : Nat) (b : AllocatorBlock) : BlockTable :=
  ⟨t.blocks.set i b, by rw [List.length_set, t.length_eq]⟩

def spans (t : BlockTable) : List (Option Span) := t.blocks.map (·.span)

theorem empty_at {i : Nat} (inside : i < blocksSize) : empty.blocks[i]? = some {} := by
  unfold empty
  rw [List.getElem?_replicate, if_pos inside]

theorem empty_spans : empty.spans = List.replicate blocksSize none := by
  unfold empty spans
  rw [List.map_replicate]
  rfl

def searchNullptr (t : BlockTable) : Option Nat := t.blocks.findIdx? (·.blockPtr.isNone)

variable {t : BlockTable} {i : Nat}

theorem searchNullptr_at (h : t.searchNullptr = some i) :
    ∃ size, t.blocks[i]? = some ⟨size, none⟩ := by
  obtain ⟨inside, null, _⟩ := List.findIdx?_eq_some_iff_getElem.mp h
  rw [Option.isNone_iff_eq_none] at null
  exact ⟨t.blocks[i].blockSize, by rw [List.getElem?_eq_getElem inside, ← null]⟩

theorem fits_at {bytes : Nat} (h : t.blocks.findIdx? (·.fits bytes) = some i) :
    ∃ size p, t.blocks[i]? = some ⟨size, some p⟩ ∧ bytes ≤ size := by
  obtain ⟨inside, fits, _⟩ := List.findIdx?_eq_some_iff_getElem.mp h
  simp only [AllocatorBlock.fits, Bool.and_eq_true, Option.isSome_iff_exists, decide_eq_true_eq] at fits
  obtain ⟨⟨p, ptr⟩, enough⟩ := fits
  exact ⟨t.blocks[i].blockSize, p, by rw [List.getElem?_eq_getElem inside, ← ptr], enough⟩

end BlockTable

/-! ## Merging -/

/-- The loop of `mergeFreeBlocks`, with the entry at its index and those behind it. -/
def mergeLoop (current : AllocatorBlock) : List AllocatorBlock → List AllocatorBlock
  | [] => [current]
  | next :: rest =>
      if current.touches next then
        { current with blockSize := current.blockSize + next.blockSize } :: mergeLoop .makeBlockNullptr rest
      else current :: mergeLoop next rest

def mergeSorted : List AllocatorBlock → List AllocatorBlock
  | [] => []
  | first :: rest => mergeLoop first rest

theorem mergeLoop_length (current : AllocatorBlock) (rest : List AllocatorBlock) :
    (mergeLoop current rest).length = rest.length + 1 := by
  induction rest generalizing current with
  | nil => rfl
  | cons next rest ih =>
      unfold mergeLoop
      split <;> simp [ih]

/-- What holds for the null entry, for every entry and for two that are merged holds for every
entry after the loop. -/
theorem forall_mergeLoop {P : AllocatorBlock → Prop} (null : P .makeBlockNullptr)
    (merge : ∀ left right, left.touches right = true → P left → P right →
      P { left with blockSize := left.blockSize + right.blockSize })
    {current : AllocatorBlock} {rest : List AllocatorBlock} (entries : ∀ b ∈ current :: rest, P b) :
    ∀ m ∈ mergeLoop current rest, P m := by
  induction rest generalizing current with
  | nil => exact entries
  | cons next rest ih =>
      obtain ⟨head, tail⟩ := List.forall_mem_cons.mp entries
      obtain ⟨second, later⟩ := List.forall_mem_cons.mp tail
      by_cases touching : current.touches next = true
      · rw [mergeLoop, if_pos touching]
        have cleared := ih (List.forall_mem_cons.mpr ⟨null, later⟩)
        exact List.forall_mem_cons.mpr ⟨merge current next touching head second, cleared⟩
      · rw [mergeLoop, if_neg touching]
        exact List.forall_mem_cons.mpr ⟨head, ih tail⟩

theorem mergeSorted_length (blocks : List AllocatorBlock) :
    (mergeSorted blocks).length = blocks.length := by
  cases blocks with
  | nil => rfl
  | cons first rest => exact mergeLoop_length first rest

def BlockSort.mergeFreeBlocks (s : BlockSort) (t : BlockTable) : BlockTable :=
  ⟨mergeSorted (s.sort t.blocks), by
    rw [mergeSorted_length, (s.perm t.blocks).length_eq, t.length_eq]⟩

/-- A table is never empty: `mergeFreeBlocks` is the loop over its entries in order. -/
theorem BlockSort.mergeFreeBlocks_eq (s : BlockSort) (t : BlockTable) :
    ∃ first rest, s.sort t.blocks = first :: rest ∧ (first :: rest).Perm t.blocks ∧
      (s.mergeFreeBlocks t).blocks = mergeLoop first rest := by
  have perm := s.perm t.blocks
  cases sorted : s.sort t.blocks with
  | nil =>
      have length := perm.length_eq
      rw [sorted, t.length_eq] at length
      cases length
  | cons first rest =>
      rw [sorted] at perm
      refine ⟨first, rest, rfl, perm, ?_⟩
      simp only [mergeFreeBlocks, sorted, mergeSorted]

/-! ## The allocator -/

inductive AssertFailure where
  | noFreeBlocksAvailable
  | noNullptrFreeBlock
  | noNullptrAllocatedBlock
  | nullptr
  deriving Repr, DecidableEq

structure BlockAllocator where
  allocatedBlocks : BlockTable
  freeBlocks : BlockTable
  deriving DecidableEq

namespace BlockAllocator

def create : BlockAllocator :=
  ⟨.empty, BlockTable.empty.set 0 ⟨linearAllocatorBlockSize, some 0⟩⟩

def searchNullptrInFreeBlock (a : BlockAllocator) : Except AssertFailure Nat :=
  match a.freeBlocks.searchNullptr with
  | none => .error .noNullptrFreeBlock
  | some i => .ok i

def searchNullptrInAllocatedBlock (a : BlockAllocator) : Except AssertFailure Nat :=
  match a.allocatedBlocks.searchNullptr with
  | none => .error .noNullptrAllocatedBlock
  | some k => .ok k

/-- What is left of a free block after `bytes` of it are occupied. -/
def remainder (block : AllocatorBlock) (bytes : Nat) : AllocatorBlock :=
  let bytesLeft := block.blockSize - bytes
  if 0 < bytesLeft then ⟨bytesLeft, block.blockPtr.map (· + bytes)⟩ else .makeBlockNullptr

def allocateToFreeBlock (T : ElementType) (a : BlockAllocator) (size : Nat) :
    Except AssertFailure (Nat × BlockAllocator) :=
  match a.freeBlocks.blocks.findIdx? (·.fits (T.bytes size)) with
  | none => .error .noFreeBlocksAvailable
  | some i => do
      let block := a.freeBlocks.blocks.getD i {}
      let k ← a.searchNullptrInAllocatedBlock
      match block.blockPtr with
      | none => .error .nullptr
      | some ptr =>
          .ok (ptr,
            { allocatedBlocks := a.allocatedBlocks.set k ⟨T.bytes size, some ptr⟩
              freeBlocks := a.freeBlocks.set i (remainder block (T.bytes size)) })

def allocate (T : ElementType) (s : BlockSort) (a : BlockAllocator) (n : Nat) :
    Except AssertFailure (Nat × BlockAllocator) := do
  let (ptr, a) ← a.allocateToFreeBlock T n
  .ok (ptr, { a with freeBlocks := s.mergeFreeBlocks a.freeBlocks })

/-- The number of elements is only printed. An entry of the allocated blocks is read
and not cleared. -/
def deallocate (s : BlockSort) (a : BlockAllocator) (p : Option Nat) (_n : Nat) :
    Except AssertFailure BlockAllocator := do
  let i ← a.searchNullptrInFreeBlock
  match a.allocatedBlocks.blocks.find? (·.blockPtr == p) with
  | none => .ok a
  | some block =>
      .ok { a with freeBlocks := s.mergeFreeBlocks (a.freeBlocks.set i ⟨block.blockSize, p⟩) }

variable {T : ElementType} {s : BlockSort} {a a' : BlockAllocator}

/-- A call of `allocate` that returns has taken the pointer of a free block that is
large enough, and a null entry for it. -/
theorem allocate_ok {n p : Nat} (h : a.allocate T s n = .ok (p, a')) :
    ∃ i k size, a.freeBlocks.blocks[i]? = some ⟨size, some p⟩ ∧ T.bytes n ≤ size ∧
      (∃ size', a.allocatedBlocks.blocks[k]? = some ⟨size', none⟩) ∧
      a' = { allocatedBlocks := a.allocatedBlocks.set k ⟨T.bytes n, some p⟩
             freeBlocks := s.mergeFreeBlocks
               (a.freeBlocks.set i (remainder ⟨size, some p⟩ (T.bytes n))) } := by
  unfold allocate allocateToFreeBlock at h
  cases found : a.freeBlocks.blocks.findIdx? (·.fits (T.bytes n)) with
  | none => simp [found, bind, Except.bind] at h
  | some i =>
      obtain ⟨size, q, at_i, enough⟩ := BlockTable.fits_at found
      cases slot : a.allocatedBlocks.searchNullptr with
      | none => simp [found, searchNullptrInAllocatedBlock, slot, bind, Except.bind] at h
      | some k =>
          have at_k := BlockTable.searchNullptr_at slot
          simp only [found, searchNullptrInAllocatedBlock, slot, bind, Except.bind, List.getD_eq_getElem?_getD,
            at_i, Option.getD_some, Except.ok.injEq, Prod.mk.injEq] at h
          obtain ⟨rfl, rfl⟩ := h
          exact ⟨i, k, size, at_i, enough, at_k, rfl⟩

/-- A call of `deallocate` that returns has found a null entry; it fills it with the
size of the first entry for the pointer, if there is one. -/
theorem deallocate_ok {p : Option Nat} {n : Nat} (h : a.deallocate s p n = .ok a') :
    ∃ i size, a.freeBlocks.blocks[i]? = some ⟨size, none⟩ ∧
      ((a.allocatedBlocks.blocks.find? (·.blockPtr == p) = none ∧ a' = a) ∨
        ∃ block, a.allocatedBlocks.blocks.find? (·.blockPtr == p) = some block ∧
          a' = { a with freeBlocks := s.mergeFreeBlocks (a.freeBlocks.set i ⟨block.blockSize, p⟩) }) := by
  unfold deallocate at h
  cases slot : a.freeBlocks.searchNullptr with
  | none => simp [searchNullptrInFreeBlock, slot, bind, Except.bind] at h
  | some i =>
      obtain ⟨size, at_i⟩ := BlockTable.searchNullptr_at slot
      simp only [searchNullptrInFreeBlock, slot, bind, Except.bind] at h
      refine ⟨i, size, at_i, ?_⟩
      cases found : a.allocatedBlocks.blocks.find? (·.blockPtr == p) with
      | none =>
          simp only [found, Except.ok.injEq] at h
          exact .inl ⟨rfl, h.symm⟩
      | some block =>
          simp only [found, Except.ok.injEq] at h
          exact .inr ⟨block, rfl, h.symm⟩

end BlockAllocator

/-! ## The machine -/

/-- The allocator with the blocks its clients hold: the pointers that were returned
and not given back, with their numbers of elements. -/
structure Heap where
  allocator : BlockAllocator
  live : List (Nat × Nat)
  deriving DecidableEq

inductive HeapEvent where
  | allocate (n : Nat)
  | deallocate (p n : Nat)
  deriving Repr, DecidableEq

abbrev HeapOutput := Option Nat

namespace Heap

def start : Heap := ⟨.create, []⟩

def next (T : ElementType) (sort : BlockSort) (s : Heap) : HeapEvent → Option (Heap × HeapOutput)
  | .allocate n =>
      match s.allocator.allocate T sort n with
      | .error _ => none
      | .ok (p, a) => some (⟨a, s.live ++ [(p, n)]⟩, some p)
  | .deallocate p n =>
      match s.allocator.deallocate sort (some p) n with
      | .error _ => none
      | .ok a => some (⟨a, s.live.erase (p, n)⟩, none)

section

variable {T : ElementType} {sort : BlockSort} {s t : Heap} {o : HeapOutput} {p n : Nat}

theorem next_allocate (h : s.next T sort (.allocate n) = some (t, o)) :
    ∃ p a, s.allocator.allocate T sort n = .ok (p, a) ∧ t = ⟨a, s.live ++ [(p, n)]⟩ ∧ o = some p := by
  simp only [next] at h
  cases result : s.allocator.allocate T sort n with
  | error _ => simp [result] at h
  | ok r =>
      simp only [result, Option.some.injEq, Prod.mk.injEq] at h
      exact ⟨r.1, r.2, rfl, h.1.symm, h.2.symm⟩

theorem next_deallocate (h : s.next T sort (.deallocate p n) = some (t, o)) :
    ∃ a, s.allocator.deallocate sort (some p) n = .ok a ∧ t = ⟨a, s.live.erase (p, n)⟩ ∧ o = none := by
  simp only [next] at h
  cases result : s.allocator.deallocate sort (some p) n with
  | error _ => simp [result] at h
  | ok a =>
      simp only [result, Option.some.injEq, Prod.mk.injEq] at h
      exact ⟨a, rfl, h.1.symm, h.2.symm⟩

end

/-- The calls a client may make: a block of at least one element that fits the
buffer, and giving back a block it holds, with its number of elements. -/
def Allowed (T : ElementType) (s : Heap) : HeapEvent → Prop
  | .allocate n => 0 < n ∧ n * T.size ≤ linearAllocatorBlockSize
  | .deallocate p n => (p, n) ∈ s.live

instance (T : ElementType) (s : Heap) : (e : HeapEvent) → Decidable (s.Allowed T e)
  | .allocate _ => inferInstanceAs (Decidable (_ ∧ _))
  | .deallocate _ _ => inferInstanceAs (Decidable (_ ∈ _))

def liveSpans (T : ElementType) (s : Heap) : List (Option Span) :=
  s.live.map fun block => some ⟨block.1, block.2 * T.size⟩

def spans (T : ElementType) (s : Heap) : List (Option Span) :=
  s.liveSpans T ++ s.allocator.freeBlocks.spans

end Heap

def heapMachine (T : ElementType) (sort : BlockSort) : Machine Heap HeapEvent HeapOutput where
  init s := s = Heap.start
  next := Heap.next T sort

def clientMachine (T : ElementType) (sort : BlockSort) : Machine Heap HeapEvent HeapOutput :=
  (heapMachine T sort).restrict (Heap.Allowed T)

end Rtl.Alloc
