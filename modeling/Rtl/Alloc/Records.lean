import Rtl.Alloc.Coalescing

/-! # The table of allocated blocks fills up

Every allocation takes a null entry of the table of allocated blocks, and giving a block
back does not clear its entry. The table counts the allocations ever made, and when it
is full every further one fails, however few blocks are live.
-/

namespace Rtl.Alloc

open Rtl.Base

def BlockTable.occupied (t : BlockTable) : Nat := t.blocks.countP (·.blockPtr.isSome)

theorem BlockTable.searchNullptr_eq_none {t : BlockTable} :
    t.searchNullptr = none ↔ t.occupied = blocksSize := by
  rw [searchNullptr, List.findIdx?_eq_none_iff, occupied, ← t.length_eq, List.countP_eq_length]
  simp

theorem BlockTable.occupied_set {t : BlockTable} {k size : Nat} (at_k : t.blocks[k]? = some ⟨size, none⟩)
    (bytes p : Nat) : (t.set k ⟨bytes, some p⟩).occupied = t.occupied + 1 := by
  have counted := countP_set_at (·.blockPtr.isSome) (⟨bytes, some p⟩ : AllocatorBlock) at_k
  simp only [Option.isSome_none, Option.isSome_some, Bool.toNat_false, Bool.toNat_true] at counted
  unfold occupied BlockTable.set
  simp only
  omega

theorem BlockTable.occupied_empty : BlockTable.empty.occupied = 0 := by
  unfold occupied BlockTable.empty
  rw [List.countP_replicate]
  rfl

/-- The assertion of `searchNullptrInAllocatedBlock` fails for a request that has found a
free block, if and only if the table is full. -/
theorem BlockAllocator.allocate_noNullptr {T : ElementType} {sort : BlockSort} {a : BlockAllocator}
    {n : Nat} : a.allocate T sort n = .error .noNullptrAllocatedBlock ↔
      (∃ b ∈ a.freeBlocks.blocks, b.fits (T.bytes n) = true) ∧
        a.allocatedBlocks.occupied = blocksSize := by
  rw [← BlockTable.searchNullptr_eq_none]
  cases found : a.freeBlocks.blocks.findIdx? (·.fits (T.bytes n)) with
  | none =>
      have unfit := List.findIdx?_eq_none_iff.mp found
      constructor
      · intro failed
        simp [allocate, allocateToFreeBlock, found, bind, Except.bind] at failed
      · rintro ⟨⟨b, mem, fits⟩, _⟩
        rw [unfit b mem] at fits
        cases fits
  | some i =>
      obtain ⟨size, q, at_i, enough⟩ := BlockTable.fits_at found
      have fits : ∃ b ∈ a.freeBlocks.blocks, b.fits (T.bytes n) = true :=
        ⟨_, List.mem_of_getElem? at_i, by simp [AllocatorBlock.fits, enough]⟩
      cases slot : a.allocatedBlocks.searchNullptr <;>
        simp [allocate, allocateToFreeBlock, found, searchNullptrInAllocatedBlock, slot, at_i, bind,
          Except.bind, fits]

/-! ## Runs -/

def HeapEvent.isAllocate : HeapEvent → Bool
  | .allocate _ => true
  | .deallocate _ _ => false

def allocations (ts : List (Transition Heap HeapEvent HeapOutput)) : Nat :=
  ts.countP (·.event.isAllocate)

def deallocations (ts : List (Transition Heap HeapEvent HeapOutput)) : Nat :=
  ts.countP (!·.event.isAllocate)

namespace Heap

variable {T : ElementType} {sort : BlockSort} {s t : Heap} {e : HeapEvent} {o : HeapOutput}
  {ts : List (Transition Heap HeapEvent HeapOutput)}

/-- The entry is null or records a live block. -/
def RecordsLive (T : ElementType) (s : Heap) (b : AllocatorBlock) : Prop :=
  ∀ p, b.blockPtr = some p → ∃ n, (p, n) ∈ s.live ∧ b.blockSize = T.bytes n

structure Recorded (T : ElementType) (ts : List (Transition Heap HeapEvent HeapOutput)) (s : Heap) :
    Prop where
  occupied : s.allocator.allocatedBlocks.occupied = allocations ts
  live : s.live.length + deallocations ts = allocations ts
  entries : deallocations ts = 0 → ∀ b ∈ s.allocator.allocatedBlocks.blocks, s.RecordsLive T b

/-- A new block is recorded, and the other entries are as before. -/
theorem RecordsLive.allocate {b : AllocatorBlock} (recorded : s.RecordsLive T b) (a : BlockAllocator)
    (p n : Nat) : RecordsLive T ⟨a, s.live ++ [(p, n)]⟩ b := by
  intro q pointer
  obtain ⟨m, live, size⟩ := recorded q pointer
  exact ⟨m, List.mem_append_left _ live, size⟩

theorem Recorded.step (recorded : Recorded T ts s)
    (h : (clientMachine T sort).next s e = some (t, o)) : Recorded T (ts ++ [⟨s, e, o, t⟩]) t := by
  obtain ⟨allowed, h⟩ := Machine.restrict_next.mp h
  obtain ⟨occupied, live, entries⟩ := recorded
  cases e with
  | allocate n =>
      obtain ⟨p, a, result, rfl, _⟩ := next_allocate h
      obtain ⟨i, k, size, _, _, ⟨_, at_k⟩, rfl⟩ := BlockAllocator.allocate_ok result
      have more := BlockTable.occupied_set at_k (T.bytes n) p
      refine ⟨?_, ?_, ?_⟩ <;>
        simp only [allocations, deallocations, countP_concat, HeapEvent.isAllocate, Bool.not_true,
          Bool.toNat_true, Bool.toNat_false, List.length_append, List.length_singleton] at *
      · omega
      · omega
      · intro kept b mem
        rcases BlockTable.mem_set mem with rfl | old
        · rintro q ⟨⟩
          exact ⟨n, by simp, rfl⟩
        · exact (entries kept b old).allocate _ p n
  | deallocate p n =>
      obtain ⟨a, result, rfl, _⟩ := next_deallocate (T := T) h
      have held := List.length_erase_of_mem (show (p, n) ∈ s.live from allowed)
      have some := List.length_pos_of_mem (show (p, n) ∈ s.live from allowed)
      have same : a.allocatedBlocks = s.allocator.allocatedBlocks := by
        obtain ⟨_, _, _, ⟨_, rfl⟩ | ⟨_, _, rfl⟩⟩ := BlockAllocator.deallocate_ok result <;> rfl
      refine ⟨?_, ?_, ?_⟩ <;>
        simp only [allocations, deallocations, countP_concat, HeapEvent.isAllocate, Bool.not_false,
          Bool.toNat_true, Bool.toNat_false, same, held] at *
      · omega
      · omega
      · intro kept
        omega

theorem recorded_of_run (run : (clientMachine T sort).Run Heap.start ts s) : Recorded T ts s := by
  refine run.history (H := Recorded T) ⟨BlockTable.occupied_empty, rfl, ?_⟩
    fun _ _ _ _ _ recorded h => recorded.step h
  intro _ b mem p pointer
  rw [List.eq_of_mem_replicate mem] at pointer
  cases pointer

end Heap

/-- In every run by clients that keep to the rules, as many entries of the table are
occupied as calls of `allocate` have returned; this is the number of live blocks if and
only if none has been given back, and then each entry that is occupied records a live
block. The assertion of `searchNullptrInAllocatedBlock` fails for a request that finds a
free block, if and only if there were 1024 such calls. -/
theorem block_allocator_slots_iff (T : ElementType) (sort : BlockSort) {s₀ s : Heap}
    {ts : List (Transition Heap HeapEvent HeapOutput)} (init : (clientMachine T sort).init s₀)
    (run : (clientMachine T sort).Run s₀ ts s) :
    (s.allocator.allocatedBlocks.occupied = s.live.length ↔ deallocations ts = 0) ∧
    (deallocations ts = 0 → ∀ b ∈ s.allocator.allocatedBlocks.blocks, s.RecordsLive T b) ∧
    ∀ n, s.allocator.allocate T sort n = .error .noNullptrAllocatedBlock ↔
      allocations ts = 1024 ∧ ∃ b ∈ s.allocator.freeBlocks.blocks, b.fits (T.bytes n) = true := by
  cases show s₀ = Heap.start from init
  obtain ⟨occupied, live, entries⟩ := Heap.recorded_of_run run
  refine ⟨by omega, entries, ?_⟩
  intro n
  rw [BlockAllocator.allocate_noNullptr, occupied, and_comm]
  rfl

theorem block_allocator_slots_same_size :
    ∃ ts s, (clientMachine words .insertion).exec Heap.start sameSizeTrace = some (ts, s) ∧
      allocations ts = 3 ∧
      ∀ n, s.allocator.allocate words .insertion n ≠ .error .noNullptrAllocatedBlock := by
  have returns : ((clientMachine words .insertion).exec Heap.start sameSizeTrace).map
      (fun r => allocations r.1) = some 3 := by
    decide +kernel
  obtain ⟨⟨ts, s⟩, h, three⟩ := Option.map_eq_some_iff.mp returns
  refine ⟨ts, s, h, three, ?_⟩
  intro n failed
  have full := (((block_allocator_slots_iff words .insertion rfl (Machine.Run.of_exec h)).2.2 n).mp failed).1
  rw [show allocations ts = 3 from three] at full
  cases full

/-! ## One block at a time -/

/-- A pass over blocks of which no two touch changes nothing. -/
theorem mergeLoop_of_separate {current : AllocatorBlock} {rest : List AllocatorBlock}
    (separate : Separate (current :: rest)) : mergeLoop current rest = current :: rest := by
  induction rest generalizing current with
  | nil => rfl
  | cons next rest ih =>
      have apart := separate current List.mem_cons_self next (List.mem_cons_of_mem _ List.mem_cons_self)
      rw [mergeLoop, if_neg (by simp [apart]), ih]
      exact fun a memA b memB =>
        separate a (List.mem_cons_of_mem _ memA) b (List.mem_cons_of_mem _ memB)

theorem mergeFreeBlocks_perm (sort : BlockSort) {t : BlockTable} (separate : Separate t.blocks) :
    (sort.mergeFreeBlocks t).blocks.Perm t.blocks := by
  obtain ⟨first, rest, _, perm, merged⟩ := sort.mergeFreeBlocks_eq t
  have separate' : Separate (first :: rest) := fun a memA b memB =>
    separate a (perm.mem_iff.mp memA) b (perm.mem_iff.mp memB)
  rw [merged, mergeLoop_of_separate separate']
  exact perm

theorem BlockTable.occupied_perm {t t' : BlockTable} (perm : t.blocks.Perm t'.blocks) :
    t.occupied = t'.occupied :=
  perm.countP_eq _

namespace BlockAllocator

variable {T : ElementType} {sort : BlockSort} {a : BlockAllocator}

theorem allocate_eq (sort : BlockSort) {n i k size p : Nat}
    (found : a.freeBlocks.blocks.findIdx? (·.fits (T.bytes n)) = some i)
    (at_i : a.freeBlocks.blocks[i]? = some ⟨size, some p⟩)
    (slot : a.allocatedBlocks.searchNullptr = some k) :
    a.allocate T sort n = .ok (p,
      { allocatedBlocks := a.allocatedBlocks.set k ⟨T.bytes n, some p⟩
        freeBlocks := sort.mergeFreeBlocks
          (a.freeBlocks.set i (remainder ⟨size, some p⟩ (T.bytes n))) }) := by
  simp [allocate, allocateToFreeBlock, found, at_i, searchNullptrInAllocatedBlock, slot, bind,
    Except.bind]

theorem deallocate_eq (sort : BlockSort) (n : Nat) {i : Nat} {p : Option Nat} {block : AllocatorBlock}
    (slot : a.freeBlocks.searchNullptr = some i)
    (found : a.allocatedBlocks.blocks.find? (·.blockPtr == p) = some block) :
    a.deallocate sort p n = .ok
      { a with freeBlocks := sort.mergeFreeBlocks (a.freeBlocks.set i ⟨block.blockSize, p⟩) } := by
  simp [deallocate, searchNullptrInFreeBlock, slot, found, bind, Except.bind]

end BlockAllocator

def wholeBlock : AllocatorBlock := ⟨linearAllocatorBlockSize, some 0⟩

/-- The entries are null or stand for the whole buffer; so many do. -/
structure BlockTable.Wholes (t : BlockTable) (count : Nat) : Prop where
  only : ∀ b ∈ t.blocks, b = wholeBlock ∨ b = {}
  occupied : t.occupied = count

namespace BlockTable.Wholes

variable {t : BlockTable} {count i : Nat}

theorem separate (wholes : t.Wholes count) : Separate t.blocks := by
  intro a memA b memB
  rcases wholes.only a memA with rfl | rfl <;> rcases wholes.only b memB with rfl | rfl <;> decide

theorem merge (wholes : t.Wholes count) (sort : BlockSort) :
    (sort.mergeFreeBlocks t).Wholes count := by
  have perm := mergeFreeBlocks_perm sort wholes.separate
  exact ⟨fun b mem => wholes.only b (perm.mem_iff.mp mem),
    (BlockTable.occupied_perm perm).trans wholes.occupied⟩

/-- A null entry, unless all are occupied. -/
theorem slot (wholes : t.Wholes count) (room : count < blocksSize) :
    ∃ i, t.searchNullptr = some i ∧ t.blocks[i]? = some {} := by
  cases found : t.searchNullptr with
  | none =>
      have full := BlockTable.searchNullptr_eq_none.mp found
      rw [wholes.occupied] at full
      omega
  | some i =>
      obtain ⟨size, at_i⟩ := BlockTable.searchNullptr_at found
      rcases wholes.only _ (List.mem_of_getElem? at_i) with whole | null
      · cases whole
      · exact ⟨i, rfl, at_i.trans (congrArg some null)⟩

theorem fill (wholes : t.Wholes count) (at_i : t.blocks[i]? = some {}) :
    (t.set i wholeBlock).Wholes (count + 1) := by
  refine ⟨?_, (BlockTable.occupied_set at_i _ _).trans (by rw [wholes.occupied])⟩
  intro b mem
  rcases BlockTable.mem_set mem with rfl | mem
  · exact .inl rfl
  · exact wholes.only b mem

theorem clear (wholes : t.Wholes (count + 1)) (at_i : t.blocks[i]? = some wholeBlock) :
    (t.set i .makeBlockNullptr).Wholes count := by
  refine ⟨?_, ?_⟩
  · intro b mem
    rcases BlockTable.mem_set mem with rfl | mem
    · exact .inr rfl
    · exact wholes.only b mem
  · have counted := countP_set_at (·.blockPtr.isSome) AllocatorBlock.makeBlockNullptr at_i
    have before := wholes.occupied
    simp only [wholeBlock, AllocatorBlock.makeBlockNullptr, Option.isSome_none, Option.isSome_some,
      Bool.toNat_false, Bool.toNat_true] at counted
    simp only [BlockTable.occupied, BlockTable.set, AllocatorBlock.makeBlockNullptr] at before ⊢
    omega

/-- An occupied entry. -/
theorem exists_whole (wholes : t.Wholes (count + 1)) : wholeBlock ∈ t.blocks := by
  have some : 0 < t.blocks.countP (·.blockPtr.isSome) := by
    have occupied := wholes.occupied
    unfold BlockTable.occupied at occupied
    omega
  obtain ⟨b, mem, pointer⟩ := List.countP_pos_iff.mp some
  rcases wholes.only b mem with rfl | rfl
  · exact mem
  · cases pointer

/-- The first entry for the pointer. -/
theorem find (wholes : t.Wholes (count + 1)) :
    t.blocks.find? (·.blockPtr == some 0) = some wholeBlock := by
  cases found : t.blocks.find? (·.blockPtr == some 0) with
  | none =>
      have missing := List.find?_eq_none.mp found wholeBlock wholes.exists_whole
      exact absurd rfl missing
  | some b =>
      rcases wholes.only b (List.mem_of_find?_eq_some found) with rfl | rfl
      · rfl
      · cases List.find?_some found

/-- The first entry that is large enough for the whole buffer. -/
theorem findIdx (wholes : t.Wholes (count + 1)) :
    ∃ i, t.blocks.findIdx? (·.fits linearAllocatorBlockSize) = some i ∧
      t.blocks[i]? = some wholeBlock := by
  cases found : t.blocks.findIdx? (·.fits linearAllocatorBlockSize) with
  | none =>
      have unfit := List.findIdx?_eq_none_iff.mp found wholeBlock wholes.exists_whole
      cases unfit
  | some i =>
      obtain ⟨size, p, at_i, _⟩ := BlockTable.fits_at found
      rcases wholes.only _ (List.mem_of_getElem? at_i) with whole | null
      · exact ⟨i, rfl, at_i.trans (congrArg some whole)⟩
      · cases null

end BlockTable.Wholes

namespace Heap

variable {sort : BlockSort} {s : Heap} {rounds : Nat}

/-- The buffer is one block, which is live or free, and so many entries record it. -/
structure OneBlock (live : List (Nat × Nat)) (free rounds : Nat) (s : Heap) : Prop where
  live_eq : s.live = live
  free_wholes : s.allocator.freeBlocks.Wholes free
  records : s.allocator.allocatedBlocks.Wholes rounds

theorem start_oneBlock : start.OneBlock [] 1 0 := by
  have empty : BlockTable.empty.Wholes 0 :=
    ⟨fun b mem => .inr (List.eq_of_mem_replicate mem), BlockTable.occupied_empty⟩
  exact ⟨rfl, empty.fill (BlockTable.empty_at (by decide)), empty⟩

theorem next_of_allocate {T : ElementType} {n p : Nat} {a : BlockAllocator}
    (result : s.allocator.allocate T sort n = .ok (p, a)) :
    s.next T sort (.allocate n) = some (⟨a, s.live ++ [(p, n)]⟩, some p) := by
  simp only [next, result]

theorem next_of_deallocate {T : ElementType} {n p : Nat} {a : BlockAllocator}
    (result : s.allocator.deallocate sort (some p) n = .ok a) :
    s.next T sort (.deallocate p n) = some (⟨a, s.live.erase (p, n)⟩, none) := by
  simp only [next, result]

theorem bytes_whole : chars.bytes linearAllocatorBlockSize = linearAllocatorBlockSize :=
  bytes_eq (Nat.le_of_eq (Nat.mul_one _))

/-- The whole buffer is allocated. -/
theorem OneBlock.allocate (sort : BlockSort) (one : s.OneBlock [] 1 rounds) (room : rounds < blocksSize) :
    ∃ t o, (clientMachine chars sort).next s (.allocate linearAllocatorBlockSize) = some (t, o) ∧
      t.OneBlock [(0, linearAllocatorBlockSize)] 0 (rounds + 1) := by
  obtain ⟨i, found, at_i⟩ := one.free_wholes.findIdx
  obtain ⟨k, slot, at_k⟩ := one.records.slot room
  rw [← bytes_whole] at found
  have allocated := BlockAllocator.allocate_eq sort found at_i slot
  have nothing : BlockAllocator.remainder ⟨linearAllocatorBlockSize, some 0⟩
      (chars.bytes linearAllocatorBlockSize) = .makeBlockNullptr := by
    rw [bytes_whole]
    simp [BlockAllocator.remainder]
  rw [nothing, bytes_whole] at allocated
  have allowed : s.Allowed chars (.allocate linearAllocatorBlockSize) := ⟨by decide, by decide⟩
  refine ⟨_, _, Machine.restrict_next.mpr ⟨allowed, next_of_allocate allocated⟩, ?_⟩
  exact ⟨by rw [one.live_eq]; rfl, (one.free_wholes.clear at_i).merge sort, one.records.fill at_k⟩

/-- It is given back, and the record stays. -/
theorem OneBlock.deallocate (sort : BlockSort)
    (one : s.OneBlock [(0, linearAllocatorBlockSize)] 0 (rounds + 1)) :
    ∃ t o, (clientMachine chars sort).next s (.deallocate 0 linearAllocatorBlockSize) = some (t, o) ∧
      t.OneBlock [] 1 (rounds + 1) := by
  obtain ⟨j, slot, at_j⟩ := one.free_wholes.slot (by decide)
  have freed := BlockAllocator.deallocate_eq sort linearAllocatorBlockSize slot
    one.records.find
  have held : s.Allowed chars (.deallocate 0 linearAllocatorBlockSize) := by
    change (0, linearAllocatorBlockSize) ∈ s.live
    rw [one.live_eq]
    exact List.mem_singleton_self _
  refine ⟨_, _, Machine.restrict_next.mpr ⟨held, next_of_deallocate (T := chars) freed⟩, ?_⟩
  exact ⟨by simp [one.live_eq], (one.free_wholes.fill at_j).merge sort, one.records⟩

/-- Any number of rounds that the table has room for. -/
theorem exists_rounds (sort : BlockSort) {rounds : Nat} (room : rounds ≤ blocksSize) :
    ∃ ts s, (clientMachine chars sort).Run start ts s ∧ s.OneBlock [] 1 rounds ∧
      ∀ v, Machine.Visits start ts v → v.live.length ≤ 1 := by
  induction rounds with
  | zero =>
      refine ⟨[], start, .refl, start_oneBlock, ?_⟩
      rintro v (rfl | ⟨_, mem, _⟩)
      · decide
      · cases mem
  | succ rounds ih =>
      obtain ⟨ts, s, run, one, few⟩ := ih (by omega)
      obtain ⟨t, _, first, lent⟩ := one.allocate sort room
      obtain ⟨u, _, second, back⟩ := lent.deallocate sort
      refine ⟨_, u, (run.step first).step second, back, ?_⟩
      rintro v (rfl | ⟨w, mem, rfl⟩)
      · exact few _ (.inl rfl)
      · simp only [List.mem_append, List.mem_singleton] at mem
        rcases mem with (mem | rfl) | rfl
        · exact few _ (.inr ⟨w, mem, rfl⟩)
        · simp [lent.live_eq]
        · simp [back.live_eq]

end Heap

/-- The whole buffer is allocated and given back 1024 times. Never is more than one block
live, and then a request finds its free block but no null entry. -/
theorem block_allocator_out_of_slots :
    ∃ ts s, (clientMachine chars .insertion).Run Heap.start ts s ∧
      (∀ v, Machine.Visits Heap.start ts v → v.live.length ≤ 1) ∧ s.live = [] ∧
      s.allocator.allocate chars .insertion linearAllocatorBlockSize =
        .error .noNullptrAllocatedBlock := by
  obtain ⟨ts, s, run, one, few⟩ := Heap.exists_rounds .insertion (Nat.le_refl blocksSize)
  refine ⟨ts, s, run, few, one.live_eq, BlockAllocator.allocate_noNullptr.mpr ⟨?_, ?_⟩⟩
  · refine ⟨wholeBlock, one.free_wholes.exists_whole, ?_⟩
    rw [Heap.bytes_whole]
    rfl
  · exact one.records.occupied

end Rtl.Alloc
