import Rtl.Alloc.BlockAllocator

/-! # Live and free blocks tile the buffer

The bytes of the buffer are counted: how many live blocks and free entries lie over
each of them. Sorting and merging the free table does not change the count, and an
allocation moves bytes from one free entry to a live block. Giving a block back moves
its bytes to the free table only if the size on record is the size of the block: the
record of a block is never cleared, and the first one for a pointer is read.
-/

namespace Rtl.Alloc

open Rtl.Base

/-! ## Merging -/

namespace AllocatorBlock

variable {current next : AllocatorBlock}

theorem touches_ptr (h : current.touches next = true) :
    ∃ p, current.blockPtr = some p ∧ next.blockPtr = some (p + current.blockSize) := by
  unfold touches at h
  split at h
  · rename_i p q here there
    exact ⟨p, here, by rw [there, beq_iff_eq.mp h]⟩
  · cases h

theorem weight_merged (h : current.touches next = true) (x : Nat) :
    weight x ({ current with blockSize := current.blockSize + next.blockSize } : AllocatorBlock).span =
      weight x current.span + weight x next.span := by
  obtain ⟨p, here, there⟩ := touches_ptr h
  simp only [span, here, there, Option.map_some]
  exact weight_split x p current.blockSize next.blockSize

/-- Two blocks that are merged end where the second one ends. -/
theorem ends_merged {limit p : Nat} (h : current.touches next = true)
    (last : ∀ q, next.blockPtr = some q → q + next.blockSize ≤ limit)
    (ptr : current.blockPtr = some p) : p + (current.blockSize + next.blockSize) ≤ limit := by
  obtain ⟨q, here, there⟩ := touches_ptr h
  have behind := last _ there
  cases here.symm.trans ptr
  omega

end AllocatorBlock

theorem cover_mergeLoop (current : AllocatorBlock) (rest : List AllocatorBlock) (x : Nat) :
    cover ((mergeLoop current rest).map (·.span)) x =
      weight x current.span + cover (rest.map (·.span)) x := by
  induction rest generalizing current with
  | nil => rw [mergeLoop, List.map_singleton, cover_cons, List.map_nil]
  | cons next rest ih =>
      rw [List.map_cons, cover_cons]
      by_cases touching : current.touches next = true
      · have merged := AllocatorBlock.weight_merged touching x
        -- the entry that was merged away is null and adds nothing
        have cleared : weight x AllocatorBlock.makeBlockNullptr.span = 0 := rfl
        rw [mergeLoop, if_pos touching, List.map_cons, cover_cons, ih]
        omega
      · rw [mergeLoop, if_neg touching, List.map_cons, cover_cons, ih]

theorem within_mergeLoop {limit : Nat} {current : AllocatorBlock} {rest : List AllocatorBlock}
    (within : Within limit ((current :: rest).map (·.span))) :
    Within limit ((mergeLoop current rest).map (·.span)) := by
  have ends : ∀ m ∈ mergeLoop current rest, ∀ p, m.blockPtr = some p → p + m.blockSize ≤ limit := by
    refine forall_mergeLoop ?_ ?_ ?_
    · intro p ptr
      cases ptr
    · intro left right touching _ last p ptr
      exact AllocatorBlock.ends_merged touching last ptr
    · intro b mem p ptr
      refine within ⟨p, b.blockSize⟩ (List.mem_map.mpr ⟨b, mem, ?_⟩)
      rw [AllocatorBlock.span, ptr, Option.map_some]
  intro s mem
  obtain ⟨m, member, is⟩ := List.mem_map.mp mem
  obtain ⟨p, ptr, rfl⟩ := Option.map_eq_some_iff.mp is
  exact ends m member p ptr

/-- `mergeFreeBlocks` keeps every byte as often as it was. -/
theorem cover_mergeFreeBlocks (sort : BlockSort) (t : BlockTable) (x : Nat) :
    cover (sort.mergeFreeBlocks t).spans x = cover t.spans x := by
  obtain ⟨first, rest, _, perm, merged⟩ := sort.mergeFreeBlocks_eq t
  have sorted := cover_perm (perm.map (·.span)) x
  rw [BlockTable.spans, merged, BlockTable.spans, ← sorted, List.map_cons, cover_cons]
  exact cover_mergeLoop first rest x

theorem within_mergeFreeBlocks (sort : BlockSort) {t : BlockTable} {limit : Nat}
    (within : Within limit t.spans) : Within limit (sort.mergeFreeBlocks t).spans := by
  obtain ⟨first, rest, _, perm, merged⟩ := sort.mergeFreeBlocks_eq t
  have sorted : Within limit ((first :: rest).map (·.span)) := by
    intro s mem
    exact within s ((perm.map (·.span)).mem_iff.mp mem)
  rw [BlockTable.spans, merged]
  exact within_mergeLoop sorted

/-- A byte that is covered lies in an entry. -/
theorem BlockTable.entry_of_cover_pos {t : BlockTable} {x : Nat} (covered : 0 < cover t.spans x) :
    ∃ b ∈ t.blocks, ∃ p, b.blockPtr = some p ∧ p ≤ x ∧ x < p + b.blockSize := by
  obtain ⟨s, mem, inside⟩ := exists_of_cover_pos covered
  obtain ⟨b, member, is⟩ := List.mem_map.mp mem
  obtain ⟨p, ptr, rfl⟩ := Option.map_eq_some_iff.mp is
  exact ⟨b, member, p, ptr, inside⟩

/-! ## Calls -/

theorem BlockTable.cover_set {t : BlockTable} {i : Nat} {old : AllocatorBlock}
    (at_i : t.blocks[i]? = some old) (b : AllocatorBlock) (x : Nat) :
    cover (t.set i b).spans x + weight x old.span = cover t.spans x + weight x b.span := by
  unfold BlockTable.spans BlockTable.set
  rw [List.map_set]
  exact Base.cover_set (by rw [List.getElem?_map, at_i, Option.map_some]) x

theorem BlockTable.within_set {t : BlockTable} {limit i : Nat} {b : AllocatorBlock}
    (within : Within limit t.spans) (fits : ∀ p, b.blockPtr = some p → p + b.blockSize ≤ limit) :
    Within limit (t.set i b).spans := by
  unfold BlockTable.spans BlockTable.set
  rw [List.map_set]
  refine within.set ?_
  intro s span
  obtain ⟨p, ptr, rfl⟩ := Option.map_eq_some_iff.mp span
  exact fits p ptr

/-- What is left of a free block starts behind the bytes that were taken. -/
theorem weight_remainder (size p bytes x : Nat) :
    weight x (BlockAllocator.remainder ⟨size, some p⟩ bytes).span =
      weight x (some ⟨p + bytes, size - bytes⟩) := by
  unfold BlockAllocator.remainder
  by_cases left : 0 < size - bytes
  · simp [left, AllocatorBlock.span]
  · have none : size - bytes = 0 := by omega
    simp only [none, Nat.lt_irrefl, if_false, weight_empty]
    rfl

/-- It ends where the free block ended. -/
theorem remainder_end {size p bytes q : Nat} (enough : bytes ≤ size)
    (ptr : (BlockAllocator.remainder ⟨size, some p⟩ bytes).blockPtr = some q) :
    q + (BlockAllocator.remainder ⟨size, some p⟩ bytes).blockSize = p + size := by
  unfold BlockAllocator.remainder at ptr ⊢
  by_cases left : 0 < size - bytes
  · simp only [left, if_true, Option.map_some, Option.some.injEq] at ptr ⊢
    omega
  · simp [left, AllocatorBlock.makeBlockNullptr] at ptr

namespace BlockAllocator

variable {T : ElementType} {sort : BlockSort} {a a' : BlockAllocator} {p n : Nat}

theorem allocate_cover (h : a.allocate T sort n = .ok (p, a')) (x : Nat) :
    cover a'.freeBlocks.spans x + weight x (some ⟨p, T.bytes n⟩) = cover a.freeBlocks.spans x := by
  obtain ⟨i, k, size, at_i, enough, _, rfl⟩ := allocate_ok h
  have written := BlockTable.cover_set at_i (remainder ⟨size, some p⟩ (T.bytes n)) x
  have cut := weight_split x p (T.bytes n) (size - T.bytes n)
  rw [Nat.add_sub_cancel' enough] at cut
  rw [weight_remainder] at written
  rw [cover_mergeFreeBlocks]
  simp only [AllocatorBlock.span, Option.map_some] at written
  omega

theorem deallocate_cover {block : AllocatorBlock} (h : a.deallocate sort (some p) n = .ok a')
    (found : a.allocatedBlocks.blocks.find? (·.blockPtr == some p) = some block) (x : Nat) :
    cover a'.freeBlocks.spans x = cover a.freeBlocks.spans x + weight x (some ⟨p, block.blockSize⟩) := by
  obtain ⟨i, size, at_i, none | ⟨block', found', rfl⟩⟩ := deallocate_ok h
  · simp [found] at none
  · cases found.symm.trans found'
    have written := BlockTable.cover_set at_i ⟨block.blockSize, some p⟩ x
    rw [cover_mergeFreeBlocks]
    simpa [AllocatorBlock.span, weight] using written

theorem deallocate_missing (h : a.deallocate sort (some p) n = .ok a')
    (missing : a.allocatedBlocks.blocks.find? (·.blockPtr == some p) = none) : a' = a := by
  obtain ⟨i, size, at_i, ⟨_, same⟩ | ⟨block, found, _⟩⟩ := deallocate_ok h
  · exact same
  · simp [missing] at found

structure Bounded (a : BlockAllocator) : Prop where
  allocated : Within linearAllocatorBlockSize a.allocatedBlocks.spans
  free : Within linearAllocatorBlockSize a.freeBlocks.spans

theorem Bounded.found {block : AllocatorBlock} (bounded : a.Bounded)
    (found : a.allocatedBlocks.blocks.find? (·.blockPtr == some p) = some block) :
    p + block.blockSize ≤ linearAllocatorBlockSize := by
  have ptr : block.blockPtr = some p := by simpa using List.find?_some found
  apply bounded.allocated ⟨p, block.blockSize⟩
  exact List.mem_map.mpr ⟨block, List.mem_of_find?_eq_some found, by simp [AllocatorBlock.span, ptr]⟩

theorem Bounded.allocate (bounded : a.Bounded) (h : a.allocate T sort n = .ok (p, a')) :
    p + T.bytes n ≤ linearAllocatorBlockSize ∧ a'.Bounded := by
  obtain ⟨i, k, size, at_i, enough, _, rfl⟩ := allocate_ok h
  have block := bounded.free ⟨p, size⟩
    (List.mem_of_getElem? (i := i) (by simp [BlockTable.spans, at_i, AllocatorBlock.span]))
  simp only at block
  refine ⟨by omega, ?_, within_mergeFreeBlocks sort ?_⟩
  · apply BlockTable.within_set bounded.allocated
    rintro q ⟨⟩
    simp only
    omega
  · apply BlockTable.within_set bounded.free
    intro q ptr
    rw [remainder_end enough ptr]
    exact block

theorem Bounded.deallocate (bounded : a.Bounded) (h : a.deallocate sort (some p) n = .ok a') :
    a'.Bounded := by
  obtain ⟨i, size, at_i, ⟨_, rfl⟩ | ⟨block, found, rfl⟩⟩ := deallocate_ok h
  · exact bounded
  · refine ⟨bounded.allocated, within_mergeFreeBlocks sort ?_⟩
    apply BlockTable.within_set bounded.free
    have recorded := bounded.found found
    rintro q ⟨⟩
    exact recorded

end BlockAllocator

/-! ## Runs -/

namespace Heap

variable {T : ElementType} {sort : BlockSort} {s t : Heap} {e : HeapEvent} {o : HeapOutput}

/-- Every byte of the buffer belongs to exactly one live block or free entry. -/
def Tiled (T : ElementType) (s : Heap) : Prop := Tiles linearAllocatorBlockSize (s.spans T)

/-- A block is given back while the first record for its pointer is of its size. -/
def FreesOwnSize (T : ElementType) (s : Heap) : HeapEvent → Prop
  | .allocate _ => True
  | .deallocate p n =>
      (s.allocator.allocatedBlocks.blocks.find? (·.blockPtr == some p)).map (·.blockSize) =
        some (n * T.size)

instance (T : ElementType) (s : Heap) : (e : HeapEvent) → Decidable (s.FreesOwnSize T e)
  | .allocate _ => inferInstanceAs (Decidable True)
  | .deallocate _ _ => inferInstanceAs (Decidable (_ = _))

structure Sound (T : ElementType) (s : Heap) : Prop where
  tiled : s.Tiled T
  bounded : s.allocator.Bounded
  live : ∀ p n, (p, n) ∈ s.live → 0 < n * T.size ∧ p + n * T.size ≤ linearAllocatorBlockSize

theorem cover_spans (T : ElementType) (s : Heap) (x : Nat) :
    cover (s.spans T) x = cover (s.liveSpans T) x + cover s.allocator.freeBlocks.spans x :=
  cover_append _ _ x

theorem cover_allocated (T : ElementType) (a : BlockAllocator) (live : List (Nat × Nat)) (p n x : Nat) :
    cover (liveSpans T ⟨a, live ++ [(p, n)]⟩) x =
      cover (liveSpans T ⟨a, live⟩) x + weight x (some ⟨p, n * T.size⟩) := by
  simp [liveSpans, cover_append, cover_cons, cover_nil]

theorem cover_freed (T : ElementType) (a : BlockAllocator) {live : List (Nat × Nat)} {p n : Nat}
    (held : (p, n) ∈ live) (x : Nat) :
    cover (liveSpans T ⟨a, live.erase (p, n)⟩) x + weight x (some ⟨p, n * T.size⟩) =
      cover (liveSpans T ⟨a, live⟩) x := by
  have order := cover_perm ((List.perm_cons_erase held).map
    fun block : Nat × Nat => some (⟨block.1, block.2 * T.size⟩ : Span)) x
  rw [List.map_cons, cover_cons] at order
  simp only [liveSpans] at order ⊢
  omega

theorem bytes_eq {n : Nat} (small : n * T.size ≤ linearAllocatorBlockSize) :
    T.bytes n = n * T.size := by
  unfold linearAllocatorBlockSize at small
  unfold ElementType.bytes
  omega

theorem start_sound (T : ElementType) : start.Sound T := by
  have blank : Within linearAllocatorBlockSize BlockTable.empty.spans := by
    intro s mem
    rw [BlockTable.empty_spans] at mem
    cases List.eq_of_mem_replicate mem
  refine ⟨?_, ⟨blank, ?_⟩, ?_⟩
  · intro x inside
    have written := BlockTable.cover_set (BlockTable.empty_at (i := 0) (by decide))
      ⟨linearAllocatorBlockSize, some 0⟩ x
    rw [BlockTable.empty_spans, cover_blank] at written
    rw [cover_spans]
    simpa [start, liveSpans, cover_nil, BlockAllocator.create, AllocatorBlock.span, weight, inside]
      using written
  · apply BlockTable.within_set blank
    rintro p ⟨⟩
    simp
  · intro p n mem
    cases mem

theorem Sound.allocate {n : Nat} (sound : s.Sound T) (allowed : s.Allowed T (.allocate n))
    (h : s.next T sort (.allocate n) = some (t, o)) : t.Sound T := by
  obtain ⟨positive, small⟩ := allowed
  obtain ⟨p, a, result, rfl, _⟩ := next_allocate h
  obtain ⟨inside, bounded⟩ := sound.bounded.allocate result
  rw [bytes_eq small] at inside
  refine ⟨?_, bounded, ?_⟩
  · intro x below
    have before := sound.tiled x below
    have moved := BlockAllocator.allocate_cover result x
    have added := cover_allocated T a s.live p n x
    rw [bytes_eq small] at moved
    rw [cover_spans] at before ⊢
    simp only [liveSpans] at before added ⊢
    omega
  · intro q m mem
    rcases List.mem_append.mp mem with old | new
    · exact sound.live q m old
    · cases List.mem_singleton.mp new
      exact ⟨Nat.mul_pos positive T.size_pos, inside⟩

/-- The count of a byte when a block is given back under a record of some size. -/
theorem Sound.deallocate_cover {p n x : Nat} {a : BlockAllocator} {block : AllocatorBlock}
    (sound : s.Sound T) (held : (p, n) ∈ s.live)
    (result : s.allocator.deallocate sort (some p) n = .ok a)
    (found : s.allocator.allocatedBlocks.blocks.find? (·.blockPtr == some p) = some block)
    (below : x < linearAllocatorBlockSize) :
    cover (spans T ⟨a, s.live.erase (p, n)⟩) x + weight x (some ⟨p, n * T.size⟩) =
      1 + weight x (some ⟨p, block.blockSize⟩) := by
  have before := sound.tiled x below
  have moved := BlockAllocator.deallocate_cover result found x
  have removed := cover_freed T a held x
  rw [cover_spans] at before ⊢
  simp only [liveSpans] at before removed ⊢
  omega

theorem Sound.deallocate {p n : Nat} (sound : s.Sound T) (held : (p, n) ∈ s.live)
    (own : s.FreesOwnSize T (.deallocate p n)) (h : s.next T sort (.deallocate p n) = some (t, o)) :
    t.Sound T := by
  obtain ⟨a, result, rfl, _⟩ := next_deallocate h
  obtain ⟨block, found, size⟩ := Option.map_eq_some_iff.mp own
  refine ⟨?_, sound.bounded.deallocate result, ?_⟩
  · intro x below
    have counted := sound.deallocate_cover held result found below
    rw [size] at counted
    omega
  · intro q m mem
    exact sound.live q m (List.mem_of_mem_erase mem)

theorem Sound.step (sound : s.Sound T) (own : s.FreesOwnSize T e)
    (h : (clientMachine T sort).next s e = some (t, o)) : t.Sound T := by
  obtain ⟨allowed, h⟩ := Machine.restrict_next.mp h
  cases e with
  | allocate n => exact sound.allocate allowed h
  | deallocate p n => exact sound.deallocate allowed own h

/-- A record of another size leaves a byte twice covered or lost. -/
theorem Sound.not_tiled (sound : s.Sound T) (other : ¬ s.FreesOwnSize T e)
    (h : (clientMachine T sort).next s e = some (t, o)) : ¬ t.Tiled T := by
  obtain ⟨held, h⟩ := Machine.restrict_next.mp h
  cases e with
  | allocate n => exact absurd trivial other
  | deallocate p n =>
      obtain ⟨positive, inside⟩ := sound.live p n held
      obtain ⟨a, result, rfl, _⟩ := next_deallocate (T := T) h
      intro tiled
      cases found : s.allocator.allocatedBlocks.blocks.find? (·.blockPtr == some p) with
      | none =>
          -- the first byte of the block is nobody's
          cases BlockAllocator.deallocate_missing result found
          have before := sound.tiled p (by omega)
          have after := tiled p (by omega)
          have removed := cover_freed T s.allocator held p
          have own : weight p (some ⟨p, n * T.size⟩) = 1 := by simp [weight, positive]
          rw [cover_spans] at before after
          simp only [liveSpans] at before after removed
          omega
      | some block =>
          have recorded := sound.bounded.found found
          have different : block.blockSize ≠ n * T.size := by
            intro same
            exact other (by simp [FreesOwnSize, found, same])
          -- the first byte behind the shorter of the two
          have below : p + min block.blockSize (n * T.size) < linearAllocatorBlockSize := by omega
          have counted := sound.deallocate_cover held result found below
          have after := tiled _ below
          rw [after] at counted
          simp only [weight] at counted
          split at counted <;> split at counted <;> omega

end Heap

/-- In every run by clients that keep to the rules, the live blocks and the free
entries tile the buffer in all states if and only if every block is given back while
the first record for its pointer is of its size. -/
theorem block_allocator_tiling_iff (T : ElementType) (sort : BlockSort) {s₀ s : Heap}
    {ts : List (Transition Heap HeapEvent HeapOutput)} (init : (clientMachine T sort).init s₀)
    (run : (clientMachine T sort).Run s₀ ts s) :
    (∀ v, Machine.Visits s₀ ts v → v.Tiled T) ↔ ∀ t ∈ ts, t.before.FreesOwnSize T t.event := by
  have start : s₀.Sound T := by
    rw [show s₀ = Heap.start from init]
    exact Heap.start_sound T
  exact run.always_iff_guard start (fun _ _ _ _ sound own h => sound.step own h)
    (fun _ sound => sound.tiled) fun _ _ _ _ sound other h => sound.not_tiled other h

/-- A block of four words is given back and allocated again with the same size. -/
def sameSizeTrace : List HeapEvent :=
  [.allocate 4, .allocate 2, .deallocate 0 4, .allocate 4, .deallocate 0 4, .deallocate 16 2]

def words : ElementType := ⟨4, by decide⟩

theorem block_allocator_tiling_same_size :
    ∃ ts s, (clientMachine words .insertion).exec Heap.start sameSizeTrace = some (ts, s) ∧
      ∀ v, Machine.Visits Heap.start ts v → v.Tiled words := by
  have returns : ((clientMachine words .insertion).exec Heap.start sameSizeTrace).map
      (fun r => r.1.all fun t => decide (t.before.FreesOwnSize words t.event)) = some true := by
    decide +kernel
  obtain ⟨⟨ts, s⟩, h, own⟩ := Option.map_eq_some_iff.mp returns
  refine ⟨ts, s, h, ?_⟩
  apply (block_allocator_tiling_iff words .insertion rfl (Machine.Run.of_exec h)).mpr
  simpa using own

def chars : ElementType := ⟨1, by decide⟩

/-- A block of 16 bytes is given back; at its address one of 8 bytes is allocated and
given back. The first record for the address still says 16. -/
def staleRecordTrace : List HeapEvent :=
  [.allocate 16, .deallocate 0 16, .allocate 8, .deallocate 0 8]

/-- Byte 8 is then in two free entries, and two further blocks overlap in it. -/
theorem block_allocator_stale_record_overlaps :
    ∃ ts s, (clientMachine chars .insertion).exec Heap.start staleRecordTrace = some (ts, s) ∧
      (clientMachine chars .insertion).Reachable s ∧ ¬ s.Tiled chars ∧
      ∃ ts' s', (clientMachine chars .insertion).exec s [.allocate 16, .allocate 8] = some (ts', s') ∧
        s'.live = [(0, 16), (8, 8)] := by
  have twice : ((clientMachine chars .insertion).exec Heap.start staleRecordTrace).map
      (fun r => (cover (r.2.spans chars) 8,
        ((clientMachine chars .insertion).exec r.2 [.allocate 16, .allocate 8]).map fun r => r.2.live)) =
      some (2, some [(0, 16), (8, 8)]) := by
    decide +kernel
  obtain ⟨⟨ts, s⟩, h, covered⟩ := Option.map_eq_some_iff.mp twice
  obtain ⟨two, overlap⟩ := Prod.mk.inj covered
  obtain ⟨⟨ts', s'⟩, h', live⟩ := Option.map_eq_some_iff.mp overlap
  refine ⟨ts, s, h, (Machine.Run.of_exec h).reachable rfl, ?_, ts', s', h', live⟩
  intro tiled
  have one := tiled 8 (by decide)
  exact absurd (two.symm.trans one) (by decide)

end Rtl.Alloc
