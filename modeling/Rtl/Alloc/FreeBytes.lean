import Rtl.Alloc.Records

/-! # Merging keeps the free bytes

A free table holds disjoint blocks of the buffer and null entries of size zero, in any order.
`mergeFreeBlocks` makes another one out of it that stands for the same bytes. Its blocks are
in the order of their addresses, although null entries are left between them.
-/

namespace Rtl.Alloc

open Rtl.Base

namespace AllocatorBlock

variable {b left right : AllocatorBlock} {x : Nat}

def Holds (b : AllocatorBlock) (x : Nat) : Prop :=
  ∃ p, b.blockPtr = some p ∧ p ≤ x ∧ x < p + b.blockSize

def Disjoint (left right : AllocatorBlock) : Prop := ∀ x, left.Holds x → ¬ right.Holds x

def Below (left right : AllocatorBlock) : Prop :=
  ∀ p q, left.blockPtr = some p → right.blockPtr = some q → p < q

/-- The block lies in the buffer; a null entry has the size zero. -/
structure InBuffer (b : AllocatorBlock) : Prop where
  inside : ∀ p, b.blockPtr = some p → p + b.blockSize ≤ linearAllocatorBlockSize
  null : b.blockPtr = none → b.blockSize = 0

theorem holds_iff_weight : b.Holds x ↔ weight x b.span = 1 := by
  unfold Holds span
  cases b.blockPtr with
  | none => simp [weight]
  | some p => simp [weight]

theorem Disjoint.weight_add_le (disjoint : left.Disjoint right) (x : Nat) :
    weight x left.span + weight x right.span ≤ 1 := by
  have one := weight_le_one x left.span
  have other := weight_le_one x right.span
  by_cases here : left.Holds x
  · have there := disjoint x here
    rw [holds_iff_weight] at there
    omega
  · rw [holds_iff_weight] at here
    omega

theorem Disjoint.symm (disjoint : left.Disjoint right) : right.Disjoint left :=
  fun x here there => disjoint x there here

theorem Before.disjoint (before : left.Before right) : left.Disjoint right := by
  rintro x ⟨p, here, _, high⟩ ⟨q, there, low, _⟩
  have apart := before p q here there
  omega

theorem Before.below (before : left.Before right) (filled : left.Filled) : left.Below right := by
  intro p q here there
  have apart := before p q here there
  have positive := filled.pos here
  omega

theorem makeBlockNullptr_inBuffer : AllocatorBlock.makeBlockNullptr.InBuffer := ⟨nofun, fun _ => rfl⟩

end AllocatorBlock

namespace BlockTable

def Free (t : BlockTable) (x : Nat) : Prop := ∃ b ∈ t.blocks, b.Holds x

/-- The non-null entries are disjoint blocks of the buffer that are not empty, and the null
entries have the size zero. -/
structure FreeTable (t : BlockTable) : Prop where
  disjoint : t.blocks.Pairwise AllocatorBlock.Disjoint
  filled : ∀ b ∈ t.blocks, b.Filled
  inBuffer : ∀ b ∈ t.blocks, b.InBuffer

variable {t : BlockTable} {x : Nat}

theorem free_iff_cover : t.Free x ↔ 0 < cover t.spans x := by
  constructor
  · rintro ⟨b, mem, holds⟩
    have least := weight_le mem x
    rw [AllocatorBlock.holds_iff_weight.mp holds] at least
    exact least
  · exact entry_of_cover_pos

theorem FreeTable.cover_le_one (table : t.FreeTable) (x : Nat) : cover t.spans x ≤ 1 :=
  Base.cover_le_one (List.pairwise_map.mpr (table.disjoint.imp fun apart => apart.weight_add_le x))

theorem empty_freeTable : empty.FreeTable := by
  have blank : ∀ b ∈ empty.blocks, b = {} := fun b mem => List.eq_of_mem_replicate mem
  refine ⟨?_, ?_, ?_⟩
  · refine List.pairwise_replicate.mpr (.inr ?_)
    rintro x ⟨p, ptr, _⟩
    cases ptr
  · intro b mem ptr
    rw [blank b mem] at ptr
    cases ptr
  · intro b mem
    rw [blank b mem]
    exact AllocatorBlock.makeBlockNullptr_inBuffer

theorem not_free_empty : ¬ empty.Free x := by
  rintro ⟨b, mem, p, ptr, _⟩
  rw [List.eq_of_mem_replicate mem] at ptr
  cases ptr

theorem Free.of_set {i size p : Nat} (free : (t.set i ⟨size, some p⟩).Free x) :
    (p ≤ x ∧ x < p + size) ∨ t.Free x := by
  obtain ⟨b, mem, holds⟩ := free
  rcases mem_set mem with rfl | mem
  · obtain ⟨_, ⟨⟩, inside⟩ := holds
    exact .inl inside
  · exact .inr ⟨b, mem, holds⟩

/-- A block of bytes that are not free is put into an entry. -/
theorem FreeTable.set {i size p : Nat} (table : t.FreeTable) (positive : 0 < size)
    (inside : p + size ≤ linearAllocatorBlockSize)
    (taken : ∀ x, p ≤ x → x < p + size → ¬ t.Free x) : (t.set i ⟨size, some p⟩).FreeTable := by
  have apart : ∀ c ∈ t.blocks, AllocatorBlock.Disjoint ⟨size, some p⟩ c := by
    rintro c mem x ⟨_, ⟨⟩, low, high⟩ holds
    exact taken x low high ⟨c, mem, holds⟩
  refine ⟨?_, filled_set table.filled fun _ => positive, ?_⟩
  · exact pairwise_set (fun _ _ disjoint => disjoint.symm) table.disjoint apart
  · intro m mem
    rcases mem_set mem with rfl | mem
    · refine ⟨?_, nofun⟩
      rintro q ⟨⟩
      exact inside
    · exact table.inBuffer m mem

end BlockTable

/-! ## The pass -/

section

variable {current next : AllocatorBlock} {rest : List AllocatorBlock}

/-- Each block after the pass ends before the next begins. -/
theorem before_mergeLoop (before : (current :: rest).Pairwise AllocatorBlock.Before) :
    (mergeLoop current rest).Pairwise AllocatorBlock.Before := by
  induction rest generalizing current with
  | nil => exact before
  | cons next rest ih =>
      obtain ⟨first, tail⟩ := List.pairwise_cons.mp before
      obtain ⟨second, later⟩ := List.pairwise_cons.mp tail
      by_cases touching : current.touches next = true
      · obtain ⟨p, here, there⟩ := AllocatorBlock.touches_ptr touching
        have cleared : (AllocatorBlock.makeBlockNullptr :: rest).Pairwise AllocatorBlock.Before := by
          refine List.pairwise_cons.mpr ⟨?_, later⟩
          rintro b _ p q ⟨⟩
        rw [mergeLoop, if_pos touching]
        refine List.pairwise_cons.mpr ⟨?_, ih cleared⟩
        -- what follows begins behind the second of the two
        intro m mem q r ptr ptr'
        obtain ⟨b, member, begins⟩ := mergeLoop_begins mem ptr'
        rcases List.mem_cons.mp member with rfl | member
        · cases begins
        · have apart := second b member _ _ there begins
          cases here.symm.trans ptr
          simp only
          omega
      · rw [mergeLoop, if_neg touching]
        refine List.pairwise_cons.mpr ⟨?_, ih tail⟩
        intro m mem p q ptr ptr'
        obtain ⟨b, member, begins⟩ := mergeLoop_begins mem ptr'
        exact first b member p q ptr begins

theorem inBuffer_mergeLoop (inBuffer : ∀ b ∈ current :: rest, b.InBuffer) :
    ∀ m ∈ mergeLoop current rest, m.InBuffer := by
  refine forall_mergeLoop AllocatorBlock.makeBlockNullptr_inBuffer ?_ inBuffer
  intro left right touching _ last
  constructor
  · intro p ptr
    exact AllocatorBlock.ends_merged touching last.inside ptr
  · intro null
    obtain ⟨p, here, _⟩ := AllocatorBlock.touches_ptr touching
    cases here.symm.trans null

/-- A merge clears one entry and fills none. -/
theorem occupied_mergeLoop (current : AllocatorBlock) (rest : List AllocatorBlock) :
    (mergeLoop current rest).countP (·.blockPtr.isSome) ≤
      (current :: rest).countP (·.blockPtr.isSome) := by
  induction rest generalizing current with
  | nil => exact Nat.le_refl _
  | cons next rest ih =>
      by_cases touching : current.touches next = true
      · have later := ih .makeBlockNullptr
        rw [mergeLoop, if_pos touching]
        simp only [List.countP_cons, AllocatorBlock.makeBlockNullptr, Option.isSome_none,
          Bool.false_eq_true, if_false] at later ⊢
        omega
      · have later := ih next
        rw [mergeLoop, if_neg touching]
        simp only [List.countP_cons] at later ⊢
        omega

end

/-- After `mergeFreeBlocks` a free table stands for the same bytes, it is a free table again
with its blocks in the order of their addresses, and it has no more of them. -/
theorem merge_free_blocks_preserves (sort : BlockSort) (t : BlockTable) (table : t.FreeTable) :
    (∀ x, (sort.mergeFreeBlocks t).Free x ↔ t.Free x) ∧ (sort.mergeFreeBlocks t).FreeTable ∧
      (sort.mergeFreeBlocks t).blocks.Pairwise AllocatorBlock.Below ∧
      (sort.mergeFreeBlocks t).occupied ≤ t.occupied := by
  have ordered := ordered_sort sort table.cover_le_one table.filled
  have filled := filled_mergeFreeBlocks sort table.filled
  obtain ⟨first, rest, sorted, perm, merged⟩ := sort.mergeFreeBlocks_eq t
  rw [sorted] at ordered
  have before := before_mergeLoop ordered.before
  rw [← merged] at before
  refine ⟨?_, ⟨before.imp AllocatorBlock.Before.disjoint, filled, ?_⟩, ?_, ?_⟩
  · intro x
    rw [BlockTable.free_iff_cover, BlockTable.free_iff_cover, cover_mergeFreeBlocks]
  · rw [merged]
    exact inBuffer_mergeLoop fun b mem => table.inBuffer b (perm.mem_iff.mp mem)
  · exact before.imp_of_mem fun mem _ apart => apart.below (filled _ mem)
  · have count := occupied_mergeLoop first rest
    rw [perm.countP_eq, ← merged] at count
    exact count

def threeBlocks : BlockTable :=
  ((BlockTable.empty.set 3 ⟨8, some 64⟩).set 7 ⟨16, some 16⟩).set 1000 ⟨16, some 0⟩

theorem merge_free_blocks_preserves_three :
    threeBlocks.FreeTable ∧
      (BlockSort.insertion.mergeFreeBlocks threeBlocks).blocks.filter (·.blockPtr.isSome) =
        [⟨32, some 0⟩, ⟨8, some 64⟩] ∧
      ∀ x, (BlockSort.insertion.mergeFreeBlocks threeBlocks).Free x ↔ threeBlocks.Free x := by
  have one : (BlockTable.empty.set 3 ⟨8, some 64⟩).FreeTable :=
    BlockTable.empty_freeTable.set (by decide) (by decide) fun _ _ _ => BlockTable.not_free_empty
  have two : ((BlockTable.empty.set 3 ⟨8, some 64⟩).set 7 ⟨16, some 16⟩).FreeTable := by
    refine one.set (by decide) (by decide) ?_
    intro x low high free
    rcases free.of_set with inside | free
    · omega
    · exact BlockTable.not_free_empty free
  have table : threeBlocks.FreeTable := by
    refine two.set (by decide) (by decide) ?_
    intro x low high free
    rcases free.of_set with inside | free
    · omega
    · rcases free.of_set with inside | free
      · omega
      · exact BlockTable.not_free_empty free
  refine ⟨table, ?_, (merge_free_blocks_preserves .insertion threeBlocks table).1⟩
  decide +kernel

end Rtl.Alloc
