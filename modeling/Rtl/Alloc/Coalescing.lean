import Rtl.Alloc.Tiling

/-! # Free blocks that touch

`mergeFreeBlocks` goes over the sorted table once and clears the entry it has merged into
the one before. Two free blocks that touch become one, but of three in a row the third
stays: the pass compares it with the cleared entry. Giving back a block between two free
blocks makes such a row.
-/

namespace Rtl.Alloc

open Rtl.Base

namespace AllocatorBlock

variable {current next left right b : AllocatorBlock}

theorem touches_of_ptr {p : Nat} (here : current.blockPtr = some p)
    (there : next.blockPtr = some (p + current.blockSize)) : current.touches next = true := by
  simp [touches, here, there]

/-- A block that is not null is not empty. -/
def Filled (b : AllocatorBlock) : Prop := b.blockPtr.isSome = true → 0 < b.blockSize

theorem Filled.pos {p : Nat} (filled : b.Filled) (ptr : b.blockPtr = some p) : 0 < b.blockSize :=
  filled (by rw [ptr]; rfl)

/-- The second block begins where the first ends, or behind. -/
def Before (left right : AllocatorBlock) : Prop :=
  ∀ p q, left.blockPtr = some p → right.blockPtr = some q → p + left.blockSize ≤ q

end AllocatorBlock

/-- No block ends where another begins. -/
def Separate (blocks : List AllocatorBlock) : Prop :=
  ∀ a ∈ blocks, ∀ b ∈ blocks, a.touches b = false

def Chained (blocks : List AllocatorBlock) : Prop :=
  ∃ a ∈ blocks, ∃ b ∈ blocks, ∃ c ∈ blocks, a.touches b = true ∧ b.touches c = true

theorem Separate.not_chained {blocks : List AllocatorBlock} (separate : Separate blocks) :
    ¬ Chained blocks := by
  rintro ⟨a, memA, b, memB, _, _, touching, _⟩
  rw [separate a memA b memB] at touching
  cases touching

structure Ordered (blocks : List AllocatorBlock) : Prop where
  filled : ∀ b ∈ blocks, b.Filled
  before : blocks.Pairwise AllocatorBlock.Before
  nullsFirst : blocks.Pairwise fun left right =>
    left.blockPtr.isSome = true → right.blockPtr.isSome = true

section

variable {x y current next : AllocatorBlock} {blocks rest : List AllocatorBlock}

theorem separate_cons (first : ∀ m ∈ x :: blocks, m.touches x = false) :
    Separate (x :: blocks) ↔ Separate blocks ∧ ∀ m ∈ blocks, x.touches m = false := by
  constructor
  · intro separate
    exact ⟨fun a memA b memB => separate a (List.mem_cons_of_mem x memA) b (List.mem_cons_of_mem x memB),
      fun m mem => separate x List.mem_cons_self m (List.mem_cons_of_mem x mem)⟩
  · rintro ⟨separate, apart⟩ a memA b memB
    rcases List.mem_cons.mp memB with rfl | inB
    · exact first a memA
    · rcases List.mem_cons.mp memA with rfl | inA
      · exact apart b inB
      · exact separate a inA b inB

/-- If nothing touches the first block, it can only begin a row. -/
theorem chained_cons (first : ∀ m ∈ x :: blocks, m.touches x = false) :
    Chained (x :: blocks) ↔
      Chained blocks ∨ ∃ b ∈ blocks, ∃ c ∈ blocks, x.touches b = true ∧ b.touches c = true := by
  have later : ∀ m ∈ x :: blocks, ∀ b ∈ x :: blocks, m.touches b = true → b ∈ blocks := by
    intro m mem b memB touching
    rcases List.mem_cons.mp memB with rfl | memB
    · rw [first m mem] at touching
      cases touching
    · exact memB
  constructor
  · rintro ⟨a, memA, b, memB, c, memC, ab, bc⟩
    have inB := later a memA b memB ab
    have inC := later b memB c memC bc
    rcases List.mem_cons.mp memA with rfl | inA
    · exact .inr ⟨b, inB, c, inC, ab, bc⟩
    · exact .inl ⟨a, inA, b, inB, c, inC, ab, bc⟩
  · have more : ∀ {m}, m ∈ blocks → m ∈ x :: blocks := List.mem_cons_of_mem x
    rintro (⟨a, inA, b, inB, c, inC, row⟩ | ⟨b, inB, c, inC, row⟩)
    · exact ⟨a, more inA, b, more inB, c, more inC, row⟩
    · exact ⟨x, List.mem_cons_self, b, more inB, c, more inC, row⟩

/-! ## Ordered tables -/

theorem Ordered.tail (ordered : Ordered (x :: blocks)) : Ordered blocks where
  filled b mem := ordered.filled b (List.mem_cons_of_mem x mem)
  before := (List.pairwise_cons.mp ordered.before).2
  nullsFirst := (List.pairwise_cons.mp ordered.nullsFirst).2

theorem Ordered.null (ordered : Ordered blocks) : Ordered (.makeBlockNullptr :: blocks) where
  filled b mem := by
    rcases List.mem_cons.mp mem with rfl | mem
    · intro ptr
      cases ptr
    · exact ordered.filled b mem
  before := by
    refine List.pairwise_cons.mpr ⟨?_, ordered.before⟩
    rintro b _ p q ⟨⟩
  nullsFirst := by
    refine List.pairwise_cons.mpr ⟨?_, ordered.nullsFirst⟩
    rintro b _ ⟨⟩

/-- Blocks that begin where later ones do, do not touch the first. -/
theorem Ordered.not_touched {m : AllocatorBlock} (ordered : Ordered (x :: blocks))
    (begins : ∀ p, m.blockPtr = some p → ∃ b ∈ blocks, b.blockPtr = some p) : m.touches x = false := by
  by_contra touching
  obtain ⟨p, here, there⟩ := AllocatorBlock.touches_ptr (by simpa using touching)
  obtain ⟨b, mem, ptr⟩ := begins p here
  have apart := (List.pairwise_cons.mp ordered.before).1 b mem _ _ there ptr
  have positive := (ordered.filled x List.mem_cons_self).pos there
  omega

/-- Nothing touches the first block. -/
theorem Ordered.first (ordered : Ordered (x :: blocks)) : ∀ m ∈ x :: blocks, m.touches x = false := by
  intro m mem
  rcases List.mem_cons.mp mem with rfl | later
  · by_contra touching
    obtain ⟨p, here, there⟩ := AllocatorBlock.touches_ptr (by simpa using touching)
    have positive := (ordered.filled m List.mem_cons_self).pos here
    rw [here, Option.some_inj] at there
    omega
  · exact ordered.not_touched fun p ptr => ⟨m, later, ptr⟩

/-- The first block can only touch the second. -/
theorem Ordered.touches_second (ordered : Ordered (x :: y :: blocks)) {b : AllocatorBlock}
    (mem : b ∈ blocks) : x.touches b = false := by
  by_contra touching
  obtain ⟨p, here, there⟩ := AllocatorBlock.touches_ptr (by simpa using touching)
  have some := (List.pairwise_cons.mp ordered.nullsFirst).1 y List.mem_cons_self (by rw [here]; rfl)
  obtain ⟨q, ptr⟩ := Option.isSome_iff_exists.mp some
  have first := (List.pairwise_cons.mp ordered.before).1 y List.mem_cons_self _ _ here ptr
  have second := (List.pairwise_cons.mp ordered.tail.before).1 b mem _ _ ptr there
  have positive := (ordered.tail.filled y List.mem_cons_self).pos ptr
  omega

/-- Behind two blocks that touch, a row either goes on from the second or lies behind. -/
theorem Ordered.chained_iff (ordered : Ordered (x :: y :: blocks)) (touching : x.touches y = true) :
    Chained (x :: y :: blocks) ↔ Chained blocks ∨ ∃ c ∈ blocks, y.touches c = true := by
  rw [chained_cons ordered.first, chained_cons ordered.tail.first]
  have behind : ∀ c ∈ y :: blocks, y.touches c = true → c ∈ blocks := by
    intro c mem yc
    rcases List.mem_cons.mp mem with rfl | mem
    · rw [ordered.tail.first c List.mem_cons_self] at yc
      cases yc
    · exact mem
  constructor
  · rintro ((chained | ⟨b, inB, _, _, yb, _⟩) | ⟨b, inB, c, inC, xb, bc⟩)
    · exact .inl chained
    · exact .inr ⟨b, inB, yb⟩
    · rcases List.mem_cons.mp inB with rfl | inB
      · exact .inr ⟨c, behind c inC bc, bc⟩
      · rw [ordered.touches_second inB] at xb
        cases xb
  · rintro (chained | ⟨c, inC, yc⟩)
    · exact .inl (.inl chained)
    · exact .inr ⟨y, List.mem_cons_self, c, List.mem_cons_of_mem y inC, touching, yc⟩

/-- A block that does not touch the second touches none. -/
theorem Ordered.alone (ordered : Ordered (x :: y :: blocks)) (apart : x.touches y = false) :
    ∀ b ∈ y :: blocks, x.touches b = false := by
  intro b mem
  rcases List.mem_cons.mp mem with rfl | mem
  · exact apart
  · exact ordered.touches_second mem

theorem Ordered.chained_kept (ordered : Ordered (x :: y :: blocks)) (apart : x.touches y = false) :
    Chained (x :: y :: blocks) ↔ Chained (y :: blocks) := by
  rw [chained_cons ordered.first]
  refine or_iff_left ?_
  rintro ⟨b, mem, _, _, touching, _⟩
  rw [ordered.alone apart b mem] at touching
  cases touching

theorem chained_null : Chained (.makeBlockNullptr :: blocks) ↔ Chained blocks := by
  have null : ∀ b : AllocatorBlock, AllocatorBlock.touches .makeBlockNullptr b = false := fun _ => rfl
  rw [chained_cons]
  · refine or_iff_left ?_
    rintro ⟨b, _, _, _, touching, _⟩
    rw [null b] at touching
    cases touching
  · intro m _
    cases ptr : m.blockPtr <;> simp [AllocatorBlock.touches, AllocatorBlock.makeBlockNullptr, ptr]

/-! ## The pass -/

theorem filled_mergeLoop (filled : ∀ b ∈ current :: rest, b.Filled) :
    ∀ m ∈ mergeLoop current rest, m.Filled := by
  refine forall_mergeLoop ?_ ?_ filled
  · intro ptr
    cases ptr
  · intro left right _ positive _ ptr
    exact Nat.add_pos_left (positive ptr) _

/-- Every block begins where one began before the pass. -/
theorem mergeLoop_begins {m : AllocatorBlock} {p : Nat} (mem : m ∈ mergeLoop current rest)
    (ptr : m.blockPtr = some p) : ∃ b ∈ current :: rest, b.blockPtr = some p := by
  have begins : ∀ m ∈ mergeLoop current rest, ∀ p, m.blockPtr = some p →
      ∃ b ∈ current :: rest, b.blockPtr = some p := by
    refine forall_mergeLoop ?_ ?_ ?_
    · intro p ptr
      cases ptr
    · intro left right _ begins _
      exact begins
    · intro b mem p ptr
      exact ⟨b, mem, ptr⟩
  exact begins m mem p ptr

/-- The entry the pass looks at keeps its beginning. -/
theorem mergeLoop_head (current : AllocatorBlock) (rest : List AllocatorBlock) :
    ∃ m ∈ mergeLoop current rest, m.blockPtr = current.blockPtr := by
  cases rest with
  | nil => exact ⟨current, List.mem_cons_self, rfl⟩
  | cons next rest =>
      unfold mergeLoop
      split
      · exact ⟨_, List.mem_cons_self, rfl⟩
      · exact ⟨_, List.mem_cons_self, rfl⟩

/-- What touches a block after the pass touched one before it. -/
theorem mergeLoop_touches {x m : AllocatorBlock} (mem : m ∈ mergeLoop current rest)
    (touching : x.touches m = true) : ∃ b ∈ current :: rest, x.touches b = true := by
  obtain ⟨p, here, there⟩ := AllocatorBlock.touches_ptr touching
  obtain ⟨b, member, begins⟩ := mergeLoop_begins mem there
  exact ⟨b, member, AllocatorBlock.touches_of_ptr here begins⟩

/-- After a cleared entry the pass leaves the next block its beginning. -/
theorem mergeLoop_touched {c : AllocatorBlock} (ordered : Ordered (next :: rest)) (mem : c ∈ rest)
    (touching : next.touches c = true) :
    ∃ m ∈ mergeLoop .makeBlockNullptr rest, next.touches m = true := by
  cases rest with
  | nil => cases mem
  | cons y rest =>
      rcases List.mem_cons.mp mem with rfl | mem
      · obtain ⟨p, here, there⟩ := AllocatorBlock.touches_ptr touching
        obtain ⟨m, member, begins⟩ := mergeLoop_head c rest
        refine ⟨m, List.mem_cons_of_mem _ member, ?_⟩
        exact AllocatorBlock.touches_of_ptr here (begins.trans there)
      · rw [ordered.touches_second mem] at touching
        cases touching

/-- Two blocks are merged: what they make is separate from the rest unless a third one
follows. -/
theorem Ordered.separate_merged (ordered : Ordered (current :: next :: rest))
    (touching : current.touches next = true) :
    Separate ({ current with blockSize := current.blockSize + next.blockSize } ::
        mergeLoop .makeBlockNullptr rest) ↔
      Separate (mergeLoop .makeBlockNullptr rest) ∧ ¬ ∃ c ∈ rest, next.touches c = true := by
  obtain ⟨p, here, there⟩ := AllocatorBlock.touches_ptr touching
  have ends : ∀ m, AllocatorBlock.touches
      { current with blockSize := current.blockSize + next.blockSize } m = next.touches m := by
    intro m
    cases ptr : m.blockPtr with
    | none => simp [AllocatorBlock.touches, ptr]
    | some q => simp [AllocatorBlock.touches, here, there, ptr, Nat.add_assoc]
  rw [separate_cons]
  · simp only [ends]
    refine and_congr_right fun _ => ?_
    constructor
    · rintro apart ⟨c, mem, touched⟩
      obtain ⟨m, member, touches⟩ := mergeLoop_touched ordered.tail mem touched
      rw [apart m member] at touches
      cases touches
    · intro free m mem
      by_contra touched
      obtain ⟨b, member, touches⟩ := mergeLoop_touches mem (by simpa using touched)
      rcases List.mem_cons.mp member with rfl | member
      · simp [AllocatorBlock.touches, there, AllocatorBlock.makeBlockNullptr] at touches
      · exact free ⟨b, member, touches⟩
  · intro m mem
    rcases List.mem_cons.mp mem with rfl | mem
    · exact (ends _).trans (ordered.first next (List.mem_cons_of_mem _ List.mem_cons_self))
    · refine ordered.not_touched ?_
      intro q ptr
      obtain ⟨b, member, begins⟩ := mergeLoop_begins mem ptr
      rcases List.mem_cons.mp member with rfl | member
      · cases begins
      · exact ⟨b, List.mem_cons_of_mem _ member, begins⟩

/-- The entry is left alone: it is separate from all others. -/
theorem Ordered.separate_kept (ordered : Ordered (current :: next :: rest))
    (apart : current.touches next = false) :
    Separate (current :: mergeLoop next rest) ↔ Separate (mergeLoop next rest) := by
  rw [separate_cons]
  · refine and_iff_left ?_
    intro m mem
    by_contra touched
    obtain ⟨b, member, touches⟩ := mergeLoop_touches mem (by simpa using touched)
    rw [ordered.alone apart b member] at touches
    cases touches
  · intro m mem
    rcases List.mem_cons.mp mem with rfl | mem
    · exact ordered.first m List.mem_cons_self
    · exact ordered.not_touched fun p ptr => mergeLoop_begins mem ptr

/-- After the pass no two blocks touch, if and only if no three did before it. -/
theorem separate_mergeLoop (ordered : Ordered (current :: rest)) :
    Separate (mergeLoop current rest) ↔ ¬ Chained (current :: rest) := by
  induction rest generalizing current with
  | nil =>
      have separate : Separate [current] := by
        intro a memA b memB
        cases List.mem_singleton.mp memB
        exact ordered.first a memA
      exact ⟨fun _ => separate.not_chained, fun _ => separate⟩
  | cons next rest ih =>
      by_cases touching : current.touches next = true
      · have cleared := ordered.tail.tail.null
        rw [mergeLoop, if_pos touching, ordered.separate_merged touching, ih cleared,
          chained_null, ordered.chained_iff touching, not_or]
      · have apart : current.touches next = false := by simpa using touching
        rw [mergeLoop, if_neg touching, ordered.separate_kept apart, ih ordered.tail,
          ordered.chained_kept apart]

end

/-! ## Sorting -/

/-- Sorted blocks that cover no byte twice are disjoint. -/
theorem before_of_sorted {blocks : List AllocatorBlock}
    (sorted : blocks.Pairwise fun left right => right.less left = false)
    (once : ∀ x, cover (blocks.map (·.span)) x ≤ 1) (filled : ∀ b ∈ blocks, b.Filled) :
    blocks.Pairwise AllocatorBlock.Before := by
  induction blocks with
  | nil => exact List.Pairwise.nil
  | cons first rest ih =>
      obtain ⟨least, sorted⟩ := List.pairwise_cons.mp sorted
      have split : ∀ x, weight x first.span + cover (rest.map (·.span)) x ≤ 1 := by
        intro x
        have both := once x
        rwa [List.map_cons, cover_cons] at both
      refine List.pairwise_cons.mpr ⟨?_, ih sorted (fun x => ?_) fun b mem => ?_⟩
      · intro b mem p q here there
        have order : ¬ q < p := by simpa [AllocatorBlock.less, here, there] using least b mem
        have positive := (filled b (List.mem_cons_of_mem _ mem)).pos there
        -- otherwise the first byte of the second block is in both
        have later : weight q b.span ≤ cover (rest.map (·.span)) q :=
          weight_le_cover (List.mem_map_of_mem mem) q
        have both := split q
        simp only [AllocatorBlock.span, here, there, Option.map_some, weight] at later both
        split at later <;> split at both <;> omega
      · have both := split x
        omega
      · exact filled b (List.mem_cons_of_mem _ mem)

theorem ordered_sort (sort : BlockSort) {t : BlockTable} (once : ∀ x, cover t.spans x ≤ 1)
    (filled : ∀ b ∈ t.blocks, b.Filled) : Ordered (sort.sort t.blocks) := by
  have perm := sort.perm t.blocks
  have sorted := sort.sorted t.blocks
  have filled' : ∀ b ∈ sort.sort t.blocks, b.Filled := fun b mem => filled b (perm.mem_iff.mp mem)
  refine ⟨filled', before_of_sorted sorted ?_ filled', sorted.imp ?_⟩
  · intro x
    rw [cover_perm (perm.map (·.span)) x]
    exact once x
  · intro left right order some
    obtain ⟨p, here⟩ := Option.isSome_iff_exists.mp some
    cases there : right.blockPtr with
    | none => simp [AllocatorBlock.less, here, there] at order
    | some q => rfl

/-- `mergeFreeBlocks` leaves no two blocks that touch, if and only if it finds no three. -/
theorem separate_mergeFreeBlocks (sort : BlockSort) {t : BlockTable}
    (once : ∀ x, cover t.spans x ≤ 1) (filled : ∀ b ∈ t.blocks, b.Filled) :
    Separate (sort.mergeFreeBlocks t).blocks ↔ ¬ Chained t.blocks := by
  have ordered := ordered_sort sort once filled
  obtain ⟨first, rest, sorted, perm, merged⟩ := sort.mergeFreeBlocks_eq t
  have same : Chained (first :: rest) ↔ Chained t.blocks := by
    simp only [Chained, perm.mem_iff]
  rw [sorted] at ordered
  rw [← same, merged]
  exact separate_mergeLoop ordered

theorem filled_mergeFreeBlocks (sort : BlockSort) {t : BlockTable}
    (filled : ∀ b ∈ t.blocks, b.Filled) : ∀ b ∈ (sort.mergeFreeBlocks t).blocks, b.Filled := by
  obtain ⟨first, rest, _, perm, merged⟩ := sort.mergeFreeBlocks_eq t
  rw [merged]
  exact filled_mergeLoop fun b mem => filled b (perm.mem_iff.mp mem)

/-! ## Writing an entry -/

theorem filled_remainder (b : AllocatorBlock) (bytes : Nat) :
    (BlockAllocator.remainder b bytes).Filled := by
  unfold BlockAllocator.remainder
  by_cases left : 0 < b.blockSize - bytes
  · simp [left, AllocatorBlock.Filled]
  · simp [left, AllocatorBlock.Filled, AllocatorBlock.makeBlockNullptr]

namespace BlockTable

variable {t : BlockTable} {i : Nat} {b : AllocatorBlock}

theorem weight_le {m : AllocatorBlock} (mem : m ∈ t.blocks) (x : Nat) :
    weight x m.span ≤ cover t.spans x :=
  weight_le_cover (List.mem_map_of_mem mem) x

theorem mem_set {m : AllocatorBlock} (mem : m ∈ (t.set i b).blocks) : m = b ∨ m ∈ t.blocks :=
  (List.mem_or_eq_of_mem_set mem).symm

theorem filled_set (filled : ∀ b ∈ t.blocks, b.Filled) (new : b.Filled) : ∀ m ∈ (t.set i b).blocks, m.Filled := by
  intro m mem
  rcases mem_set mem with rfl | mem
  · exact new
  · exact filled m mem

/-- What is left of a block begins where nobody ends and ends where the block ended. -/
theorem separate_remainder {size p bytes : Nat} (at_i : t.blocks[i]? = some ⟨size, some p⟩)
    (enough : bytes ≤ size) (positive : 0 < bytes) (once : ∀ x, cover t.spans x ≤ 1)
    (filled : ∀ b ∈ t.blocks, b.Filled) (separate : Separate t.blocks) :
    Separate (t.set i (BlockAllocator.remainder ⟨size, some p⟩ bytes)).blocks := by
  have old : (⟨size, some p⟩ : AllocatorBlock) ∈ t.blocks := List.mem_of_getElem? at_i
  intro a memA c memC
  by_contra touching
  obtain ⟨q, here, there⟩ := AllocatorBlock.touches_ptr (by simpa using touching)
  rcases mem_set memC with rfl | inC
  · -- the last byte that was taken belongs to no entry any more
    obtain ⟨left, begins⟩ : 0 < size - bytes ∧ p + bytes = q + a.blockSize := by
      unfold BlockAllocator.remainder at there
      by_cases left : 0 < size - bytes
      · simp only [left, if_true, Option.map_some, Option.some.injEq] at there
        exact ⟨left, there⟩
      · simp [left, AllocatorBlock.makeBlockNullptr] at there
    have written := BlockTable.cover_set at_i (BlockAllocator.remainder ⟨size, some p⟩ bytes)
      (p + bytes - 1)
    have before := once (p + bytes - 1)
    have after := BlockTable.weight_le memA (p + bytes - 1)
    have filledA := (filled_set filled (filled_remainder _ _) a memA).pos here
    rw [weight_remainder] at written
    simp only [AllocatorBlock.span, here, Option.map_some, weight] at written after
    split at written <;> split at written <;> split at after <;> omega
  · rcases mem_set memA with rfl | inA
    · have ends := remainder_end enough here
      have touched : AllocatorBlock.touches ⟨size, some p⟩ c = true :=
        AllocatorBlock.touches_of_ptr rfl (by rw [there, ends])
      rw [separate _ old c inC] at touched
      cases touched
    · exact touching (separate a inA c inC)

/-- A block that is put into a null entry makes a row of three only as its middle. -/
theorem chained_set {size p : Nat} (at_i : t.blocks[i]? = some ⟨size, none⟩) (ptr : b.blockPtr = some p)
    (positive : 0 < b.blockSize) (filled : ∀ b ∈ t.blocks, b.Filled) (separate : Separate t.blocks) :
    Chained (t.set i b).blocks ↔
      (∃ l ∈ t.blocks, l.touches b = true) ∧ ∃ r ∈ t.blocks, b.touches r = true := by
  have self : b.touches b = false := by
    simp [AllocatorBlock.touches, ptr]
    omega
  constructor
  · rintro ⟨a, memA, m, memM, c, memC, am, mc⟩
    rcases mem_set memM with rfl | inM
    · rcases mem_set memA with rfl | inA
      · rw [self] at am
        cases am
      · rcases mem_set memC with rfl | inC
        · rw [self] at mc
          cases mc
        · exact ⟨⟨a, inA, am⟩, c, inC, mc⟩
    · rcases mem_set memA with rfl | inA
      · rcases mem_set memC with rfl | inC
        · -- two blocks cannot touch each other both ways
          obtain ⟨q, here, there⟩ := AllocatorBlock.touches_ptr am
          obtain ⟨r, here', there'⟩ := AllocatorBlock.touches_ptr mc
          have full := (filled m inM).pos there
          rw [there, Option.some_inj] at here'
          rw [here, Option.some_inj] at there'
          omega
        · rw [separate m inM c inC] at mc
          cases mc
      · rw [separate a inA m inM] at am
        cases am
  · rintro ⟨⟨l, inL, lb⟩, r, inR, br⟩
    have stays : ∀ m ∈ t.blocks, ∀ q, m.blockPtr = some q → m ∈ (t.set i b).blocks := by
      rintro m mem q pointer
      refine mem_set_of_ne at_i mem ?_
      rintro rfl
      cases pointer
    have new : b ∈ (t.set i b).blocks := List.mem_of_getElem? (set_at at_i)
    obtain ⟨q, here, _⟩ := AllocatorBlock.touches_ptr lb
    obtain ⟨_, _, there⟩ := AllocatorBlock.touches_ptr br
    exact ⟨l, stays l inL q here, b, new, r, stays r inR _ there, lb, br⟩

end BlockTable

/-! ## Requests -/

theorem BlockAllocator.allocate_unavailable {T : ElementType} {sort : BlockSort} {a : BlockAllocator}
    {n : Nat} : a.allocate T sort n = .error .noFreeBlocksAvailable ↔
      ∀ b ∈ a.freeBlocks.blocks, b.fits (T.bytes n) = false := by
  rw [← List.findIdx?_eq_none_iff]
  unfold allocate allocateToFreeBlock
  cases found : a.freeBlocks.blocks.findIdx? (·.fits (T.bytes n)) with
  | none => simp [bind, Except.bind]
  | some i =>
      obtain ⟨size, q, at_i, _⟩ := BlockTable.fits_at found
      cases slot : a.allocatedBlocks.searchNullptr <;>
        simp [searchNullptrInAllocatedBlock, slot, at_i, bind, Except.bind]

namespace Heap

variable {T : ElementType} {sort : BlockSort} {s t : Heap} {e : HeapEvent} {o : HeapOutput}

def Separate (s : Heap) : Prop := Alloc.Separate s.allocator.freeBlocks.blocks

/-- So many bytes of the buffer in a row belong to no live block. -/
def FreeRun (T : ElementType) (s : Heap) (start bytes : Nat) : Prop :=
  ∀ x, start ≤ x → x < start + bytes → x < linearAllocatorBlockSize ∧ cover (s.liveSpans T) x = 0

/-- `allocate` finds a block for a request if and only if so many bytes are free in a row. -/
def ServesRuns (T : ElementType) (sort : BlockSort) (s : Heap) : Prop :=
  ∀ n, s.Allowed T (.allocate n) →
    (s.allocator.allocate T sort n ≠ .error .noFreeBlocksAvailable ↔
      ∃ start, s.FreeRun T start (n * T.size))

/-- A block is given back whose neighbours on both sides are free. -/
def FreesBetween (T : ElementType) (s : Heap) : HeapEvent → Prop
  | .allocate _ => False
  | .deallocate p n =>
      (∃ l ∈ s.allocator.freeBlocks.blocks, l.touches ⟨n * T.size, some p⟩ = true) ∧
        ∃ r ∈ s.allocator.freeBlocks.blocks, AllocatorBlock.touches ⟨n * T.size, some p⟩ r = true

instance (T : ElementType) (s : Heap) : (e : HeapEvent) → Decidable (s.FreesBetween T e)
  | .allocate _ => inferInstanceAs (Decidable False)
  | .deallocate _ _ => inferInstanceAs (Decidable (_ ∧ _))

structure Coalesced (T : ElementType) (s : Heap) : Prop where
  sound : s.Sound T
  filled : ∀ b ∈ s.allocator.freeBlocks.blocks, b.Filled
  separate : s.Separate

theorem Sound.free_once (sound : s.Sound T) (x : Nat) : cover s.allocator.freeBlocks.spans x ≤ 1 := by
  by_cases below : x < linearAllocatorBlockSize
  · have tiled := sound.tiled x below
    rw [cover_spans] at tiled
    omega
  · rw [sound.bounded.free.cover_eq_zero (by omega)]
    omega

/-- A free byte lies in an entry of the free table. -/
theorem Sound.free_entry {x : Nat} (sound : s.Sound T)
    (free : x < linearAllocatorBlockSize ∧ cover (s.liveSpans T) x = 0) :
    ∃ b ∈ s.allocator.freeBlocks.blocks, ∃ p, b.blockPtr = some p ∧ p ≤ x ∧ x < p + b.blockSize := by
  have tiled := sound.tiled x free.1
  rw [cover_spans, free.2] at tiled
  have covered : 0 < cover s.allocator.freeBlocks.spans x := by omega
  exact BlockTable.entry_of_cover_pos covered

/-- Free bytes in a row lie in one entry. -/
theorem Coalesced.run_fits {start bytes : Nat} (coalesced : s.Coalesced T) (positive : 0 < bytes)
    (run : s.FreeRun T start bytes) : ∃ b ∈ s.allocator.freeBlocks.blocks, b.fits bytes = true := by
  obtain ⟨b, mem, p, ptr, low, high⟩ := coalesced.sound.free_entry (run start (Nat.le_refl _) (by omega))
  refine ⟨b, mem, ?_⟩
  have enough : bytes ≤ b.blockSize := by
    by_contra short
    -- the byte behind the entry is free as well, and its entry touches this one
    obtain ⟨c, mem', q, ptr', low', high'⟩ :=
      coalesced.sound.free_entry (run (p + b.blockSize) (by omega) (by omega))
    by_cases touching : q = p + b.blockSize
    · have touched := AllocatorBlock.touches_of_ptr ptr (ptr'.trans (congrArg some touching))
      rw [coalesced.separate b mem c mem'] at touched
      cases touched
    · have different : c.span ≠ b.span := by
        simp only [AllocatorBlock.span, ptr, ptr', Option.map_some, ne_eq, Option.some.injEq, Span.mk.injEq]
        omega
      have twice : weight (p + b.blockSize - 1) b.span + weight (p + b.blockSize - 1) c.span ≤
          cover s.allocator.freeBlocks.spans (p + b.blockSize - 1) :=
        weight_add_le_cover (List.mem_map_of_mem mem) (List.mem_map_of_mem mem') different _
      have once := coalesced.sound.free_once (p + b.blockSize - 1)
      simp only [AllocatorBlock.span, ptr, ptr', Option.map_some, weight] at twice
      split at twice <;> split at twice <;> omega
  simp [AllocatorBlock.fits, ptr, enough]

/-- An entry that is large enough is a row of free bytes. -/
theorem Sound.fits_run {b : AllocatorBlock} {bytes : Nat} (sound : s.Sound T)
    (mem : b ∈ s.allocator.freeBlocks.blocks) (fits : b.fits bytes = true) :
    ∃ start, s.FreeRun T start bytes := by
  simp only [AllocatorBlock.fits, Bool.and_eq_true, Option.isSome_iff_exists, decide_eq_true_eq] at fits
  obtain ⟨⟨p, ptr⟩, enough⟩ := fits
  have bound := sound.bounded.free ⟨p, b.blockSize⟩
    (List.mem_map.mpr ⟨b, mem, by simp [AllocatorBlock.span, ptr]⟩)
  refine ⟨p, fun x low high => ?_⟩
  simp only at bound
  have below : x < linearAllocatorBlockSize := by omega
  have tiled := sound.tiled x below
  have covered := BlockTable.weight_le mem x
  rw [cover_spans] at tiled
  simp only [AllocatorBlock.span, ptr, Option.map_some, weight] at covered
  rw [if_pos ⟨low, by omega⟩] at covered
  exact ⟨below, by omega⟩

theorem Coalesced.serves (coalesced : s.Coalesced T) : s.ServesRuns T sort := by
  rintro n ⟨positive, small⟩
  rw [ne_eq, BlockAllocator.allocate_unavailable, bytes_eq small]
  constructor
  · intro found
    obtain ⟨b, mem, fits⟩ : ∃ b ∈ s.allocator.freeBlocks.blocks, b.fits (n * T.size) = true := by
      simpa using found
    exact coalesced.sound.fits_run mem fits
  · rintro ⟨start, run⟩ none
    obtain ⟨b, mem, fits⟩ := coalesced.run_fits (Nat.mul_pos positive T.size_pos) run
    rw [none b mem] at fits
    cases fits

/-! ## Runs -/

theorem start_coalesced (T : ElementType) : start.Coalesced T := by
  have only : ∀ b ∈ start.allocator.freeBlocks.blocks,
      b = ⟨linearAllocatorBlockSize, some 0⟩ ∨ b = {} := by
    intro b mem
    rcases List.mem_or_eq_of_mem_set mem with old | new
    · exact .inr (List.eq_of_mem_replicate old)
    · exact .inl new
  refine ⟨start_sound T, ?_, ?_⟩
  · intro b mem
    rcases only b mem with rfl | rfl
    · intro _
      decide
    · rintro ⟨⟩
  · intro a memA b memB
    rcases only a memA with rfl | rfl <;> rcases only b memB with rfl | rfl <;> decide

theorem Coalesced.allocate {n : Nat} (coalesced : s.Coalesced T) (allowed : s.Allowed T (.allocate n))
    (h : s.next T sort (.allocate n) = some (t, o)) : t.Coalesced T := by
  have sound := coalesced.sound.allocate allowed h
  obtain ⟨positive, small⟩ := allowed
  obtain ⟨p, a, result, rfl, _⟩ := next_allocate h
  obtain ⟨i, k, size, at_i, enough, _, rfl⟩ := BlockAllocator.allocate_ok result
  have bytes : 0 < T.bytes n := by
    rw [bytes_eq small]
    exact Nat.mul_pos positive T.size_pos
  have filled := BlockTable.filled_set (i := i) coalesced.filled
    (filled_remainder ⟨size, some p⟩ (T.bytes n))
  have separate := BlockTable.separate_remainder at_i enough bytes coalesced.sound.free_once
    coalesced.filled coalesced.separate
  refine ⟨sound, filled_mergeFreeBlocks sort filled, ?_⟩
  refine (separate_mergeFreeBlocks sort (fun x => ?_) filled).mpr separate.not_chained
  rw [← cover_mergeFreeBlocks sort]
  exact sound.free_once x

/-- What `deallocate` does to the free table when the record is of the block's size. -/
theorem Coalesced.deallocate {p n : Nat} (coalesced : s.Coalesced T) (held : (p, n) ∈ s.live)
    (own : s.FreesOwnSize T (.deallocate p n)) (h : s.next T sort (.deallocate p n) = some (t, o)) :
    (t.Separate ↔ ¬ s.FreesBetween T (.deallocate p n)) ∧ (t.Separate → t.Coalesced T) := by
  have sound := coalesced.sound.deallocate held own h
  have positive := (coalesced.sound.live p n held).1
  obtain ⟨a, result, rfl, _⟩ := next_deallocate h
  obtain ⟨block, found, size⟩ := Option.map_eq_some_iff.mp own
  obtain ⟨i, _, at_i, ⟨missing, _⟩ | ⟨block', found', rfl⟩⟩ := BlockAllocator.deallocate_ok result
  · simp [found] at missing
  · cases found.symm.trans found'
    rw [size] at sound ⊢
    have filled := BlockTable.filled_set (i := i) coalesced.filled (b := ⟨n * T.size, some p⟩)
      fun _ => positive
    refine ⟨?_, fun separate => ⟨sound, filled_mergeFreeBlocks sort filled, separate⟩⟩
    have once : ∀ x, cover (s.allocator.freeBlocks.set i ⟨n * T.size, some p⟩).spans x ≤ 1 := by
      intro x
      rw [← cover_mergeFreeBlocks sort]
      exact sound.free_once x
    refine (separate_mergeFreeBlocks sort once filled).trans (not_congr ?_)
    exact BlockTable.chained_set at_i rfl positive coalesced.filled coalesced.separate

theorem Coalesced.step (coalesced : s.Coalesced T) (own : s.FreesOwnSize T e)
    (beside : ¬ s.FreesBetween T e) (h : (clientMachine T sort).next s e = some (t, o)) :
    t.Coalesced T := by
  obtain ⟨allowed, h⟩ := Machine.restrict_next.mp h
  cases e with
  | allocate n => exact coalesced.allocate allowed h
  | deallocate p n =>
      obtain ⟨separate, keeps⟩ := coalesced.deallocate allowed own h
      exact keeps (separate.mpr beside)

theorem Coalesced.not_separate (coalesced : s.Coalesced T) (own : s.FreesOwnSize T e)
    (between : s.FreesBetween T e) (h : (clientMachine T sort).next s e = some (t, o)) :
    ¬ t.Separate := by
  obtain ⟨allowed, h⟩ := Machine.restrict_next.mp h
  cases e with
  | allocate n => cases between
  | deallocate p n =>
      intro separate
      exact (coalesced.deallocate allowed own h).1.mp separate between

end Heap

/-- In every run in which blocks are given back under records of their own size, no two
entries of the free table touch in any state, and a request finds a block if and only if
so many bytes are free in a row, if and only if no block is given back between two free
blocks. -/
theorem block_allocator_coalesces_iff (T : ElementType) (sort : BlockSort) {s₀ s : Heap}
    {ts : List (Transition Heap HeapEvent HeapOutput)} (init : (clientMachine T sort).init s₀)
    (run : (clientMachine T sort).Run s₀ ts s)
    (own : ∀ t ∈ ts, t.before.FreesOwnSize T t.event) :
    (∀ v, Machine.Visits s₀ ts v → v.Separate ∧ v.ServesRuns T sort) ↔
      ∀ t ∈ ts, ¬ t.before.FreesBetween T t.event := by
  have start : s₀.Coalesced T := by
    rw [show s₀ = Heap.start from init]
    exact Heap.start_coalesced T
  refine (run.restrict own).always_iff_guard (G := fun s e => ¬ s.FreesBetween T e) start ?_ ?_ ?_
  · intro s e t o coalesced beside h
    obtain ⟨own, h⟩ := Machine.restrict_next.mp h
    exact coalesced.step own beside h
  · intro s coalesced
    exact ⟨coalesced.separate, coalesced.serves⟩
  · intro s e t o coalesced between h both
    obtain ⟨own, h⟩ := Machine.restrict_next.mp h
    exact coalesced.not_separate own (not_not.mp between) h both.1

/-- Three blocks are given back from the last to the first. -/
def backwardsTrace : List HeapEvent :=
  [.allocate 4, .allocate 2, .allocate 4, .deallocate 24 4, .deallocate 16 2, .deallocate 0 4]

theorem block_allocator_coalesces_backwards :
    ∃ ts s, (clientMachine words .insertion).exec Heap.start backwardsTrace = some (ts, s) ∧
      ∀ v, Machine.Visits Heap.start ts v → v.Separate ∧ v.ServesRuns words .insertion := by
  have returns : ((clientMachine words .insertion).exec Heap.start backwardsTrace).map
      (fun r => r.1.all fun t => decide (t.before.FreesOwnSize words t.event) &&
        !decide (t.before.FreesBetween words t.event)) = some true := by
    decide +kernel
  obtain ⟨⟨ts, s⟩, h, all⟩ := Option.map_eq_some_iff.mp returns
  have each : ∀ t ∈ ts, t.before.FreesOwnSize words t.event ∧ ¬ t.before.FreesBetween words t.event := by
    simpa using all
  refine ⟨ts, s, h, ?_⟩
  exact (block_allocator_coalesces_iff words .insertion rfl (Machine.Run.of_exec h)
    fun t mem => (each t mem).1).mpr fun t mem => (each t mem).2

/-- Two blocks of 16 bytes are allocated and given back in the same order. The second
then lies between two free blocks. -/
def forwardsTrace : List HeapEvent :=
  [.allocate 16, .allocate 16, .deallocate 0 16, .deallocate 16 16]

/-- Everything is free again, and a request for the whole buffer fails. -/
theorem block_allocator_leaves_two_free_blocks :
    ∃ ts s, (clientMachine chars .insertion).exec Heap.start forwardsTrace = some (ts, s) ∧
      (∀ t ∈ ts, t.before.FreesOwnSize chars t.event) ∧ s.live = [] ∧ ¬ s.Separate ∧
      s.allocator.allocate chars .insertion linearAllocatorBlockSize =
        .error .noFreeBlocksAvailable := by
  have ends : ((clientMachine chars .insertion).exec Heap.start forwardsTrace).map
      (fun r => (r.1.all fun t => decide (t.before.FreesOwnSize chars t.event), r.2.live,
        r.2.allocator.freeBlocks.blocks.any fun a =>
          r.2.allocator.freeBlocks.blocks.any fun b => a.touches b,
        r.2.allocator.freeBlocks.blocks.any (·.fits linearAllocatorBlockSize))) =
      some (true, [], true, false) := by
    decide +kernel
  obtain ⟨⟨ts, s⟩, h, final⟩ := Option.map_eq_some_iff.mp ends
  simp only [Prod.mk.injEq, List.any_eq_true, List.any_eq_false, List.all_eq_true,
    decide_eq_true_eq] at final
  obtain ⟨own, live, ⟨a, memA, b, memB, touching⟩, none⟩ := final
  refine ⟨ts, s, h, own, live, ?_, BlockAllocator.allocate_unavailable.mpr ?_⟩
  · intro separate
    rw [separate a memA b memB] at touching
    cases touching
  · intro b mem
    rw [Heap.bytes_eq (Nat.le_of_eq (Nat.mul_one _))]
    simpa [chars] using none b mem

end Rtl.Alloc
