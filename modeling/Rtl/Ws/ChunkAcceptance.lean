import Rtl.Base.KeyedList
import Rtl.Ws.ChunkRoundTrip

/-! # Which messages make up a file

`chunks_to_blob` accepts a list of messages if and only if it is a complete transfer.
The loop over the chunk messages keeps a table of what it has placed; a chunk is known
by its index and its bytes.
-/

namespace Rtl.Ws

open Rtl.Base

/-- A message that carries the chunk with this index and these bytes. -/
structure CarriesChunk (transfer : Transfer) (m : JsonMessage) (part : Nat × List UInt8) : Prop where
  type : m.type = "chunk_data"
  object : m.metadata.isObject = true
  transferId : readTextField m.metadata "transfer_id" = some transfer.transferId
  index : readSizeField m.metadata "chunk_index" = some part.1
  count : readSizeField m.metadata "total_chunks" = some transfer.totalChunks
  payload : ∃ items, m.payload = .array items ∧
    readSizeField m.metadata "chunk_bytes" = some items.length ∧ items.mapM readByte = some part.2

def inOrder (count : Nat) (parts : List (Nat × List UInt8)) : List (List UInt8) :=
  (List.range count).map fun i => (parts.lookup i).getD []

def assemblyWith (count : Nat) (parts : List (Nat × List UInt8)) : Assembly where
  orderedChunks := inOrder count parts
  seen := (List.range count).map fun i => (parts.lookup i).isSome
  accumulatedBytes := (parts.map fun part => part.2.length).sum % sizeLimit

theorem assemblyWith_snoc {count : Nat} {parts : List (Nat × List UInt8)} {i : Nat}
    (bytes : List UInt8) (new : parts.lookup i = none) :
    assemblyWith count (parts ++ [(i, bytes)]) =
      { orderedChunks := (assemblyWith count parts).orderedChunks.set i bytes
        seen := (assemblyWith count parts).seen.set i true
        accumulatedBytes :=
          ((assemblyWith count parts).accumulatedBytes + bytes.length) % sizeLimit } := by
  have more : ∀ j, (parts ++ [(i, bytes)]).lookup j = if j = i then some bytes else parts.lookup j := by
    intro j
    rw [lookup_append, List.lookup_cons]
    by_cases here : j = i
    · subst here
      simp [new]
    · rw [if_neg here, beq_eq_false_iff_ne.mpr here, List.lookup_nil, Option.or_none]
  simp only [assemblyWith, inOrder, more, set_map_range, List.map_append, List.sum_append,
    List.map_cons, List.map_nil, List.sum_singleton, Nat.mod_add_mod]
  congr 1
  · apply List.map_congr_left
    intro j _
    split <;> rfl
  · apply List.map_congr_left
    intro j _
    split <;> rfl

theorem seen_assemblyWith {count i : Nat} (parts : List (Nat × List UInt8)) (inside : i < count) :
    (assemblyWith count parts).seen[i]? = some (parts.lookup i).isSome := by
  simp [assemblyWith, inside]

/-! ## The loop -/

section Loop

variable {transfer : Transfer} {m : JsonMessage} {parts : List (Nat × List UInt8)} {a : Assembly}

/-- One turn of the loop: a new chunk of the transfer is placed, or the list is refused. -/
theorem placeChunk_iff :
    placeChunk transfer (assemblyWith transfer.totalChunks parts) m = some a ↔
      ∃ part, CarriesChunk transfer m part ∧ part.1 < transfer.totalChunks ∧
        parts.lookup part.1 = none ∧ a = assemblyWith transfer.totalChunks (parts ++ [part]) := by
  constructor
  · intro h
    unfold placeChunk at h
    split at h
    · next items payload =>
        simp only [Option.ite_none_left_eq_some, Option.bind_eq_bind, Option.bind_eq_some_iff, not_or,
          not_not, Bool.not_eq_false, Nat.not_le, Option.some_inj] at h
        obtain ⟨⟨type, object⟩, _, transferId, index, hIndex, _, count, _, bytes, ⟨rfl, rfl, inside,
          unseen⟩, rfl, target, decoded, rfl⟩ := h
        have new : parts.lookup index = none := by
          rw [seen_assemblyWith parts inside, Option.some_inj] at unseen
          exact Option.not_isSome_iff_eq_none.mp unseen
        exact ⟨(index, target), ⟨type, object, transferId, hIndex, count, items, payload, bytes,
          decoded⟩, inside, new, (assemblyWith_snoc target new).symm⟩
    · cases h
  · rintro ⟨⟨index, target⟩, carries, inside, new, rfl⟩
    obtain ⟨items, payload, length, decoded⟩ := carries.payload
    have unseen := seen_assemblyWith parts inside
    rw [new, Option.isSome_none] at unseen
    rw [assemblyWith_snoc target new]
    simp [placeChunk, payload, carries.type, carries.object, carries.transferId, carries.index,
      carries.count, length, decoded, unseen, Nat.not_le.mpr inside]

/-- The chunks are those of the messages, each with an index of its own that is in
range and not among those placed before. -/
structure Placed (transfer : Transfer) (before : List (Nat × List UInt8))
    (middle : List JsonMessage) (parts : List (Nat × List UInt8)) : Prop where
  carried : List.Forall₂ (CarriesChunk transfer) middle parts
  inside : ∀ part ∈ parts, part.1 < transfer.totalChunks
  once : (parts.map Prod.fst).Nodup
  new : ∀ part ∈ parts, before.lookup part.1 = none

theorem lookup_eq_none_snoc {before : List (Nat × List UInt8)} {part : Nat × List UInt8} {i : Nat} :
    (before ++ [part]).lookup i = none ↔ before.lookup i = none ∧ i ≠ part.1 := by
  obtain ⟨k, bytes⟩ := part
  rw [lookup_append, Option.or_eq_none_iff, List.lookup_cons]
  apply and_congr_right
  intro _
  cases here : i == k with
  | true => simp [eq_of_beq here]
  | false => simp [beq_eq_false_iff_ne.mp here]

theorem placed_nil_iff {before : List (Nat × List UInt8)} :
    Placed transfer before [] parts ↔ parts = [] := by
  constructor
  · intro placed
    exact List.forall₂_nil_left_iff.mp placed.carried
  · rintro rfl
    exact ⟨.nil, by simp, by simp, by simp⟩

theorem placed_cons_iff {before : List (Nat × List UInt8)} {part : Nat × List UInt8}
    {rest : List JsonMessage} :
    Placed transfer before (m :: rest) (part :: parts) ↔
      CarriesChunk transfer m part ∧ part.1 < transfer.totalChunks ∧ before.lookup part.1 = none ∧
        Placed transfer (before ++ [part]) rest parts := by
  constructor
  · intro placed
    obtain ⟨carries, carried⟩ := List.forall₂_cons.mp placed.carried
    obtain ⟨here, once⟩ := List.nodup_cons.mp placed.once
    refine ⟨carries, placed.inside part (by simp), placed.new part (by simp), carried,
      fun p mem => placed.inside p (by simp [mem]), once, fun p mem => lookup_eq_none_snoc.mpr
        ⟨placed.new p (by simp [mem]), ?_⟩⟩
    intro same
    exact here (same ▸ List.mem_map_of_mem mem)
  · rintro ⟨carries, inside, new, placed⟩
    have apart : ∀ p ∈ parts, p.1 ≠ part.1 := fun p mem => (lookup_eq_none_snoc.mp (placed.new p mem)).2
    refine ⟨.cons carries placed.carried, ?_, List.nodup_cons.mpr ⟨?_, placed.once⟩, ?_⟩
    · intro p mem
      rcases List.mem_cons.mp mem with rfl | mem
      · exact inside
      · exact placed.inside p mem
    · intro mem
      obtain ⟨p, mem, same⟩ := List.mem_map.mp mem
      exact apart p mem same
    · intro p mem
      rcases List.mem_cons.mp mem with rfl | mem
      · exact new
      · exact (lookup_eq_none_snoc.mp (placed.new p mem)).1

/-- The whole loop: every message places a chunk of its own. -/
theorem placeChunk_foldlM_iff {middle : List JsonMessage} (before : List (Nat × List UInt8)) :
    middle.foldlM (placeChunk transfer) (assemblyWith transfer.totalChunks before) = some a ↔
      ∃ parts, Placed transfer before middle parts ∧
        a = assemblyWith transfer.totalChunks (before ++ parts) := by
  induction middle generalizing before with
  | nil => simp [placed_nil_iff, eq_comm]
  | cons m rest ih =>
      rw [List.foldlM_cons, Option.bind_eq_bind, Option.bind_eq_some_iff]
      constructor
      · rintro ⟨next, placed, run⟩
        obtain ⟨part, carries, inside, new, rfl⟩ := placeChunk_iff.mp placed
        obtain ⟨parts, tail, rfl⟩ := (ih _).mp run
        exact ⟨part :: parts, placed_cons_iff.mpr ⟨carries, inside, new, tail⟩, by simp⟩
      · rintro ⟨parts, placed, rfl⟩
        obtain ⟨part, parts, _, _, rfl⟩ := List.forall₂_cons_left_iff.mp placed.carried
        obtain ⟨carries, inside, new, tail⟩ := placed_cons_iff.mp placed
        exact ⟨_, placeChunk_iff.mpr ⟨part, carries, inside, new, rfl⟩,
          (ih _).mpr ⟨parts, tail, by simp⟩⟩

/-- As many chunks as there are indices, none twice: every index has its chunk. -/
theorem placed_all_iff {middle : List JsonMessage} (count : middle.length = transfer.totalChunks) :
    Placed transfer [] middle parts ↔ List.Forall₂ (CarriesChunk transfer) middle parts ∧
      (parts.map Prod.fst).Perm (List.range transfer.totalChunks) := by
  constructor
  · intro placed
    have subset : parts.map Prod.fst ⊆ List.range transfer.totalChunks := by
      intro i mem
      obtain ⟨part, here, rfl⟩ := List.mem_map.mp mem
      exact List.mem_range.mpr (placed.inside part here)
    refine ⟨placed.carried, (List.subperm_of_subset placed.once subset).perm_of_length_le ?_⟩
    rw [List.length_range, List.length_map, ← placed.carried.length_eq, count]
  · rintro ⟨carried, indices⟩
    refine ⟨carried, fun part mem => ?_, indices.nodup_iff.mpr List.nodup_range, by simp⟩
    exact List.mem_range.mp (indices.mem_iff.mp (List.mem_map_of_mem mem))

end Loop

/-! ## Complete transfers -/

/-- The messages of a transfer whose chunks are `parts`: a start and an end that agree,
and between them one message for each index. -/
structure CompleteTransfer (first : JsonMessage) (middle : List JsonMessage) (last : JsonMessage)
    (transfer : Transfer) (parts : List (Nat × List UInt8)) : Prop where
  start : first.type = "chunk_start"
  stop : last.type = "chunk_end"
  startObject : first.metadata.isObject = true
  stopObject : last.metadata.isObject = true
  header : readTransfer first.metadata = some transfer
  footer : readTransfer last.metadata = some transfer
  nonempty : middle ≠ []
  count : middle.length = transfer.totalChunks
  carried : List.Forall₂ (CarriesChunk transfer) middle parts
  indices : (parts.map Prod.fst).Perm (List.range transfer.totalChunks)

theorem assemblyWith_nil (count : Nat) :
    assemblyWith count [] = ⟨List.replicate count [], List.replicate count false, 0⟩ := by
  simp [assemblyWith, inOrder, List.map_const']

theorem seen_of_indices {count : Nat} {parts : List (Nat × List UInt8)}
    (indices : (parts.map Prod.fst).Perm (List.range count)) :
    (assemblyWith count parts).seen.all id = true := by
  simp only [assemblyWith, List.all_map, List.all_eq_true, Function.comp_apply, id_eq]
  intro i inside
  obtain ⟨part, mem, rfl⟩ := List.mem_map.mp (indices.mem_iff.mpr inside)
  cases found : parts.lookup part.1 with
  | some _ => rfl
  | none =>
      have := List.lookup_eq_none_iff.mp found part mem
      simp at this

theorem totalChunks_lt {obj : Json} {transfer : Transfer} (read : readTransfer obj = some transfer) :
    transfer.totalChunks < sizeLimit := by
  simp only [readTransfer, Option.bind_eq_bind, Option.bind_eq_some_iff, Option.some_inj] at read
  obtain ⟨_, _, count, found, _, _, rfl⟩ := read
  unfold readSizeField at found
  split at found
  · next value _ =>
      cases found
      exact value.toNat_lt
  · cases found

theorem ends_of_three {chunks : List JsonMessage} (three : 3 ≤ chunks.length) :
    ∃ first middle last, chunks = first :: middle ++ [last] ∧ middle ≠ [] := by
  cases chunks with
  | nil => simp at three
  | cons first rest =>
      rcases List.eq_nil_or_concat rest with rfl | ⟨middle, last, rfl⟩
      · simp at three
      · refine ⟨first, middle, last, by simp, ?_⟩
        rintro rfl
        simp at three

/-- What `chunks_to_blob` has checked once it opens the file, and the chunks it then has. -/
theorem complete_of_assemble {chunks : List JsonMessage} {ordered : List (List UInt8)}
    (h : assemble chunks = some ordered) : ∃ first middle last transfer parts,
      chunks = first :: middle ++ [last] ∧ CompleteTransfer first middle last transfer parts ∧
        (parts.map fun part => part.2.length).sum % sizeLimit = transfer.totalBytes ∧
        ordered = inOrder transfer.totalChunks parts := by
  rw [assemble, Option.ite_none_left_eq_some, Nat.not_lt] at h
  obtain ⟨first, middle, last, rfl, nonempty⟩ := ends_of_three h.1
  rw [List.getLast?_concat] at h
  simp only [List.cons_append, List.head?_cons, List.tail_cons, List.dropLast_concat,
    Option.bind_eq_bind, Option.bind_some, Option.ite_none_left_eq_some,
    Option.bind_eq_some_iff, not_or, not_not, Bool.not_eq_false, Option.some_inj] at h
  obtain ⟨-, ⟨start, stop⟩, ⟨startObject, stopObject⟩, transfer, header, other, footer, rfl, length,
    a, loop, -, total, rfl⟩ := h
  have count : middle.length = transfer.totalChunks := by
    -- A count so large that adding two wraps around would ask for fewer than three messages.
    have small := totalChunks_lt header
    have some := List.length_pos_iff.mpr nonempty
    simp only [List.length_cons, List.length_append, List.length_nil] at length
    unfold sizeLimit at *
    omega
  rw [← assemblyWith_nil] at loop
  obtain ⟨parts, placed, rfl⟩ := (placeChunk_foldlM_iff []).mp loop
  obtain ⟨carried, indices⟩ := (placed_all_iff count).mp placed
  exact ⟨first, middle, last, transfer, parts, rfl, ⟨start, stop, startObject, stopObject, header,
    footer, nonempty, count, carried, indices⟩, total, rfl⟩

theorem assemble_of_complete {first last : JsonMessage} {middle : List JsonMessage}
    {transfer : Transfer} {parts : List (Nat × List UInt8)}
    (addressable : (first :: middle ++ [last]).length < sizeLimit)
    (complete : CompleteTransfer first middle last transfer parts)
    (total : (parts.map fun part => part.2.length).sum % sizeLimit = transfer.totalBytes) :
    assemble (first :: middle ++ [last]) = some (inOrder transfer.totalChunks parts) := by
  have length : middle.length + 2 < sizeLimit := by simpa using addressable
  refine assemble_eq complete.header complete.footer complete.start complete.stop
    complete.startObject complete.stopObject (List.length_pos_iff.mpr complete.nonempty)
    complete.count (complete.count ▸ length) ?_ (seen_of_indices complete.indices) total
  rw [← assemblyWith_nil]
  exact (placeChunk_foldlM_iff []).mpr
    ⟨parts, (placed_all_iff complete.count).mpr ⟨complete.carried, complete.indices⟩, rfl⟩

/-! ## What is accepted and what is written -/

def payloadSize (m : JsonMessage) : Nat :=
  match m.payload with
  | .array items => items.length
  | _ => 0

theorem CarriesChunk.length {transfer : Transfer} {m : JsonMessage} {part : Nat × List UInt8}
    (carries : CarriesChunk transfer m part) : part.2.length = payloadSize m := by
  obtain ⟨items, payload, _, decoded⟩ := carries.payload
  rw [payloadSize, payload]
  simpa using (congrArg List.length (mapM_eq_some_iff.mp decoded)).symm

theorem sum_length_of_carried {transfer : Transfer} {middle : List JsonMessage}
    {parts : List (Nat × List UInt8)} (carried : List.Forall₂ (CarriesChunk transfer) middle parts) :
    (parts.map fun part => part.2.length).sum = (middle.map payloadSize).sum := by
  induction carried with
  | nil => rfl
  | cons carries _ ih =>
      rw [List.map_cons, List.sum_cons, carries.length, ih, List.map_cons, List.sum_cons]

theorem sum_length_lt {first last : JsonMessage} {middle : List JsonMessage} {transfer : Transfer}
    {parts : List (Nat × List UInt8)} (complete : CompleteTransfer first middle last transfer parts)
    (payloads : ((first :: middle ++ [last]).map payloadSize).sum < sizeLimit) :
    (parts.map fun part => part.2.length).sum < sizeLimit := by
  rw [sum_length_of_carried complete.carried]
  simp only [List.cons_append, List.map_cons, List.map_append, List.sum_cons,
    List.sum_append] at payloads
  omega

/-- If every write succeeds, everything has been written. -/
theorem write_true {output : OutputFile} {written : List UInt8} {n : Nat} {chunks : List (List UInt8)}
    (good : (output.write written n chunks).1 = true) :
    (output.write written n chunks).2 = written ++ chunks.flatten := by
  induction chunks generalizing written n with
  | nil => simp [OutputFile.write]
  | cons chunk rest ih =>
      unfold OutputFile.write at good ⊢
      by_cases empty : chunk.isEmpty = true
      · rw [if_pos empty] at good ⊢
        rw [ih good]
        simp [List.isEmpty_iff.mp empty]
      · rw [if_neg empty] at good ⊢
        by_cases accepts : output.accepts n = true
        · rw [if_pos accepts] at good ⊢
          rw [ih good]
          simp
        · rw [if_neg accepts] at good
          cases good

/-- Whatever is accepted is a complete transfer, and its chunks are what is written. -/
theorem transfer_of_accepted {output : OutputFile} {chunks : List JsonMessage}
    (accepted : (chunksToBlob output chunks).1 = true) :
    ∃ first middle last transfer parts,
      chunks = first :: middle ++ [last] ∧ CompleteTransfer first middle last transfer parts ∧
      (parts.map fun part => part.2.length).sum % sizeLimit = transfer.totalBytes ∧
      (chunksToBlob output chunks).2 = some (inOrder transfer.totalChunks parts).flatten := by
  cases assembled : assemble chunks with
  | none => simp [chunksToBlob, assembled] at accepted
  | some ordered =>
      obtain ⟨first, middle, last, transfer, parts, rfl, complete, total, rfl⟩ :=
        complete_of_assemble assembled
      refine ⟨first, middle, last, transfer, parts, rfl, complete, total, ?_⟩
      simp only [chunksToBlob, assembled] at accepted ⊢
      by_cases isOpen : output.isOpen = true
      · rw [if_pos isOpen] at accepted ⊢
        rw [write_true accepted, List.nil_append]
      · rw [if_neg isOpen] at accepted
        cases accepted

/-- With an output that takes everything, the messages are accepted if and only if they
are a complete transfer of the announced size, and the file is then its chunks in the
order of their indices. -/
theorem chunksToBlob_writable_iff (chunks : List JsonMessage)
    (addressable : chunks.length < sizeLimit) (payloads : (chunks.map payloadSize).sum < sizeLimit) :
    ((chunksToBlob .writable chunks).1 = true ↔ ∃ first middle last transfer parts,
      chunks = first :: middle ++ [last] ∧ CompleteTransfer first middle last transfer parts ∧
        (parts.map fun part => part.2.length).sum = transfer.totalBytes) ∧
    ∀ first middle last transfer parts, chunks = first :: middle ++ [last] →
      CompleteTransfer first middle last transfer parts →
      (parts.map fun part => part.2.length).sum = transfer.totalBytes →
      (chunksToBlob .writable chunks).2 = some (inOrder transfer.totalChunks parts).flatten := by
  have accepted : ∀ {first middle last transfer parts}, chunks = first :: middle ++ [last] →
      CompleteTransfer first middle last transfer parts →
      (parts.map fun part => part.2.length).sum = transfer.totalBytes →
      chunksToBlob .writable chunks = (true, some (inOrder transfer.totalChunks parts).flatten) := by
    rintro first middle last transfer parts rfl complete total
    refine blob_of_assembled (assemble_of_complete addressable complete ?_) rfl
    rw [Nat.mod_eq_of_lt (sum_length_lt complete payloads), total]
  refine ⟨⟨fun h => ?_, ?_⟩, fun first middle last transfer parts shape complete total => ?_⟩
  · obtain ⟨first, middle, last, transfer, parts, rfl, complete, total, _⟩ := transfer_of_accepted h
    rw [Nat.mod_eq_of_lt (sum_length_lt complete payloads)] at total
    exact ⟨first, middle, last, transfer, parts, rfl, complete, total⟩
  · rintro ⟨first, middle, last, transfer, parts, shape, complete, total⟩
    rw [accepted shape complete total]
  · rw [accepted shape complete total]

/-- Three bytes in two chunks that arrive in the wrong order. -/
def swappedTransfer : List JsonMessage :=
  [startMessage "t" "a.bin" 3 2 2, chunkMessage "t" 1 2 1 [7], chunkMessage "t" 0 2 2 [5, 6],
    endMessage "t" 3 2]

theorem chunksToBlob_writable_swapped : ∃ first middle last transfer parts,
    swappedTransfer = first :: middle ++ [last] ∧ CompleteTransfer first middle last transfer parts ∧
      (chunksToBlob .writable swappedTransfer).2 = some (inOrder transfer.totalChunks parts).flatten ∧
      (chunksToBlob .writable swappedTransfer).2 = some [5, 6, 7] := by
  obtain ⟨accepts, file⟩ := chunksToBlob_writable_iff swappedTransfer (by decide) (by decide)
  obtain ⟨first, middle, last, transfer, parts, shape, complete, total⟩ := accepts.mp (by decide)
  exact ⟨first, middle, last, transfer, parts, shape, complete,
    file first middle last transfer parts shape complete total, by decide⟩

/-! ## Bytes out of range -/

def byteJson (byte : UInt8) : Json := .numberUnsigned byte.toUInt64

/-- Every unsigned number in the payload of a chunk fits in 32 bits. -/
def NarrowPayloads (chunks : List JsonMessage) : Prop :=
  ∀ m ∈ chunks, m.type = "chunk_data" → ∀ items, m.payload = .array items →
    ∀ value, .numberUnsigned value ∈ items → value.toNat < 2 ^ 32

theorem eq_byteJson_of_readByte {item : Json} {byte : UInt8} (read : readByte item = some byte)
    (narrow : ∀ value, item = .numberUnsigned value → value.toNat < 2 ^ 32) : item = byteJson byte := by
  unfold readByte at read
  split at read
  · next value =>
      have small : value.toNat % 2 ^ 32 = value.toNat := Nat.mod_eq_of_lt (narrow value rfl)
      simp only [Option.ite_none_left_eq_some, small, Option.some_inj] at read
      obtain ⟨range, rfl⟩ := read
      rw [byteJson]
      congr 1
      apply UInt64.toNat_inj.mp
      rw [UInt8.toNat_toUInt64, UInt8.toNat_ofNat']
      omega
  · cases read

theorem eq_map_byteJson {items : List Json} {bytes : List UInt8}
    (decoded : items.mapM readByte = some bytes)
    (narrow : ∀ value, .numberUnsigned value ∈ items → value.toNat < 2 ^ 32) :
    items = bytes.map byteJson := by
  rw [mapM_eq_some_iff] at decoded
  induction items generalizing bytes with
  | nil =>
      cases bytes with
      | nil => rfl
      | cons _ _ => simp at decoded
  | cons item items ih =>
      cases bytes with
      | nil => simp at decoded
      | cons byte bytes =>
          rw [List.map_cons, List.map_cons, List.cons.injEq] at decoded
          rw [List.map_cons, ← ih decoded.2 fun value mem => narrow value (by simp [mem]),
            ← eq_byteJson_of_readByte decoded.1 fun value same => narrow value (by simp [same])]

/-- The payloads are lists of bytes, and these bytes in the order of the indices are what has been
written. -/
def WritesPayloads (output : OutputFile) (chunks : List JsonMessage) : Prop :=
  ∃ first middle last transfer parts,
    chunks = first :: middle ++ [last] ∧ CompleteTransfer first middle last transfer parts ∧
    List.Forall₂ (fun m part => m.payload = .array (part.2.map byteJson)) middle parts ∧
    (chunksToBlob output chunks).2 = some (inOrder transfer.totalChunks parts).flatten

/-- The messages are a complete transfer of the announced size. -/
def IsTransfer (chunks : List JsonMessage) : Prop :=
  ∃ first middle last transfer parts,
    chunks = first :: middle ++ [last] ∧ CompleteTransfer first middle last transfer parts ∧
    (parts.map fun part => part.2.length).sum % sizeLimit = transfer.totalBytes

/-- If no payload number needs more than 32 bits, whatever is accepted has bytes for
payloads. -/
theorem writesPayloads_of_narrow {output : OutputFile} {chunks : List JsonMessage}
    (narrow : NarrowPayloads chunks) (accepted : (chunksToBlob output chunks).1 = true) :
    WritesPayloads output chunks := by
  obtain ⟨first, middle, last, transfer, parts, rfl, complete, _, written⟩ :=
    transfer_of_accepted accepted
  refine ⟨first, middle, last, transfer, parts, rfl, complete, ?_, written⟩
  have carried := (List.forall₂_and_left middle parts).mpr ⟨fun m mem => mem, complete.carried⟩
  refine carried.imp fun m part h => ?_
  obtain ⟨mem, carries⟩ := h
  obtain ⟨items, payload, _, decoded⟩ := carries.payload
  rw [payload, eq_map_byteJson decoded (narrow m (by simp [mem]) carries.type items payload)]

theorem le_of_mem_byteJson {value : UInt64} {bytes : List UInt8}
    (mem : Json.numberUnsigned value ∈ bytes.map byteJson) : value.toNat ≤ 255 := by
  obtain ⟨byte, _, same⟩ := List.mem_map.mp mem
  have small := byte.toNat_lt
  rw [← Json.numberUnsigned.inj same, UInt8.toNat_toUInt64]
  omega

/-- Payloads that are lists of bytes have no wide number. -/
theorem narrow_of_writesPayloads {output : OutputFile} {chunks : List JsonMessage}
    (writes : WritesPayloads output chunks) : NarrowPayloads chunks := by
  obtain ⟨first, middle, last, transfer, parts, rfl, complete, bytes, _⟩ := writes
  intro m mem type items payload value here
  have inside : m ∈ middle := by
    simp only [List.cons_append, List.mem_cons, List.mem_append, List.not_mem_nil, or_false] at mem
    rcases mem with rfl | inside | rfl
    · simp [complete.start] at type
    · exact inside
    · simp [complete.stop] at type
  obtain ⟨⟨i, less⟩, rfl⟩ := List.mem_iff_get.mp inside
  cases payload.symm.trans (bytes.get less (bytes.length_eq ▸ less))
  have small := le_of_mem_byteJson here
  omega

/-- Every output accepts only payloads of bytes and writes these bytes if and only if the list is
not a complete transfer or none of its payload numbers needs more than 32 bits. -/
theorem chunksToBlob_bytes_iff (chunks : List JsonMessage) (addressable : chunks.length < sizeLimit) :
    (∀ output, (chunksToBlob output chunks).1 = true → WritesPayloads output chunks) ↔
      ¬ IsTransfer chunks ∨ NarrowPayloads chunks := by
  constructor
  · intro bytes
    by_cases complete : IsTransfer chunks
    · right
      obtain ⟨first, middle, last, transfer, parts, rfl, complete, total⟩ := complete
      have accepted := blob_of_assembled (assemble_of_complete addressable complete total) rfl
      exact narrow_of_writesPayloads (bytes .writable (by rw [accepted]))
    · exact .inl complete
  · intro condition output accepted
    rcases condition with incomplete | narrow
    · obtain ⟨first, middle, last, transfer, parts, shape, complete, total, _⟩ :=
        transfer_of_accepted accepted
      exact absurd ⟨first, middle, last, transfer, parts, shape, complete, total⟩ incomplete
    · exact writesPayloads_of_narrow narrow accepted

theorem narrowPayloads_swapped : NarrowPayloads swappedTransfer := by
  intro m mem type items payload value here
  simp only [swappedTransfer, List.mem_cons, List.not_mem_nil, or_false] at mem
  rcases mem with rfl | rfl | rfl | rfl
  · simp [startMessage] at type
  · cases payload
    simp at here
    simp [here]
  · cases payload
    simp at here
    rcases here with rfl | rfl <;> decide
  · simp [endMessage] at type

theorem chunksToBlob_bytes_swapped : (chunksToBlob .writable swappedTransfer).1 = true ∧
    WritesPayloads .writable swappedTransfer :=
  ⟨by decide, (chunksToBlob_bytes_iff swappedTransfer (by decide)).mpr (.inr narrowPayloads_swapped)
    .writable (by decide)⟩

/-- One chunk whose only payload element is five more than 2 ^ 32. -/
def wideTransfer : List JsonMessage :=
  [startMessage "t" "a.bin" 1 1 1,
    { chunkMessage "t" 0 1 1 [5] with payload := .array [.numberUnsigned 4294967301] },
    endMessage "t" 1 1]

/-- It is accepted, and a byte is written that is not the number of the payload. -/
theorem chunksToBlob_wide : chunksToBlob .writable wideTransfer = (true, some [5]) ∧
    ¬ WritesPayloads .writable wideTransfer := by
  refine ⟨by decide, ?_⟩
  intro writes
  have narrow := narrow_of_writesPayloads writes
    { chunkMessage "t" 0 1 1 [5] with payload := .array [.numberUnsigned 4294967301] }
    (by simp [wideTransfer]) rfl _ rfl 4294967301 (by simp)
  revert narrow
  decide

end Rtl.Ws
