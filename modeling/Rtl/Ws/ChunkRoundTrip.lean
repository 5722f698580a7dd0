import Mathlib.Algebra.BigOperators.Group.List.Basic
import Mathlib.Algebra.GroupWithZero.Nat
import Rtl.Base.Chunks
import Rtl.Ws.Protocol

/-! # A file survives its transfer

The chunk messages of a file are encoded, decoded, delivered in any order between
the first and the last message, and put together to the same file.
-/

namespace Rtl.Ws

open Rtl.Base

/-! ## The arithmetic of the chunks -/

variable {binaryData : List UInt8} {chunkSize : Nat}

theorem totalChunks_eq {sizeOfFile : Nat} (nonempty : 0 < sizeOfFile) (pos : 0 < chunkSize)
    (fits : sizeOfFile + chunkSize - 1 < sizeLimit) :
    totalChunks sizeOfFile chunkSize = (sizeOfFile + chunkSize - 1) / chunkSize := by
  have wrap : sizeOfFile + chunkSize + (sizeLimit - 1) = (sizeOfFile + chunkSize - 1) + sizeLimit := by
    unfold sizeLimit at *
    omega
  rw [totalChunks, wrap, Nat.add_mod_right, Nat.mod_eq_of_lt fits]

/-- The chunks cover the file and the last one is not empty. -/
theorem totalChunks_bounds {sizeOfFile : Nat} (nonempty : 0 < sizeOfFile) (pos : 0 < chunkSize)
    (fits : sizeOfFile + chunkSize - 1 < sizeLimit) :
    0 < totalChunks sizeOfFile chunkSize ∧ totalChunks sizeOfFile chunkSize ≤ sizeOfFile ∧
    sizeOfFile ≤ totalChunks sizeOfFile chunkSize * chunkSize ∧
    ∀ i, i < totalChunks sizeOfFile chunkSize → i * chunkSize < sizeOfFile := by
  rw [totalChunks_eq nonempty pos fits]
  have parts := Nat.div_add_mod (sizeOfFile + chunkSize - 1) chunkSize
  have rest := Nat.mod_lt (sizeOfFile + chunkSize - 1) pos
  generalize (sizeOfFile + chunkSize - 1) / chunkSize = total at *
  rw [Nat.mul_comm] at parts
  refine ⟨?_, ?_, by omega, ?_⟩
  · by_contra zero
    rw [Nat.eq_zero_of_not_pos zero, Nat.zero_mul] at parts
    omega
  · have enough : total ≤ total * chunkSize := Nat.le_mul_of_pos_right total pos
    by_contra more
    have extra : (sizeOfFile + 1) * chunkSize ≤ total * chunkSize :=
      Nat.mul_le_mul_right chunkSize (by omega)
    have expand : (sizeOfFile + 1) * chunkSize = sizeOfFile * chunkSize + chunkSize := Nat.succ_mul ..
    have large : sizeOfFile ≤ sizeOfFile * chunkSize := Nat.le_mul_of_pos_right sizeOfFile pos
    omega
  · intro i less
    have before : (i + 1) * chunkSize ≤ total * chunkSize := Nat.mul_le_mul_right chunkSize less
    rw [Nat.succ_mul] at before
    omega

theorem offset_eq {sizeOfFile i : Nat} (inside : i * chunkSize < sizeOfFile)
    (small : sizeOfFile < sizeLimit) : offset chunkSize i = i * chunkSize :=
  Nat.mod_eq_of_lt (by omega)

theorem currentChunkSize_eq {sizeOfFile i : Nat} (inside : i * chunkSize < sizeOfFile)
    (small : sizeOfFile < sizeLimit) :
    currentChunkSize sizeOfFile chunkSize i = min chunkSize (sizeOfFile - i * chunkSize) := by
  have wrap : sizeOfFile + (sizeLimit - i * chunkSize) = (sizeOfFile - i * chunkSize) + sizeLimit := by
    omega
  rw [currentChunkSize, offset_eq inside small, wrap, Nat.add_mod_right, Nat.mod_eq_of_lt (by omega)]

theorem chunkBytes_eq {i : Nat} (inside : i * chunkSize < binaryData.length)
    (small : binaryData.length < sizeLimit) :
    chunkBytes binaryData chunkSize i = chunkAt chunkSize binaryData i := by
  rw [chunkBytes, offset_eq inside small, currentChunkSize_eq inside small, chunkAt,
    ← List.length_drop, ← List.take_eq_take_min]

/-! ## Reading the messages -/

theorem sizeJson_toNat {n : Nat} (small : n < sizeLimit) : (UInt64.ofNat n).toNat = n := by
  rw [UInt64.toNat_ofNat']
  exact Nat.mod_eq_of_lt small

theorem readByte_byte (byte : UInt8) : readByte (.numberUnsigned byte.toUInt64) = some byte := by
  have small := byte.toNat_lt
  have low : byte.toUInt64.toNat % 2 ^ 32 = byte.toNat := by
    rw [UInt8.toNat_toUInt64]
    exact Nat.mod_eq_of_lt (by omega)
  simp only [readByte, low]
  rw [if_neg (by omega), UInt8.ofNat_toNat]

theorem readByte_payload (bytes : List UInt8) :
    bytes.mapM (readByte ∘ fun byte => Json.numberUnsigned byte.toUInt64) = some bytes := by
  induction bytes with
  | nil => rfl
  | cons byte rest ih => simp [List.mapM_cons, readByte_byte, ih]

theorem readTransfer_start (transferId fileName : String) {totalBytes total : Nat}
    (bytes : totalBytes < sizeLimit) (chunks : total < sizeLimit) :
    readTransfer (startMessage transferId fileName totalBytes total chunkSize).metadata =
      some ⟨transferId, total, totalBytes⟩ := by
  simp [startMessage, Json.ofPairs, readTransfer, readTextField, readSizeField, sizeJson,
    sizeJson_toNat bytes, sizeJson_toNat chunks]

theorem readTransfer_end (transferId : String) {totalBytes total : Nat}
    (bytes : totalBytes < sizeLimit) (chunks : total < sizeLimit) :
    readTransfer (endMessage transferId totalBytes total).metadata =
      some ⟨transferId, total, totalBytes⟩ := by
  simp [endMessage, Json.ofPairs, readTransfer, readTextField, readSizeField, sizeJson,
    sizeJson_toNat bytes, sizeJson_toNat chunks]

/-! ## The loop -/

def messageOf (transferId : String) (binaryData : List UInt8) (chunkSize i : Nat) : JsonMessage :=
  chunkMessage transferId i (totalChunks binaryData.length chunkSize)
    (currentChunkSize binaryData.length chunkSize i) (chunkBytes binaryData chunkSize i)

def assemblyOf (binaryData : List UInt8) (chunkSize : Nat) (done : List Nat) : Assembly where
  orderedChunks := scatter (chunkAt chunkSize binaryData) []
    (totalChunks binaryData.length chunkSize) done
  seen := scatter (fun _ => true) false (totalChunks binaryData.length chunkSize) done
  accumulatedBytes := (done.map fun i => (chunkAt chunkSize binaryData i).length).sum % sizeLimit

theorem placeChunk_messageOf (transferId : String) {done : List Nat} {i : Nat}
    (inside : i * chunkSize < binaryData.length) (small : binaryData.length < sizeLimit)
    (less : i < totalChunks binaryData.length chunkSize)
    (chunks : totalChunks binaryData.length chunkSize < sizeLimit) (new : i ∉ done) :
    placeChunk ⟨transferId, totalChunks binaryData.length chunkSize, binaryData.length⟩
      (assemblyOf binaryData chunkSize done) (messageOf transferId binaryData chunkSize i) =
      some (assemblyOf binaryData chunkSize (done ++ [i])) := by
  have bytes := chunkBytes_eq inside small
  have length : (chunkBytes binaryData chunkSize i).length =
      currentChunkSize binaryData.length chunkSize i := by
    rw [bytes, chunkAt_length, currentChunkSize_eq inside small]
  have size : currentChunkSize binaryData.length chunkSize i < sizeLimit := by
    rw [currentChunkSize_eq inside small]
    omega
  have index : i < sizeLimit := by omega
  have unseen : (assemblyOf binaryData chunkSize done).seen[i]? = some false := by
    simp [assemblyOf, scatter_at less, new]
  have placed : assemblyOf binaryData chunkSize (done ++ [i]) =
      { orderedChunks := (assemblyOf binaryData chunkSize done).orderedChunks.set i
          (chunkBytes binaryData chunkSize i)
        seen := (assemblyOf binaryData chunkSize done).seen.set i true
        accumulatedBytes := ((assemblyOf binaryData chunkSize done).accumulatedBytes +
          (chunkBytes binaryData chunkSize i).length) % sizeLimit } := by
    simp only [assemblyOf, bytes, ← scatter_set, List.map_append, List.sum_append, List.map_cons,
      List.map_nil, List.sum_singleton, Nat.mod_add_mod]
  rw [placed]
  simp [placeChunk, messageOf, chunkMessage, Json.ofPairs, readTextField, readSizeField, sizeJson,
    sizeJson_toNat chunks, sizeJson_toNat size, sizeJson_toNat index, unseen, length,
    readByte_payload, Nat.not_le.mpr less]

theorem placeChunk_all (transferId : String) (small : binaryData.length < sizeLimit)
    (chunks : totalChunks binaryData.length chunkSize < sizeLimit)
    (inside : ∀ i, i < totalChunks binaryData.length chunkSize → i * chunkSize < binaryData.length)
    (done : List Nat) {is : List Nat} (once : (done ++ is).Nodup)
    (less : ∀ i ∈ is, i < totalChunks binaryData.length chunkSize) :
    (is.map (messageOf transferId binaryData chunkSize)).foldlM
      (placeChunk ⟨transferId, totalChunks binaryData.length chunkSize, binaryData.length⟩)
      (assemblyOf binaryData chunkSize done) =
      some (assemblyOf binaryData chunkSize (done ++ is)) := by
  induction is generalizing done with
  | nil => simp
  | cons i rest ih =>
      have mine := less i (by simp)
      have new : i ∉ done := by
        intro old
        exact (List.nodup_append.mp once).2.2 i old i (by simp) rfl
      rw [List.map_cons, List.foldlM_cons,
        placeChunk_messageOf transferId (inside i mine) small mine chunks new]
      rw [show done ++ i :: rest = (done ++ [i]) ++ rest by simp] at once ⊢
      exact ih (done ++ [i]) once fun j mem => less j (by simp [mem])

/-- What `chunks_to_blob` checks, all of it passed. -/
theorem assemble_eq {first last : JsonMessage} {middle : List JsonMessage} {transfer : Transfer}
    {a : Assembly} (header : readTransfer first.metadata = some transfer)
    (footer : readTransfer last.metadata = some transfer) (start : first.type = "chunk_start")
    (stop : last.type = "chunk_end") (object : first.metadata.isObject = true)
    (object' : last.metadata.isObject = true) (nonempty : 0 < middle.length)
    (count : middle.length = transfer.totalChunks) (room : transfer.totalChunks + 2 < sizeLimit)
    (loop : middle.foldlM (placeChunk transfer) ⟨List.replicate transfer.totalChunks [],
      List.replicate transfer.totalChunks false, 0⟩ = some a)
    (seen : a.seen.all id = true) (total : a.accumulatedBytes = transfer.totalBytes) :
    assemble (first :: middle ++ [last]) = some a.orderedChunks := by
  have length : (first :: middle ++ [last]).length = transfer.totalChunks + 2 := by simp [count]
  have ends : (first :: middle ++ [last]).getLast? = some last := List.getLast?_concat
  have exactly : (transfer.totalChunks + 2) % sizeLimit = transfer.totalChunks + 2 :=
    Nat.mod_eq_of_lt room
  unfold assemble
  rw [length, if_neg (by omega), ends]
  simpa [start, stop, object, object', header, footer, loop, total, exactly] using seen

theorem seen_all (n : Nat) {done : List Nat} (all : done.Perm (List.range n)) :
    (scatter (fun _ => true) false n done).all id = true := by
  simp [scatter_full all]

theorem assemble_shuffled (transferId fileName : String) (nonempty : binaryData ≠ [])
    (pos : 0 < chunkSize) (fits : binaryData.length + chunkSize - 1 < sizeLimit)
    (room : totalChunks binaryData.length chunkSize + 2 < sizeLimit)
    {is : List Nat} (perm : is.Perm (List.range (totalChunks binaryData.length chunkSize))) :
    assemble (startMessage transferId fileName binaryData.length
        (totalChunks binaryData.length chunkSize) chunkSize ::
      is.map (messageOf transferId binaryData chunkSize) ++
      [endMessage transferId binaryData.length (totalChunks binaryData.length chunkSize)]) =
    some ((List.range (totalChunks binaryData.length chunkSize)).map (chunkAt chunkSize binaryData)) := by
  obtain ⟨some, _, covers, inside⟩ :=
    totalChunks_bounds (List.length_pos_iff.mpr nonempty) pos fits
  have small : binaryData.length < sizeLimit := by omega
  have chunks : totalChunks binaryData.length chunkSize < sizeLimit := by omega
  have count : is.length = totalChunks binaryData.length chunkSize := by
    rw [perm.length_eq, List.length_range]
  have blank : (⟨List.replicate (totalChunks binaryData.length chunkSize) [],
      List.replicate (totalChunks binaryData.length chunkSize) false, 0⟩ : Assembly) =
      assemblyOf binaryData chunkSize [] := by
    simp [assemblyOf, scatter_nil]
  have loop := placeChunk_all transferId small chunks inside []
    (by rw [List.nil_append]; exact perm.nodup_iff.mpr List.nodup_range)
    (fun i mem => List.mem_range.mp (perm.mem_iff.mp mem))
  have total : (assemblyOf binaryData chunkSize is).accumulatedBytes = binaryData.length := by
    have lengths := (perm.map fun i => (chunkAt chunkSize binaryData i).length).sum_eq
    have whole := congrArg List.length (flatten_chunkAt covers)
    rw [List.length_flatten, List.map_map] at whole
    simp only [assemblyOf, lengths]
    rw [show (fun i => (chunkAt chunkSize binaryData i).length) =
      List.length ∘ chunkAt chunkSize binaryData from rfl, whole, Nat.mod_eq_of_lt small]
  have ordered : (assemblyOf binaryData chunkSize is).orderedChunks =
      (List.range (totalChunks binaryData.length chunkSize)).map (chunkAt chunkSize binaryData) :=
    scatter_full perm
  have allSeen : (assemblyOf binaryData chunkSize is).seen.all id = true := seen_all _ perm
  rw [List.nil_append, ← blank] at loop
  rw [← ordered]
  exact assemble_eq (readTransfer_start transferId fileName small chunks)
    (readTransfer_end transferId small chunks) rfl rfl
    (by simp [startMessage, Json.ofPairs]) (by simp [endMessage, Json.ofPairs])
    (by simpa [count] using some)
    (by simpa using count) room loop allSeen total

/-- Writing to a good file writes everything. -/
theorem write_writable (written : List UInt8) (n : Nat) (chunks : List (List UInt8)) :
    OutputFile.writable.write written n chunks = (true, written ++ chunks.flatten) := by
  induction chunks generalizing written n with
  | nil => simp [OutputFile.write]
  | cons chunk rest ih =>
      unfold OutputFile.write
      by_cases empty : chunk.isEmpty = true
      · rw [if_pos empty, ih]
        simp [List.isEmpty_iff.mp empty]
      · rw [if_neg empty]
        simp only [OutputFile.writable, if_true]
        exact (ih _ _).trans (by simp)

theorem blob_of_assembled {chunks : List JsonMessage} {ordered : List (List UInt8)}
    (assembled : assemble chunks = some ordered) (whole : ordered.flatten = binaryData) :
    chunksToBlob .writable chunks = (true, some binaryData) := by
  rw [chunksToBlob, assembled]
  simp only [show OutputFile.writable.isOpen = true from rfl, if_true]
  rw [write_writable, whole]
  rfl

theorem deliver_all (messages : List JsonMessage) :
    messages.mapM (fun m => jsonToMessage (messageToJson m)) = some messages := by
  induction messages with
  | nil => rfl
  | cons m rest ih =>
      rw [List.mapM_cons, jsonToMessage_messageToJson, ih]
      rfl

/-- A non-empty file is cut into a first message, chunk messages and a last
message, unless there are too many of them for a vector. However the chunk messages
are shuffled, the messages survive encoding and decoding, and putting them together
writes the same file. -/
theorem chunk_transfer_round_trip (limit : VectorLimit) (binaryData : List UInt8)
    (fileName naming : String) (chunkSize : Nat) (nonempty : binaryData ≠ []) (pos : 0 < chunkSize)
    (fits : binaryData.length + chunkSize - 1 < 2 ^ 64) :
    (blobToChunk limit binaryData fileName chunkSize naming = none ↔
      limit.maxSize < (binaryData.length + chunkSize - 1) / chunkSize + 2) ∧
    ∀ messages, blobToChunk limit binaryData fileName chunkSize naming = some messages →
      ∃ first body last, messages = first :: body ++ [last] ∧
        first.type = "chunk_start" ∧ (∀ m ∈ body, m.type = "chunk_data") ∧
        last.type = "chunk_end" ∧
        ∀ shuffled : List JsonMessage, shuffled.Perm body → ∃ received,
          (first :: shuffled ++ [last]).mapM (fun m => jsonToMessage (messageToJson m)) =
            some received ∧
          chunksToBlob .writable received = (true, some binaryData) := by
  have some : binaryData.isEmpty = false := by simpa using nonempty
  have bytes := List.length_pos_iff.mpr nonempty
  simp only [blobToChunk, Nat.ne_of_gt pos, some, if_false, Bool.false_eq_true]
  rw [← totalChunks_eq bytes pos fits]
  by_cases full : limit.maxSize < totalChunks binaryData.length chunkSize + 2
  · simp [full]
  · simp only [full, if_false, reduceCtorEq, true_and]
    rintro messages ⟨⟩
    refine ⟨_, _, _, rfl, rfl, ?_, rfl, ?_⟩
    · intro m mem
      obtain ⟨i, _, rfl⟩ := List.mem_map.mp mem
      rfl
    · intro shuffled perm
      obtain ⟨is, order, rfl⟩ := perm_map_inv perm
      have room : totalChunks binaryData.length chunkSize + 2 < sizeLimit := by
        have addressable := limit.addressable
        omega
      have covers := (totalChunks_bounds bytes pos fits).2.2.1
      have assembled := assemble_shuffled (if naming.isEmpty then fileName else naming) fileName
        nonempty pos fits room order
      refine ⟨_, deliver_all _, blob_of_assembled assembled ?_⟩
      exact flatten_chunkAt covers

/-- Five bytes in chunks of two, the last chunk short, delivered in reverse. -/
theorem chunk_transfer_round_trip_reversed :
    ∃ first body last received,
      blobToChunk ⟨100, by decide⟩ [1, 2, 3, 4, 5] "a.bin" 2 "" = some (first :: body ++ [last]) ∧
      body.length = 3 ∧
      (first :: body.reverse ++ [last]).mapM (fun m => jsonToMessage (messageToJson m)) =
        some received ∧
      chunksToBlob .writable received = (true, some [1, 2, 3, 4, 5]) := by
  obtain ⟨_, delivered⟩ := chunk_transfer_round_trip ⟨100, by decide⟩ [1, 2, 3, 4, 5] "a.bin" "" 2
    (by decide) (by decide) (by decide)
  have produced : blobToChunk ⟨100, by decide⟩ [1, 2, 3, 4, 5] "a.bin" 2 "" = some _ := rfl
  obtain ⟨first, body, last, parts, _, _, _, shuffle⟩ := delivered _ produced
  obtain ⟨received, decoded, written⟩ := shuffle body.reverse (List.reverse_perm body)
  refine ⟨first, body, last, received, produced.trans (congrArg some parts), ?_, decoded, written⟩
  have count := congrArg List.length parts
  simp [totalChunks, sizeLimit] at count
  omega

end Rtl.Ws
