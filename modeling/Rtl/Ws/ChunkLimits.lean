import Mathlib.Algebra.Order.Floor.Div
import Rtl.Ws.ChunkRoundTrip

/-! # Chunks at the limits of the arithmetic

`blob_to_chunk` computes the number of chunks, the offset of a chunk and the length of
the last one in `size_t`, and takes any chunk size. The sum in the number of chunks is
the only place where the arithmetic can wrap around; it then finds no chunk at all.
-/

namespace Rtl.Ws

open Rtl.Base

def JsonMessage.payloadBytes (m : JsonMessage) : Nat :=
  match m.payload with
  | .array items => items.length
  | _ => 0

def dataMessages (messages : List JsonMessage) : List JsonMessage :=
  messages.filter (·.type == "chunk_data")

/-- The messages cut a file of the given size as they should, in exact integers. -/
structure CutsWhole (size chunkSize : Nat) (messages : List JsonMessage) : Prop where
  count : (dataMessages messages).length = size ⌈/⌉ chunkSize
  filled : ∀ m ∈ dataMessages messages, 1 ≤ m.payloadBytes ∧ m.payloadBytes ≤ chunkSize
  total : ((dataMessages messages).map (·.payloadBytes)).sum = size

variable {limit : VectorLimit} {binaryData : List UInt8} {fileName naming : String} {chunkSize : Nat}

/-! ## The messages -/

@[simp] theorem chunkMessage_payloadBytes (transferId : String) (i total size : Nat)
    (bytes : List UInt8) : (chunkMessage transferId i total size bytes).payloadBytes = bytes.length := by
  simp [JsonMessage.payloadBytes, chunkMessage]

/-- The first and the last message carry no data, and those in between do. -/
theorem dataMessages_transfer (transferId : String) {total : Nat} {f : Nat → JsonMessage}
    (data : ∀ i, (f i).type = "chunk_data") :
    dataMessages (startMessage transferId fileName binaryData.length total chunkSize ::
      (List.range total).map f ++ [endMessage transferId binaryData.length total]) =
      (List.range total).map f := by
  have all : (List.range total).map f = ((List.range total).map f).filter (·.type == "chunk_data") := by
    symm
    apply List.filter_eq_self.mpr
    intro m mem
    obtain ⟨i, _, rfl⟩ := List.mem_map.mp mem
    exact beq_iff_eq.mpr (data i)
  unfold dataMessages
  rw [List.filter_append, List.filter_cons_of_neg (by simp [startMessage]), ← all,
    List.filter_cons_of_neg (by simp [endMessage]), List.filter_nil, List.append_nil]

/-- The data messages of a call that returns, one for each index. -/
theorem dataMessages_blobToChunk (nonempty : binaryData ≠ []) (pos : 0 < chunkSize)
    {messages : List JsonMessage}
    (h : blobToChunk limit binaryData fileName chunkSize naming = some messages) :
    ∃ transferId, dataMessages messages =
      (List.range (totalChunks binaryData.length chunkSize)).map
        (messageOf transferId binaryData chunkSize) := by
  have bytes : binaryData.isEmpty = false := by simpa using nonempty
  simp only [blobToChunk, Nat.ne_of_gt pos, bytes, if_false, Bool.false_eq_true] at h
  split at h
  · cases h
  · cases h
    exact ⟨_, dataMessages_transfer _ fun _ => rfl⟩

/-! ## Within the limits -/

theorem cutsWhole_of_fits (nonempty : binaryData ≠ []) (pos : 0 < chunkSize)
    (fits : binaryData.length + chunkSize - 1 < sizeLimit) {messages : List JsonMessage}
    (h : blobToChunk limit binaryData fileName chunkSize naming = some messages) :
    CutsWhole binaryData.length chunkSize messages := by
  have bytes := List.length_pos_iff.mpr nonempty
  obtain ⟨_, _, covers, inside⟩ := totalChunks_bounds bytes pos fits
  obtain ⟨transferId, data⟩ := dataMessages_blobToChunk nonempty pos h
  have small : binaryData.length < sizeLimit := by omega
  have carried : ∀ i, i < totalChunks binaryData.length chunkSize →
      (messageOf transferId binaryData chunkSize i).payloadBytes =
        (chunkAt chunkSize binaryData i).length := by
    intro i less
    rw [messageOf, chunkMessage_payloadBytes, chunkBytes_eq (inside i less) small]
  refine ⟨?_, ?_, ?_⟩
  · rw [data, List.length_map, List.length_range, totalChunks_eq bytes pos fits]
    rfl
  · intro m mem
    rw [data] at mem
    obtain ⟨i, range, rfl⟩ := List.mem_map.mp mem
    have less := List.mem_range.mp range
    have before := inside i less
    rw [carried i less, chunkAt_length]
    omega
  · have lengths : (List.range (totalChunks binaryData.length chunkSize)).map
        (fun i => (messageOf transferId binaryData chunkSize i).payloadBytes) =
        (List.range (totalChunks binaryData.length chunkSize)).map
          fun i => (chunkAt chunkSize binaryData i).length :=
      List.map_congr_left fun i range => carried i (List.mem_range.mp range)
    have whole := congrArg List.length (flatten_chunkAt covers)
    rw [List.length_flatten, List.map_map] at whole
    rw [data, List.map_map]
    exact (congrArg List.sum lengths).trans whole

/-! ## Beyond the limits -/

/-- When the sum wraps around there are no chunks. -/
theorem totalChunks_wrapped {sizeOfFile : Nat} (small : sizeOfFile < sizeLimit)
    (wide : chunkSize < sizeLimit) (wraps : ¬ sizeOfFile + chunkSize - 1 < sizeLimit) :
    totalChunks sizeOfFile chunkSize = 0 := by
  have twice : sizeOfFile + chunkSize + (sizeLimit - 1) =
      (sizeOfFile + chunkSize - 1 - sizeLimit) + sizeLimit + sizeLimit := by
    unfold sizeLimit at *
    omega
  have rest : sizeOfFile + chunkSize - 1 - sizeLimit < sizeLimit := by omega
  rw [totalChunks, twice, Nat.add_mod_right, Nat.add_mod_right, Nat.mod_eq_of_lt rest]
  exact Nat.div_eq_of_lt (by omega)

/-- `blob_to_chunk` fails only when there are too many messages for a vector. When it
returns, the number of data messages is the exact quotient rounded up, each of them
carries between one byte and a full chunk, and together they carry the whole file, if
and only if the sum of the two sizes, less one, is below 2^64. -/
theorem blob_to_chunk_whole_iff (limit : VectorLimit) (binaryData : List UInt8)
    (fileName naming : String) (chunkSize : Nat) (nonempty : binaryData ≠ [])
    (size : binaryData.length < 2 ^ 64) (pos : 0 < chunkSize) (wide : chunkSize < 2 ^ 64) :
    (blobToChunk limit binaryData fileName chunkSize naming = none →
      limit.maxSize < binaryData.length ⌈/⌉ chunkSize + 2) ∧
    ∀ messages, blobToChunk limit binaryData fileName chunkSize naming = some messages →
      (CutsWhole binaryData.length chunkSize messages ↔
        binaryData.length + chunkSize - 1 < 2 ^ 64) := by
  have bytes := List.length_pos_iff.mpr nonempty
  have some : binaryData.isEmpty = false := by simpa using nonempty
  constructor
  · intro failed
    have full : limit.maxSize < totalChunks binaryData.length chunkSize + 2 := by
      simp only [blobToChunk, Nat.ne_of_gt pos, some, if_false, Bool.false_eq_true] at failed
      split at failed
      · assumption
      · cases failed
    by_cases fits : binaryData.length + chunkSize - 1 < sizeLimit
    · rw [totalChunks_eq bytes pos fits] at full
      exact full
    · rw [totalChunks_wrapped size wide fits] at full
      omega
  · intro messages returned
    constructor
    · intro whole
      by_contra wraps
      obtain ⟨transferId, data⟩ := dataMessages_blobToChunk nonempty pos returned
      have total := whole.total
      rw [data, totalChunks_wrapped size wide wraps, List.range_zero, List.map_nil, List.map_nil,
        List.sum_nil] at total
      omega
    · exact fun fits => cutsWhole_of_fits nonempty pos fits returned

/-- Five bytes in chunks of two. -/
theorem blob_to_chunk_whole_five :
    ∃ messages, blobToChunk ⟨100, by decide⟩ [1, 2, 3, 4, 5] "a.bin" 2 "" = some messages ∧
      CutsWhole 5 2 messages :=
  ⟨_, rfl, ((blob_to_chunk_whole_iff ⟨100, by decide⟩ [1, 2, 3, 4, 5] "a.bin" "" 2 (by decide)
    (by decide) (by decide) (by decide)).2 _ rfl).mpr (by decide)⟩

/-- Two bytes in chunks of the largest size: there is no data message. -/
theorem blob_to_chunk_drops_file :
    ∃ messages, blobToChunk ⟨100, by decide⟩ [1, 2] "a.bin" (2 ^ 64 - 1) "" = some messages ∧
      dataMessages messages = [] ∧ ¬ CutsWhole 2 (2 ^ 64 - 1) messages := by
  refine ⟨_, rfl, rfl, ?_⟩
  intro whole
  exact absurd whole.total (by decide)

end Rtl.Ws
