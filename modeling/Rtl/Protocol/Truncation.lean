import Rtl.Protocol.I7580Message

/-! # Frames that are too short

`getStruct` compares the length of the buffer with the size of a `size_t`, less the aligned
bytes, and its loop reads as many bytes as the message has. A frame that is long enough for
the one and too short for the other is accepted, and bytes behind the buffer are read.
-/

namespace Rtl.Protocol

open Rtl.Base

namespace I7580Message

variable {m : I7580Message} {stray : Nat → UInt8} {msg : IBaseMessage}

/-- Every frame that passes the test is read from the first byte on. -/
theorem reads_getStruct (passes : m.Passes msg) :
    (m.getStruct stray (some msg)).reads = List.range msg.sentCount := by
  obtain ⟨s, copied, outcome⟩ := getStruct_of_passes stray passes
  rw [outcome]
  exact copied.reads

theorem returned_getStruct : (m.getStruct stray (some msg)).returned = some true ↔
    m.Passes msg ∧ msg.size < intValues := by
  by_cases passes : m.Passes msg
  · obtain ⟨s, _, outcome⟩ := getStruct_of_passes stray passes
    rw [outcome]
    by_cases small : msg.size < intValues
    · simp [passes, small]
    · simp [small]
  · rw [getStruct_of_not_passes stray passes]
    simp [passes]

end I7580Message

/-- A frame is accepted only if it is long enough, and only read inside, if and only if it is
rejected by the test or holds all bytes that the loop reads. -/
theorem get_struct_rejects_truncated_iff (m : I7580Message) (stray : Nat → UInt8)
    (msg : IBaseMessage) (indices : msg.AlignsIndices) :
    (((m.getStruct stray (some msg)).returned = some true →
        msg.size - msg.alignedBytes.card ≤ m.size) ∧
      ∀ k ∈ (m.getStruct stray (some msg)).reads, k < m.size) ↔
    (m.buffer = [] ∨ m.size < sizeSub sizeofSizeT msg.alignedBytes.card ∨
      min msg.size intValues - msg.alignedBytes.card ≤ m.size) := by
  have count := IBaseMessage.sentCount_add_card indices
  rw [I7580Message.returned_getStruct]
  by_cases passes : m.Passes msg
  · rw [I7580Message.reads_getStruct passes]
    constructor
    · rintro ⟨_, inside⟩
      refine .inr (.inr ?_)
      by_contra short
      -- the loop reads the byte behind the last
      have behind := inside m.size (List.mem_range.mpr (by omega))
      omega
    · intro long
      have enough : min msg.size intValues - msg.alignedBytes.card ≤ m.size := by
        rcases long with empty | short | enough
        · exact absurd empty passes.1
        · exact absurd passes.2 (Nat.not_le.mpr short)
        · exact enough
      constructor
      · rintro ⟨_, small⟩
        rw [Nat.min_eq_left (Nat.le_of_lt small)] at enough
        exact enough
      · intro k mem
        have below := List.mem_range.mp mem
        omega
  · rw [I7580Message.getStruct_of_not_passes stray passes]
    constructor
    · intro _
      rcases I7580Message.not_passes_iff.mp passes with empty | short
      · exact .inl empty
      · exact .inr (.inl short)
    · intro _
      refine ⟨fun accepted => absurd accepted.1 passes, ?_⟩
      intro k mem
      cases mem

def request : IBaseMessage := MessageStruct.message .little ⟨{}, fun _ => 0⟩

def wholeFrame : I7580Message := ⟨List.replicate 15 1⟩

/-- The whole frame is accepted and only read inside. -/
theorem get_struct_rejects_truncated_whole :
    request.AlignsIndices ∧
      (wholeFrame.getStruct (fun _ => 0) (some request)).returned = some true ∧
      request.size - request.alignedBytes.card ≤ wholeFrame.size ∧
      ∀ k ∈ (wholeFrame.getStruct (fun _ => 0) (some request)).reads, k < wholeFrame.size := by
  have indices : request.AlignsIndices := by decide +kernel
  have accepted : (wholeFrame.getStruct (fun _ => 0) (some request)).returned = some true := by
    decide +kernel
  have long : min request.size intValues - request.alignedBytes.card ≤ wholeFrame.size := by
    decide +kernel
  obtain ⟨holds, inside⟩ := (get_struct_rejects_truncated_iff wholeFrame (fun _ => 0) request
    indices).mpr (.inr (.inr long))
  exact ⟨indices, accepted, holds accepted, inside⟩

/-- Seven bytes are received, whatever the limit beyond them. The frame is accepted, 15 bytes are read,
and the floats of the message come from behind the buffer. -/
theorem get_struct_accepts_truncated :
    ∃ m, (∀ more, (I7580Protocol.mk true).listenForMessage (7 + more) (.holding [1, 1, 0, 1, 0, 1, 1])
        (some {}) = (true, some m)) ∧
      request.AlignsIndices ∧ m.size = 7 ∧ request.size - request.alignedBytes.card = 15 ∧
      (m.getStruct (fun _ => 0xcc) (some request)).returned = some true ∧
      (m.getStruct (fun _ => 0xcc) (some request)).reads = List.range 15 ∧
      (m.getStruct (fun _ => 0xcc) (some request)).message.map (·.bytes.drop 8) =
        some [0, 0xcc, 0xcc, 0xcc, 0xcc, 0xcc, 0xcc, 0xcc] := by
  refine ⟨⟨[1, 1, 0, 1, 0, 1, 1]⟩, ?_, by decide +kernel⟩
  intro more
  simp [I7580Protocol.listenForMessage, Channel.holding, I7580Message.setDataRaw]

end Rtl.Protocol
