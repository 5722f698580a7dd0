import Rtl.Protocol.I7580Message

/-! # Packing and unpacking a message

What `setData` leaves out stays in the target of `getStruct` as it was. For a request this is
its padding. A response calls byte 16 its padding where it is byte 15, so that the first byte
of its first float is not sent. `getMessageStruct` asks for the size of the class, with the
address of its virtual functions, and takes nothing that `setData` makes of a request.
-/

namespace Rtl.Protocol

open Rtl.Base

def Restores (stored : List UInt8 → Prop) (outcome : Option Unpacked) : Prop :=
  ∃ u after, outcome = some u ∧ u.returned = some true ∧ u.message = some after ∧ stored after.bytes

def I7580Message.transfer (m : I7580Message) (stray : Nat → UInt8) (source target : IBaseMessage) :
    Option Unpacked :=
  (m.setData (some source)).map fun packed => packed.getStruct stray (some target)

namespace I7580Message

variable {m : I7580Message} {stray : Nat → UInt8} {source target : IBaseMessage}

theorem charAt_eq {offset : Nat} (inside : offset < m.buffer.length) :
    some (m.charAt stray offset) = m.buffer[offset]? := by
  unfold charAt
  rw [List.getElem?_eq_getElem inside]

/-- A message is sent and received as a message of its class: the bytes that are sent are
those of the source. -/
theorem transfer_eq (small : source.size < intValues) (sizes : target.size = source.size)
    (aligned : target.alignedBytes = source.alignedBytes) (sent : 0 < source.sentCount)
    (enough : sizeSub sizeofSizeT source.alignedBytes.card ≤ source.sentCount) :
    ∃ reads, m.transfer stray source target = some ⟨some true,
      some { target with bytes := overlay source.Sent 0 source.bytes target.bytes }, reads⟩ := by
  obtain ⟨packed, result, gathered⟩ := gathered_setData (m := m) small
  have whole : min source.size intValues = source.size := Nat.min_eq_left (Nat.le_of_lt small)
  have length : packed.buffer.length = source.sentCount := by
    rw [gathered.length, IBaseMessage.sentCount, whole]
  have passes : packed.Passes target := by
    constructor
    · intro empty
      rw [empty] at length
      rw [← length] at sent
      cases sent
    · rw [aligned, size, length]
      exact enough
  obtain ⟨s, copied, outcome⟩ := getStruct_of_passes stray passes
  have bytes : s.bytes = overlay source.Sent 0 source.bytes target.bytes := by
    have spread := copied.spread
    rw [sizes, whole] at spread
    obtain ⟨type, bytes, alignedBytes, int32⟩ := target
    subst aligned
    exact spread.of_gathered gathered sizes.symm fun i inside => charAt_eq inside
  refine ⟨s.reads, ?_⟩
  rw [transfer, result, Option.map_some, outcome, bytes, sizes, if_pos small]

/-- A message that calls one of its bytes aligned: that one stays as it is in the target. -/
theorem transfer_hole (m : I7580Message) (stray : Nat → UInt8) (source target : IBaseMessage)
    {k : Nat} {y : UInt8} (single : source.alignedBytes = {(k : Int)})
    (inside : k < source.size) (long : 8 ≤ source.size) (small : source.size < intValues)
    (sizes : target.size = source.size) (aligned : target.alignedBytes = source.alignedBytes)
    (at_k : target.bytes[k]? = some y) :
    ∃ reads, m.transfer stray source target =
      some ⟨some true, some { target with bytes := source.bytes.set k y }, reads⟩ := by
  have indices : source.AlignsIndices := by
    intro b mem
    rw [single, Finset.mem_singleton] at mem
    omega
  have count := IBaseMessage.sentCount_add_card indices
  have one : source.alignedBytes.card = 1 := by rw [single, Finset.card_singleton]
  rw [one, Nat.min_eq_left (Nat.le_of_lt small)] at count
  have seven : sizeSub sizeofSizeT source.alignedBytes.card = 7 := by rw [one]; rfl
  have hole : ∀ i, source.Sent i ↔ i ≠ k := by
    intro i
    unfold IBaseMessage.Sent IBaseMessage.Aligned
    rw [single, Finset.mem_singleton]
    omega
  rw [← overlay_hole hole sizes.symm at_k]
  exact transfer_eq small sizes aligned (by omega) (by omega)

end I7580Message

/-! ## The two messages -/

theorem MessageStruct.size_message (order : ByteOrder) (m : MessageStruct) :
    (m.message order).size = 16 :=
  congrArg List.length (Data.represent_eq order m.pad m.fields)

theorem ResponseStruct.size_message (order : ByteOrder) (r : ResponseStruct) :
    (r.message order).size = 76 :=
  (Data.represent_at order r.pad r.fields).1

/-- The bytes that come from the source and the padding of the target make the message. -/
theorem MessageStruct.represent_set (order : ByteOrder) (pad pad' : Nat → UInt8) (d : Data) :
    (represent pad (d.members order)).set 7 (pad' 7) = represent pad' (d.members order) := by
  rw [Data.represent_eq, Data.represent_eq]
  rfl

theorem message_restored (order : ByteOrder) (b : I7580Message) (stray : Nat → UInt8)
    (m : MessageStruct) (pad : Nat → UInt8) :
    Restores (m.fields.Stored order)
      (b.transfer stray (m.message order) (MessageStruct.message order ⟨{}, pad⟩)) := by
  have size := m.size_message order
  have at_7 : (MessageStruct.message order ⟨{}, pad⟩).bytes[7]? = some (pad 7) := by
    rw [MessageStruct.message, MessageStruct.Data.represent_eq]
    rfl
  obtain ⟨reads, result⟩ := b.transfer_hole stray (m.message order)
    (MessageStruct.message order ⟨{}, pad⟩) (k := 7) rfl (by omega) (by omega)
    (by rw [size]; decide) (by rw [size, MessageStruct.size_message]) rfl at_7
  refine ⟨_, _, result, rfl, rfl, pad, ?_⟩
  exact MessageStruct.represent_set order m.pad pad m.fields

/-- The first byte of the first float stays zero, as it is in a new response. -/
theorem response_restored_iff (order : ByteOrder) (b : I7580Message) (stray : Nat → UInt8)
    (r : ResponseStruct) (pad : Nat → UInt8) :
    Restores (r.fields.Stored order)
        (b.transfer stray (r.message order) (ResponseStruct.message order ⟨{}, pad⟩)) ↔
      order.byte r.fields.diameterMin 0 = 0 := by
  have size := r.size_message order
  have at_16 : (r.message order).bytes[16]? = some (order.byte r.fields.diameterMin 0) :=
    (ResponseStruct.Data.represent_at order r.pad r.fields).2.2
  have fresh : (ResponseStruct.message order ⟨{}, pad⟩).bytes[16]? = some 0 := by
    rw [← order.byte_zero 0]
    exact (ResponseStruct.Data.represent_at order pad {}).2.2
  obtain ⟨reads, result⟩ := b.transfer_hole stray (r.message order)
    (ResponseStruct.message order ⟨{}, pad⟩) (k := 16) rfl (by omega) (by omega)
    (by rw [size]; decide) (by rw [size, ResponseStruct.size_message]) rfl fresh
  rw [result]
  constructor
  · rintro ⟨_, _, ⟨⟩, _, ⟨⟩, pad', same⟩
    -- byte 16 was not sent, and the fields say what it is
    have kept := congrArg (·[16]?) same
    simp only [(ResponseStruct.Data.represent_at order pad' r.fields).2.2] at kept
    rw [List.getElem?_set_self (List.getElem?_eq_some_iff.mp at_16).1] at kept
    exact (Option.some.inj kept).symm
  · intro zero
    refine ⟨_, _, rfl, rfl, rfl, r.pad, ?_⟩
    obtain ⟨inside, is⟩ := List.getElem?_eq_some_iff.mp at_16
    have same := List.set_getElem_self inside
    rw [is, zero] at same
    exact same

/-- What `setData` makes of a request is shorter than what `getMessageStruct` asks for. -/
theorem getMessageStruct_setDataStruct (order : ByteOrder) (b : I7580Message) (m : MessageStruct)
    (pad : Nat → UInt8) : (b.setDataStruct order m).getMessageStruct order pad = none := by
  have size : (b.setDataStruct order m).size = 15 := by
    rw [I7580Message.setDataStruct, I7580Message.size, MessageStruct.message,
      MessageStruct.Data.represent_eq]
    rfl
  have asks : sizeSub sizeofMessageStruct (MessageStruct.message order ⟨{}, pad⟩).alignedBytes.card =
      23 := by
    change sizeSub sizeofMessageStruct MessageStruct.alignedBytes.card = 23
    rfl
  simp only [I7580Message.getMessageStruct]
  split
  · rfl
  · rw [asks, size]
    rfl

/-- A request is restored by `getStruct` and never by `getMessageStruct`. A response is
restored if and only if the first byte of `diameter_min` in memory is zero. -/
theorem i7580_round_trip_iff (order : ByteOrder) (b : I7580Message) (stray : Nat → UInt8)
    (m : MessageStruct) (r : ResponseStruct) (pad : Nat → UInt8) :
    Restores (m.fields.Stored order)
      (b.transfer stray (m.message order) (MessageStruct.message order ⟨{}, pad⟩)) ∧
    (Restores (r.fields.Stored order)
        (b.transfer stray (r.message order) (ResponseStruct.message order ⟨{}, pad⟩)) ↔
      order.byte r.fields.diameterMin 0 = 0) ∧
    (b.setDataStruct order m).getMessageStruct order pad = none :=
  ⟨message_restored order b stray m pad, response_restored_iff order b stray r pad,
    getMessageStruct_setDataStruct order b m pad⟩

/-- The diameter is the least float above one. -/
def aboveOne : ResponseStruct.Data := { diameterMin := 0x3f800001 }

def one : ResponseStruct.Data := { diameterMin := 0x3f800000 }

/-- With the low byte first, the diameter arrives as one. -/
theorem i7580_response_loses_byte :
    ∃ u, I7580Message.transfer {} (fun _ => 0) (ResponseStruct.message .little ⟨aboveOne, fun _ => 0⟩)
        (ResponseStruct.message .little ⟨{}, fun _ => 0⟩) = some u ∧
      Restores (one.Stored .little) (some u) ∧ ¬ Restores (aboveOne.Stored .little) (some u) ∧
      (I7580Message.setDataStruct {} .little ⟨{}, fun _ => 0⟩).getMessageStruct .little (fun _ => 0) =
        none := by
  have arrives : (I7580Message.transfer {} (fun _ => 0)
      (ResponseStruct.message .little ⟨aboveOne, fun _ => 0⟩)
      (ResponseStruct.message .little ⟨{}, fun _ => 0⟩)).map
        (fun u => (u.returned, u.message.map (·.bytes))) =
      some (some true, some (represent (fun _ => 0) (one.members .little))) := by
    decide +kernel
  obtain ⟨u, result, values⟩ := Option.map_eq_some_iff.mp arrives
  obtain ⟨returned, bytes⟩ := Prod.mk.inj values
  obtain ⟨after, message, memory⟩ := Option.map_eq_some_iff.mp bytes
  have stored : one.Stored .little after.bytes := ⟨fun _ => 0, memory⟩
  refine ⟨u, result, ⟨u, after, rfl, returned, message, stored⟩, ?_, by decide +kernel⟩
  rintro ⟨_, _, ⟨⟩, _, message', stored'⟩
  cases message.symm.trans message'
  exact absurd (stored.unique stored') (by decide)

end Rtl.Protocol
