import Rtl.Base.Holes
import Rtl.Protocol.Request

/-! # Packing and unpacking of messages

`I7580Message` holds the bytes that go over the channel: those of a message without its
padding. The virtual methods pass over the bytes that the message calls aligned; the ones
for `MessageStruct` have offsets of their own. A `size_t` has 64 bits and an `int` has 32.
-/

namespace Rtl.Protocol

open Rtl.Base

/-- The values of an `int` that is not negative. A counter that leaves them overflows. -/
def intValues : Nat := 2 ^ 31

def sizeSub (a b : Nat) : Nat := (a + 2 ^ 64 - b) % 2 ^ 64

def sizeofSizeT : Nat := 8

/-- The address of the virtual functions and the 16 bytes of the data. -/
def sizeofMessageStruct : Nat := 24

def memcpy (target : List UInt8) (offset : Nat) (source : List UInt8) : List UInt8 :=
  target.take offset ++ source ++ target.drop (offset + source.length)

structure I7580Message where
  buffer : List UInt8 := []
  deriving Repr, DecidableEq

/-- The loop of `getStruct`, with the indices at which it has read the buffer. -/
structure Copy where
  bytes : List UInt8
  offset : Nat := 0
  reads : List Nat := []
  deriving Repr, DecidableEq

/-- What `getStruct` returns, nothing if its counter overflows; the message afterwards and
the reads of the buffer. -/
structure Unpacked where
  returned : Option Bool
  message : Option IBaseMessage
  reads : List Nat := []
  deriving DecidableEq

namespace I7580Message

def size (m : I7580Message) : Nat := m.buffer.length

/-- `setData(const Request::MessageStruct&)` -/
def setDataStruct (_ : I7580Message) (order : ByteOrder) (str : MessageStruct) : I7580Message :=
  let data := (str.message order).bytes
  ⟨data.take 7 ++ (data.drop 8).take 8⟩

/-- `setData(const char*, size_t)` -/
def setDataRaw (_ : I7580Message) (dataBuf : List UInt8) (dataSize : Nat) : I7580Message :=
  ⟨dataBuf.take dataSize⟩

def packByte (msg : IBaseMessage) (buffer : List UInt8) (i : Nat) : List UInt8 :=
  if msg.Aligned i then buffer else buffer ++ [msg.bytes.getD i 0]

/-- `setData(std::shared_ptr<Request::IBaseMessage>)`; nothing if the counter overflows. -/
def setData (m : I7580Message) : Option IBaseMessage → Option I7580Message
  | none => some m
  | some msg =>
      if msg.size < intValues then some ⟨countedLoop intValues msg.size (packByte msg) []⟩ else none

/-- The new message has its default fields and `pad` in its padding. Both copies go to
its beginning. -/
def getMessageStruct (m : I7580Message) (order : ByteOrder) (pad : Nat → UInt8) :
    Option IBaseMessage :=
  let str := MessageStruct.message order ⟨{}, pad⟩
  if m.buffer = [] then none
  else if m.size < sizeSub sizeofMessageStruct str.alignedBytes.card then none
  else
    let first := memcpy str.bytes 0 (m.buffer.take 7)
    some { str with bytes := memcpy first 0 ((m.buffer.drop 8).take 8) }

/-- `m_buffer[offset]`: the character behind the last is zero, and what is behind that
is not known. -/
def charAt (m : I7580Message) (stray : Nat → UInt8) (offset : Nat) : UInt8 :=
  match m.buffer[offset]? with
  | some c => c
  | none => if offset = m.size then 0 else stray offset

def unpackByte (m : I7580Message) (stray : Nat → UInt8) (msg : IBaseMessage) (s : Copy) (i : Nat) :
    Copy :=
  if msg.Aligned i then s
  else
    { bytes := s.bytes.set i (m.charAt stray s.offset)
      offset := (s.offset + 1) % 2 ^ 32
      reads := s.reads ++ [s.offset] }

/-- The length is compared with the size of `size_t`, not with that of the message. -/
def getStruct (m : I7580Message) (stray : Nat → UInt8) : Option IBaseMessage → Unpacked
  | none => ⟨some false, none, []⟩
  | some msg =>
      if m.buffer = [] then ⟨some false, some msg, []⟩
      else if m.size < sizeSub sizeofSizeT msg.alignedBytes.card then ⟨some false, some msg, []⟩
      else
        let s := countedLoop intValues msg.size (m.unpackByte stray msg) ⟨msg.bytes, 0, []⟩
        ⟨if msg.size < intValues then some true else none, some { msg with bytes := s.bytes }, s.reads⟩

end I7580Message

/-! ## The channel -/

/-- What `Get_Data` gives when it is asked for no more than so many bytes, if anything comes before
the timeout. -/
structure Channel where
  getData : Nat → Option (List UInt8)
  bounded : ∀ limit bytes, getData limit = some bytes → bytes.length ≤ limit

/-- A packet is there; it is received only if all of it fits. -/
def Channel.holding (packet : List UInt8) : Channel where
  getData limit := if packet.length ≤ limit then some packet else none
  bounded limit bytes given := by
    rw [Option.ite_none_right_eq_some, Option.some.injEq] at given
    obtain ⟨fits, rfl⟩ := given
    exact fits

structure I7580Protocol where
  initStatus : Bool
  deriving Repr, DecidableEq

namespace I7580Protocol

/-- The bytes that are given to the channel, and what is returned. -/
def sendProtocolMessage (p : I7580Protocol) (sendData : List UInt8 → Bool) (msg : I7580Message) :
    Option (List UInt8) × Bool :=
  if p.initStatus then (some msg.buffer, sendData msg.buffer) else (none, false)

/-- `maxPacketSize` is the constant `CAMSO_MAX_PACKET_SIZE`. -/
def listenForMessage (p : I7580Protocol) (maxPacketSize : Nat) (channel : Channel)
    (msg : Option I7580Message) : Bool × Option I7580Message :=
  if p.initStatus then
    match msg, channel.getData maxPacketSize with
    | some m, some bytes => (true, some (m.setDataRaw bytes bytes.length))
    | _, _ => (false, msg)
  else (false, msg)

end I7580Protocol

/-! ## What the loops do -/

namespace IBaseMessage

def Sent (msg : IBaseMessage) (i : Nat) : Prop := ¬ msg.Aligned i

instance (msg : IBaseMessage) : DecidablePred msg.Sent := fun i =>
  inferInstanceAs (Decidable (¬ msg.Aligned i))

def sentCount (msg : IBaseMessage) : Nat := Nat.count msg.Sent (min msg.size intValues)

def AlignsIndices (msg : IBaseMessage) : Prop := ∀ b ∈ msg.alignedBytes, 0 ≤ b ∧ b < msg.size

instance (msg : IBaseMessage) : Decidable msg.AlignsIndices :=
  inferInstanceAs (Decidable (∀ b ∈ msg.alignedBytes, 0 ≤ b ∧ b < msg.size))

theorem count_aligned {msg : IBaseMessage} (indices : msg.AlignsIndices) :
    Nat.count msg.Aligned (min msg.size intValues) = msg.alignedBytes.card := by
  have image : ((Finset.range (min msg.size intValues)).filter msg.Aligned).image Nat.cast =
      msg.alignedBytes := by
    ext b
    simp only [Finset.mem_image, Finset.mem_filter, Finset.mem_range]
    constructor
    · rintro ⟨i, ⟨_, aligned⟩, rfl⟩
      exact aligned
    · intro mem
      obtain ⟨low, high⟩ := indices b mem
      have small := (msg.int32 b mem).2
      lift b to Nat using low
      refine ⟨b, ⟨?_, mem⟩, rfl⟩
      unfold intValues
      omega
  have card := Finset.card_image_of_injective
    ((Finset.range (min msg.size intValues)).filter msg.Aligned) (Nat.cast_injective (R := Int))
  rw [image] at card
  rw [Nat.count_eq_card_filter_range, card]

theorem sentCount_add_card {msg : IBaseMessage} (indices : msg.AlignsIndices) :
    msg.sentCount + msg.alignedBytes.card = min msg.size intValues := by
  have parts := Finset.card_filter_add_card_filter_not (s := Finset.range (min msg.size intValues))
    (p := msg.Aligned)
  rw [Finset.card_range] at parts
  rw [sentCount, ← count_aligned indices, Nat.count_eq_card_filter_range,
    Nat.count_eq_card_filter_range, Nat.add_comm]
  exact parts

end IBaseMessage

namespace I7580Message

variable {m : I7580Message} {msg : IBaseMessage} {stray : Nat → UInt8}

/-- The buffer after a call of `setData` holds the bytes that are sent. -/
theorem gathered_setData (small : msg.size < intValues) :
    ∃ packed, m.setData (some msg) = some packed ∧ Gathered msg.Sent msg.bytes msg.size packed.buffer := by
  have gathered : Gathered msg.Sent msg.bytes (min msg.size intValues)
      (countedLoop intValues msg.size (packByte msg) []) := by
    refine countedLoop_induction (fun i buffer => Gathered msg.Sent msg.bytes i buffer) gathered_nil ?_
    intro i buffer inside _ gathered
    unfold packByte
    by_cases hole : msg.Aligned i
    · rw [if_pos hole]
      exact gathered.skip (not_not.mpr hole)
    · rw [if_neg hole]
      refine gathered.push hole ?_
      rw [List.getD_eq_getElem?_getD, List.getElem?_eq_getElem inside]
      rfl
  rw [Nat.min_eq_left (Nat.le_of_lt small)] at gathered
  exact ⟨_, if_pos small, gathered⟩

/-- The state of the loop of `getStruct` after `i` iterations. -/
structure Copied (m : I7580Message) (stray : Nat → UInt8) (msg : IBaseMessage) (i : Nat) (s : Copy) :
    Prop where
  offset : s.offset = Nat.count msg.Sent i
  reads : s.reads = List.range (Nat.count msg.Sent i)
  spread : Spread msg.Sent (m.charAt stray) msg.bytes i s.bytes

theorem Copied.step {i : Nat} {s : Copy} (copied : Copied m stray msg i s) (inside : i < msg.size)
    (small : i < intValues) : Copied m stray msg (i + 1) (m.unpackByte stray msg s i) := by
  unfold unpackByte
  by_cases hole : msg.Aligned i
  · have next : Nat.count msg.Sent (i + 1) = Nat.count msg.Sent i :=
      Nat.count_succ_eq_count_iff.mpr (not_not.mpr hole)
    rw [if_pos hole]
    refine ⟨?_, ?_, copied.spread.skip (not_not.mpr hole)⟩
    · rw [next]
      exact copied.offset
    · rw [next]
      exact copied.reads
  · have kept : msg.Sent i := hole
    have next : Nat.count msg.Sent (i + 1) = Nat.count msg.Sent i + 1 :=
      Nat.count_succ_eq_succ_count_iff.mpr kept
    have few : Nat.count msg.Sent i ≤ i := Nat.count_le _
    unfold intValues at small
    rw [if_neg hole, copied.offset, copied.reads]
    refine ⟨?_, ?_, copied.spread.write kept inside⟩
    · rw [next]
      exact Nat.mod_eq_of_lt (by omega)
    · rw [next, List.range_succ]

theorem copied_getStruct (m : I7580Message) (stray : Nat → UInt8) (msg : IBaseMessage) :
    Copied m stray msg (min msg.size intValues)
      (countedLoop intValues msg.size (m.unpackByte stray msg) ⟨msg.bytes, 0, []⟩) := by
  refine countedLoop_induction (fun i s => Copied m stray msg i s) ?_ ?_
  · exact ⟨(Nat.count_zero _).symm, by rw [Nat.count_zero]; rfl, spread_refl⟩
  · exact fun i s inside small copied => copied.step inside small

def Passes (m : I7580Message) (msg : IBaseMessage) : Prop :=
  m.buffer ≠ [] ∧ sizeSub sizeofSizeT msg.alignedBytes.card ≤ m.size

instance (m : I7580Message) (msg : IBaseMessage) : Decidable (m.Passes msg) :=
  inferInstanceAs (Decidable (_ ∧ _))

theorem not_passes_iff :
    ¬ m.Passes msg ↔ m.buffer = [] ∨ m.size < sizeSub sizeofSizeT msg.alignedBytes.card := by
  rw [Passes, not_and_or, not_not, Nat.not_le]

theorem getStruct_of_passes (stray : Nat → UInt8) (passes : m.Passes msg) :
    ∃ s, Copied m stray msg (min msg.size intValues) s ∧
      m.getStruct stray (some msg) =
        ⟨if msg.size < intValues then some true else none, some { msg with bytes := s.bytes }, s.reads⟩ := by
  refine ⟨_, copied_getStruct m stray msg, ?_⟩
  simp only [getStruct, if_neg passes.1, if_neg (Nat.not_lt.mpr passes.2)]

theorem getStruct_of_not_passes (stray : Nat → UInt8) (fails : ¬ m.Passes msg) :
    m.getStruct stray (some msg) = ⟨some false, some msg, []⟩ := by
  rcases not_passes_iff.mp fails with empty | short
  · simp only [getStruct, if_pos empty]
  · simp only [getStruct, if_pos short, ite_self]

end I7580Message

end Rtl.Protocol
