import Rtl.Protocol.RoundTrip
import Rtl.Protocol.Truncation

/-! # Messages from one end to the other

A message is packed, sent over the channel, received and unpacked into a message of its class. The class
says how many bytes its messages have and which of them are not sent. Which classes come through whole
does not depend on what is in a message: the bytes that are left out have to be no part of a member, the
frame has to fit into a packet, and the test of `getStruct` has to let it pass.
-/

namespace Rtl.Protocol

open Rtl.Base

structure MessageClass where
  size : Nat
  alignedBytes : Finset Int
  small : size < intValues
  indices : ∀ b ∈ alignedBytes, 0 ≤ b ∧ b < size

namespace MessageClass

variable {c : MessageClass}

structure Has (c : MessageClass) (msg : IBaseMessage) : Prop where
  size : msg.size = c.size
  alignedBytes : msg.alignedBytes = c.alignedBytes

def filled (c : MessageClass) (byte : UInt8) : IBaseMessage where
  type := .testStruct
  bytes := List.replicate c.size byte
  alignedBytes := c.alignedBytes
  int32 := by
    intro b mem
    have inside := c.indices b mem
    have small := c.small
    unfold intValues at small
    omega

theorem has_filled (c : MessageClass) (byte : UInt8) : c.Has (c.filled byte) :=
  ⟨by simp [filled, IBaseMessage.size], rfl⟩

theorem Has.sentCount {msg : IBaseMessage} (has : c.Has msg) :
    msg.sentCount + c.alignedBytes.card = c.size := by
  have indices : msg.AlignsIndices := by
    intro b mem
    rw [has.alignedBytes] at mem
    rw [has.size]
    exact c.indices b mem
  have parts := IBaseMessage.sentCount_add_card indices
  rw [has.alignedBytes, has.size, Nat.min_eq_left (Nat.le_of_lt c.small)] at parts
  exact parts

/-- The frames of the class are not empty and pass the test of `getStruct`. -/
def Passable (c : MessageClass) : Prop :=
  8 ≤ c.size ∧ c.alignedBytes.card ≤ 8 ∧ c.alignedBytes.card < c.size

/-- The subtraction in the test wraps around if there are more than eight aligned bytes. -/
theorem sizeSub_le_iff {size card : Nat} (fewer : card ≤ size) (small : size < intValues) :
    (0 < size - card ∧ sizeSub sizeofSizeT card ≤ size - card) ↔ 8 ≤ size ∧ card ≤ 8 ∧ card < size := by
  unfold sizeSub sizeofSizeT
  unfold intValues at small
  by_cases few : card ≤ 8
  · have exact_ : (8 + 2 ^ 64 - card) % 2 ^ 64 = 8 - card := by omega
    rw [exact_]
    omega
  · have wraps : (8 + 2 ^ 64 - card) % 2 ^ 64 = 8 + 2 ^ 64 - card := by omega
    rw [wraps]
    omega

theorem passable_iff {msg : IBaseMessage} (has : c.Has msg) :
    (0 < msg.sentCount ∧ sizeSub sizeofSizeT c.alignedBytes.card ≤ msg.sentCount) ↔ c.Passable := by
  have parts := has.sentCount
  have count : msg.sentCount = c.size - c.alignedBytes.card := by omega
  rw [count]
  exact sizeSub_le_iff (by omega) c.small

end MessageClass

/-- A channel that hands over in one piece what it is given and what fits into a packet. What becomes
of longer messages is left open. -/
structure Link (maxPacketSize : Nat) where
  carry : List UInt8 → Channel
  whole : ∀ bytes, bytes.length ≤ maxPacketSize → (carry bytes).getData maxPacketSize = some bytes

def Link.strict (maxPacketSize : Nat) : Link maxPacketSize where
  carry := .holding
  whole _ fits := if_pos fits

/-- Both ends are initialised. -/
def exchange {maxPacketSize : Nat} (link : Link maxPacketSize) (sent received : I7580Message)
    (stray : Nat → UInt8) (source target : IBaseMessage) : Option Unpacked :=
  (sent.setData (some source)).bind fun packed =>
    match I7580Protocol.sendProtocolMessage ⟨true⟩ (fun _ => true) packed with
    | (some bytes, true) =>
        match I7580Protocol.listenForMessage ⟨true⟩ maxPacketSize (link.carry bytes) (some received) with
        | (true, some arrived) => some (arrived.getStruct stray (some target))
        | _ => none
    | _ => none

section Channel

variable {maxPacketSize : Nat} {link : Link maxPacketSize} {sent received packed : I7580Message}
  {stray : Nat → UInt8} {source target : IBaseMessage}

/-- The channel makes no difference to what fits into a packet. -/
theorem exchange_eq_transfer (packs : sent.setData (some source) = some packed)
    (fits : packed.buffer.length ≤ maxPacketSize) :
    exchange link sent received stray source target = sent.transfer stray source target := by
  simp [exchange, I7580Message.transfer, packs, I7580Protocol.sendProtocolMessage,
    I7580Protocol.listenForMessage, link.whole _ fits, I7580Message.setDataRaw]

theorem exchange_strict_eq_none (packs : sent.setData (some source) = some packed)
    (long : maxPacketSize < packed.buffer.length) :
    exchange (.strict maxPacketSize) sent received stray source target = none := by
  simp [exchange, packs, I7580Protocol.sendProtocolMessage, I7580Protocol.listenForMessage,
    Link.strict, Channel.holding, Nat.not_le.mpr long]

end Channel

/-- The exchange succeeds and the given bytes of the message arrive. -/
def Arrives (members : Finset Nat) (source : IBaseMessage) (outcome : Option Unpacked) : Prop :=
  Restores (fun bytes => ∀ i ∈ members, bytes[i]? = source.bytes[i]?) outcome

variable {c : MessageClass} {members : Finset Nat} {source target : IBaseMessage}

/-- A frame has the bytes that are not left out. -/
theorem MessageClass.Has.packs (has : c.Has source) (m : I7580Message) :
    ∃ packed, m.setData (some source) = some packed ∧
      packed.buffer.length = c.size - c.alignedBytes.card := by
  have small : source.size < intValues := has.size ▸ c.small
  have gathers : ∃ packed, m.setData (some source) = some packed ∧
      Gathered source.Sent source.bytes source.size packed.buffer :=
    I7580Message.gathered_setData small
  obtain ⟨packed, result, gathered⟩ := gathers
  have parts := has.sentCount
  rw [IBaseMessage.sentCount, Nat.min_eq_left (Nat.le_of_lt small)] at parts
  refine ⟨packed, result, ?_⟩
  rw [gathered.length]
  omega

theorem MessageClass.Has.transfer (hasSource : c.Has source) (hasTarget : c.Has target)
    (passable : c.Passable) (m : I7580Message) (stray : Nat → UInt8) :
    ∃ reads, m.transfer stray source target = some ⟨some true,
      some { target with bytes := overlay source.Sent 0 source.bytes target.bytes }, reads⟩ := by
  obtain ⟨sent, enough⟩ := (MessageClass.passable_iff hasSource).mpr passable
  refine I7580Message.transfer_eq ?_ ?_ ?_ sent ?_
  · exact hasSource.size ▸ c.small
  · exact hasTarget.size.trans hasSource.size.symm
  · exact hasTarget.alignedBytes.trans hasSource.alignedBytes.symm
  · rw [hasSource.alignedBytes]
    exact enough

theorem arrives_of_not_aligned (hasSource : c.Has source) (hasTarget : c.Has target)
    (passable : c.Passable) (free : ∀ i ∈ members, (i : Int) ∉ c.alignedBytes) (m : I7580Message)
    (stray : Nat → UInt8) : Arrives members source (m.transfer stray source target) := by
  obtain ⟨reads, result⟩ := hasSource.transfer hasTarget passable m stray
  refine ⟨_, _, result, rfl, rfl, ?_⟩
  intro i mem
  have same : source.bytes.length = target.bytes.length := hasSource.size.trans hasTarget.size.symm
  have sent : source.Sent (0 + i) := by
    rw [Nat.zero_add, IBaseMessage.Sent, IBaseMessage.Aligned, hasSource.alignedBytes]
    exact free i mem
  simp only [getElem?_overlay 0 i same, if_pos sent]

/-- The frame was accepted, so its class is one that passes. -/
theorem passable_of_arrives (hasSource : c.Has source) (hasTarget : c.Has target) {m : I7580Message}
    {stray : Nat → UInt8} (arrives : Arrives members source (m.transfer stray source target)) :
    c.Passable := by
  obtain ⟨packed, result, length⟩ := hasSource.packs m
  have parts := hasSource.sentCount
  obtain ⟨u, after, outcome, returned, _, _⟩ := arrives
  rw [I7580Message.transfer, result, Option.map_some, Option.some.injEq] at outcome
  rw [← outcome] at returned
  obtain ⟨nonempty, enough⟩ := (I7580Message.returned_getStruct.mp returned).1
  have some_sent := List.length_pos_iff.mpr nonempty
  refine (MessageClass.passable_iff hasSource).mp ⟨by omega, ?_⟩
  rw [hasTarget.alignedBytes, I7580Message.size, length] at enough
  omega

/-- What is too long for a packet does not arrive. -/
theorem fits_of_arrives (hasSource : c.Has source) {maxPacketSize : Nat} {m received : I7580Message}
    {stray : Nat → UInt8}
    (arrives : Arrives members source (exchange (.strict maxPacketSize) m received stray source target)) :
    c.size - c.alignedBytes.card ≤ maxPacketSize := by
  obtain ⟨packed, result, length⟩ := hasSource.packs m
  by_contra long
  rw [exchange_strict_eq_none result (by omega)] at arrives
  obtain ⟨u, _, outcome, _⟩ := arrives
  cases outcome

/-- The byte that is left out is not restored: it is one in the source and stays zero in the target. -/
theorem not_aligned_of_arrives (passable : c.Passable) (inside : ∀ i ∈ members, i < c.size)
    (arrives : Arrives members (c.filled 1)
      (I7580Message.transfer {} (fun _ => 0) (c.filled 1) (c.filled 0))) :
    ∀ i ∈ members, (i : Int) ∉ c.alignedBytes := by
  intro i mem aligned
  obtain ⟨reads, result⟩ := (c.has_filled 1).transfer (c.has_filled 0) passable {} (fun _ => 0)
  obtain ⟨u, after, outcome, _, message, stored⟩ := arrives
  rw [result, Option.some.injEq] at outcome
  rw [← outcome, Option.some.injEq] at message
  have byte := stored i mem
  have hole : ¬ (c.filled 1).Sent (0 + i) := by
    rw [Nat.zero_add, IBaseMessage.Sent, not_not]
    exact aligned
  have same : (c.filled 1).bytes.length = (c.filled 0).bytes.length := by simp [MessageClass.filled]
  rw [← message, getElem?_overlay 0 i same, if_neg hole] at byte
  simp [MessageClass.filled, inside i mem] at byte

/-- The messages of a class come through whole, over every channel that hands over whole packets, if and
only if the class has at least eight bytes, leaves out at most eight and not all of them, sends no more
than fits into a packet, and leaves out no byte of a member. -/
theorem exchange_restores_iff (c : MessageClass) (members : Finset Nat) (maxPacketSize : Nat)
    (inside : ∀ i ∈ members, i < c.size) :
    (∀ (link : Link maxPacketSize) sent received stray source target, c.Has source → c.Has target →
      Arrives members source (exchange link sent received stray source target)) ↔
    8 ≤ c.size ∧ c.alignedBytes.card ≤ 8 ∧ c.alignedBytes.card < c.size ∧
      c.size - c.alignedBytes.card ≤ maxPacketSize ∧ ∀ i ∈ members, (i : Int) ∉ c.alignedBytes := by
  constructor
  · intro whole
    have arrives := whole (.strict maxPacketSize) {} {} (fun _ => 0) _ _ (c.has_filled 1) (c.has_filled 0)
    have fits := fits_of_arrives (c.has_filled 1) arrives
    obtain ⟨packed, packs, length⟩ := (c.has_filled 1).packs {}
    rw [exchange_eq_transfer packs (length ▸ fits)] at arrives
    have passable := passable_of_arrives (c.has_filled 1) (c.has_filled 0) arrives
    exact ⟨passable.1, passable.2.1, passable.2.2, fits,
      not_aligned_of_arrives passable inside arrives⟩
  · rintro ⟨long, few, some_sent, fits, free⟩ link sent received stray source target hasSource hasTarget
    obtain ⟨packed, packs, length⟩ := hasSource.packs sent
    rw [exchange_eq_transfer packs (length ▸ fits)]
    exact arrives_of_not_aligned hasSource hasTarget ⟨long, few, some_sent⟩ free sent stray

def requestClass : MessageClass where
  size := 16
  alignedBytes := {7}
  small := by decide
  indices := by decide

theorem exchange_restores_requestClass :
    (∀ i ∈ (Finset.range 16).erase 7, i < requestClass.size) ∧
    ∀ (link : Link 15) sent received stray source target, requestClass.Has source →
      requestClass.Has target →
      Arrives ((Finset.range 16).erase 7) source (exchange link sent received stray source target) :=
  ⟨by decide, (exchange_restores_iff requestClass _ 15 (by decide)).mpr (by decide)⟩

end Rtl.Protocol
