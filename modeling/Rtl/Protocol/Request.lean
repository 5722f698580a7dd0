import Mathlib.Algebra.Ring.Int.Defs
import Mathlib.Data.Finset.Card
import Rtl.Base.Layout

/-! # Messages of the I7580

A message is a structure of booleans and floats that is sent as raw memory. Its class says
which of its bytes are padding and are not sent. A float is given by its bits.
-/

namespace Rtl.Protocol

open Rtl.Base

inductive MessageType where
  | testStruct
  | messageStruct
  | responseStruct
  deriving Repr, DecidableEq

/-- `Request::IBaseMessage`: `data()` and `raw()` are the address of the memory, which has
`size()` bytes. -/
structure IBaseMessage where
  type : MessageType
  bytes : List UInt8
  /-- A `std::set<int32_t>`. -/
  alignedBytes : Finset Int
  int32 : ∀ b ∈ alignedBytes, -2 ^ 31 ≤ b ∧ b < 2 ^ 31
  deriving DecidableEq

namespace IBaseMessage

def size (msg : IBaseMessage) : Nat := msg.bytes.length

def Aligned (msg : IBaseMessage) (i : Nat) : Prop := (i : Int) ∈ msg.alignedBytes

instance (msg : IBaseMessage) (i : Nat) : Decidable (msg.Aligned i) :=
  inferInstanceAs (Decidable ((i : Int) ∈ msg.alignedBytes))

end IBaseMessage

/-! ## Requests -/

structure MessageStruct.Data where
  calibrationStart : Bool := true
  zeroPositioningStart : Bool := true
  measuringStart : Bool := false
  abortMeasure : Bool := true
  faultReset : Bool := false
  saveMeasurements : Bool := true
  newDataTransfer : Bool := true
  /-- 101.228 -/
  scanLength : UInt32 := 0x42ca74bc
  /-- 200 -/
  calibrationDiameter : UInt32 := 0x43480000
  deriving Repr, DecidableEq

/-- The fields and what happens to be in the padding. -/
structure MessageStruct where
  fields : MessageStruct.Data := {}
  pad : Nat → UInt8

namespace MessageStruct

def Data.members (order : ByteOrder) (d : Data) : List Member :=
  [.bool d.calibrationStart, .bool d.zeroPositioningStart, .bool d.measuringStart,
    .bool d.abortMeasure, .bool d.faultReset, .bool d.saveMeasurements, .bool d.newDataTransfer,
    .word order d.scanLength, .word order d.calibrationDiameter]

def alignedBytes : Finset Int := {7}

theorem alignedBytes_int32 : ∀ b ∈ alignedBytes, -2 ^ 31 ≤ b ∧ b < 2 ^ 31 := by decide

def message (order : ByteOrder) (m : MessageStruct) : IBaseMessage where
  type := .messageStruct
  bytes := represent m.pad (m.fields.members order)
  alignedBytes := alignedBytes
  int32 := alignedBytes_int32

/-- Where the compiler puts the fields. -/
theorem Data.represent_eq (order : ByteOrder) (pad : Nat → UInt8) (d : Data) :
    represent pad (d.members order) =
      [d.calibrationStart.toUInt8, d.zeroPositioningStart.toUInt8, d.measuringStart.toUInt8,
        d.abortMeasure.toUInt8, d.faultReset.toUInt8, d.saveMeasurements.toUInt8,
        d.newDataTransfer.toUInt8, pad 7,
        order.byte d.scanLength 0, order.byte d.scanLength 1, order.byte d.scanLength 2,
        order.byte d.scanLength 3,
        order.byte d.calibrationDiameter 0, order.byte d.calibrationDiameter 1,
        order.byte d.calibrationDiameter 2, order.byte d.calibrationDiameter 3] := by
  simp [represent, layout, padding, gap, Data.members, Member.bool, Member.word]

/-- The memory is that of a message with these fields. -/
def Data.Stored (order : ByteOrder) (d : Data) (bytes : List UInt8) : Prop :=
  ∃ pad, bytes = represent pad (d.members order)

end MessageStruct

/-! ## Responses -/

structure ResponseStruct.Data where
  calibrationRunning : Bool := false
  calibrationCompleted : Bool := false
  calibrationError : Bool := false
  zeroPositioningRunning : Bool := false
  zeroPositioningCompleted : Bool := false
  zeroPositioningError : Bool := false
  measuringRunning : Bool := false
  measuringError : Bool := false
  measuringCompleted : Bool := false
  measuringAborted : Bool := false
  systemInFaultCondition : Bool := false
  saveMeasurementsRunning : Bool := false
  saveMeasurementsCompleted : Bool := false
  saveMeasurementsError : Bool := false
  dataTransferRead : Bool := false
  diameterMin : UInt32 := 0
  diameterMax : UInt32 := 0
  diameterAvg : UInt32 := 0
  chamferWidthMin : UInt32 := 0
  chamferWidthMax : UInt32 := 0
  chamferWidthAvg : UInt32 := 0
  circularityMin : UInt32 := 0
  circularityMax : UInt32 := 0
  circularityAvg : UInt32 := 0
  bevelLevelOfChamfersMin : UInt32 := 0
  bevelLevelOfChamfersMax : UInt32 := 0
  bevelLevelOfChamfersAvg : UInt32 := 0
  bandHeightMin : UInt32 := 0
  bandHeightMax : UInt32 := 0
  bandHeightAvg : UInt32 := 0
  deriving Repr, DecidableEq

structure ResponseStruct where
  fields : ResponseStruct.Data := {}
  pad : Nat → UInt8

namespace ResponseStruct

def Data.members (order : ByteOrder) (d : Data) : List Member :=
  [.bool d.calibrationRunning, .bool d.calibrationCompleted, .bool d.calibrationError,
    .bool d.zeroPositioningRunning, .bool d.zeroPositioningCompleted, .bool d.zeroPositioningError,
    .bool d.measuringRunning, .bool d.measuringError, .bool d.measuringCompleted,
    .bool d.measuringAborted, .bool d.systemInFaultCondition, .bool d.saveMeasurementsRunning,
    .bool d.saveMeasurementsCompleted, .bool d.saveMeasurementsError, .bool d.dataTransferRead,
    .word order d.diameterMin, .word order d.diameterMax, .word order d.diameterAvg,
    .word order d.chamferWidthMin, .word order d.chamferWidthMax, .word order d.chamferWidthAvg,
    .word order d.circularityMin, .word order d.circularityMax, .word order d.circularityAvg,
    .word order d.bevelLevelOfChamfersMin, .word order d.bevelLevelOfChamfersMax,
    .word order d.bevelLevelOfChamfersAvg, .word order d.bandHeightMin, .word order d.bandHeightMax,
    .word order d.bandHeightAvg]

def alignedBytes : Finset Int := {16}

theorem alignedBytes_int32 : ∀ b ∈ alignedBytes, -2 ^ 31 ≤ b ∧ b < 2 ^ 31 := by decide

def message (order : ByteOrder) (r : ResponseStruct) : IBaseMessage where
  type := .responseStruct
  bytes := represent r.pad (r.fields.members order)
  alignedBytes := alignedBytes
  int32 := alignedBytes_int32

/-- Byte 15 is padding and byte 16 is the first of the first float. -/
theorem Data.represent_at (order : ByteOrder) (pad : Nat → UInt8) (d : Data) :
    (represent pad (d.members order)).length = 76 ∧
      (represent pad (d.members order))[15]? = some (pad 15) ∧
      (represent pad (d.members order))[16]? = some (order.byte d.diameterMin 0) := by
  simp [represent, layout, padding, gap, Data.members, Member.bool, Member.word]

def Data.Stored (order : ByteOrder) (d : Data) (bytes : List UInt8) : Prop :=
  ∃ pad, bytes = represent pad (d.members order)

theorem Data.Stored.unique {order : ByteOrder} {d d' : Data} {bytes : List UInt8}
    (h : d.Stored order bytes) (h' : d'.Stored order bytes) : d = d' := by
  obtain ⟨pad, rfl⟩ := h
  obtain ⟨pad', same⟩ := h'
  have shapes : (d.members order).map Member.shape = (d'.members order).map Member.shape := rfl
  have fields := represent_inj shapes same
  simp only [Data.members, List.cons.injEq, Member.bool_inj, Member.word_inj, and_true] at fields
  cases d
  cases d'
  simpa using fields

end ResponseStruct

end Rtl.Protocol
