import Mathlib.Algebra.Group.Nat.Defs
import Mathlib.Algebra.Ring.Int.Defs
import Rtl.Core.Config

/-! # Numbers of the configuration

A document holds integers of 64 bits. `getInt` and the port take the lower 32 bits of one
before anything is tested, the other settings take them after the sign was tested. A number
that needs more bits is then read as another one, which may or may not be the default.
-/

namespace Rtl.Core

open Rtl.Base
open Rtl.Ws (Json)

def storedInteger : Json → Option Int
  | .numberInteger value => some value.toInt
  | .numberUnsigned value => some value.toNat
  | _ => none

/-- A value read from a node is the integer the node holds, or the default. -/
def ExactOrDefault (node : Option Json) (result default : Int) : Prop :=
  node.bind storedInteger = some result ∨ result = default

def serverSection (rawConfig : Json) : Json := (rawConfig.find "server").getD .null

inductive Setting where
  | requestTimeoutMs | readTimeoutMs | writeTimeoutMs | maxConnections
deriving DecidableEq, Repr

namespace Setting

def key : Setting → String
  | requestTimeoutMs => "request_timeout_ms"
  | readTimeoutMs => "read_timeout_ms"
  | writeTimeoutMs => "write_timeout_ms"
  | maxConnections => "max_connections"

def value (c : Config) : Setting → UInt32
  | requestTimeoutMs => c.requestTimeoutMs
  | readTimeoutMs => c.readTimeoutMs
  | writeTimeoutMs => c.writeTimeoutMs
  | maxConnections => c.maxConnections

end Setting

/-! ## Conversions -/

theorem isNumberInteger_eq (node : Json) : isNumberInteger node = (storedInteger node).isSome := by
  cases node <;> rfl

theorem toInt_getInt32 {node : Json} {i : Int} (stored : storedInteger node = some i) :
    (getInt32 node).toInt = i.bmod (2 ^ 32) := by
  cases node with
  | numberInteger value =>
      cases stored
      exact Int64.toInt_toInt32 value
  | numberUnsigned value =>
      cases stored
      change value.toUInt32.toBitVec.toInt = _
      rw [BitVec.toInt_eq_toNat_bmod, UInt32.toNat_toBitVec, UInt64.toNat_toUInt32]
      exact Int.emod_bmod (value.toNat : Int) (2 ^ 32)
  | _ => cases stored

theorem toInt_getInt64 {node : Json} {i : Int} (stored : storedInteger node = some i) :
    (getInt64 node).toInt = i.bmod (2 ^ 64) := by
  cases node with
  | numberInteger value =>
      cases stored
      have upper := value.toInt_lt
      have lower := value.le_toInt
      have fits : value.toInt.bmod (2 ^ 64) = value.toInt :=
        Int.bmod_eq_of_le (by omega) (by omega)
      exact fits.symm
  | numberUnsigned value =>
      cases stored
      change value.toBitVec.toInt = _
      rw [BitVec.toInt_eq_toNat_bmod, UInt64.toNat_toBitVec]
  | _ => cases stored

/-- The integers a node can hold. -/
theorem storedInteger_bounds {node : Json} {i : Int} (stored : storedInteger node = some i) :
    -2 ^ 63 ≤ i ∧ i < 2 ^ 64 := by
  cases node with
  | numberInteger value =>
      cases stored
      have upper := value.toInt_lt
      have lower := value.le_toInt
      omega
  | numberUnsigned value =>
      cases stored
      have upper := value.toNat_lt
      omega
  | _ => cases stored

theorem bmod_eq_self_iff (i : Int) : i.bmod (2 ^ 32) = i ↔ -2 ^ 31 ≤ i ∧ i < 2 ^ 31 := by
  rw [Int.bmod_eq_iff (by decide)]
  omega

/-- A value of 64 bits that is not negative keeps its lower 32 bits. -/
theorem toNat_setting {v : Int64} (nonneg : 0 ≤ v) :
    (v.toUInt64.toUInt32.toNat : Int) = v.toInt % 2 ^ 32 := by
  have value : (v.toUInt64.toNat : Int) = v.toInt := by
    rw [Int64.toNat_toUInt64_of_le nonneg]
    exact Int.toNat_of_nonneg (Int64.le_iff_toInt_le.mp nonneg)
  rw [UInt64.toNat_toUInt32]
  omega

/-- A port in range is kept as it is. -/
theorem toNat_port {v : Int32} (pos : 0 < v) (small : v ≤ 65535) :
    (v.toUInt32.toUInt16.toNat : Int) = v.toInt := by
  have pos' : (0 : Int) < v.toInt := Int32.lt_iff_toInt_lt.mp pos
  have small' : v.toInt ≤ 65535 := Int32.le_iff_toInt_le.mp small
  have nonneg : 0 ≤ v.toInt := by omega
  have value : (v.toUInt32.toNat : Int) = v.toInt := by
    rw [Int32.toNat_toUInt32_of_le (Int32.le_iff_toInt_le.mpr nonneg)]
    exact Int.toNat_of_nonneg nonneg
  rw [UInt32.toNat_toUInt16]
  omega

/-! ## What is read -/

/-- What the readers have in common: a node with an integer is read, any other node, or none,
leaves the value there was. -/
def readInteger {α : Type} (node : Option Json) (read : Json → α) (current : α) : α :=
  match node with
  | some j => if isNumberInteger j then read j else current
  | none => current

/-- A reader is exact up to defaults if and only if it is on the integer that is stored. -/
theorem exactOrDefault_readInteger_iff {α : Type} {read : Json → α} {current : α}
    (toInt : α → Int) {fits : Int → Prop} (node : Option Json)
    (present : ∀ j i, storedInteger j = some i →
      (i = toInt (read j) ∨ toInt (read j) = toInt current ↔ fits i)) :
    ExactOrDefault node (toInt (readInteger node read current)) (toInt current) ↔
      ∀ i, node.bind storedInteger = some i → fits i := by
  unfold ExactOrDefault readInteger
  cases node with
  | none => simp
  | some j =>
      cases stored : storedInteger j with
      | none => simp [isNumberInteger_eq, stored]
      | some i => simp [isNumberInteger_eq, stored, present j i stored]

theorem getInt_eq (c : Config) (k : String) (d : Int32) :
    c.getInt k d = readInteger (c.findNode k) getInt32 d := by
  unfold Config.getInt
  cases c.findNode k <;> rfl

theorem readPort_eq (server : Json) (current : UInt16) :
    readPort server current =
      readInteger (server.find "port")
        (fun j => if 0 < getInt32 j ∧ getInt32 j ≤ 65535 then (getInt32 j).toUInt32.toUInt16
          else current) current := by
  unfold readPort
  cases server.find "port" <;> rfl

theorem readSetting_eq (server : Json) (key : String) (current : UInt32) :
    readSetting server key current =
      readInteger (server.find key)
        (fun j => if 0 ≤ getInt64 j then (getInt64 j).toUInt64.toUInt32 else current) current := by
  unfold readSetting
  cases server.find key <;> rfl

theorem getInt_exact_iff (c : Config) (k : String) (d : Int32) :
    ExactOrDefault (c.findNode k) (c.getInt k d).toInt d.toInt ↔
      ∀ i, (c.findNode k).bind storedInteger = some i →
        (-2 ^ 31 ≤ i ∧ i < 2 ^ 31) ∨ i.bmod (2 ^ 32) = d.toInt := by
  rw [getInt_eq]
  refine exactOrDefault_readInteger_iff Int32.toInt _ ?_
  intro j i stored
  rw [toInt_getInt32 stored, ← bmod_eq_self_iff i, eq_comm (a := i)]

theorem readPort_exact_iff (server : Json) (current : UInt16) :
    ExactOrDefault (server.find "port") (readPort server current).toNat current.toNat ↔
      ∀ i, (server.find "port").bind storedInteger = some i →
        (-2 ^ 31 ≤ i ∧ i < 2 ^ 31) ∨ ¬ (0 < i.bmod (2 ^ 32) ∧ i.bmod (2 ^ 32) ≤ 65535) ∨
          i.bmod (2 ^ 32) = current.toNat := by
  rw [readPort_eq]
  refine exactOrDefault_readInteger_iff (fun port : UInt16 => (port.toNat : Int)) _ ?_
  intro j i stored
  have lower := toInt_getInt32 stored
  have pos : 0 < getInt32 j ↔ 0 < i.bmod (2 ^ 32) := by
    rw [Int32.lt_iff_toInt_lt, lower]
    rfl
  have small : getInt32 j ≤ 65535 ↔ i.bmod (2 ^ 32) ≤ 65535 := by
    rw [Int32.le_iff_toInt_le, lower]
    rfl
  by_cases range : 0 < getInt32 j ∧ getInt32 j ≤ 65535
  · rw [if_pos range, toNat_port range.1 range.2, lower, ← bmod_eq_self_iff i, eq_comm (a := i)]
    have range' : 0 < i.bmod (2 ^ 32) ∧ i.bmod (2 ^ 32) ≤ 65535 :=
      ⟨pos.mp range.1, small.mp range.2⟩
    simp only [range', and_self, not_true_eq_false, false_or]
  · rw [if_neg range]
    have range' : ¬ (0 < i.bmod (2 ^ 32) ∧ i.bmod (2 ^ 32) ≤ 65535) :=
      fun h => range ⟨pos.mpr h.1, small.mpr h.2⟩
    simp only [range', not_false_eq_true, true_or, or_true]

theorem readSetting_exact_iff (server : Json) (key : String) (current : UInt32) :
    ExactOrDefault (server.find key) (readSetting server key current).toNat current.toNat ↔
      ∀ i, (server.find key).bind storedInteger = some i →
        i < 2 ^ 32 ∨ 2 ^ 63 ≤ i ∨ i % 2 ^ 32 = current.toNat := by
  rw [readSetting_eq]
  refine exactOrDefault_readInteger_iff (fun value : UInt32 => (value.toNat : Int)) _ ?_
  intro j i stored
  have bounds := storedInteger_bounds stored
  have value := toInt_getInt64 stored
  rw [Int.bmod_def] at value
  by_cases nonneg : 0 ≤ getInt64 j
  · have nonneg' : 0 ≤ (getInt64 j).toInt := Int64.le_iff_toInt_le.mp nonneg
    rw [if_pos nonneg, toNat_setting nonneg]
    split at value <;> omega
  · have neg : ¬ 0 ≤ (getInt64 j).toInt := fun h => nonneg (Int64.le_iff_toInt_le.mpr h)
    rw [if_neg nonneg]
    split at value <;> omega

/-! ## The section of the server -/

/-- Without a section that is an object, every reader leaves its value. -/
theorem parseServerConfig_eq (c : Config) (rawConfig : Json) :
    c.parseServerConfig rawConfig =
      let server := serverSection rawConfig
      { c with
        serverHost := readHost server c.serverHost
        serverPort := readPort server c.serverPort
        requestTimeoutMs := readSetting server "request_timeout_ms" c.requestTimeoutMs
        readTimeoutMs := readSetting server "read_timeout_ms" c.readTimeoutMs
        writeTimeoutMs := readSetting server "write_timeout_ms" c.writeTimeoutMs
        maxConnections := readSetting server "max_connections" c.maxConnections } := by
  unfold Config.parseServerConfig serverSection
  cases rawConfig.find "server" with
  | none => rfl
  | some server => cases server <;> rfl

theorem serverPort_initConfig (rawConfig : Json) :
    (Config.initConfig (some rawConfig)).serverPort = readPort (serverSection rawConfig) 228 := by
  simp only [Config.initConfig, parseServerConfig_eq]

theorem value_initConfig (rawConfig : Json) (s : Setting) :
    s.value (Config.initConfig (some rawConfig)) =
      readSetting (serverSection rawConfig) s.key (s.value {}) := by
  cases s <;> simp only [Config.initConfig, parseServerConfig_eq, Setting.value, Setting.key]

/-- What is read is the integer of the document or the default if and only if that integer
fits the conversion made before the test, or comes out of it as the default, or as a number
that is not taken. -/
theorem config_numbers_exact_iff (c : Config) (k : String) (d : Int32) (rawConfig : Json)
    (s : Setting) :
    (ExactOrDefault (c.findNode k) (c.getInt k d).toInt d.toInt ↔
      ∀ i, (c.findNode k).bind storedInteger = some i →
        (-2 ^ 31 ≤ i ∧ i < 2 ^ 31) ∨ i.bmod (2 ^ 32) = d.toInt) ∧
    (ExactOrDefault ((serverSection rawConfig).find "port")
        (Config.initConfig (some rawConfig)).serverPort.toNat ({} : Config).serverPort.toNat ↔
      ∀ i, ((serverSection rawConfig).find "port").bind storedInteger = some i →
        (-2 ^ 31 ≤ i ∧ i < 2 ^ 31) ∨ ¬ (0 < i.bmod (2 ^ 32) ∧ i.bmod (2 ^ 32) ≤ 65535) ∨
          i.bmod (2 ^ 32) = ({} : Config).serverPort.toNat) ∧
    (ExactOrDefault ((serverSection rawConfig).find s.key)
        (s.value (Config.initConfig (some rawConfig))).toNat (s.value {}).toNat ↔
      ∀ i, ((serverSection rawConfig).find s.key).bind storedInteger = some i →
        i < 2 ^ 32 ∨ 2 ^ 63 ≤ i ∨ i % 2 ^ 32 = (s.value {}).toNat) := by
  refine ⟨getInt_exact_iff c k d, ?_, ?_⟩
  · rw [serverPort_initConfig]
    exact readPort_exact_iff (serverSection rawConfig) 228
  · rw [value_initConfig]
    exact readSetting_exact_iff (serverSection rawConfig) s.key (s.value {})

/-- The port and the first timeout are the largest that fit, the next is the smallest that
counts as negative. -/
def narrowConfig : Json :=
  .object [("server", .object [("port", .numberUnsigned 65535),
    ("request_timeout_ms", .numberUnsigned 4294967295),
    ("read_timeout_ms", .numberUnsigned 9223372036854775808)])]

theorem config_numbers_exact_narrow :
    ExactOrDefault ((serverSection narrowConfig).find "port")
      (Config.initConfig (some narrowConfig)).serverPort.toNat 228 ∧
    ExactOrDefault ((serverSection narrowConfig).find "request_timeout_ms")
      (Config.initConfig (some narrowConfig)).requestTimeoutMs.toNat 5000 ∧
    ExactOrDefault ((serverSection narrowConfig).find "read_timeout_ms")
      (Config.initConfig (some narrowConfig)).readTimeoutMs.toNat 5000 ∧
    (Config.initConfig (some narrowConfig)).serverPort = 65535 ∧
    (Config.initConfig (some narrowConfig)).requestTimeoutMs = 4294967295 ∧
    (Config.initConfig (some narrowConfig)).readTimeoutMs = 5000 := by
  obtain ⟨_, port, request⟩ := config_numbers_exact_iff {} "" 0 narrowConfig .requestTimeoutMs
  obtain ⟨_, _, read⟩ := config_numbers_exact_iff {} "" 0 narrowConfig .readTimeoutMs
  refine ⟨port.mpr ?_, request.mpr ?_, read.mpr ?_, by decide, by decide, by decide⟩
  · intro i stored
    cases stored
    exact .inl ⟨by decide, by decide⟩
  · intro i stored
    cases stored
    exact .inl (by decide)
  · intro i stored
    cases stored
    exact .inr (.inl (by decide))

/-- A port and a timeout whose lower 32 bits are another port and another timeout. -/
def wideConfig : Json :=
  .object [("server", .object [("port", .numberUnsigned 4294967376),
    ("request_timeout_ms", .numberUnsigned 4294967297)])]

theorem config_numbers_wrap :
    (Config.initConfig (some wideConfig)).serverPort = 80 ∧
    ¬ ExactOrDefault ((serverSection wideConfig).find "port")
      (Config.initConfig (some wideConfig)).serverPort.toNat 228 ∧
    (Config.initConfig (some wideConfig)).requestTimeoutMs = 1 ∧
    ¬ ExactOrDefault ((serverSection wideConfig).find "request_timeout_ms")
      (Config.initConfig (some wideConfig)).requestTimeoutMs.toNat 5000 ∧
    (Config.initConfig (some wideConfig)).getInt "server.port" 0 = 80 ∧
    ¬ ExactOrDefault ((Config.initConfig (some wideConfig)).findNode "server.port")
      ((Config.initConfig (some wideConfig)).getInt "server.port" 0).toInt 0 := by
  have key : segments "server.port" = ["server", "port"] := by
    simp [segments, segmentsOf, getline]
  have node : (Config.initConfig (some wideConfig)).findNode "server.port" =
      some (.numberUnsigned 4294967376) := by
    unfold Config.findNode
    rw [key]
    rfl
  have read : (Config.initConfig (some wideConfig)).getInt "server.port" 0 = 80 := by
    unfold Config.getInt
    rw [node]
    decide
  refine ⟨by decide, by unfold ExactOrDefault; decide, by decide,
    by unfold ExactOrDefault; decide, read, ?_⟩
  rw [read, node]
  unfold ExactOrDefault
  decide

end Rtl.Core
