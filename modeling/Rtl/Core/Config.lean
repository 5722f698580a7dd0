import Rtl.Base.Paths
import Rtl.Ws.Json

/-! # The configuration

`Config` keeps the document it was read from, and the settings of the server, which are
taken out of the document once. Other code reads and replaces values of the document
under keys whose segments are separated by dots.
-/

namespace Rtl.Core

open Rtl.Base
open Rtl.Ws (Json)

/-! ## Keys -/

/-- `std::getline` with a delimiter: the characters before it, and what is left behind it.
It fails when there is nothing left. -/
def getline (delimiter : Char) (input : List Char) : Option (List Char × List Char) :=
  if input.isEmpty then none
  else some (input.takeWhile (· ≠ delimiter), (input.dropWhile (· ≠ delimiter)).tail)

theorem getline_rest_lt {delimiter : Char} {input segment rest : List Char}
    (h : getline delimiter input = some (segment, rest)) : rest.length < input.length := by
  unfold getline at h
  split at h
  · cases h
  · next some =>
      cases h
      have pos : 0 < input.length := by
        rw [List.isEmpty_iff] at some
        exact List.length_pos_iff.mpr some
      have shorter := (List.dropWhile_sublist (fun c => decide (c ≠ delimiter)) (l := input)).length_le
      rw [List.length_tail]
      omega

def segmentsOf (input : List Char) : List String :=
  match _ : getline '.' input with
  | none => []
  | some (segment, rest) => String.ofList segment :: segmentsOf rest
termination_by input.length
decreasing_by exact getline_rest_lt ‹_›

def segments (dottedKey : String) : List String := segmentsOf dottedKey.toList

/-! ## Nodes -/

def isNull : Json → Bool
  | .null => true
  | _ => false

def modifyField (key : String) (f : Json → Json) : List (String × Json) → List (String × Json)
  | [] => []
  | (k, value) :: rest =>
      if key = k then (k, f value) :: rest else (k, value) :: modifyField key f rest

def modifyChild (j : Json) (key : String) (f : Json → Json) : Json :=
  match j with
  | .object fields => .object (modifyField key f fields)
  | j => j

theorem lookup_modifyField (key key' : String) (f : Json → Json) (fields : List (String × Json)) :
    (modifyField key f fields).lookup key' =
      if key' = key then (fields.lookup key').map f else fields.lookup key' := by
  induction fields with
  | nil => simp [modifyField]
  | cons field rest ih =>
      obtain ⟨k, value⟩ := field
      unfold modifyField
      by_cases here : key = k
      · subst here
        rw [if_pos rfl, Json.lookup_cons_ite, Json.lookup_cons_ite]
        by_cases same : key' = key
        · rw [if_pos same, if_pos same, if_pos same, Option.map_some]
        · rw [if_neg same, if_neg same, if_neg same]
      · rw [if_neg here, Json.lookup_cons_ite, ih, Json.lookup_cons_ite]
        by_cases first : key' = k
        · have other : ¬ key' = key := fun same => here (same.symm.trans first)
          rw [if_pos first, if_pos first, if_neg other]
        · rw [if_neg first, if_neg first]

/-- A JSON value as a tree: `find`, on objects only. -/
def jsonTree : Children Json String where
  child := Json.find
  modify := modifyChild
  child_modify j key f := by
    cases j with
    | object fields =>
        exact (lookup_modifyField key key f fields).trans (if_pos rfl)
    | _ => rfl
  child_modify_ne j key key' f other := by
    cases j with
    | object fields =>
        exact (lookup_modifyField key key' f fields).trans (if_neg other)
    | _ => rfl

/-! ## Numbers -/

def isNumberInteger : Json → Bool
  | .numberInteger _ => true
  | .numberUnsigned _ => true
  | _ => false

def getInt32 : Json → Int32
  | .numberInteger value => value.toInt32
  | .numberUnsigned value => value.toUInt32.toInt32
  | _ => 0

def getInt64 : Json → Int64
  | .numberInteger value => value
  | .numberUnsigned value => value.toInt64
  | _ => 0

/-! ## The class -/

structure Config where
  serverHost : String := "127.0.0.1"
  serverPort : UInt16 := 228
  requestTimeoutMs : UInt32 := 5000
  readTimeoutMs : UInt32 := 5000
  writeTimeoutMs : UInt32 := 5000
  maxConnections : UInt32 := 1024
  rawConfig : Json := .null
  initStatus : Bool := false

/-- A setting of 32 bits: a non-negative integer replaces it. -/
def readSetting (server : Json) (key : String) (current : UInt32) : UInt32 :=
  match server.find key with
  | some node =>
      if isNumberInteger node then
        let v := getInt64 node
        if 0 ≤ v then v.toUInt64.toUInt32 else current
      else current
  | none => current

def readPort (server : Json) (current : UInt16) : UInt16 :=
  match server.find "port" with
  | some node =>
      if isNumberInteger node then
        let parsedPort := getInt32 node
        if 0 < parsedPort ∧ parsedPort ≤ 65535 then parsedPort.toUInt32.toUInt16 else current
      else current
  | none => current

def readHost (server : Json) (current : String) : String :=
  match server.find "host" with
  | some (.string value) => value
  | _ => current

namespace Config

def parseServerConfig (c : Config) (rawConfig : Json) : Config :=
  match rawConfig.find "server" with
  | some server =>
      if server.isObject then
        { c with
          serverHost := readHost server c.serverHost
          serverPort := readPort server c.serverPort
          requestTimeoutMs := readSetting server "request_timeout_ms" c.requestTimeoutMs
          readTimeoutMs := readSetting server "read_timeout_ms" c.readTimeoutMs
          writeTimeoutMs := readSetting server "write_timeout_ms" c.writeTimeoutMs
          maxConnections := readSetting server "max_connections" c.maxConnections }
      else c
  | none => c

/-- `initConfig` on the document of the file; none if it cannot be read or parsed. -/
def initConfig (document : Option Json) : Config :=
  match document with
  | none => {}
  | some rawConfig => { ({ rawConfig } : Config).parseServerConfig rawConfig with initStatus := true }

def findNode (c : Config) (dottedKey : String) : Option Json :=
  if isNull c.rawConfig then none else jsonTree.walk c.rawConfig (segments dottedKey)

def getInt (c : Config) (dottedKey : String) (defaultValue : Int32) : Int32 :=
  match c.findNode dottedKey with
  | some node => if isNumberInteger node then getInt32 node else defaultValue
  | none => defaultValue

/-- Whether the value was replaced, and the configuration afterwards. -/
def setValue (c : Config) (dottedKey : String) (value : Json) : Bool × Config :=
  match c.findNode dottedKey with
  | none => (false, c)
  | some _ =>
      (true, { c with rawConfig := jsonTree.assign c.rawConfig (segments dottedKey) value })

end Config

end Rtl.Core
