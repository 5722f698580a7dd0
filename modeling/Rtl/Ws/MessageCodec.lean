import Mathlib.Data.String.Basic
import Rtl.Base.KeyedList
import Rtl.Ws.Protocol

/-! # Which JSON values are messages

`json_to_message` fails on a value of the wrong shape, fills in what is missing and
ignores what it does not know. What it accepts, and what is left of a value that is
decoded and encoded again, is stated on the value itself. An object is a `std::map`,
so the keys of a JSON value are in order; only then is it determined by its fields.
-/

namespace Rtl.Ws

open Rtl.Base

namespace Json

def isNull : Json → Bool
  | .null => true
  | _ => false

def isString : Json → Bool
  | .string _ => true
  | _ => false

def KeysInOrder : Json → Prop
  | .object fields => KeysOrdered fields
  | _ => True

theorem mem_insertField {key : String} {value : Json} {fields : List (String × Json)}
    {field : String × Json} (mem : field ∈ insertField key value fields) :
    field = (key, value) ∨ field ∈ fields := by
  induction fields with
  | nil => exact .inl (List.mem_singleton.mp mem)
  | cons first rest ih =>
      obtain ⟨k, v⟩ := first
      unfold insertField at mem
      split at mem
      · rcases List.mem_cons.mp mem with same | old
        · exact .inl same
        · exact .inr (List.mem_cons_of_mem _ old)
      · split at mem
        · exact List.mem_cons.mp mem
        · rcases List.mem_cons.mp mem with same | later
          · exact .inr (same ▸ List.mem_cons_self)
          · exact (ih later).imp_right (List.mem_cons_of_mem _)

theorem keysOrdered_insertField {fields : List (String × Json)} (ordered : KeysOrdered fields)
    (key : String) (value : Json) : KeysOrdered (insertField key value fields) := by
  induction fields with
  | nil => exact List.pairwise_singleton _ _
  | cons field rest ih =>
      obtain ⟨k, v⟩ := field
      obtain ⟨first, later⟩ := List.pairwise_cons.mp ordered
      unfold insertField
      split
      · next same =>
          subst same
          exact List.pairwise_cons.mpr ⟨first, later⟩
      · next other =>
          split
          · next less =>
              refine List.pairwise_cons.mpr ⟨?_, ordered⟩
              intro entry mem
              rcases List.mem_cons.mp mem with rfl | old
              · exact less
              · exact lt_trans less (first _ old)
          · next notLess =>
              have less : k < key := lt_of_le_of_ne (not_lt.mp notLess) (Ne.symm other)
              refine List.pairwise_cons.mpr ⟨?_, ih later⟩
              intro entry mem
              rcases mem_insertField mem with rfl | old
              · exact less
              · exact first _ old

theorem KeysInOrder.set {j : Json} (ordered : j.KeysInOrder) (key : String) (value : Json) :
    (j.set key value).KeysInOrder := by
  cases j with
  | object fields => exact keysOrdered_insertField ordered key value
  | _ => exact List.pairwise_singleton _ _

/-- Objects in order with the same fields are equal. -/
theorem ext_find {j k : Json} (object : j.isObject = true) (object' : k.isObject = true)
    (ordered : j.KeysInOrder) (ordered' : k.KeysInOrder) (same : ∀ key, j.find key = k.find key) :
    j = k := by
  cases j with
  | object fields =>
      cases k with
      | object fields' => exact congrArg Json.object (KeysOrdered.ext_lookup ordered ordered' same)
      | _ => cases object'
  | _ => cases object

def keep (p : String → Json → Bool) : Json → Json
  | .object fields => .object (fields.filter fun field => p field.1 field.2)
  | j => j

theorem KeysInOrder.keep {j : Json} (ordered : j.KeysInOrder) (p : String → Json → Bool) :
    (j.keep p).KeysInOrder := by
  cases j with
  | object fields => exact KeysOrdered.filter ordered _
  | _ => trivial

theorem isObject_keep (p : String → Json → Bool) (j : Json) : (j.keep p).isObject = j.isObject := by
  cases j <;> rfl

theorem find_keep {j : Json} (ordered : j.KeysInOrder) (p : String → Json → Bool) (key : String) :
    (j.keep p).find key = (j.find key).filter (p key) := by
  cases j with
  | object fields => exact KeysOrdered.lookup_filter ordered _ key
  | _ => rfl

def fill (j : Json) (defaults : List (String × Json)) : Json :=
  defaults.foldl (fun j field => if (j.find field.1).isSome then j else j.set field.1 field.2) j

theorem find_fill (j : Json) (defaults : List (String × Json)) (key : String) :
    (j.fill defaults).find key = (j.find key).or (defaults.lookup key) := by
  induction defaults generalizing j with
  | nil => simp [fill]
  | cons field rest ih =>
      obtain ⟨k, value⟩ := field
      rw [fill, List.foldl_cons]
      refine (ih _).trans ?_
      rw [lookup_cons_ite]
      by_cases here : key = k
      · subst here
        cases found : j.find key <;> simp [found]
      · cases found : j.find k <;> simp [here]

theorem KeysInOrder.fill {j : Json} (ordered : j.KeysInOrder) (defaults : List (String × Json)) :
    (j.fill defaults).KeysInOrder := by
  induction defaults generalizing j with
  | nil => exact ordered
  | cons field rest ih =>
      rw [Json.fill, List.foldl_cons]
      apply ih
      split
      · exact ordered
      · exact ordered.set _ _

theorem isObject_fill {j : Json} (object : j.isObject = true) (defaults : List (String × Json)) :
    (j.fill defaults).isObject = true := by
  induction defaults generalizing j with
  | nil => exact object
  | cons field rest ih =>
      rw [fill, List.foldl_cons]
      apply ih
      split
      · exact object
      · exact isObject_set _ _ _

/-! ## Messages among the values -/

def stringFields : List (String × String) :=
  [("id", ""), ("correlation_id", ""), ("kind", "event"), ("ts", ""), ("room", ""), ("type", ""),
    ("sender", ""), ("version", "1")]

def messageFields : List (String × Json) :=
  (stringFields.map fun field => (field.1, .string field.2)) ++
    [("payload", .object []), ("meta", .object [])]

/-- An object whose string fields are absent or strings, and whose error is absent,
null or a string. -/
structure IsMessage (j : Json) : Prop where
  object : j.isObject = true
  strings : ∀ field ∈ stringFields, ∀ value, j.find field.1 = some value → value.isString = true
  error : ∀ value, j.find "error" = some value → value.isNull = true ∨ value.isString = true

def dropUnknown (j : Json) : Json :=
  j.keep fun key _ => key == "error" || (messageFields.lookup key).isSome

def dropNullError (j : Json) : Json := j.keep fun key value => !(key == "error" && value.isNull)

/-- Unknown fields and a null error are dropped, missing fields are filled in. -/
def canonical (j : Json) : Json := j.dropUnknown.dropNullError.fill messageFields

end Json

section Decoding

variable {j : Json} {msg : JsonMessage}

theorem readStringField_eq_some {key target value : String} :
    readStringField j key target = some value ↔
      (j.find key).getD (.string target) = .string value := by
  unfold readStringField
  cases j.find key with
  | none => simp
  | some found => cases found <;> simp

theorem readStringField_isSome {key target : String} :
    (∃ value, readStringField j key target = some value) ↔
      ∀ value, j.find key = some value → value.isString = true := by
  unfold readStringField
  cases j.find key with
  | none => simp
  | some found => cases found <;> simp [Json.isString]

theorem readError_eq_some {error : Option String} :
    readError j = some error ↔
      (j.find "error").filter (fun value => !value.isNull) = error.map .string := by
  unfold readError
  cases j.find "error" with
  | none => cases error <;> simp
  | some found => cases found <;> cases error <;> simp [Json.isNull]

theorem readError_isSome :
    (∃ error, readError j = some error) ↔
      ∀ value, j.find "error" = some value → value.isNull = true ∨ value.isString = true := by
  unfold readError
  cases j.find "error" with
  | none => simp
  | some found => cases found <;> simp [Json.isNull, Json.isString]

structure DecodedFrom (j : Json) (msg : JsonMessage) : Prop where
  object : j.isObject = true
  id : readStringField j "id" "" = some msg.id
  correlationId : readStringField j "correlation_id" "" = some msg.correlationId
  kind : readStringField j "kind" "event" = some msg.kind
  ts : readStringField j "ts" "" = some msg.ts
  room : readStringField j "room" "" = some msg.room
  type : readStringField j "type" "" = some msg.type
  sender : readStringField j "sender" "" = some msg.sender
  version : readStringField j "version" "1" = some msg.version
  error : readError j = some msg.error
  payload : msg.payload = (j.find "payload").getD (.object [])
  metadata : msg.metadata = (j.find "meta").getD (.object [])

theorem jsonToMessage_eq_some : jsonToMessage j = some msg ↔ DecodedFrom j msg := by
  constructor
  · intro decoded
    unfold jsonToMessage at decoded
    split at decoded
    · cases decoded
    · next object =>
        simp only [Option.bind_eq_bind, Option.bind_eq_some_iff, Option.some.injEq] at decoded
        obtain ⟨id, hId, cid, hCid, kind, hKind, ts, hTs, room, hRoom, type, hType, sender, hSender,
          version, hVersion, error, hError, rfl⟩ := decoded
        exact ⟨by simpa using object, hId, hCid, hKind, hTs, hRoom, hType, hSender, hVersion, hError,
          rfl, rfl⟩
  · intro d
    simp [jsonToMessage, d.object, d.id, d.correlationId, d.kind, d.ts, d.room, d.type, d.sender,
      d.version, d.error, ← d.payload, ← d.metadata]

theorem decodes_iff : (∃ msg, jsonToMessage j = some msg) ↔ j.IsMessage := by
  simp only [jsonToMessage_eq_some]
  constructor
  · rintro ⟨msg, d⟩
    refine ⟨d.object, ?_, readError_isSome.mp ⟨_, d.error⟩⟩
    simp only [Json.stringFields, List.forall_mem_cons]
    exact ⟨readStringField_isSome.mp ⟨_, d.id⟩, readStringField_isSome.mp ⟨_, d.correlationId⟩,
      readStringField_isSome.mp ⟨_, d.kind⟩, readStringField_isSome.mp ⟨_, d.ts⟩,
      readStringField_isSome.mp ⟨_, d.room⟩, readStringField_isSome.mp ⟨_, d.type⟩,
      readStringField_isSome.mp ⟨_, d.sender⟩, readStringField_isSome.mp ⟨_, d.version⟩, by simp⟩
  · rintro ⟨object, strings, error⟩
    have read : ∀ field ∈ Json.stringFields, ∃ value, readStringField j field.1 field.2 = some value :=
      fun field mem => readStringField_isSome.mpr (strings field mem)
    simp only [Json.stringFields, List.forall_mem_cons] at read
    obtain ⟨⟨id, hId⟩, ⟨cid, hCid⟩, ⟨kind, hKind⟩, ⟨ts, hTs⟩, ⟨room, hRoom⟩, ⟨type, hType⟩,
      ⟨sender, hSender⟩, ⟨version, hVersion⟩, -⟩ := read
    obtain ⟨err, hErr⟩ := readError_isSome.mpr error
    exact ⟨⟨id, cid, kind, ts, room, type, sender, version, err, _, _⟩, object, hId, hCid, hKind, hTs,
      hRoom, hType, hSender, hVersion, hErr, rfl, rfl⟩

end Decoding

/-! ## What is left after decoding and encoding -/

namespace Json

def setAll (j : Json) (fields : List (String × Json)) : Json :=
  fields.foldl (fun j field => j.set field.1 field.2) j

theorem find_setAll (j : Json) {fields : List (String × Json)} (once : (fields.map Prod.fst).Nodup)
    (key : String) : (j.setAll fields).find key = (fields.lookup key).or (j.find key) := by
  induction fields generalizing j with
  | nil => rfl
  | cons field rest ih =>
      obtain ⟨k, value⟩ := field
      rw [List.map_cons, List.nodup_cons] at once
      rw [setAll, List.foldl_cons]
      refine (ih _ once.2).trans ?_
      rw [find_set, lookup_cons_ite]
      by_cases here : key = k
      · subst here
        have absent : rest.lookup key = none := by
          rw [List.lookup_eq_none_iff]
          intro entry mem
          have other : key ≠ entry.1 := by
            intro same
            exact once.1 (List.mem_map.mpr ⟨entry, mem, same.symm⟩)
          simpa using other
        simp [absent]
      · simp [here]

theorem KeysInOrder.setAll {j : Json} (ordered : j.KeysInOrder) (fields : List (String × Json)) :
    (j.setAll fields).KeysInOrder := by
  induction fields generalizing j with
  | nil => exact ordered
  | cons field rest ih => exact ih (ordered.set field.1 field.2)

end Json

namespace JsonMessage

def strings (msg : JsonMessage) : List (String × Json) :=
  [("id", .string msg.id), ("correlation_id", .string msg.correlationId),
    ("kind", .string msg.kind), ("ts", .string msg.ts), ("room", .string msg.room),
    ("type", .string msg.type), ("sender", .string msg.sender), ("version", .string msg.version)]

def errorField (msg : JsonMessage) : List (String × Json) :=
  (msg.error.map fun error => ("error", .string error)).toList

def values (msg : JsonMessage) : List (String × Json) :=
  [("payload", msg.payload), ("meta", msg.metadata)]

def fields (msg : JsonMessage) : List (String × Json) := msg.strings ++ (msg.errorField ++ msg.values)

theorem fields_once (msg : JsonMessage) : (msg.fields.map Prod.fst).Nodup := by
  cases found : msg.error with
  | none =>
      simp only [fields, strings, errorField, values, found, Option.map_none, Option.toList_none,
        List.cons_append, List.nil_append, List.map_cons, List.map_nil]
      decide
  | some error =>
      simp only [fields, strings, errorField, values, found, Option.map_some, Option.toList_some,
        List.cons_append, List.nil_append, List.map_cons, List.map_nil]
      decide

end JsonMessage

theorem messageToJson_eq (msg : JsonMessage) : messageToJson msg = Json.null.setAll msg.fields := by
  unfold messageToJson JsonMessage.fields JsonMessage.errorField
  cases msg.error <;> rfl

theorem find_messageToJson (msg : JsonMessage) (key : String) :
    (messageToJson msg).find key = msg.fields.lookup key := by
  rw [messageToJson_eq, Json.find_setAll _ msg.fields_once]
  exact Option.or_none

theorem keysInOrder_messageToJson (msg : JsonMessage) : (messageToJson msg).KeysInOrder := by
  rw [messageToJson_eq]
  exact Json.KeysInOrder.setAll (show Json.null.KeysInOrder from trivial) _

theorem isObject_messageToJson (msg : JsonMessage) : (messageToJson msg).isObject = true :=
  Json.isObject_set _ _ _

section Canonical

variable {j : Json} {msg : JsonMessage}

theorem DecodedFrom.fields_eq (d : DecodedFrom j msg) :
    msg.strings ++ msg.values =
      Json.messageFields.map fun field => (field.1, (j.find field.1).getD field.2) := by
  simp only [JsonMessage.strings, JsonMessage.values, Json.messageFields, Json.stringFields,
    List.map_cons, List.map_nil, List.cons_append, List.nil_append,
    readStringField_eq_some.mp d.id, readStringField_eq_some.mp d.correlationId,
    readStringField_eq_some.mp d.kind, readStringField_eq_some.mp d.ts,
    readStringField_eq_some.mp d.room, readStringField_eq_some.mp d.type,
    readStringField_eq_some.mp d.sender, readStringField_eq_some.mp d.version, d.payload, d.metadata]

theorem lookup_errorField (msg : JsonMessage) (key : String) :
    msg.errorField.lookup key = if key = "error" then msg.error.map .string else none := by
  unfold JsonMessage.errorField
  cases msg.error with
  | none => simp
  | some error => simp [Json.lookup_cons_ite]

theorem DecodedFrom.find_canonical (d : DecodedFrom j msg) (ordered : j.KeysInOrder) (key : String) :
    j.canonical.find key = (messageToJson msg).find key := by
  have values := congrArg (List.lookup key) d.fields_eq
  rw [lookup_append, lookup_map_snd (fun key value => (j.find key).getD value)] at values
  rw [find_messageToJson, JsonMessage.fields, lookup_append, lookup_append, lookup_errorField,
    Json.canonical, Json.find_fill, Json.dropNullError, Json.dropUnknown,
    Json.find_keep (ordered.keep _), Json.find_keep ordered]
  by_cases isError : key = "error"
  · subst isError
    have error := readError_eq_some.mp d.error
    have none : Json.messageFields.lookup "error" = none := by decide
    rw [none, Option.map_none, Option.or_eq_none_iff] at values
    simp [none, values, ← error]
  · rw [if_neg isError, Option.none_or, values]
    cases found : Json.messageFields.lookup key with
    | none => simp [isError]
    | some value =>
        have other : (key == "error") = false := beq_eq_false_iff_ne.mpr isError
        cases j.find key <;> simp [other, Option.filter_some]

end Canonical

/-- Every message survives its encoding. A JSON value is decoded if and only if it has
the shape of a message, and then encoding the result gives the value without unknown
fields and null error and with the missing fields filled in; that value is left
unchanged by decoding and encoding. -/
theorem message_codec :
    (∀ msg, jsonToMessage (messageToJson msg) = some msg) ∧
    ∀ j : Json, ((∃ msg, jsonToMessage j = some msg) ↔ j.IsMessage) ∧
      (j.KeysInOrder → ∀ msg, jsonToMessage j = some msg →
        messageToJson msg = j.canonical ∧
        (jsonToMessage j.canonical).map messageToJson = some j.canonical) := by
  refine ⟨jsonToMessage_messageToJson, fun j => ⟨decodes_iff, ?_⟩⟩
  intro ordered msg decoded
  have d := jsonToMessage_eq_some.mp decoded
  have same : messageToJson msg = j.canonical := by
    apply Json.ext_find (isObject_messageToJson msg) _ (keysInOrder_messageToJson msg)
      (((ordered.keep _).keep _).fill _) fun key => (d.find_canonical ordered key).symm
    apply Json.isObject_fill
    exact (Json.isObject_keep _ _).trans ((Json.isObject_keep _ _).trans d.object)
  refine ⟨same, ?_⟩
  rw [← same, jsonToMessage_messageToJson, Option.map_some]

def looseValue : Json :=
  .object [("error", .null), ("extra", .boolean true), ("id", .string "7"), ("payload", .null)]

theorem message_codec_looseValue :
    (∃ msg, jsonToMessage looseValue = some msg) ∧
    ∀ msg, jsonToMessage looseValue = some msg → messageToJson msg = looseValue.canonical := by
  have ordered : looseValue.KeysInOrder := by
    simp only [looseValue, Json.KeysInOrder, KeysOrdered]
    decide
  refine ⟨⟨_, rfl⟩, fun msg decoded => ?_⟩
  exact ((message_codec.2 looseValue).2 ordered msg decoded).1

end Rtl.Ws
