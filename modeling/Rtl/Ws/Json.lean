/-! # JSON values

The part of `nlohmann::json` that the protocol uses. A number remembers whether it
was stored as signed, unsigned or floating point; a float is kept as its bits. An
object is a `std::map`, here an association list in the order of its keys.
-/

namespace Rtl.Ws

inductive Json where
  | null
  | boolean (value : Bool)
  | numberInteger (value : Int64)
  | numberUnsigned (value : UInt64)
  | numberFloat (bits : UInt64)
  | string (value : String)
  | binary (bytes : List UInt8)
  | array (items : List Json)
  | object (fields : List (String × Json))

namespace Json

def isObject : Json → Bool
  | .object _ => true
  | _ => false

def insertField (key : String) (value : Json) : List (String × Json) → List (String × Json)
  | [] => [(key, value)]
  | (k, v) :: rest =>
      if key = k then (key, value) :: rest
      else if key < k then (key, value) :: (k, v) :: rest
      else (k, v) :: insertField key value rest

/-- `operator[]` followed by an assignment, on a null value or an object. -/
def set (j : Json) (key : String) (value : Json) : Json :=
  match j with
  | .object fields => .object (insertField key value fields)
  | _ => .object [(key, value)]

def find (j : Json) (key : String) : Option Json :=
  match j with
  | .object fields => fields.lookup key
  | _ => none

/-- An object from an initializer list of pairs; the first of two equal keys stays. -/
def ofPairs (pairs : List (String × Json)) : Json :=
  pairs.foldl (fun j pair => if (j.find pair.1).isSome then j else j.set pair.1 pair.2) (.object [])

theorem lookup_cons_ite (key k : String) (v : Json) (rest : List (String × Json)) :
    ((k, v) :: rest).lookup key = if key = k then some v else rest.lookup key := by
  rw [List.lookup_cons]
  by_cases same : key = k
  · simp [same]
  · rw [beq_eq_false_iff_ne.mpr same, if_neg same]

theorem lookup_insertField (key key' : String) (value : Json) (fields : List (String × Json)) :
    (insertField key value fields).lookup key' =
      if key' = key then some value else fields.lookup key' := by
  induction fields with
  | nil => exact lookup_cons_ite key' key value []
  | cons field rest ih =>
      obtain ⟨k, v⟩ := field
      unfold insertField
      by_cases here : key = k
      · subst here
        rw [if_pos rfl, lookup_cons_ite, lookup_cons_ite]
        by_cases same : key' = key
        · rw [if_pos same, if_pos same]
        · rw [if_neg same, if_neg same, if_neg same]
      · rw [if_neg here]
        by_cases before : key < k
        · rw [if_pos before, lookup_cons_ite]
        · rw [if_neg before, lookup_cons_ite, ih, lookup_cons_ite]
          by_cases same : key' = key
          · subst same
            rw [if_neg here, if_pos rfl, if_pos rfl]
          · rw [if_neg same, if_neg same]

@[simp] theorem find_set (j : Json) (key key' : String) (value : Json) :
    (j.set key value).find key' = if key' = key then some value else j.find key' := by
  cases j with
  | object fields => exact lookup_insertField key key' value fields
  | _ => exact lookup_cons_ite key' key value []

@[simp] theorem find_null (key : String) : Json.null.find key = none := rfl

@[simp] theorem find_empty (key : String) : (Json.object []).find key = none := rfl

@[simp] theorem isObject_set (j : Json) (key : String) (value : Json) :
    (j.set key value).isObject = true := by
  cases j <;> rfl

end Json

end Rtl.Ws
