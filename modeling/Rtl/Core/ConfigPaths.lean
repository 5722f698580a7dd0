import Rtl.Core.Config

/-! # What is read after a value was replaced

`setValue` replaces the node that `findNode` finds. Other keys read what they read before,
unless their segments begin with those of the key or the other way round.
-/

namespace Rtl.Core

open Rtl.Base
open Rtl.Ws (Json)

theorem isNull_modifyChild (j : Json) (key : String) (f : Json → Json) :
    isNull (modifyChild j key f) = isNull j := by
  cases j <;> rfl

/-- Replacing a value below the document leaves a document. -/
theorem isNull_assign (j v : Json) {path : List String} (below : path ≠ []) :
    isNull (jsonTree.assign j path v) = isNull j := by
  cases path with
  | nil => exact absurd rfl below
  | cons key path => exact isNull_modifyChild j key _

namespace Config

variable {c : Config} {k : String} {v : Json}

theorem findNode_of_not_null (notNull : isNull c.rawConfig = false) (k : String) :
    c.findNode k = jsonTree.walk c.rawConfig (segments k) := by
  simp [findNode, notNull]

theorem setValue_missing (missing : c.findNode k = none) : c.setValue k v = (false, c) := by
  simp [setValue, missing]

/-- A node that is found is replaced in the document. -/
theorem setValue_found (found : c.findNode k ≠ none) :
    isNull c.rawConfig = false ∧ (jsonTree.walk c.rawConfig (segments k)).isSome = true ∧
      c.setValue k v =
        (true, { c with rawConfig := jsonTree.assign c.rawConfig (segments k) v }) := by
  cases null : isNull c.rawConfig with
  | true => simp [findNode, null] at found
  | false =>
      obtain ⟨node, at_k⟩ := Option.ne_none_iff_exists'.mp found
      refine ⟨rfl, ?_, ?_⟩
      · rw [← findNode_of_not_null null k, at_k]
        rfl
      · simp [setValue, at_k]

/-- What any key reads after a node was replaced. -/
theorem findNode_setValue (some : segments k ≠ []) (found : c.findNode k ≠ none) (k' : String) :
    (c.setValue k v).2.findNode k' =
      jsonTree.walk (jsonTree.assign c.rawConfig (segments k) v) (segments k') := by
  obtain ⟨notNull, _, replaced⟩ := setValue_found (v := v) found
  rw [replaced, findNode_of_not_null ((isNull_assign _ v some).trans notNull)]

end Config

/-- `setValue` fails exactly when the key finds nothing, and changes nothing then.
Otherwise the key reads the new value, keys that extend it read inside the new value, and
keys that part from it read what they read before. -/
theorem config_set_get (c : Config) (k : String) (v : Json) (some : segments k ≠ []) :
    ((c.setValue k v).1 = false ↔ c.findNode k = none) ∧
    (c.findNode k = none → (c.setValue k v).2 = c) ∧
    (c.findNode k ≠ none →
      (c.setValue k v).2.findNode k = .some v ∧
      (∀ k', ¬ segments k' <+: segments k → ¬ segments k <+: segments k' →
        (c.setValue k v).2.findNode k' = c.findNode k') ∧
      ∀ k' rest, segments k' = segments k ++ rest →
        (c.setValue k v).2.findNode k' = jsonTree.walk v rest) := by
  refine ⟨?_, ?_, ?_⟩
  · by_cases missing : c.findNode k = none
    · simp [Config.setValue_missing, missing]
    · have replaced := (Config.setValue_found (v := v) missing).2.2
      simp [replaced, missing]
  · intro missing
    rw [Config.setValue_missing missing]
  · intro found
    obtain ⟨notNull, below, _⟩ := Config.setValue_found (v := v) found
    have inside : ∀ k' rest, segments k' = segments k ++ rest →
        (c.setValue k v).2.findNode k' = jsonTree.walk v rest := by
      intro k' rest extends_k
      rw [Config.findNode_setValue some found, extends_k]
      exact Children.walk_assign v below rest
    refine ⟨inside k [] (List.append_nil _).symm, ?_, inside⟩
    intro k' notAbove notBelow
    rw [Config.findNode_setValue some found, Config.findNode_of_not_null notNull]
    exact Children.walk_assign_of_apart _ v notBelow notAbove

/-- The segments of keys with a dot at the end, two dots in a row, or no character. -/
example : segments "a." = ["a"] ∧ segments "a..b" = ["a", "", "b"] ∧ segments "." = [""] ∧
    segments "" = [] := by
  simp [segments, segmentsOf, getline]

def sampleConfig : Config :=
  { rawConfig := .object [("", .boolean true),
      ("server", .object [("host", .string "h"), ("port", .numberUnsigned 80)])] }

theorem config_set_get_server :
    segments "server.port" = ["server", "port"] ∧
    sampleConfig.findNode "server.port" ≠ none ∧
    (sampleConfig.setValue "server.port" (.object [("tls", .null)])).2.findNode "server.port.tls" =
      some .null ∧
    (sampleConfig.setValue "server.port" (.object [("tls", .null)])).2.findNode "." =
      some (.boolean true) := by
  have port : segments "server.port" = ["server", "port"] := by
    simp [segments, segmentsOf, getline]
  have tls : segments "server.port.tls" = segments "server.port" ++ ["tls"] := by
    simp [segments, segmentsOf, getline]
  have dot : segments "." = [""] := by
    simp [segments, segmentsOf, getline]
  have found : sampleConfig.findNode "server.port" ≠ none := by
    rw [Config.findNode_of_not_null rfl, port]
    exact Option.isSome_iff_ne_none.mp rfl
  obtain ⟨_, _, replaced⟩ := config_set_get sampleConfig "server.port" (.object [("tls", .null)])
    (by simp [port])
  obtain ⟨_, other, inside⟩ := replaced found
  refine ⟨port, found, ?_, ?_⟩
  · rw [inside "server.port.tls" ["tls"] tls]
    rfl
  · rw [other "." (by simp [dot, port]) (by simp [dot, port]), Config.findNode_of_not_null rfl, dot]
    rfl

end Rtl.Core
