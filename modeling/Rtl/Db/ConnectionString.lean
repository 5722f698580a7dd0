import Rtl.Base.KeywordValue
import Mathlib.Data.String.Basic

/-! # Connection strings

`make_connection_string` writes a configuration for libpq, which reads keywords and values
again. The values are written as they are, so a value with a blank, a backslash or a quote at
its start is read as something else, and so is an empty value that is not the last one.
-/

namespace Rtl.Db

open Rtl.Base.KeywordValue

structure ConnectionConfig where
  host : String := "127.0.0.1"
  dbname : String := ""
  user : String := ""
  password : String := ""
  port : UInt16 := 5432
  applicationName : Option String := none
  connectTimeout : Option Int64 := none

namespace ConnectionConfig

def valid (config : ConnectionConfig) : Bool :=
  !config.host.isEmpty && 0 < config.port && !config.dbname.isEmpty && !config.user.isEmpty

def optionalSettings (config : ConnectionConfig) : List (String × String) :=
  (config.applicationName.toList.map fun name => ("application_name", name)) ++
  (config.connectTimeout.toList.map fun timeout => ("connect_timeout", toString timeout.toInt))

def settings (config : ConnectionConfig) : List (String × String) :=
  [("host", config.host), ("port", toString config.port.toNat), ("dbname", config.dbname),
    ("user", config.user), ("password", config.password)] ++ config.optionalSettings

end ConnectionConfig

def makeConnectionString (config : ConnectionConfig) : String :=
  let conninfo := "host=" ++ config.host ++ " port=" ++ toString config.port.toNat ++
    " dbname=" ++ config.dbname ++ " user=" ++ config.user ++ " password=" ++ config.password
  let conninfo := match config.applicationName with
    | some name => conninfo ++ (" application_name=" ++ name)
    | none => conninfo
  match config.connectTimeout with
  | some timeout => conninfo ++ (" connect_timeout=" ++ toString timeout.toInt)
  | none => conninfo

def toChars (pair : String × String) : List Char × List Char := (pair.1.toList, pair.2.toList)

def ofChars (pair : List Char × List Char) : String × String :=
  (String.ofList pair.1, String.ofList pair.2)

def conninfoParse (conninfo : String) : Option (List (String × String)) :=
  (parse conninfo.toList).map (·.map ofChars)

theorem ofChars_toChars (pair : String × String) : ofChars (toChars pair) = pair := by
  simp [ofChars, toChars]

theorem toChars_ofChars (pair : List Char × List Char) : toChars (ofChars pair) = pair := by
  simp [ofChars, toChars]

theorem conninfoParse_eq_some_iff {conninfo : String} {pairs : List (String × String)} :
    conninfoParse conninfo = some pairs ↔ parse conninfo.toList = some (pairs.map toChars) := by
  unfold conninfoParse
  constructor
  · intro read
    obtain ⟨pairs', parsed, rfl⟩ := Option.map_eq_some_iff.mp read
    rw [parsed, List.map_map]
    simp [Function.comp_def, toChars_ofChars]
  · intro parsed
    rw [parsed]
    simp [Function.comp_def, ofChars_toChars]

theorem makeConnectionString_toList (config : ConnectionConfig) :
    (makeConnectionString config).toList = write (config.settings.map toChars) := by
  obtain ⟨host, dbname, user, password, port, name, timeout⟩ := config
  cases name <;> cases timeout <;>
    simp [makeConnectionString, ConnectionConfig.settings, ConnectionConfig.optionalSettings, write,
      toChars]

/-! ## Numbers are plain -/

theorem isDigit_plain {c : Char} (digit : c.isDigit = true) :
    isBlank c = false ∧ c ≠ '\\' ∧ c ≠ '\'' := by
  have range : 48 ≤ c.val.toNat ∧ c.val.toNat ≤ 57 := by
    simp only [Char.isDigit, Bool.and_eq_true, decide_eq_true_eq, UInt32.le_iff_toNat_le] at digit
    exact digit
  have other : ∀ d : Char, d.val.toNat < 48 ∨ 57 < d.val.toNat → c ≠ d := by
    rintro d outside rfl
    omega
  refine ⟨?_, other _ (.inr (by decide)), other _ (.inl (by decide))⟩
  have space : c ≠ ' ' := other _ (.inl (by decide))
  have above : ¬ c ≤ '\r' := by
    rw [Char.le_def, UInt32.le_iff_toNat_le]
    change ¬ c.val.toNat ≤ 13
    omega
  simp [isBlank, space, above]

theorem toString_nat_plain (n : Nat) : Plain (toString n).toList ∧ (toString n).toList ≠ [] := by
  have digits : ∀ c ∈ (toString n).toList, c.isDigit = true := by
    intro c mem
    have mem : c ∈ Nat.toDigits 10 n := by simpa using mem
    exact Nat.isDigit_of_mem_toDigits (by decide) (by decide) mem
  refine ⟨⟨?_, ?_⟩, ?_⟩
  · intro first
    exact (isDigit_plain (digits _ (List.mem_of_mem_head? first))).2.2 rfl
  · intro c mem
    have plain := isDigit_plain (digits c mem)
    exact ⟨plain.1, plain.2.1⟩
  · simp

theorem toString_int_plain (i : Int) : Plain (toString i).toList ∧ (toString i).toList ≠ [] := by
  cases i with
  | ofNat n => exact toString_nat_plain n
  | negSucc n =>
      obtain ⟨⟨_, digits⟩, _⟩ := toString_nat_plain n.succ
      have minus : (toString (Int.negSucc n)).toList = '-' :: (toString n.succ).toList := by
        change ("-" ++ n.succ.repr).toList = _
        rw [String.toList_append]
        rfl
      rw [minus]
      refine ⟨⟨by simp, ?_⟩, List.cons_ne_nil _ _⟩
      intro c mem
      rcases List.mem_cons.mp mem with rfl | mem
      · decide
      · exact digits c mem

/-! ## Whole strings -/

theorem settings_isKeyword (config : ConnectionConfig) :
    ∀ pair ∈ config.settings.map toChars, IsKeyword pair.1 := by
  obtain ⟨host, dbname, user, password, port, name, timeout⟩ := config
  cases name <;> cases timeout <;>
    simp [ConnectionConfig.settings, ConnectionConfig.optionalSettings, toChars, IsKeyword] <;>
    decide

theorem optionalSettings_eq_nil_iff (config : ConnectionConfig) :
    config.optionalSettings.map toChars = [] ↔
      config.applicationName = none ∧ config.connectTimeout = none := by
  simp [ConnectionConfig.optionalSettings]

theorem carried_optionalSettings_iff (config : ConnectionConfig) :
    Carried (config.optionalSettings.map toChars) ↔
      (∀ name, config.applicationName = some name → Plain name.toList) ∧
      (config.applicationName = some "" → config.connectTimeout = none) := by
  unfold ConnectionConfig.optionalSettings
  have last : Carried ((config.connectTimeout.toList.map
      fun timeout => ("connect_timeout", toString timeout.toInt)).map toChars) := by
    cases config.connectTimeout with
    | none => trivial
    | some timeout => exact ⟨⟨(toString_int_plain timeout.toInt).1, .inr rfl⟩, trivial⟩
  cases config.applicationName with
  | none => exact ⟨fun _ => ⟨nofun, nofun⟩, fun _ => last⟩
  | some name =>
      rw [List.map_append]
      simp only [Option.toList_some, List.map_cons, List.map_nil, List.cons_append,
        List.nil_append, toChars, Carried, last, and_true, Option.some.injEq, forall_eq', ne_eq,
        String.toList_eq_nil_iff, List.map_eq_nil_iff, Option.toList_eq_nil_iff]
      rw [imp_iff_not_or]

/-- libpq reads the settings of a valid configuration exactly if every text is plain and an
empty one is the last. -/
theorem connection_string_faithful_iff (config : ConnectionConfig) (valid : config.valid = true) :
    conninfoParse (makeConnectionString config) = some config.settings ↔
      Plain config.host.toList ∧ Plain config.dbname.toList ∧ Plain config.user.toList ∧
      Plain config.password.toList ∧
      (∀ name, config.applicationName = some name → Plain name.toList) ∧
      (config.password = "" → config.applicationName = none ∧ config.connectTimeout = none) ∧
      (config.applicationName = some "" → config.connectTimeout = none) := by
  rw [conninfoParse_eq_some_iff, makeConnectionString_toList,
    parse_write_iff (settings_isKeyword config)]
  obtain ⟨port, port_some⟩ := toString_nat_plain config.port.toNat
  have optional := carried_optionalSettings_iff config
  have empty := optionalSettings_eq_nil_iff config
  simp only [ConnectionConfig.valid, Bool.and_eq_true, Bool.not_eq_true',
    String.isEmpty_eq_false_iff] at valid
  obtain ⟨⟨⟨host_some, _⟩, dbname_some⟩, user_some⟩ := valid
  simp only [ConnectionConfig.settings, List.map_cons, List.cons_append, List.nil_append, toChars,
    Carried, port, port_some, optional, empty, ne_eq, String.toList_eq_nil_iff, host_some,
    dbname_some, user_some, not_false_eq_true, true_or, and_true, true_and]
  constructor
  · rintro ⟨host, dbname, user, ⟨password, last⟩, name, name_last⟩
    exact ⟨host, dbname, user, password, name, last.resolve_left ∘ not_not_intro, name_last⟩
  · rintro ⟨host, dbname, user, password, name, last, name_last⟩
    exact ⟨host, dbname, user, ⟨password, or_iff_not_imp_left.mpr fun h => last (not_not.mp h)⟩,
      name, name_last⟩

/-- Every text is plain, and the timeout is negative. -/
def plainConfig : ConnectionConfig :=
  { dbname := "db", user := "it's", password := "a=b", applicationName := some "rtl",
    connectTimeout := some (-1) }

theorem connection_string_faithful_plain :
    plainConfig.valid = true ∧
    conninfoParse (makeConnectionString plainConfig) =
      some [("host", "127.0.0.1"), ("port", "5432"), ("dbname", "db"), ("user", "it's"),
        ("password", "a=b"), ("application_name", "rtl"), ("connect_timeout", "-1")] := by
  have valid : plainConfig.valid = true := by decide
  refine ⟨valid, (connection_string_faithful_iff plainConfig valid).mpr ?_⟩
  refine ⟨?_, ?_, ?_, ?_, ?_, ?_, ?_⟩
  all_goals simp [plainConfig, Plain, isBlank]

/-- The password ends in another keyword. -/
def otherHostConfig : ConnectionConfig :=
  { host := "db", dbname := "db", user := "me", password := "p host=elsewhere" }

theorem connection_string_other_host :
    otherHostConfig.valid = true ∧
    makeConnectionString otherHostConfig =
      "host=db port=5432 dbname=db user=me password=p host=elsewhere" ∧
    conninfoParse (makeConnectionString otherHostConfig) =
      some [("host", "db"), ("port", "5432"), ("dbname", "db"), ("user", "me"), ("password", "p"),
        ("host", "elsewhere")] ∧
    conninfoParse (makeConnectionString otherHostConfig) ≠ some otherHostConfig.settings := by
  have read : conninfoParse (makeConnectionString otherHostConfig) =
      some [("host", "db"), ("port", "5432"), ("dbname", "db"), ("user", "me"), ("password", "p"),
        ("host", "elsewhere")] := by
    rw [conninfoParse_eq_some_iff]
    refine Eq.trans ?_ ((parse_write_iff ?_).mpr ?_)
    · rfl
    · simp [toChars, IsKeyword]
      decide
    · simp [toChars, Carried, Plain, isBlank]
  refine ⟨by decide, by decide, read, ?_⟩
  rw [read]
  decide

end Rtl.Db
