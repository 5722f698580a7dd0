import Mathlib.Data.List.Basic
import Mathlib.Algebra.Order.Group.Nat

/-! # Keyword and value strings

Settings written as `keyword=value` with blanks between them. A value ends at a blank
unless it stands in quotes, and a backslash takes the next character as it is. The reader
follows this grammar, the writer puts values down as they are. Which values survive that
is decided by counting: quotes and backslashes take up room in the text and give nothing
to the value.
-/

namespace Rtl.Base.KeywordValue

/-- `isspace` in the C locale. -/
def isBlank (c : Char) : Bool := c == ' ' || ('\t' ≤ c && c ≤ '\r')

/-! ## The reader -/

def unquoted : List Char → List Char × List Char
  | [] => ([], [])
  | ['\\'] => ([], [])
  | '\\' :: c :: text => (c :: (unquoted text).1, (unquoted text).2)
  | c :: text => if isBlank c then ([], text) else (c :: (unquoted text).1, (unquoted text).2)

/-- A value behind an opening quote; it fails without a closing one. -/
def quoted : List Char → Option (List Char × List Char)
  | [] => none
  | ['\\'] => none
  | '\\' :: c :: text => (quoted text).map fun r => (c :: r.1, r.2)
  | '\'' :: text => some ([], text)
  | c :: text => (quoted text).map fun r => (c :: r.1, r.2)

def readValue (text : List Char) : Option (List Char × List Char) :=
  match text.dropWhile isBlank with
  | '\'' :: body => quoted body
  | body => some (unquoted body)

def isNameChar (c : Char) : Bool := c != '=' && !isBlank c

def readPair (text : List Char) : Option ((List Char × List Char) × List Char) :=
  match (text.dropWhile isNameChar).dropWhile isBlank with
  | '=' :: rest => (readValue rest).map fun r => ((text.takeWhile isNameChar, r.1), r.2)
  | _ => none

/-! ## What a value takes of the text -/

/-- The part of the text a value is read from. Only backslashes are left out. -/
inductive Reads (stop : Char → Bool) : List Char → List Char → Prop
  | nil : Reads stop [] []
  | last : Reads stop ['\\'] []
  | escape (c : Char) {part value : List Char} (rest : Reads stop part value) :
      Reads stop ('\\' :: c :: part) (c :: value)
  | keep {c : Char} {part value : List Char} (passes : stop c = false) (other : c ≠ '\\')
      (rest : Reads stop part value) : Reads stop (c :: part) (c :: value)

namespace Reads

variable {stop : Char → Bool} {part value : List Char}

theorem length_le (reads : Reads stop part value) : value.length ≤ part.length := by
  induction reads with
  | nil => simp
  | last => simp
  | escape c _ ih => simp only [List.length_cons]; omega
  | keep _ _ _ ih => simp only [List.length_cons]; omega

/-- Nothing is left out of a part that is as long as its value. -/
theorem eq_of_length (reads : Reads stop part value) (same : part.length ≤ value.length) :
    part = value ∧ ∀ c ∈ value, stop c = false ∧ c ≠ '\\' := by
  induction reads with
  | nil => simp
  | last => simp at same
  | escape c rest _ =>
      have shorter := rest.length_le
      simp only [List.length_cons] at same
      omega
  | keep passes other _ ih =>
      simp only [List.length_cons, Nat.add_le_add_iff_right] at same
      obtain ⟨eq, all⟩ := ih same
      refine ⟨by rw [eq], ?_⟩
      intro d mem
      rcases List.mem_cons.mp mem with rfl | mem
      · exact ⟨passes, other⟩
      · exact all d mem

theorem countP_eq {p : Char → Bool} (backslash : p '\\' = false) (reads : Reads stop part value) :
    value.countP p = part.countP p := by
  induction reads with
  | nil => rfl
  | last => simp [backslash]
  | escape c _ ih => simp [List.countP_cons, backslash, ih]
  | keep _ _ _ ih => simp [List.countP_cons, ih]

end Reads

theorem unquoted_reads (text : List Char) :
    ∃ part left, Reads isBlank part (unquoted text).1 ∧ text = part ++ left := by
  fun_induction unquoted text with
  | case1 => exact ⟨[], [], .nil, rfl⟩
  | case2 => exact ⟨['\\'], [], .last, rfl⟩
  | case3 c text ih =>
      obtain ⟨part, left, reads, eq⟩ := ih
      exact ⟨'\\' :: c :: part, left, .escape c reads, by simpa using eq⟩
  | case4 c text _ _ _ => exact ⟨[], c :: text, .nil, rfl⟩
  | case5 c text lone other notBlank ih =>
      obtain ⟨part, left, reads, eq⟩ := ih
      have notBackslash : c ≠ '\\' := by
        intro backslash
        cases text with
        | nil => exact lone backslash rfl
        | cons d text => exact other d text backslash rfl
      exact ⟨c :: part, left, .keep (by simpa using notBlank) notBackslash reads, by simpa using eq⟩

theorem quoted_reads {text value rest : List Char} (read : quoted text = some (value, rest)) :
    ∃ part, Reads (· == '\'') part value ∧ text = part ++ '\'' :: rest := by
  fun_induction quoted text generalizing value rest with
  | case1 => cases read
  | case2 => cases read
  | case3 c text ih =>
      obtain ⟨⟨tail, rest'⟩, inner, eq⟩ := Option.map_eq_some_iff.mp read
      cases eq
      obtain ⟨part, reads, eq⟩ := ih inner
      exact ⟨'\\' :: c :: part, .escape c reads, by simpa using eq⟩
  | case4 text =>
      cases read
      exact ⟨[], .nil, rfl⟩
  | case5 c text lone other quote ih =>
      obtain ⟨⟨tail, rest'⟩, inner, eq⟩ := Option.map_eq_some_iff.mp read
      cases eq
      obtain ⟨part, reads, eq⟩ := ih inner
      have notBackslash : c ≠ '\\' := by
        intro backslash
        cases text with
        | nil => exact lone backslash rfl
        | cons d text => exact other d text backslash rfl
      have notQuote : c ≠ '\'' := fun h => quote h
      exact ⟨c :: part, .keep (by simpa using notQuote) notBackslash reads, by simpa using eq⟩

/-- A value the writer can put down as it is. -/
def Plain (value : List Char) : Prop :=
  value.head? ≠ some '\'' ∧ ∀ c ∈ value, isBlank c = false ∧ c ≠ '\\'

/-- What is taken of the text for a value: the blanks before it, and more than the value
unless it is plain. -/
structure Taken (text value part : List Char) : Prop where
  start : part <+: text
  plain : part.length ≤ value.length → Plain value
  count : ∀ p : Char → Bool, p '\\' = false → p '\'' = false →
    part.countP p = (text.takeWhile isBlank).countP p + value.countP p
  room : text.takeWhile isBlank ≠ [] → (∃ c ∈ value, isBlank c = true) →
    value.length + 2 ≤ part.length

theorem taken_unquoted {text : List Char} {body : List Char} (rest : text.dropWhile isBlank = body)
    (bare : body.head? ≠ some '\'') : ∃ part, Taken text (unquoted body).1 part := by
  obtain ⟨part, left, reads, eq⟩ := unquoted_reads body
  have shorter := reads.length_le
  have split : text = text.takeWhile isBlank ++ (part ++ left) := by
    rw [← eq, ← rest, List.takeWhile_append_dropWhile]
  refine ⟨text.takeWhile isBlank ++ part, ?_, ?_, ?_, ?_⟩
  · exact ⟨left, by rw [List.append_assoc]; exact split.symm⟩
  · intro same
    rw [List.length_append] at same
    obtain ⟨same, all⟩ := reads.eq_of_length (by omega)
    refine ⟨?_, all⟩
    intro quote
    apply bare
    rw [eq, List.head?_append, same, quote]
    rfl
  · intro p backslash _
    rw [List.countP_append, reads.countP_eq backslash]
  · rintro blanks ⟨c, mem, blank⟩
    have some := List.length_pos_iff.mpr blanks
    have longer : ¬ part.length ≤ (unquoted body).1.length := by
      intro same
      have passes := ((reads.eq_of_length same).2 c mem).1
      rw [blank] at passes
      cases passes
    rw [List.length_append]
    omega

theorem taken_quoted {text body value rest : List Char}
    (behind : text.dropWhile isBlank = '\'' :: body) (read : quoted body = some (value, rest)) :
    ∃ part, Taken text value part := by
  obtain ⟨part, reads, eq⟩ := quoted_reads read
  have shorter := reads.length_le
  have split : text = text.takeWhile isBlank ++ ('\'' :: part ++ ['\'']) ++ rest := by
    rw [List.append_assoc, List.cons_append, List.cons_append, List.append_assoc]
    change _ = text.takeWhile isBlank ++ '\'' :: (part ++ '\'' :: rest)
    rw [← eq, ← behind, List.takeWhile_append_dropWhile]
  have length : (text.takeWhile isBlank ++ ('\'' :: part ++ ['\''])).length =
      (text.takeWhile isBlank).length + part.length + 2 := by
    simp only [List.length_append, List.length_cons, List.length_nil]
    omega
  refine ⟨text.takeWhile isBlank ++ ('\'' :: part ++ ['\'']), ⟨rest, split.symm⟩, ?_, ?_, ?_⟩
  · intro same
    omega
  · intro p backslash quote
    simp [List.countP_append, quote, reads.countP_eq backslash]
  · intro _ _
    omega

theorem readValue_taken {text value rest : List Char} (read : readValue text = some (value, rest)) :
    ∃ part, Taken text value part := by
  unfold readValue at read
  split at read
  · next body behind => exact taken_quoted behind read
  · next body bare =>
      have value_eq : (unquoted (text.dropWhile isBlank)).1 = value := by
        rw [Option.some.inj read]
      rw [← value_eq]
      apply taken_unquoted rfl
      intro quote
      obtain ⟨tail, eq⟩ := List.head?_eq_some_iff.mp quote
      exact bare tail eq

/-! ## Values that are read as they were written -/

theorem unquoted_plain {value : List Char} (plain : ∀ c ∈ value, isBlank c = false ∧ c ≠ '\\')
    (more : List Char) :
    unquoted (value ++ more) = (value ++ (unquoted more).1, (unquoted more).2) := by
  induction value with
  | nil => rfl
  | cons c value ih =>
      obtain ⟨notBlank, other⟩ := plain c List.mem_cons_self
      rw [List.cons_append, unquoted, ih (fun d mem => plain d (List.mem_cons_of_mem _ mem))]
      · simp [notBlank]
      · intro backslash _
        exact other backslash
      · intro _ _ backslash _
        exact other backslash

/-- A text that begins with a plain value is read from its first character on. -/
theorem readValue_plain {value : List Char} (plain : Plain value) {more : List Char}
    (some : value ≠ [] ∨ more = []) :
    readValue (value ++ more) = .some (value ++ (unquoted more).1, (unquoted more).2) := by
  obtain ⟨bare, all⟩ := plain
  unfold readValue
  cases value with
  | nil =>
      cases some.resolve_left (by simp)
      rfl
  | cons c value =>
      rw [List.cons_append, List.dropWhile_cons_of_neg (by simp [(all c List.mem_cons_self).1])]
      split
      · next body quote =>
          cases quote
          exact absurd rfl bare
      · rw [← List.cons_append, unquoted_plain all]

/-- What may stand behind a value: nothing, or a blank and then a keyword. -/
def Follows (more : List Char) : Prop :=
  more = [] ∨ ∃ c rest, more = ' ' :: c :: rest ∧ isBlank c = false ∧ c ≠ '\\' ∧ c ≠ '\''

/-- An empty value before a keyword is read as the keyword and what follows it. -/
theorem readValue_blank {c : Char} {text value rest : List Char} (notBlank : isBlank c = false)
    (other : c ≠ '\\') (bare : c ≠ '\'')
    (read : readValue (' ' :: c :: text) = some (value, rest)) : value ≠ [] := by
  have skip : (' ' :: c :: text).dropWhile isBlank = [c] ++ text := by
    rw [List.dropWhile_cons_of_pos (by decide), List.dropWhile_cons_of_neg (by simp [notBlank])]
    rfl
  unfold readValue at read
  rw [skip] at read
  split at read
  · next body quote =>
      cases quote
      exact absurd rfl bare
  · rw [unquoted_plain (by simp [notBlank, other])] at read
    cases read
    simp

/-- A value is read as it was written only if it is plain. What a quote, a backslash or a
blank before the value takes up makes the reader go beyond the value, to the blank behind it or
to the keyword after that, and then the value has one more of these characters than it has. -/
theorem plain_of_readValue {value more rest : List Char} (follows : Follows more)
    (read : readValue (value ++ more) = some (value, rest)) :
    Plain value ∧ (value ≠ [] ∨ more = []) := by
  obtain ⟨part, taken⟩ := readValue_taken read
  rcases follows with rfl | ⟨c, behind, rfl, notBlank, other, bare⟩
  · have within := taken.start.length_le
    rw [List.append_nil] at within
    exact ⟨taken.plain within, .inr rfl⟩
  have some : value ≠ [] := by
    rintro rfl
    exact readValue_blank notBlank other bare read rfl
  refine ⟨taken.plain ?_, .inl some⟩
  by_contra long
  obtain ⟨beyond, rfl⟩ := List.prefix_of_prefix_length_le (List.prefix_append value _) taken.start
    (by omega)
  have start : beyond <+: ' ' :: c :: behind := (List.prefix_append_right_inj value).mp taken.start
  obtain ⟨d, tail, rfl⟩ := List.exists_cons_of_ne_nil some
  cases blank : isBlank d with
  | false =>
      have count := taken.count isBlank (by decide) (by decide)
      have none : (d :: tail ++ ' ' :: c :: behind).takeWhile isBlank = [] := by
        rw [List.cons_append, List.takeWhile_cons_of_neg (by simp [blank])]
      cases beyond with
      | nil => simp at long
      | cons e beyond =>
          obtain ⟨rfl, _⟩ := List.cons_prefix_cons.mp start
          have more : isBlank ' ' = true := by decide
          rw [none, List.countP_append, List.countP_cons_of_pos more, List.countP_nil] at count
          omega
  | true =>
      have room := taken.room (by simp [blank]) ⟨d, List.mem_cons_self, blank⟩
      have count := taken.count (· == c) (by simpa using other.symm) (by simpa using bare.symm)
      have none : ((d :: tail ++ ' ' :: c :: behind).takeWhile isBlank).countP (· == c) = 0 := by
        rw [List.countP_eq_zero]
        intro e mem same
        have passes := List.all_eq_true.mp List.all_takeWhile e mem
        rw [beq_iff_eq.mp same, notBlank] at passes
        cases passes
      rw [none, List.countP_append] at count
      match beyond with
      | [] => simp at room
      | [_] => simp at room
      | e :: e' :: beyond =>
          obtain ⟨_, start⟩ := List.cons_prefix_cons.mp start
          obtain ⟨rfl, _⟩ := List.cons_prefix_cons.mp start
          have here : 0 < (e :: e' :: beyond).countP (· == e') :=
            List.countP_pos_iff.mpr ⟨e', by simp, by simp⟩
          omega

/-! ## Whole strings -/

theorem quoted_rest_lt {text value rest : List Char} (read : quoted text = some (value, rest)) :
    rest.length < text.length := by
  obtain ⟨part, _, eq⟩ := quoted_reads read
  rw [eq, List.length_append, List.length_cons]
  omega

theorem unquoted_rest_le (text : List Char) : (unquoted text).2.length ≤ text.length := by
  fun_induction unquoted text with
  | case1 => simp
  | case2 => simp
  | case3 c text ih => simp only [List.length_cons]; omega
  | case4 c text _ _ _ => simp
  | case5 c text _ _ _ ih => simp only [List.length_cons]; omega

theorem readValue_rest_le {text value rest : List Char}
    (read : readValue text = some (value, rest)) : rest.length ≤ text.length := by
  have skipped := (List.dropWhile_sublist isBlank (l := text)).length_le
  unfold readValue at read
  split at read
  · next body behind =>
      have shorter := quoted_rest_lt read
      rw [behind, List.length_cons] at skipped
      omega
  · have shorter := unquoted_rest_le (text.dropWhile isBlank)
    rw [Option.some.inj read] at shorter
    exact shorter.trans skipped

theorem readPair_rest_lt {text rest : List Char} {pair : List Char × List Char}
    (read : readPair text = some (pair, rest)) : rest.length < text.length := by
  have skipped := (List.dropWhile_sublist isNameChar (l := text)).length_le
  have skipped' := (List.dropWhile_sublist isBlank (l := text.dropWhile isNameChar)).length_le
  unfold readPair at read
  split at read
  · next behind equals =>
      obtain ⟨⟨value, rest'⟩, inner, eq⟩ := Option.map_eq_some_iff.mp read
      cases eq
      have shorter := readValue_rest_le inner
      rw [equals, List.length_cons] at skipped'
      change rest'.length < text.length
      omega
  · cases read

/-- The pairs of a text, in their order. It fails at a keyword without an equals sign and at
a quote that is not closed. -/
def parse (text : List Char) : Option (List (List Char × List Char)) :=
  match _ : text.dropWhile isBlank with
  | [] => some []
  | c :: body =>
      match _ : readPair (c :: body) with
      | none => none
      | some (pair, rest) => (parse rest).map (pair :: ·)
termination_by text.length
decreasing_by
  have shorter := readPair_rest_lt ‹_›
  have skipped := (List.dropWhile_sublist isBlank (l := text)).length_le
  simp only [*] at skipped
  omega

def write : List (List Char × List Char) → List Char
  | [] => []
  | [(keyword, value)] => keyword ++ '=' :: value
  | (keyword, value) :: next :: more => keyword ++ '=' :: (value ++ ' ' :: write (next :: more))

def IsKeyword (keyword : List Char) : Prop :=
  keyword ≠ [] ∧ ∀ c ∈ keyword, isNameChar c = true ∧ c ≠ '\\' ∧ c ≠ '\''

/-- Which values can be written: plain ones, and an empty one only at the end. -/
def Carried : List (List Char × List Char) → Prop
  | [] => True
  | (_, value) :: more => (Plain value ∧ (value ≠ [] ∨ more = [])) ∧ Carried more

theorem parse_nil : parse [] = some [] := by
  rw [parse]
  rfl

theorem not_blank_of_isNameChar {c : Char} (h : isNameChar c = true) : isBlank c = false := by
  unfold isNameChar at h
  simp only [Bool.and_eq_true, Bool.not_eq_true'] at h
  exact h.2

theorem readPair_keyword {keyword : List Char} (names : ∀ c ∈ keyword, isNameChar c = true)
    (text : List Char) :
    readPair (keyword ++ '=' :: text) =
      (readValue text).map fun r => ((keyword, r.1), r.2) := by
  have stop : ¬ isNameChar '=' = true := by decide
  have equals : ¬ isBlank '=' = true := by decide
  unfold readPair
  rw [List.dropWhile_append_of_pos names, List.takeWhile_append_of_pos names,
    List.dropWhile_cons_of_neg stop, List.dropWhile_cons_of_neg equals,
    List.takeWhile_cons_of_neg stop, List.append_nil]
  rfl

theorem parse_of_readPair {c : Char} (notBlank : isBlank c = false) (text : List Char) :
    parse (c :: text) = (readPair (c :: text)).bind fun r => (parse r.2).map (r.1 :: ·) := by
  have start : (c :: text).dropWhile isBlank = c :: text :=
    List.dropWhile_cons_of_neg (by simp [notBlank])
  rw [parse]
  split
  · next empty => rw [start] at empty; cases empty
  · next d body here =>
      rw [start] at here
      cases here
      split
      · next failed => rw [failed]; rfl
      · next pair rest read => rw [read]; rfl

/-- A keyword with its equals sign is followed by the value it is for. -/
theorem parse_keyword {keyword : List Char} (isKeyword : IsKeyword keyword) (text : List Char) :
    parse (keyword ++ '=' :: text) =
      (readValue text).bind fun r => (parse r.2).map ((keyword, r.1) :: ·) := by
  obtain ⟨some, names⟩ := isKeyword
  obtain ⟨c, keyword, rfl⟩ := List.exists_cons_of_ne_nil some
  have pair := readPair_keyword (fun d mem => (names d mem).1) text
  rw [List.cons_append] at pair ⊢
  rw [parse_of_readPair (not_blank_of_isNameChar (names c List.mem_cons_self).1), pair,
    Option.bind_map]
  rfl

theorem write_follows {pairs : List (List Char × List Char)}
    (keywords : ∀ p ∈ pairs, IsKeyword p.1) (some : pairs ≠ []) : Follows (' ' :: write pairs) := by
  have start : ∀ keyword text, IsKeyword keyword → Follows (' ' :: (keyword ++ '=' :: text)) := by
    rintro keyword text ⟨some, names⟩
    obtain ⟨c, keyword, rfl⟩ := List.exists_cons_of_ne_nil some
    obtain ⟨name, other, bare⟩ := names c List.mem_cons_self
    exact .inr ⟨c, _, rfl, not_blank_of_isNameChar name, other, bare⟩
  match pairs with
  | [] => exact absurd rfl some
  | [(keyword, value)] => exact start keyword value (keywords _ List.mem_cons_self)
  | (keyword, value) :: next :: more => exact start keyword _ (keywords _ List.mem_cons_self)

/-- The first pair is read as it was written exactly when its value can be written, and then
the others are read from what is behind it. -/
theorem parse_pair_iff {keyword more behind : List Char} (value : List Char)
    (pairs : List (List Char × List Char)) (isKeyword : IsKeyword keyword)
    (follows : Follows more) (split : unquoted more = ([], behind)) :
    parse (keyword ++ '=' :: (value ++ more)) = some ((keyword, value) :: pairs) ↔
      (Plain value ∧ (value ≠ [] ∨ more = [])) ∧ parse behind = some pairs := by
  rw [parse_keyword isKeyword]
  constructor
  · intro read
    obtain ⟨⟨value', rest⟩, first, others⟩ := Option.bind_eq_some_iff.mp read
    obtain ⟨pairs', others, eq⟩ := Option.map_eq_some_iff.mp others
    cases eq
    obtain ⟨plain, some⟩ := plain_of_readValue follows first
    rw [readValue_plain plain some, split] at first
    have behind_eq : behind = rest := congrArg Prod.snd (Option.some.inj first)
    rw [behind_eq]
    exact ⟨⟨plain, some⟩, others⟩
  · rintro ⟨⟨plain, some⟩, others⟩
    rw [readValue_plain plain some, split, List.append_nil, Option.bind_some, others]
    rfl

/-- Pairs are read as they were written exactly when their values can be written. -/
theorem parse_write_iff {pairs : List (List Char × List Char)}
    (keywords : ∀ p ∈ pairs, IsKeyword p.1) :
    parse (write pairs) = some pairs ↔ Carried pairs := by
  induction pairs with
  | nil => simp [write, parse_nil, Carried]
  | cons pair pairs ih =>
      obtain ⟨keyword, value⟩ := pair
      have isKeyword := keywords _ List.mem_cons_self
      have rest := ih fun p mem => keywords p (List.mem_cons_of_mem _ mem)
      cases pairs with
      | nil =>
          have last := parse_pair_iff value [] isKeyword (.inl rfl) rfl
          rw [List.append_nil] at last
          simp [write, Carried, last, parse_nil]
      | cons next more =>
          have follows := write_follows (fun p mem => keywords p (List.mem_cons_of_mem _ mem))
            (List.cons_ne_nil next more)
          have first := parse_pair_iff value (next :: more) isKeyword follows rfl
          simp [write, Carried, first, rest]

end Rtl.Base.KeywordValue
