import Mathlib.Data.List.TakeWhile
import Mathlib.Data.String.Basic

/-!
# Strings, JSON values and errors

The vocabulary shared by every crate of the engine (`tracedb-core`):

* the string helpers the code takes from the standard library (`str::trim`, `char::is_whitespace`),
* `Value`, a JSON value as `serde_json` has it, with the accessors the engine calls,
* `Fields`, the sorted map `serde_json::Map<String, Value>`,
* `TraceDbError`, with the message texts of the source.
-/

namespace TraceDB

/-! ### Strings -/

/-- A property of the characters of a text is decided along the text, not by trying all
characters. -/
instance (priority := 1100) decidableForallMemText (text : List Char) (p : Char → Prop)
    [DecidablePred p] :
    Decidable (∀ c ∈ text, p c) :=
  text.decidableBAll p

instance (priority := 1100) decidableExistsMemText (text : List Char) (p : Char → Prop)
    [DecidablePred p] :
    Decidable (∃ c ∈ text, p c) :=
  text.decidableBEx p

namespace Text

/-- `char::is_whitespace`: the Unicode property `White_Space`. -/
def isWhitespace (c : Char) : Bool :=
  let n := c.toNat
  (9 ≤ n && n ≤ 13) || n == 0x20 || n == 0x85 || n == 0xA0 || n == 0x1680 ||
    (0x2000 ≤ n && n ≤ 0x200A) || n == 0x2028 || n == 0x2029 || n == 0x202F || n == 0x205F ||
    n == 0x3000

/-- `str::trim`. -/
def trim (s : String) : String :=
  String.ofList (((s.toList.dropWhile isWhitespace).reverse.dropWhile isWhitespace).reverse)

/-- `s.trim().is_empty()`. -/
def isBlank (s : String) : Bool := decide (trim s = "")

/-- `str::starts_with`. -/
def startsWith (s pre : String) : Bool := pre.toList.isPrefixOf s.toList

theorem startsWith_iff {s pre : String} : startsWith s pre = true ↔ pre.toList <+: s.toList := by
  simp [startsWith, List.isPrefixOf_iff_prefix]

theorem startsWith_append {s pre : String} (h : startsWith s pre = true) (t : String) :
    startsWith (s ++ t) pre = true := by
  rw [startsWith_iff] at h ⊢
  rw [String.toList_append]
  exact h.trans (List.prefix_append _ _)

/-- A separator that occurs in neither first part splits a text in one way only. -/
theorem append_sep_inj {c : Char} {a a' b b' : List Char} (ha : c ∉ a) (ha' : c ∉ a')
    (h : a ++ c :: b = a' ++ c :: b') : a = a' ∧ b = b' := by
  induction a generalizing a' with
  | nil =>
    cases a' with
    | nil => simpa using h
    | cons d a' => exact absurd (List.cons.inj h).1 (by rintro rfl; simp at ha')
  | cons d a ih =>
    cases a' with
    | nil => exact absurd (List.cons.inj h).1 (by rintro rfl; simp at ha)
    | cons d' a' =>
      simp only [List.cons_append, List.cons.injEq] at h
      obtain ⟨rfl, h⟩ := h
      obtain ⟨rfl, rfl⟩ := ih (fun hm => ha (List.mem_cons_of_mem _ hm))
        (fun hm => ha' (List.mem_cons_of_mem _ hm)) h
      exact ⟨rfl, rfl⟩

/-- `str::split_inclusive('\n')`. -/
def splitInclusive : List Char → List (List Char)
  | [] => []
  | c :: cs =>
    if c = '\n' then [c] :: splitInclusive cs
    else
      match splitInclusive cs with
      | [] => [[c]]
      | line :: lines => (c :: line) :: lines

/-- A line without its ending. -/
def stripLineEnding (line : List Char) : List Char :=
  if line.getLast? = some '\n' then
    if line.dropLast.getLast? = some '\r' then line.dropLast.dropLast else line.dropLast
  else line

/-- `str::lines`. -/
def lines (s : String) : List String :=
  (splitInclusive s.toList).map fun line => String.ofList (stripLineEnding line)

theorem splitInclusive_append {line : List Char} (h : '\n' ∉ line) (rest : List Char) :
    splitInclusive (line ++ '\n' :: rest) = (line ++ ['\n']) :: splitInclusive rest := by
  induction line with
  | nil => rfl
  | cons c line ih =>
    rw [List.mem_cons, not_or] at h
    rw [List.cons_append, splitInclusive, if_neg (Ne.symm h.1), ih h.2]
    rfl

theorem stripLineEnding_append {line : List Char} (h : line.getLast? ≠ some '\r') :
    stripLineEnding (line ++ ['\n']) = line := by
  rw [stripLineEnding, if_pos List.getLast?_concat, List.dropLast_concat, if_neg h]

/-- Texts written one to a line, with `writeln!`. -/
def unlines : List String → String
  | [] => ""
  | text :: texts => text ++ "\n" ++ unlines texts

theorem unlines_append (texts more : List String) :
    unlines (texts ++ more) = unlines texts ++ unlines more := by
  induction texts with
  | nil => exact (String.empty_append ..).symm
  | cons text texts ih =>
    rw [List.cons_append, unlines, unlines, ih]
    simp only [String.append_assoc]

/-- The lines of a text that was written line by line. -/
theorem lines_unlines {texts : List String}
    (h : ∀ text ∈ texts, '\n' ∉ text.toList ∧ text.toList.getLast? ≠ some '\r') :
    lines (unlines texts) = texts := by
  induction texts with
  | nil => rfl
  | cons text texts ih =>
    obtain ⟨hline, hlast⟩ := h text List.mem_cons_self
    have hrest := ih fun t ht => h t (List.mem_cons_of_mem _ ht)
    have hlist : (unlines (text :: texts)).toList = text.toList ++
        '\n' :: (unlines texts).toList := by
      rw [unlines, String.toList_append, String.toList_append, List.append_assoc]
      rfl
    rw [lines, hlist, splitInclusive_append hline, List.map_cons, stripLineEnding_append hlast,
      String.ofList_toList]
    exact congrArg _ hrest

/-- A text that starts with a character other than white space is not blank. -/
theorem isBlank_of_head {s : String} {c : Char} {cs : List Char} (h : s.toList = c :: cs)
    (hc : isWhitespace c = false) : isBlank s = false := by
  refine decide_eq_false fun htrim => ?_
  have hnil := congrArg String.toList htrim
  rw [trim, String.toList_ofList, h,
    List.dropWhile_cons_of_neg (by rw [hc]; exact Bool.false_ne_true)] at hnil
  have hall := List.dropWhile_eq_nil_iff.1 (List.reverse_eq_nil_iff.1 hnil)
  have hspace := hall c (List.mem_reverse.2 List.mem_cons_self)
  rw [hc] at hspace
  cases hspace

/-- The digits of a number. -/
theorem isDigit_of_mem_toString {n : ℕ} {c : Char} (hc : c ∈ (toString n).toList) :
    c.isDigit = true := by
  rw [Nat.toString_eq_ofList_toDigits, String.toList_ofList] at hc
  exact Nat.isDigit_of_mem_toDigits (by decide) (by decide) hc

theorem not_mem_toString {c : Char} (hc : c.isDigit = false) (n : ℕ) : c ∉ (toString n).toList := by
  intro h
  rw [isDigit_of_mem_toString h] at hc
  cases hc

end Text

theorem toString_nat_inj {m n : ℕ} (h : toString m = toString n) : m = n := by
  rw [Nat.toString_eq_ofList_toDigits, Nat.toString_eq_ofList_toDigits, String.ofList_inj] at h
  rw [← Nat.ofDigitChars_ten_toDigits (n := m), h, Nat.ofDigitChars_ten_toDigits]

/-! ### JSON values -/

/-- A JSON number as `serde_json` stores it: an unsigned or a negative integer, or a double given
by its bits. -/
inductive Number where
  | posInt (n : UInt64)
  | negInt (n : Int64)
  | float (bits : UInt64)
  deriving DecidableEq

/-- A JSON value. -/
inductive Value where
  | null
  | bool (b : Bool)
  | number (n : Number)
  | string (s : String)
  | array (items : List Value)
  | object (fields : List (String × Value))

namespace Value

-- The deriving handler does not cover nested types, so equality is decided by hand, one function
-- per list layer.
mutual

/-- Equality of values is decidable. -/
def decEq : (a b : Value) → Decidable (a = b)
  | .null, .null => isTrue rfl
  | .bool a, .bool b => decidable_of_iff (a = b) (by simp)
  | .number a, .number b => decidable_of_iff (a = b) (by simp)
  | .string a, .string b => decidable_of_iff (a = b) (by simp)
  | .array a, .array b =>
    match decEqList a b with
    | isTrue h => isTrue (by rw [h])
    | isFalse h => isFalse (by simpa using h)
  | .object a, .object b =>
    match decEqFields a b with
    | isTrue h => isTrue (by rw [h])
    | isFalse h => isFalse (by simpa using h)
  | .null, .bool _ | .null, .number _ | .null, .string _ | .null, .array _ | .null, .object _
  | .bool _, .null | .bool _, .number _ | .bool _, .string _ | .bool _, .array _
  | .bool _, .object _ | .number _, .null | .number _, .bool _ | .number _, .string _
  | .number _, .array _ | .number _, .object _ | .string _, .null | .string _, .bool _
  | .string _, .number _ | .string _, .array _ | .string _, .object _ | .array _, .null
  | .array _, .bool _ | .array _, .number _ | .array _, .string _ | .array _, .object _
  | .object _, .null | .object _, .bool _ | .object _, .number _ | .object _, .string _
  | .object _, .array _ => isFalse (by simp)

/-- Equality of arrays. -/
def decEqList : (a b : List Value) → Decidable (a = b)
  | [], [] => isTrue rfl
  | [], _ :: _ | _ :: _, [] => isFalse (by simp)
  | a :: as, b :: bs =>
    match decEq a b, decEqList as bs with
    | isTrue h, isTrue hs => isTrue (by rw [h, hs])
    | isFalse h, _ => isFalse (by simp [h])
    | _, isFalse hs => isFalse (by simp [hs])

/-- Equality of object entries. -/
def decEqFields : (a b : List (String × Value)) → Decidable (a = b)
  | [], [] => isTrue rfl
  | [], _ :: _ | _ :: _, [] => isFalse (by simp)
  | (k, a) :: as, (l, b) :: bs =>
    match decEq a b, decEqFields as bs with
    | isTrue h, isTrue hs => decidable_of_iff (k = l) (by simp [h, hs])
    | isFalse h, _ => isFalse (by simp [h])
    | _, isFalse hs => isFalse (by simp [hs])

end

instance : DecidableEq Value := decEq

/-- `Value::as_str`. -/
def asStr : Value → Option String
  | .string s => some s
  | _ => none

/-- `Value::as_array`. -/
def asArray : Value → Option (List Value)
  | .array items => some items
  | _ => none

/-- `Value::as_u64`. -/
def asU64 : Value → Option ℕ
  | .number (.posInt n) => some n.toNat
  | _ => none

/-- `value.as_f64().is_some()`: every JSON number has a double. -/
def isNumber : Value → Bool
  | .number _ => true
  | _ => false

/-- `value_as_f32_vec(value).is_some()`, with the length of the vector: an array of numbers. -/
def vectorDimensionCount (v : Value) : Option ℕ :=
  match v.asArray with
  | none => none
  | some items => if items.all isNumber then some items.length else none

end Value

mutual

/-- The arrays and objects around the innermost values of a value, itself included. -/
def Value.nesting : Value → ℕ
  | .array items => Value.nestingItems items + 1
  | .object fields => Value.nestingFields fields + 1
  | _ => 0

/-- The deepest of the items of an array. -/
def Value.nestingItems : List Value → ℕ
  | [] => 0
  | v :: vs => max v.nesting (Value.nestingItems vs)

/-- The deepest of the entries of an object. -/
def Value.nestingFields : List (String × Value) → ℕ
  | [] => 0
  | (_, v) :: fields => max v.nesting (Value.nestingFields fields)

end

/-- The arrays and objects that `serde_json` reads within each other: its recursion limit is 128. -/
def jsonNestingLimit : ℕ := 127

/-- A JSON object: `serde_json::Map<String, Value>`, sorted by key. -/
abbrev Fields := Std.ExtTreeMap String Value compare

/-! ### Errors -/

/-- The `std::io::ErrorKind`s the engine tells apart. -/
inductive IoErrorKind where
  | notFound
  | invalidData
  | unexpectedEof
  | alreadyExists
  | other
  deriving DecidableEq, Repr

/-- `tracedb_core::TraceDbError`, with the text each variant carries. -/
inductive TraceDbError where
  | io (kind : IoErrorKind) (message : String)
  | json
  | unknownTable (table : String)
  | invalidSchema (message : String)
  | invalidRecord (message : String)
  | invalidVectorDimensions (column : String) (expected actual : ℕ)
  | walCorruption (message : String)
  | manifestCorruption (message : String)
  | crypto (message : String)
  | artifactCorruption (message : String)
  | notFound (message : String)
  | invalidCommand (message : String)
  deriving DecidableEq, Repr

/-- `TraceDbError::to_string`; the text of a JSON error is not modelled. -/
def TraceDbError.text : TraceDbError → String
  | .io _ message => "io error: " ++ message
  | .json => "json error"
  | .unknownTable table => "unknown table: " ++ table
  | .invalidSchema message => "invalid schema: " ++ message
  | .invalidRecord message => "invalid record: " ++ message
  | .invalidVectorDimensions column expected actual =>
    s!"invalid vector dimensions for {column}: expected {expected}, got {actual}"
  | .walCorruption message => "wal corruption: " ++ message
  | .manifestCorruption message => "manifest corruption: " ++ message
  | .crypto message => "crypto error: " ++ message
  | .artifactCorruption message => "artifact corruption: " ++ message
  | .notFound message => "not found: " ++ message
  | .invalidCommand message => "invalid command: " ++ message

/-- `tracedb_core::Result`. -/
abbrev Result := Except TraceDbError

end TraceDB
