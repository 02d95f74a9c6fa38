import TraceDB.Lang.Printer
import TraceDB.Query.Samples

/-!
# A reference format for query texts

A reader and a printer of JSON for the formats that examples use.  They know natural numbers only,
and the reader the one-letter escapes of strings.
-/

namespace TraceDB

/-- The characters that an escape stands for. -/
def unescape (c : Char) : Option Char :=
  if c = '"' ∨ c = '\\' ∨ c = '/' then some c
  else if c = 'n' then some '\n'
  else if c = 'r' then some '\r'
  else if c = 't' then some '\t'
  else none

/-- The rest of a string, with the text after it. -/
def readString : List Char → Option (List Char × List Char)
  | [] => none
  | '"' :: rest => some ([], rest)
  | '\\' :: c :: rest => do
    let c ← unescape c
    let (chars, rest) ← readString rest
    some (c :: chars, rest)
  | c :: rest => do
    let (chars, rest) ← readString rest
    some (c :: chars, rest)

/-- White space of JSON. -/
def isJsonWhitespace (c : Char) : Bool := c = ' ' || c = '\t' || c = '\n' || c = '\r'

/-- A text after the comma that may come first. -/
def skipComma (text : List Char) : List Char :=
  match text.dropWhile isJsonWhitespace with
  | ',' :: rest => rest
  | rest => rest

mutual

/-- A value, with the text after it, in as many steps as the number. -/
def readValue : ℕ → List Char → Option (Value × List Char)
  | 0, _ => none
  | steps + 1, text =>
    match text.dropWhile isJsonWhitespace with
    | 'n' :: 'u' :: 'l' :: 'l' :: rest => some (.null, rest)
    | 't' :: 'r' :: 'u' :: 'e' :: rest => some (.bool true, rest)
    | 'f' :: 'a' :: 'l' :: 's' :: 'e' :: rest => some (.bool false, rest)
    | '"' :: rest => (readString rest).map fun (chars, rest) =>
      (.string (String.ofList chars), rest)
    | '[' :: rest => (readItems steps rest).map fun (items, rest) => (.array items, rest)
    | '\x7b' :: rest => (readFields steps rest).map fun (fields, rest) => (.object fields, rest)
    | text =>
      (parseUsize (String.ofList (text.takeWhile Char.isDigit))).map fun n =>
        (.number (.posInt (UInt64.ofNat n)), text.dropWhile Char.isDigit)

/-- The items of an array up to its end. -/
def readItems : ℕ → List Char → Option (List Value × List Char)
  | 0, _ => none
  | steps + 1, text =>
    match text.dropWhile isJsonWhitespace with
    | ']' :: rest => some ([], rest)
    | text => do
      let (item, rest) ← readValue steps text
      let (items, rest) ← readItems steps (skipComma rest)
      some (item :: items, rest)

/-- The entries of an object up to its end. -/
def readFields : ℕ → List Char → Option (List (String × Value) × List Char)
  | 0, _ => none
  | steps + 1, text =>
    match text.dropWhile isJsonWhitespace with
    | '\x7d' :: rest => some ([], rest)
    | '"' :: rest => do
      let (key, rest) ← readString rest
      match rest.dropWhile isJsonWhitespace with
      | ':' :: rest => do
        let (value, rest) ← readValue steps rest
        let (fields, rest) ← readFields steps (skipComma rest)
        some ((String.ofList key, value) :: fields, rest)
      | _ => none
    | _ => none

end

/-- The value that a text is. -/
def readJson (text : String) : Except String Value :=
  match readValue (text.length + 1) text.toList with
  | some (value, rest) => if rest.all isJsonWhitespace
      then .ok value else .error "trailing characters"
  | none => .error "expected value"

/-- The reference format of the compilers. -/
def CompilerFormat.reference : CompilerFormat ℚ where
  valueFromStr := readJson
  vectorFromStr text := do
    match ← readJson text with
    | .array items =>
      items.mapM fun
        | .number n => .ok n.toRat
        | _ => .error "invalid type"
    | _ => .error "invalid type"
  numberAsF32 := Number.toRat
  debugText := quote

theorem isJsonNumber_toString (n : ℕ) : IsJsonNumber (toString n).toList := by
  constructor
  · rw [Nat.toString_eq_ofList_toDigits, String.toList_ofList]
    exact Nat.toDigits_ne_nil
  · intro c hc
    rw [isJsonNumberChar, Text.isDigit_of_mem_toString hc, Bool.true_or]

/-- The reference printer. -/
def JsonPrinter.reference : JsonPrinter ℚ where
  number n := (toString n.toRat.num.toNat).toList
  float x := (toString x.num.toNat).toList
  isJsonNumber_number _ := isJsonNumber_toString _
  isJsonWord_float _ := (isJsonNumber_toString _).isJsonWord

end TraceDB
