import Mathlib.Data.List.DropRight
import TraceDB.Core.Value
import TraceDB.Data.Slices

/-!
# The standard library on texts

What the code takes from the standard library to take a text apart: words, pieces and lines, the
comparison of ASCII letters in either case, cuts at a byte, and numbers.
-/

namespace TraceDB

/-! ### Numbers -/

/-- `usize::MAX`. -/
def usizeMax : ℕ := 2 ^ 64 - 1

/-- `str::parse::<usize>`: digits after an optional plus sign, within range. -/
def parseUsize (s : String) : Option ℕ :=
  let digits := match s.toList with
    | '+' :: cs => cs
    | cs => cs
  if digits = [] ∨ digits.any (fun c => !c.isDigit) then none
  else
    let n := digits.foldl (fun n c => 10 * n + (c.toNat - '0'.toNat)) 0
    if n ≤ usizeMax then some n else none

/-- The text of the error of `str::parse::<usize>`. -/
def parseUsizeError (s : String) : String :=
  let digits := match s.toList with
    | '+' :: cs => cs
    | cs => cs
  -- The digits are read from the left, and the first fault is the one that is told.
  let n := (digits.takeWhile Char.isDigit).foldl (fun n c => 10 * n + (c.toNat - '0'.toNat)) 0
  if s = "" then "cannot parse integer from empty string"
  else if usizeMax < n then "number too large to fit in target type"
  else "invalid digit found in string"

/-! ### Letters and bytes -/

/-- `eq_ignore_ascii_case`. -/
def eqIgnoreAsciiCase (a b : List Char) : Bool := a.map Char.toLower == b.map Char.toLower

theorem eqIgnoreAsciiCase_comm (a b : List Char) :
    eqIgnoreAsciiCase a b = eqIgnoreAsciiCase b a := by
  rw [eqIgnoreAsciiCase, eqIgnoreAsciiCase, Bool.beq_comm]

theorem eqIgnoreAsciiCase_iff {a b : List Char} :
    eqIgnoreAsciiCase a b = true ↔ a.map Char.toLower = b.map Char.toLower := by
  rw [eqIgnoreAsciiCase, beq_iff_eq]

theorem eqIgnoreAsciiCase_congr {a b c : List Char} (h : eqIgnoreAsciiCase a b = true) :
    eqIgnoreAsciiCase a c = eqIgnoreAsciiCase b c := by
  rw [eqIgnoreAsciiCase_iff] at h
  rw [eqIgnoreAsciiCase, eqIgnoreAsciiCase, h]

/-- `u8::is_ascii_whitespace`, on the byte of an ASCII character. -/
def isAsciiWhitespace (c : Char) : Bool :=
  c = ' ' || c = '\t' || c = '\n' || c = '\x0c' || c = '\r'

theorem val_toLower {c : Char} (h : c.val ≥ 'A'.val ∧ c.val ≤ 'Z'.val) :
    c.toLower.val = c.val + ('a'.val - 'A'.val) := congrArg Char.val (dif_pos h)

theorem toLower_of_not_upper {c : Char} (h : ¬ (c.val ≥ 'A'.val ∧ c.val ≤ 'Z'.val)) :
    c.toLower = c := dif_neg h

theorem utf8Size_toLower (c : Char) : c.toLower.utf8Size = c.utf8Size := by
  by_cases h : c.val ≥ 'A'.val ∧ c.val ≤ 'Z'.val
  · have hc : c.utf8Size = 1 := Char.utf8Size_eq_one_iff.2 (UInt32.le_trans h.2 (by decide))
    have hupper := UInt32.le_iff_toNat_le.1 h.2
    have hletter : 'Z'.val.toNat = 90 := rfl
    have hshift : ('a'.val - 'A'.val).toNat = 32 := rfl
    have hbound : (127 : UInt32).toNat = 127 := rfl
    rw [hc, Char.utf8Size_eq_one_iff, val_toLower h, UInt32.le_iff_toNat_le, UInt32.toNat_add]
    omega
  · rw [toLower_of_not_upper h]

/-- Texts that differ in letter case have as many bytes. -/
theorem byteLength_of_eqIgnoreAsciiCase {a b : List Char} (h : eqIgnoreAsciiCase a b = true) :
    byteLength a = byteLength b := by
  rw [eqIgnoreAsciiCase_iff] at h
  have hmap : ∀ text : List Char, byteLength (text.map Char.toLower) = byteLength text := by
    intro text
    induction text with
    | nil => rfl
    | cons c text ih => rw [List.map_cons, byteLength_cons, byteLength_cons, ih, utf8Size_toLower]
  rw [← hmap a, h, hmap b]

theorem Text.isWhitespace_of_visible {c : Char} (h : 32 < c.toNat ∧ c.toNat < 127) :
    Text.isWhitespace c = false := by
  simp only [Text.isWhitespace, Bool.or_eq_false_iff, Bool.and_eq_false_iff,
    decide_eq_false_iff_not, beq_eq_false_iff_ne]
  omega

/-- Letters are not white space, in either case. -/
theorem isWhitespace_toLower (c : Char) : Text.isWhitespace c.toLower = Text.isWhitespace c := by
  by_cases h : c.val ≥ 'A'.val ∧ c.val ≤ 'Z'.val
  · have hlow : 65 ≤ c.toNat := UInt32.le_iff_toNat_le.1 h.1
    have hhigh : c.toNat ≤ 90 := UInt32.le_iff_toNat_le.1 h.2
    have hlower : c.toLower.toNat = c.toNat + 32 := by
      have hsum : (c.val + ('a'.val - 'A'.val)).toNat = (c.val.toNat + 32) % 2 ^ 32 :=
        UInt32.toNat_add _ _
      rw [Char.toNat, val_toLower h, hsum]
      exact Nat.mod_eq_of_lt (by unfold Char.toNat at hhigh; omega)
    rw [Text.isWhitespace_of_visible ⟨by omega, by omega⟩,
      Text.isWhitespace_of_visible ⟨by omega, by omega⟩]
  · rw [toLower_of_not_upper h]

/-! ### Words, pieces and lines -/

namespace Text

/-- `str::split_whitespace`. -/
def splitWhitespace (s : String) : List String :=
  ((s.toList.splitOnP isWhitespace).filter (· ≠ [])).map String.ofList

/-- `str::split_once`, at a character. -/
def splitOnce (separator : Char) (s : String) : Option (String × String) :=
  match s.toList.dropWhile (· ≠ separator) with
  | [] => none
  | _ :: after => some (String.ofList (s.toList.takeWhile (· ≠ separator)), String.ofList after)

/-- The pieces between the occurrences of a separator, found from the left; the number counts the
characters of the last occurrence that are still to be skipped. -/
def pieces (separator : List Char) : ℕ → List Char → List (List Char)
  | _, [] => [[]]
  | skip + 1, _ :: rest => pieces separator skip rest
  | 0, c :: rest =>
    if separator.isPrefixOf (c :: rest) then [] :: pieces separator (separator.length - 1) rest
    else (pieces separator 0 rest).modifyHead (c :: ·)

/-- `str::split`, at a text that is not empty. -/
def split (separator : String) (s : String) : List String :=
  (pieces separator.toList 0 s.toList).map String.ofList

/-- `str::replace`, of a text that is not empty. -/
def replace (old new s : String) : String := String.intercalate new (split old s)

/-- `str::trim_start`. -/
def trimStart (text : List Char) : List Char := text.dropWhile isWhitespace

/-- `str::trim`, on the characters. -/
def strip (text : List Char) : List Char := (trimStart text).rdropWhile isWhitespace

theorem toList_trim (s : String) : (trim s).toList = strip s.toList := by
  rw [trim, String.toList_ofList]
  rfl

theorem trim_ofList (text : List Char) :
    trim (String.ofList text) = String.ofList (strip text) := by
  rw [trim, String.toList_ofList]
  rfl

theorem strip_cons {c : Char} (h : isWhitespace c = true) (text : List Char) :
    strip (c :: text) = strip text := by
  rw [strip, trimStart, List.dropWhile_cons_of_pos h]
  rfl

theorem strip_concat {c : Char} (h : isWhitespace c = true) (text : List Char) :
    strip (text ++ [c]) = strip text := by
  rw [strip, strip, trimStart, trimStart, List.dropWhile_append]
  split_ifs with hempty
  · rw [List.isEmpty_iff] at hempty
    rw [hempty, List.dropWhile_cons_of_pos h, List.dropWhile_nil]
  · exact List.rdropWhile_concat_pos _ _ _ h

theorem rdropWhile_cons_of_neg {p : Char → Bool} {c : Char} (h : ¬ p c = true) (text : List Char) :
    (c :: text).rdropWhile p = c :: text.rdropWhile p := by
  induction text using List.reverseRecOn with
  | nil => rw [List.rdropWhile_singleton, if_neg h, List.rdropWhile_nil]
  | append_singleton text d ih =>
    rw [← List.cons_append]
    by_cases hd : p d = true
    · rw [List.rdropWhile_concat_pos _ _ _ hd, List.rdropWhile_concat_pos _ _ _ hd, ih]
    · rw [List.rdropWhile_concat_neg _ _ _ hd, List.rdropWhile_concat_neg _ _ _ hd,
        List.cons_append]

/-- Only the end of a text that does not begin with white space is stripped. -/
theorem strip_cons_of_not {c : Char} (h : isWhitespace c = false) (text : List Char) :
    strip (c :: text) = c :: text.rdropWhile isWhitespace := by
  have hc : ¬ isWhitespace c = true := by rw [h]; exact Bool.false_ne_true
  rw [strip, trimStart, List.dropWhile_cons_of_neg hc, rdropWhile_cons_of_neg hc]

/-- A text with no white space at its ends. -/
theorem strip_eq_self {text : List Char} (hhead : ∀ c, text.head? = some c → isWhitespace c = false)
    (hlast : ∀ c, text.getLast? = some c → isWhitespace c = false) : strip text = text := by
  cases text with
  | nil => rfl
  | cons c text =>
    rw [strip_cons_of_not (hhead c rfl)]
    refine congrArg _ (List.rdropWhile_eq_self_iff.2 fun hne => ?_)
    rw [hlast (text.getLast hne)
      (by rw [List.getLast?_cons, List.getLast?_eq_getLast_of_ne_nil hne]; rfl)]
    exact Bool.false_ne_true

theorem splitOnce_of_notMem {separator : Char} {before after : String}
    (h : separator ∉ before.toList) :
    splitOnce separator (before ++ String.singleton separator ++ after) = some (before, after) := by
  have hall : ∀ c ∈ before.toList, decide (c ≠ separator) = true := by
    intro c hc
    exact decide_eq_true fun heq => h (heq ▸ hc)
  have htext : (before ++ String.singleton separator ++ after).toList =
      before.toList ++ separator :: after.toList := by simp
  rw [splitOnce, htext, List.dropWhile_append_of_pos hall, List.takeWhile_append_of_pos hall]
  simp

theorem splitOnce_eq_none {separator : Char} {s : String} (h : separator ∉ s.toList) :
    splitOnce separator s = none := by
  have hnil : s.toList.dropWhile (· ≠ separator) = [] := by
    rw [List.dropWhile_eq_nil_iff]
    intro c hc
    exact decide_eq_true fun heq => h (heq ▸ hc)
  rw [splitOnce, hnil]

/-- A first word. -/
theorem splitWhitespace_of_first {s word rest : String} {c : Char}
    (htext : s.toList = word.toList ++ c :: rest.toList) (hc : isWhitespace c = true)
    (hne : word ≠ "") (hword : ∀ c ∈ word.toList, isWhitespace c = false) :
    splitWhitespace s = word :: splitWhitespace rest := by
  have hnil : word.toList ≠ [] := by simpa using hne
  rw [splitWhitespace, htext, List.splitOnP_append_cons_of_forall_mem hword c hc,
    List.filter_cons_of_pos (by simpa using hnil), List.map_cons, String.ofList_toList]
  rfl

/-- The first white space of a text. -/
theorem exists_first_whitespace {text : List Char} (h : ∃ c ∈ text, isWhitespace c = true) :
    ∃ word c after, text = word ++ c :: after ∧ isWhitespace c = true ∧
      ∀ c ∈ word, isWhitespace c = false := by
  induction text with
  | nil => simp at h
  | cons d text ih =>
    cases hd : isWhitespace d with
    | true => exact ⟨[], d, text, rfl, hd, by simp⟩
    | false =>
      obtain ⟨c, hmem, hc⟩ := h
      have hrest : ∃ c ∈ text, isWhitespace c = true := by
        rcases List.mem_cons.1 hmem with rfl | hmem
        · rw [hd] at hc
          cases hc
        · exact ⟨c, hmem, hc⟩
      obtain ⟨word, c, after, rfl, hc, hword⟩ := ih hrest
      exact ⟨d :: word, c, after, rfl, hc, List.forall_mem_cons.2 ⟨hd, hword⟩⟩

/-- A first line that ends in `\r\n`. -/
theorem lines_crlf {line : String} (h : '\n' ∉ line.toList) (rest : String) :
    lines (line ++ "\r\n" ++ rest) = line :: lines rest := by
  have htext : (line ++ "\r\n" ++ rest).toList =
      (line.toList ++ ['\r']) ++ '\n' :: rest.toList := by
    simp
  have hline : '\n' ∉ line.toList ++ ['\r'] := by simpa using h
  have hstrip : stripLineEnding (line.toList ++ ['\r'] ++ ['\n']) = line.toList := by
    rw [stripLineEnding, if_pos List.getLast?_concat, List.dropLast_concat,
      if_pos List.getLast?_concat, List.dropLast_concat]
  rw [lines, htext, splitInclusive_append hline, List.map_cons, hstrip, String.ofList_toList]
  rfl

theorem trim_space (s : String) : trim (" " ++ s) = trim s := by
  have hspace : isWhitespace ' ' = true := by decide
  have htext : (" " ++ s).toList = ' ' :: s.toList := by simp
  rw [trim, htext, List.dropWhile_cons_of_pos hspace]
  rfl

theorem trim_eq_self {s : String} (h : ∀ c ∈ s.toList, isWhitespace c = false) : trim s = s := by
  have hdrop : ∀ chars : List Char, (∀ c ∈ chars, isWhitespace c = false) →
      chars.dropWhile isWhitespace = chars := by
    intro chars hchars
    cases chars with
    | nil => rfl
    | cons c chars =>
      exact List.dropWhile_cons_of_neg
        (by rw [hchars c List.mem_cons_self]; exact Bool.false_ne_true)
  rw [trim, hdrop _ h, hdrop _ (by simpa using h), List.reverse_reverse, String.ofList_toList]

theorem isDigit_iff {c : Char} : c.isDigit = true ↔ 48 ≤ c.toNat ∧ c.toNat ≤ 57 := by
  simp [Char.isDigit, UInt32.le_iff_toNat_le]

theorem isWhitespace_of_isDigit {c : Char} (h : c.isDigit = true) : isWhitespace c = false := by
  rw [isDigit_iff] at h
  simp only [isWhitespace, Bool.or_eq_false_iff, Bool.and_eq_false_iff, decide_eq_false_iff_not,
    beq_eq_false_iff_ne]
  omega

theorem trim_toString (n : ℕ) : trim (toString n) = toString n :=
  trim_eq_self fun _ hc => isWhitespace_of_isDigit (isDigit_of_mem_toString hc)

theorem pieces_skip (separator skipped rest : List Char) :
    pieces separator skipped.length (skipped ++ rest) = pieces separator 0 rest := by
  induction skipped with
  | nil => rfl
  | cons c skipped ih => exact ih

theorem pieces_separator (c : Char) (separator rest : List Char) :
    pieces (c :: separator) 0 (c :: separator ++ rest) = [] :: pieces (c :: separator) 0 rest := by
  have hprefix : (c :: separator).isPrefixOf (c :: (separator ++ rest)) = true :=
    List.isPrefixOf_iff_prefix.2 (List.prefix_append _ _)
  rw [List.cons_append, pieces, if_pos hprefix, List.length_cons, Nat.add_sub_cancel, pieces_skip]

theorem pieces_cons {separator rest : List Char} {c : Char} (h : ¬ separator <+: c :: rest) :
    pieces separator 0 (c :: rest) = (pieces separator 0 rest).modifyHead (c :: ·) := by
  rw [pieces, if_neg (by rwa [List.isPrefixOf_iff_prefix])]

theorem pieces_ne_nil (separator : List Char) (skip : ℕ) (text : List Char) :
    pieces separator skip text ≠ [] := by
  induction text generalizing skip with
  | nil => simp [pieces]
  | cons c text ih =>
    cases skip with
    | succ skip => exact ih skip
    | zero =>
      rw [pieces]
      split_ifs
      · exact List.cons_ne_nil _ _
      · rw [ne_eq, List.modifyHead_eq_nil_iff]
        exact ih 0

/-- A text without the separator is one piece. -/
theorem pieces_of_not_infix {separator text : List Char} (h : ¬ separator <:+: text) :
    pieces separator 0 text = [text] := by
  induction text with
  | nil => rfl
  | cons c text ih =>
    rw [pieces_cons fun hprefix => h hprefix.isInfix,
      ih fun hinside => h (hinside.trans (List.suffix_cons c text).isInfix)]
    rfl

end Text

end TraceDB
