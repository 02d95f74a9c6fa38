import TraceDB.Data.Tokens
import TraceDB.Engine.Reference
import TraceDB.Lang.Words

/-!
# JSON as it stands in query texts

The compact text of a JSON value, as `serde_json` writes it, and its tokens.  How a number is
written is left open (`JsonPrinter`).  The tokens of a value are nested (`tokens_tree`), they have
no line end, and the text neither begins nor ends with white space or a single quote
(`compact_edges`).
-/

namespace TraceDB

open Brackets Text

/-- A character of the words of JSON: numbers, `true`, `false` and `null`. -/
def isJsonWordChar (c : Char) : Bool := c.isAlphanum || c = '+' || c = '-' || c = '.'

/-- A word of JSON. -/
def IsJsonWord (text : List Char) : Prop := text ≠ [] ∧ ∀ c ∈ text, isJsonWordChar c = true

/-- A character of the numbers of JSON. -/
def isJsonNumberChar (c : Char) : Bool := c.isDigit || ['+', '-', '.', 'e', 'E'].contains c

/-- A text of the characters of numbers. -/
def IsJsonNumber (text : List Char) : Prop := text ≠ [] ∧ ∀ c ∈ text, isJsonNumberChar c = true

theorem IsJsonNumber.isJsonWord {text : List Char} (h : IsJsonNumber text) : IsJsonWord text := by
  refine ⟨h.1, fun c hc => ?_⟩
  have hnumber := h.2 c hc
  rw [isJsonNumberChar, Bool.or_eq_true] at hnumber
  rcases hnumber with hdigit | hother
  · rw [isJsonWordChar, Char.isAlphanum, hdigit, Bool.or_true]
    rfl
  · have hall : ∀ d ∈ ['+', '-', '.', 'e', 'E'], isJsonWordChar d = true := by decide
    exact hall c (List.contains_iff_mem.1 hother)

/-- How `serde_json` writes numbers. -/
structure JsonPrinter (S : Type) where
  number : Number → List Char
  /-- An `f32`, or `null` where it is not finite. -/
  float : S → List Char
  isJsonNumber_number : ∀ n, IsJsonNumber (number n)
  isJsonWord_float : ∀ x, IsJsonWord (float x)

/-! ### Strings -/

/-- The inside of a JSON string. -/
def escaped (s : String) : List Char := s.toList.flatMap fun c => (escapeChar c).toList

/-- A JSON string. -/
def quoted (s : String) : List Char := '"' :: (escaped s ++ ['"'])

theorem toList_quote (s : String) : (quote s).toList = quoted s := by
  rw [quote, String.toList_append, String.toList_append, String.toList_join, List.flatMap_map]
  rfl

theorem isAlphanum_ne {c d : Char} (hc : c.isAlphanum = true) (hd : d.isAlphanum = false) :
    c ≠ d := by
  rintro rfl
  rw [hc] at hd
  cases hd

theorem isAlphanum_visible {c : Char} (h : c.isAlphanum = true) : 32 < c.toNat ∧ c.toNat < 127 := by
  change ((decide (c.val ≥ 'A'.val ∧ c.val ≤ 'Z'.val) || c.val ≥ 'a'.val && c.val ≤ 'z'.val) ||
    c.val ≥ '0'.val && c.val ≤ '9'.val) = true at h
  simp only [Bool.or_eq_true, Bool.and_eq_true, decide_eq_true_eq, UInt32.le_iff_toNat_le,
    ge_iff_le] at h
  have hupper : 'A'.val.toNat = 65 ∧ 'Z'.val.toNat = 90 := ⟨rfl, rfl⟩
  have hlower : 'a'.val.toNat = 97 ∧ 'z'.val.toNat = 122 := ⟨rfl, rfl⟩
  have hdigit : '0'.val.toNat = 48 ∧ '9'.val.toNat = 57 := ⟨rfl, rfl⟩
  rw [Char.toNat]
  omega

theorem isPlain_of_isAlphanum {c : Char} (h : c.isAlphanum = true) : isPlain c = true := by
  by_contra hc
  simp only [isPlain, List.contains_cons, List.contains_nil, Bool.or_false, Bool.not_eq_true,
    Bool.not_eq_false', Bool.or_eq_true, beq_iff_eq] at hc
  rcases hc with rfl | rfl | rfl | rfl | rfl | rfl | rfl | rfl | rfl <;> exact absurd h (by decide)

/-- The digits of `{:02x}` are letters and digits. -/
theorem hexByte_chars (b : UInt8) : ∀ c ∈ (hexByte b).toList, c.isAlphanum = true := by
  have hdigits : ∀ n < 16, (Nat.digitChar n).isAlphanum = true := by decide
  intro c hc
  rw [hexByte, String.toList_ofList, List.mem_pair] at hc
  have hb := b.toNat_lt
  rcases hc with rfl | rfl
  · exact hdigits _ (by omega)
  · exact hdigits _ (by omega)

/-- A character inside a JSON string closes nothing, and is no line end. -/
theorem literal_escapeChar (c : Char) :
    Literal (escapeChar c).toList ∧ '\n' ∉ (escapeChar c).toList := by
  have hescape : ∀ d : Char, d ≠ '\n' → Literal ['\\', d] ∧ '\n' ∉ ['\\', d] := by
    intro d hd
    refine ⟨.escape d .nil, ?_⟩
    simpa using Ne.symm hd
  unfold escapeChar
  by_cases hquote : c = '"'
  · rw [if_pos hquote]
    exact hescape '"' (by decide)
  by_cases hslash : c = '\\'
  · rw [if_neg hquote, if_pos hslash]
    exact hescape '\\' (by decide)
  by_cases hline : c = '\n'
  · rw [if_neg hquote, if_neg hslash, if_pos hline]
    exact hescape 'n' (by decide)
  rw [if_neg hquote, if_neg hslash, if_neg hline]
  split_ifs
  · exact hescape 'r' (by decide)
  · exact hescape 't' (by decide)
  · exact hescape 'b' (by decide)
  · exact hescape 'f' (by decide)
  · rw [String.toList_append]
    have hhex := hexByte_chars (UInt8.ofNat c.toNat)
    have hchars : ∀ d ∈ '0' :: '0' :: (hexByte (UInt8.ofNat c.toNat)).toList,
        d.isAlphanum = true := by
      simpa using hhex
    constructor
    · exact .escape 'u' (.of_forall fun d hd =>
        ⟨isAlphanum_ne (hchars d hd) (by decide), isAlphanum_ne (hchars d hd) (by decide)⟩)
    · intro hmem
      have hnot : '\n' ∉ '0' :: '0' :: (hexByte (UInt8.ofNat c.toNat)).toList :=
        fun hd => absurd (hchars _ hd) (by decide)
      exact hnot (by simpa using hmem)
  · rw [String.toList_singleton]
    exact ⟨.char hquote hslash .nil, by simpa using Ne.symm hline⟩

theorem literal_escaped (s : String) : Literal (escaped s) := by
  rw [escaped]
  induction s.toList with
  | nil => exact .nil
  | cons c text ih => exact (literal_escapeChar c).1.append ih

theorem newline_not_mem_quoted (s : String) : '\n' ∉ quoted s := by
  intro hmem
  rw [quoted, List.mem_cons, List.mem_append, List.mem_singleton] at hmem
  rcases hmem with h | h | h
  · cases h
  · obtain ⟨c, -, hc⟩ := List.mem_flatMap.1 h
    exact (literal_escapeChar c).2 hc
  · cases h

/-! ### Values -/

section

variable {S : Type} (P : JsonPrinter S)

mutual

/-- The tokens of a value. -/
def Value.tokens : Value → List (List Char)
  | .null => ["null".toList]
  | .bool b => [if b then "true".toList else "false".toList]
  | .number n => [P.number n]
  | .string s => [quoted s]
  | .array items => ['['] :: (Value.itemTokens items ++ [[']']])
  | .object fields => ['\x7b'] :: (Value.fieldTokens fields ++ [['\x7d']])

/-- The tokens of the items of an array. -/
def Value.itemTokens : List Value → List (List Char)
  | [] => []
  | v :: vs => v.tokens ++ (if vs.isEmpty then [] else [','] :: Value.itemTokens vs)

/-- The tokens of the entries of an object. -/
def Value.fieldTokens : List (String × Value) → List (List Char)
  | [] => []
  | (k, v) :: fs =>
    quoted k :: [':'] :: (v.tokens ++ (if fs.isEmpty then [] else [','] :: Value.fieldTokens fs))

end

/-- The text of a value, without blanks. -/
def Value.compact (v : Value) : List Char := (v.tokens P).flatten

/-- The tokens of a vector. -/
def vectorTokens (vector : List S) : List (List Char) :=
  ['['] :: ((vector.map P.float).intersperse [','] ++ [[']']])

/-- The text of a vector, without blanks. -/
def compactVector (vector : List S) : List Char := (vectorTokens P vector).flatten

/-! ### Tokens -/

/-- A character at an end of a token. -/
def isEdge (c : Char) :
    Bool := isJsonWordChar c || ['"', '[', ']', '\x7b', '\x7d', ':', ','].contains c

/-- A text begins and ends with characters of tokens. -/
structure Edged (text : List Char) : Prop where
  head : ∃ c rest, text = c :: rest ∧ isEdge c = true
  last : ∃ front c, text = front ++ [c] ∧ isEdge c = true

/-- A token of JSON. -/
inductive IsJsonToken : List Char → Prop where
  | word {word : List Char} : IsJsonWord word → IsJsonToken word
  | string (s : String) : IsJsonToken (quoted s)
  | sign {c : Char} : c ∈ ['[', ']', '\x7b', '\x7d', ':', ','] → IsJsonToken [c]

theorem Edged.append {a b : List Char} (ha : Edged a) (hb : Edged b) : Edged (a ++ b) where
  head := by
    obtain ⟨c, rest, rfl, hc⟩ := ha.head
    exact ⟨c, rest ++ b, rfl, hc⟩
  last := by
    obtain ⟨front, c, rfl, hc⟩ := hb.last
    exact ⟨a ++ front, c, (List.append_assoc _ _ _).symm, hc⟩

theorem Edged.flatten {tokens : List (List Char)} (hne : tokens ≠ [])
    (h : ∀ token ∈ tokens, Edged token) :
    Edged tokens.flatten := by
  induction tokens with
  | nil => exact absurd rfl hne
  | cons token tokens ih =>
    rw [List.forall_mem_cons] at h
    rw [List.flatten_cons]
    cases tokens with
    | nil =>
      rw [List.flatten_nil, List.append_nil]
      exact h.1
    | cons next tokens => exact h.1.append (ih (List.cons_ne_nil _ _) h.2)

theorem isEdge_of_isJsonWordChar {c : Char} (h : isJsonWordChar c = true) : isEdge c = true := by
  rw [isEdge, h, Bool.true_or]

/-- The characters of words are visible. -/
theorem isJsonWordChar_spec {c : Char} (h : isJsonWordChar c = true) :
    isPlain c = true ∧ isWhitespace c = false := by
  simp only [isJsonWordChar, Bool.or_eq_true, decide_eq_true_eq] at h
  rcases h with ((h | rfl) | rfl) | rfl
  · exact ⟨isPlain_of_isAlphanum h, isWhitespace_of_visible (isAlphanum_visible h)⟩
  · decide
  · decide
  · decide

theorem isEdge_of_sign {c : Char} (h : c ∈ ['[', ']', '\x7b', '\x7d', ':', ',']) :
    isEdge c = true := by
  have hall : ∀ d ∈ ['[', ']', '\x7b', '\x7d', ':', ','], isEdge d = true := by decide
  exact hall c h

theorem IsJsonWord.edged {word : List Char} (h : IsJsonWord word) : Edged word where
  head := by
    obtain ⟨c, rest, rfl⟩ := List.exists_cons_of_ne_nil h.1
    exact ⟨c, rest, rfl, isEdge_of_isJsonWordChar (h.2 c List.mem_cons_self)⟩
  last := ⟨word.dropLast, word.getLast h.1, (List.dropLast_append_getLast h.1).symm,
    isEdge_of_isJsonWordChar (h.2 _ (List.getLast_mem h.1))⟩

theorem IsJsonToken.edged {token : List Char} (h : IsJsonToken token) : Edged token := by
  cases h with
  | word hword => exact hword.edged
  | string s => exact ⟨⟨'"', _, rfl, by decide⟩, ⟨'"' :: escaped s, '"', rfl, by decide⟩⟩
  | sign hc => exact ⟨⟨_, [], rfl, isEdge_of_sign hc⟩, ⟨[], _, rfl, isEdge_of_sign hc⟩⟩

theorem IsJsonToken.line {token : List Char} (h : IsJsonToken token) : '\n' ∉ token := by
  cases h with
  | word hword =>
    intro hmem
    have hline := hword.2 _ hmem
    revert hline
    decide
  | string s => exact newline_not_mem_quoted s
  | sign hc =>
    intro hmem
    rw [← List.mem_singleton.1 hmem] at hc
    revert hc
    decide

theorem isJsonWord_true : IsJsonWord "true".toList := ⟨by decide, by decide⟩

theorem isJsonWord_false : IsJsonWord "false".toList := ⟨by decide, by decide⟩

theorem isJsonWord_null : IsJsonWord "null".toList := ⟨by decide, by decide⟩

/-- The tokens of a value, or of a part of one. -/
structure JsonTokens (tokens : List (List Char)) : Prop where
  tree : TokenTree tokens
  token : ∀ token ∈ tokens, IsJsonToken token

namespace JsonTokens

theorem nil : JsonTokens [] := ⟨.nil, by simp⟩

theorem append {a b : List (List Char)} (ha : JsonTokens a) (hb : JsonTokens b) :
    JsonTokens (a ++ b) where
  tree := ha.tree.append hb.tree
  token := fun token hmem => (List.mem_append.1 hmem).elim (ha.token token) (hb.token token)

theorem word {word : List Char} (h : IsJsonWord word) : JsonTokens [word] where
  tree := .word (fun c hc => (isJsonWordChar_spec (h.2 c hc)).1) .nil
  token := by simpa using IsJsonToken.word h

theorem string (s : String) : JsonTokens [quoted s] where
  tree := .literal (literal_escaped s) .nil
  token := by simpa using IsJsonToken.string s

theorem single {c : Char} (hplain : isPlain c = true)
    (hsign : c ∈ ['[', ']', '\x7b', '\x7d', ':', ',']) : JsonTokens [[c]] where
  tree := .word (by simpa using hplain) .nil
  token := by simpa using IsJsonToken.sign hsign

theorem group {opening closing : Char} (hpair : Pair opening closing) {inner : List (List Char)}
    (h : JsonTokens inner) (hopening : opening ∈ ['[', ']', '\x7b', '\x7d', ':', ','])
    (hclosing : closing ∈ ['[', ']', '\x7b', '\x7d', ':', ',']) :
    JsonTokens ([opening] :: (inner ++ [[closing]])) where
  tree := .group hpair h.tree .nil
  token := by
    rw [List.forall_mem_cons, List.forall_mem_append]
    exact ⟨.sign hopening, h.token, by simpa using IsJsonToken.sign hclosing⟩

end JsonTokens

mutual

theorem Value.tokens_json : ∀ v : Value, JsonTokens (v.tokens P)
  | .null => .word isJsonWord_null
  | .bool true => .word isJsonWord_true
  | .bool false => .word isJsonWord_false
  | .number n => .word (P.isJsonNumber_number n).isJsonWord
  | .string s => .string s
  | .array items => .group .brackets (Value.itemTokens_json items) (by decide) (by decide)
  | .object fields => .group .braces (Value.fieldTokens_json fields) (by decide) (by decide)

theorem Value.itemTokens_json : ∀ vs : List Value, JsonTokens (Value.itemTokens P vs)
  | [] => .nil
  | v :: vs => by
    refine (Value.tokens_json v).append ?_
    split_ifs
    · exact .nil
    · exact (JsonTokens.single (c := ',') (by decide) (by decide)).append (Value.itemTokens_json vs)

theorem Value.fieldTokens_json : ∀ fs : List (String × Value), JsonTokens (Value.fieldTokens P fs)
  | [] => .nil
  | (k, v) :: fs => by
    refine (JsonTokens.string k).append
      ((JsonTokens.single (c := ':') (by decide) (by decide)).append
        ((Value.tokens_json v).append ?_))
    split_ifs
    · exact .nil
    · exact (JsonTokens.single (c := ',') (by decide)
      (by decide)).append (Value.fieldTokens_json fs)

end

theorem floatTokens_json (vector : List S) :
    JsonTokens ((vector.map P.float).intersperse [',']) := by
  induction vector with
  | nil => exact .nil
  | cons x vector ih =>
    cases vector with
    | nil => exact .word (P.isJsonWord_float x)
    | cons y vector =>
      exact (JsonTokens.word (P.isJsonWord_float x)).append
        ((JsonTokens.single (c := ',') (by decide) (by decide)).append ih)

theorem vectorTokens_json (vector : List S) : JsonTokens (vectorTokens P vector) :=
  .group .brackets (floatTokens_json P vector) (by decide) (by decide)

theorem Value.tokens_ne_nil (v : Value) : v.tokens P ≠ [] := by
  cases v <;> exact List.cons_ne_nil _ _

/-! ### Texts -/

/-- What a scanner of query texts sees of a value: brackets and quotes are closed, there is no line
end, and no white space or single quote at the ends. -/
structure JsonText (text : List Char) : Prop where
  nested : Nested text
  line : '\n' ∉ text
  edged : Edged text

theorem JsonTokens.jsonText {tokens : List (List Char)} (h : JsonTokens tokens)
    (hne : tokens ≠ []) :
    JsonText tokens.flatten where
  nested := h.tree.nested_flatten
  line := fun hmem => by
    obtain ⟨token, htoken, hin⟩ := List.mem_flatten.1 hmem
    exact (h.token token htoken).line hin
  edged := .flatten hne fun token htoken => (h.token token htoken).edged

theorem Value.compact_text (v : Value) : JsonText (v.compact P) :=
  (v.tokens_json P).jsonText (v.tokens_ne_nil P)

theorem compactVector_text (vector : List S) : JsonText (compactVector P vector) :=
  (vectorTokens_json P vector).jsonText (List.cons_ne_nil _ _)

theorem quoted_text (s : String) : JsonText (quoted s) := by
  have h := (JsonTokens.string s).jsonText (List.cons_ne_nil _ _)
  rwa [List.flatten_cons, List.flatten_nil, List.append_nil] at h

theorem isEdge_spec {c : Char} (h : isEdge c = true) :
    isWhitespace c = false ∧ c ≠ '\'' ∧ c ≠ ';' := by
  rw [isEdge, Bool.or_eq_true] at h
  rcases h with h | h
  · refine ⟨(isJsonWordChar_spec h).2, ?_, ?_⟩ <;>
      · rintro rfl
        revert h
        decide
  · have hall : ∀ d ∈ ['"', '[', ']', '\x7b', '\x7d', ':', ','],
        isWhitespace d = false ∧ d ≠ '\'' ∧ d ≠ ';' := by decide
    exact hall c (List.contains_iff_mem.1 h)

theorem Edged.visible {text : List Char} (h : Edged text) : Visible text where
  head := by
    obtain ⟨c, rest, rfl, hc⟩ := h.head
    exact ⟨c, rest, rfl, (isEdge_spec hc).1⟩
  last := by
    obtain ⟨front, c, rfl, hc⟩ := h.last
    exact ⟨front, c, rfl, (isEdge_spec hc).1⟩

end

end TraceDB
