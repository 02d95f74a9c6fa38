import TraceDB.Data.Brackets
import TraceDB.Lang.Directives

/-!
# The loops of the SQL-ish form

What the loops over a text in the SQL-ish form see of it: its words outside of double quotes
(`PlainWords`).

* `findSqlishKeywordFrom_append` : `find_sqlish_keyword` passes over a text without its word.
* `findSqlishKeywordFrom_hit` : it stops at the word.
* `Laid.normalize` : where a text is tokens with white space between them,
  `normalize_sqlish_whitespace` keeps the tokens, and the white space where there has to be some.
-/

namespace TraceDB

open Brackets Text

/-! ### Words -/

/-- A text does not go on with a character of a word. -/
def Stops (text : List Char) : Prop := text.head?.any isSqlishIdentifierChar = false

theorem stops_nil : Stops [] := rfl

theorem stops_cons {c : Char} {text : List Char} :
    Stops (c :: text) ↔ isSqlishIdentifierChar c = false := by
  simp [Stops]

theorem stops_append {a : List Char} (hne : a ≠ []) (b : List Char) : Stops (a ++ b) ↔ Stops a := by
  obtain ⟨c, a, rfl⟩ := List.exists_cons_of_ne_nil hne
  rw [List.cons_append, stops_cons, stops_cons]

theorem stops_of_append {a b : List Char} (h : Stops (a ++ b)) : Stops a := by
  cases a with
  | nil => exact stops_nil
  | cons c a => exact (stops_append (List.cons_ne_nil c a) b).1 h

/-- A word of the SQL-ish form: a keyword, a name, or a word of a value. -/
def IsSqlishWord (word : List Char) :
    Prop := word ≠ [] ∧ ∀ c ∈ word, isSqlishIdentifierChar c = true

theorem IsSqlishWord.not_stops {word : List Char} (h : IsSqlishWord word) : ¬ Stops word := by
  obtain ⟨c, word, rfl⟩ := List.exists_cons_of_ne_nil h.1
  rw [stops_cons, h.2 c List.mem_cons_self]
  exact Bool.true_eq_false_eq_False

theorem IsSqlishWord.reverse {word : List Char} (h : IsSqlishWord word) :
    IsSqlishWord word.reverse :=
  ⟨fun hnil => h.1 (List.reverse_eq_nil_iff.1 hnil), fun c hc => h.2 c (List.mem_reverse.1 hc)⟩

theorem isSqlishIdentifierChar_ne {c d : Char} (hc : isSqlishIdentifierChar c = true)
    (hd : isSqlishIdentifierChar d = false) : c ≠ d := by
  rintro rfl
  rw [hc] at hd
  cases hd

theorem isSqlishIdentifierChar_toLower (c : Char) :
    isSqlishIdentifierChar c.toLower = isSqlishIdentifierChar c := by
  by_cases h : c.val ≥ 'A'.val ∧ c.val ≤ 'Z'.val
  · have hlow : 65 ≤ c.toNat := UInt32.le_iff_toNat_le.1 h.1
    have hhigh : c.toNat ≤ 90 := UInt32.le_iff_toNat_le.1 h.2
    have hletters : ∀ n < 128, isSqlishIdentifierChar (Char.ofNat n).toLower =
        isSqlishIdentifierChar (Char.ofNat n) := by decide
    have hletter := hletters c.toNat (by omega)
    rwa [Char.ofNat_toNat] at hletter
  · exact congrArg isSqlishIdentifierChar (toLower_of_not_upper h)

theorem IsSqlishWord.of_eqIgnoreAsciiCase {word keyword : List Char} (h : IsSqlishWord keyword)
    (heq : eqIgnoreAsciiCase word keyword = true) : IsSqlishWord word := by
  rw [eqIgnoreAsciiCase_iff] at heq
  refine ⟨?_, fun c hc => ?_⟩
  · rintro rfl
    exact h.1 (List.map_eq_nil_iff.1 heq.symm)
  · have hmem : c.toLower ∈ keyword.map Char.toLower := heq ▸ List.mem_map_of_mem hc
    obtain ⟨d, hd, hdc⟩ := List.mem_map.1 hmem
    rw [← isSqlishIdentifierChar_toLower, ← hdc, isSqlishIdentifierChar_toLower]
    exact h.2 d hd

/-- Two ways to read a word are the same. -/
theorem IsSqlishWord.append_inj {word word' after after' : List Char} (hword : IsSqlishWord word)
    (hword' : IsSqlishWord word') (hafter : Stops after) (hafter' : Stops after')
    (h : word ++ after = word' ++ after') : word = word' ∧ after = after' := by
  have htake : ∀ {word after : List Char}, IsSqlishWord word → Stops after →
      (word ++ after).takeWhile isSqlishIdentifierChar = word := by
    intro word after hword hafter
    rw [List.takeWhile_append_of_pos hword.2]
    cases after with
    | nil => exact List.append_nil word
    | cons c after =>
      rw [List.takeWhile_cons_of_neg (by rw [stops_cons.1 hafter]; exact Bool.false_ne_true),
        List.append_nil]
  have hsame : word = word' := by rw [← htake hword hafter, h, htake hword' hafter']
  subst hsame
  exact ⟨rfl, List.append_cancel_left h⟩

/-- The words of a text outside of double quotes are allowed; it has no single quotes there. -/
inductive PlainWords (allowed : List Char → Prop) : List Char → Prop where
  | nil : PlainWords allowed []
  | sign {c : Char} {text : List Char} : isSqlishIdentifierChar c = false → c ≠ '"' → c ≠ '\'' →
      PlainWords allowed text → PlainWords allowed (c :: text)
  | literal {body text : List Char} : Literal body → PlainWords allowed text →
      PlainWords allowed ('"' :: (body ++ '"' :: text))
  | word {word text : List Char} : IsSqlishWord word → allowed word → Stops text →
      PlainWords allowed text → PlainWords allowed (word ++ text)

theorem PlainWords.single {allowed : List Char → Prop} {word : List Char} (h : IsSqlishWord word)
    (hallowed : allowed word) : PlainWords allowed word := by
  have hword := PlainWords.word h hallowed stops_nil .nil
  rwa [List.append_nil] at hword

theorem PlainWords.mono {allowed allowed' : List Char → Prop}
    (himp : ∀ word, allowed word → allowed' word) {text : List Char} (h : PlainWords allowed text) :
      PlainWords allowed' text := by
  induction h with
  | nil => exact .nil
  | sign hc hdouble hsingle _ ih => exact .sign hc hdouble hsingle ih
  | literal hbody _ ih => exact .literal hbody ih
  | word hword hallowed hstops _ ih => exact .word hword (himp _ hallowed) hstops ih

theorem PlainWords.append {allowed : List Char → Prop} {a b : List Char} (ha : PlainWords allowed a)
    (hb : PlainWords allowed b) (hstops : Stops a.reverse ∨ Stops b) :
      PlainWords allowed (a ++ b) := by
  induction ha with
  | nil => exact hb
  | sign hc hdouble hsingle _ ih =>
    rw [List.reverse_cons] at hstops
    exact .sign hc hdouble hsingle (ih (hstops.imp_left stops_of_append))
  | @literal body text hbody _ ih =>
    have hshape : ('"' :: (body ++ '"' :: text)).reverse = text.reverse ++
        '"' :: (body.reverse ++ ['"']) := by
      simp
    rw [hshape] at hstops
    rw [List.cons_append, List.append_assoc]
    exact .literal hbody (ih (hstops.imp_left stops_of_append))
  | @word word text hword hallowed htext _ ih =>
    rw [List.reverse_append] at hstops
    have hrest : Stops (text ++ b) := by
      cases text with
      | nil => exact hstops.resolve_left hword.reverse.not_stops
      | cons c text => exact (stops_append (List.cons_ne_nil c text) b).2 htext
    rw [List.append_assoc]
    exact .word hword hallowed hrest (ih (hstops.imp_left stops_of_append))

/-! ### Finding a keyword -/

theorem SqlishMode.next_plain {c : Char} (hdouble : c ≠ '"') (hsingle : c ≠ '\'') :
    SqlishMode.plain.next c = .plain := by
  rw [SqlishMode.next, if_neg hdouble, if_neg hsingle]

theorem SqlishMode.next_word {c : Char} (h : isSqlishIdentifierChar c = true) :
    SqlishMode.plain.next c = .plain :=
  next_plain (isSqlishIdentifierChar_ne h (by decide)) (isSqlishIdentifierChar_ne h (by decide))

section

variable {keyword : String}

/-- At a word, it is the keyword or there is none. -/
theorem keywordHere_word (hkeyword : IsSqlishWord keyword.toList) {word rest : List Char}
    (hword : IsSqlishWord word) (hrest : Stops rest) :
    keywordHere keyword (word ++ rest) =
      if eqIgnoreAsciiCase word keyword.toList then some rest else none := by
  have hstops : ∀ text : List Char, (!text.head?.any isSqlishIdentifierChar) = true ↔
      Stops text := by
    intro text
    rw [Stops, Bool.not_eq_true']
  rw [keywordHere]
  by_cases heq : eqIgnoreAsciiCase word keyword.toList = true
  · rw [if_pos heq, utf8ByteSize_eq, ← byteLength_of_eqIgnoreAsciiCase heq, splitBytes_append]
    exact if_pos ⟨heq, (hstops rest).2 hrest⟩
  · rw [if_neg heq]
    cases hsplit : splitBytes (word ++ rest) keyword.utf8ByteSize with
    | none => rfl
    | some parts =>
      obtain ⟨candidate, after⟩ := parts
      refine if_neg ?_
      rintro ⟨hcandidate, hafter⟩
      have htext := (splitBytes_eq_some_iff.1 hsplit).1
      obtain ⟨rfl, -⟩ := hword.append_inj (hkeyword.of_eqIgnoreAsciiCase hcandidate) hrest
        ((hstops after).1 hafter) htext
      exact heq hcandidate

/-- The rest of a word is passed over. -/
theorem findSqlishKeywordFrom_inside {word : List Char}
    (hword : ∀ c ∈ word, isSqlishIdentifierChar c = true) {before : List Char}
    (hbefore : ¬ Stops before) (rest : List Char) :
    findSqlishKeywordFrom keyword before .plain (word ++ rest) =
      findSqlishKeywordFrom keyword (word.reverse ++ before) .plain rest := by
  induction word generalizing before with
  | nil => rfl
  | cons c word ih =>
    rw [List.forall_mem_cons] at hword
    have hinside : ¬ (SqlishMode.plain = .plain ∧ SqlishMode.plain.next c = .plain ∧
        (!before.head?.any isSqlishIdentifierChar) = true) := by
      rintro ⟨-, -, hstops⟩
      exact hbefore (by simpa [Stops] using hstops)
    have hstart : ¬ Stops (c :: before) :=
      by rw [stops_cons, hword.1]; exact Bool.true_eq_false_eq_False
    rw [List.cons_append, findSqlishKeywordFrom, if_neg hinside, SqlishMode.next_word hword.1,
      ih hword.2 hstart]
    simp

/-- A word that is not the keyword is passed over. -/
theorem findSqlishKeywordFrom_word (hkeyword : IsSqlishWord keyword.toList) {word : List Char}
    (hword : IsSqlishWord word) (hne : eqIgnoreAsciiCase word keyword.toList = false)
    {rest : List Char} (hrest : Stops rest) (before : List Char) :
    findSqlishKeywordFrom keyword before .plain (word ++ rest) =
      findSqlishKeywordFrom keyword (word.reverse ++ before) .plain rest := by
  have hnone := keywordHere_word hkeyword hword hrest
  rw [hne, if_neg Bool.false_ne_true] at hnone
  obtain ⟨c, word, rfl⟩ := List.exists_cons_of_ne_nil hword.1
  have hc := hword.2 c List.mem_cons_self
  have hstart : ¬ Stops (c :: before) := by rw [stops_cons, hc]; exact Bool.true_eq_false_eq_False
  rw [List.cons_append] at hnone ⊢
  rw [findSqlishKeywordFrom, hnone]
  dsimp only
  rw [ite_self, SqlishMode.next_word hc,
    findSqlishKeywordFrom_inside (fun d hd => hword.2 d (List.mem_cons_of_mem c hd)) hstart]
  simp

/-- The keyword is found. -/
theorem findSqlishKeywordFrom_hit {word : List Char} (hkeyword : IsSqlishWord keyword.toList)
    (heq : eqIgnoreAsciiCase word keyword.toList = true) {before rest : List Char}
    (hbefore : Stops before) (hrest : Stops rest) :
    findSqlishKeywordFrom keyword before .plain (word ++ rest) = some (before.reverse, rest) := by
  have hword := hkeyword.of_eqIgnoreAsciiCase heq
  have hsome := keywordHere_word hkeyword hword hrest
  rw [if_pos heq] at hsome
  obtain ⟨c, word, rfl⟩ := List.exists_cons_of_ne_nil hword.1
  rw [List.cons_append] at hsome ⊢
  rw [findSqlishKeywordFrom, hsome]
  dsimp only
  refine if_pos ⟨rfl, SqlishMode.next_word (hword.2 c List.mem_cons_self), ?_⟩
  rw [Bool.not_eq_true']
  exact hbefore

/-- Text inside double quotes is passed over. -/
theorem findSqlishKeywordFrom_literal {body : List Char} (h : Literal body)
    (before rest : List Char) :
    findSqlishKeywordFrom keyword before (.doubleQuote false) (body ++ '"' :: rest) =
      findSqlishKeywordFrom keyword ('"' :: (body.reverse ++ before)) .plain rest := by
  have hstep : ∀ before mode c rest, mode ≠ SqlishMode.plain →
      findSqlishKeywordFrom keyword before mode (c :: rest) =
        findSqlishKeywordFrom keyword (c :: before) (mode.next c) rest := by
    intro before mode c rest hmode
    rw [findSqlishKeywordFrom]
    exact if_neg fun hc => hmode hc.1
  have hquoted : SqlishMode.doubleQuote false ≠ .plain := fun hc => by cases hc
  have hescaped : SqlishMode.doubleQuote true ≠ .plain := fun hc => by cases hc
  induction h generalizing before with
  | nil => exact hstep before _ '"' rest hquoted
  | @char c body hquote hslash _ ih =>
    have hnext : (SqlishMode.doubleQuote false).next c = .doubleQuote false := by
      rw [SqlishMode.next, if_neg hslash, if_neg hquote]
    rw [List.cons_append, hstep _ _ _ _ hquoted, hnext, ih]
    simp
  | @escape c body _ ih =>
    have hslash : (SqlishMode.doubleQuote false).next '\\' = .doubleQuote true := rfl
    have hnext : (SqlishMode.doubleQuote true).next c = .doubleQuote false := rfl
    rw [List.cons_append, hstep _ _ _ _ hquoted, hslash, List.cons_append,
      hstep _ _ _ _ hescaped, hnext, ih]
    simp

/-- A character that is in no word is passed over. -/
theorem findSqlishKeywordFrom_sign (hkeyword : IsSqlishWord keyword.toList) {c : Char}
    (hc : isSqlishIdentifierChar c = false) (before rest : List Char) :
    findSqlishKeywordFrom keyword before .plain (c :: rest) =
      findSqlishKeywordFrom keyword (c :: before) (SqlishMode.plain.next c) rest := by
  have hnone : keywordHere keyword (c :: rest) = none := by
    rw [keywordHere]
    cases hsplit : splitBytes (c :: rest) keyword.utf8ByteSize with
    | none => rfl
    | some parts =>
      obtain ⟨candidate, after⟩ := parts
      refine if_neg ?_
      rintro ⟨hcandidate, -⟩
      have hword := hkeyword.of_eqIgnoreAsciiCase hcandidate
      obtain ⟨d, candidate, rfl⟩ := List.exists_cons_of_ne_nil hword.1
      obtain ⟨rfl, -⟩ := List.cons.inj (splitBytes_eq_some_iff.1 hsplit).1
      exact isSqlishIdentifierChar_ne (hword.2 c List.mem_cons_self) hc rfl
  rw [findSqlishKeywordFrom, hnone]
  exact ite_self _

/-- A text without the keyword is passed over. -/
theorem findSqlishKeywordFrom_append (hkeyword : IsSqlishWord keyword.toList)
    {allowed : List Char → Prop} (hallowed : ∀ word, allowed word →
      eqIgnoreAsciiCase word keyword.toList = false) {text : List Char}
    (h : PlainWords allowed text) {before rest : List Char} (hbefore : Stops before ∨ Stops text)
    (hrest : Stops text.reverse ∨ Stops rest) :
    findSqlishKeywordFrom keyword before .plain (text ++ rest) =
      findSqlishKeywordFrom keyword (text.reverse ++ before) .plain rest := by
  induction h generalizing before with
  | nil => rfl
  | @sign c text hc hdouble hsingle _ ih =>
    rw [List.reverse_cons] at hrest
    rw [List.cons_append, findSqlishKeywordFrom_sign hkeyword hc,
      SqlishMode.next_plain hdouble hsingle, ih (.inl (stops_cons.2 hc))
      (hrest.imp_left stops_of_append), List.reverse_cons, List.append_assoc]
    rfl
  | @literal body text hbody _ ih =>
    have hshape : ('"' :: (body ++ '"' :: text)).reverse = text.reverse ++
        '"' :: (body.reverse ++ ['"']) := by
      simp
    rw [hshape] at hrest ⊢
    have htext : '"' :: (body ++ '"' :: text) ++ rest = '"' :: (body ++ '"' :: (text ++ rest)) :=
      by simp
    have hquote : SqlishMode.plain.next '"' = .doubleQuote false := rfl
    rw [htext, findSqlishKeywordFrom_sign hkeyword (by decide), hquote,
      findSqlishKeywordFrom_literal hbody, ih (.inl (stops_cons.2 (by decide)))
      (hrest.imp_left stops_of_append)]
    simp
  | @word word text hword hword' hstops _ ih =>
    rw [List.reverse_append] at hrest ⊢
    have hstops' : Stops (text ++ rest) := by
      cases text with
      | nil => exact hrest.resolve_left hword.reverse.not_stops
      | cons c text => exact (stops_append (List.cons_ne_nil c text) rest).2 hstops
    rw [List.append_assoc, findSqlishKeywordFrom_word hkeyword hword (hallowed _ hword') hstops',
      ih (.inr hstops) (hrest.imp_left stops_of_append), List.append_assoc]

end

/-! ### Tokens with white space between them -/

/-- A token that nothing runs into from behind; and after `SELECT` there is always white space. -/
def Separate (token text : List Char) : Prop :=
  token ≠ "SELECT".toList ∧ (Stops token.reverse ∨ Stops text)

/-- A text begins with tokens, with white space after each of them wherever it has to be. -/
inductive Laid : List (List Char) → List Char → List Char → Prop where
  | nil (after : List Char) : Laid [] after after
  | cons {token space text after : List Char} {tokens : List (List Char)} :
      (∀ c ∈ space, isWhitespace c = true) → (space = [] → Separate token text) →
      Laid tokens text after →
      Laid (token :: tokens) (token ++ (space ++ text)) after

theorem Laid.cons_inv {token text after : List Char} {tokens : List (List Char)}
    (h : Laid (token :: tokens) text after) :
    ∃ space rest, text = token ++ (space ++ rest) ∧ (∀ c ∈ space, isWhitespace c = true) ∧
      (space = [] → Separate token rest) ∧ Laid tokens rest after := by
  cases h with
  | cons hspace hapart hrest => exact ⟨_, _, rfl, hspace, hapart, hrest⟩

theorem Laid.append_inv {a b : List (List Char)} {text after : List Char}
    (h : Laid (a ++ b) text after) :
    ∃ middle, Laid a text middle ∧ Laid b middle after := by
  induction a generalizing text with
  | nil => exact ⟨text, .nil text, h⟩
  | cons token a ih =>
    obtain - | ⟨hspace, hapart, hrest⟩ := h
    obtain ⟨middle, hfront, hback⟩ := ih hrest
    exact ⟨middle, .cons hspace hapart hfront, hback⟩

theorem Laid.append {a b : List (List Char)} {text middle after : List Char}
    (ha : Laid a text middle) (hb : Laid b middle after) : Laid (a ++ b) text after := by
  induction ha with
  | nil => exact hb
  | cons hspace hapart _ ih => exact .cons hspace hapart (ih hb)

/-- What follows the tokens may be replaced by what is no less apart from them. -/
theorem Laid.exists_front {tokens : List (List Char)} {text after : List Char}
    (h : Laid tokens text after) :
    ∃ front, text = front ++ after ∧ ∀ after', (Stops after' ∨ after'.head? = after.head?) →
      Laid tokens (front ++ after') after' := by
  induction h with
  | nil after => exact ⟨[], rfl, fun after' _ => .nil after'⟩
  | @cons token space text after tokens hspace hapart hrest ih =>
    obtain ⟨front, rfl, hfront⟩ := ih
    refine ⟨token ++ (space ++ front), by simp only [List.append_assoc], fun after' hafter' => ?_⟩
    have hassoc : token ++ (space ++ front) ++ after' = token ++ (space ++ (front ++ after')) := by
      simp only [List.append_assoc]
    rw [hassoc]
    refine .cons hspace (fun hnil => ⟨(hapart hnil).1, (hapart hnil).2.imp_right fun hstops => ?_⟩)
      (hfront after' hafter')
    cases front with
    | nil =>
      refine hafter'.elim id fun hhead => ?_
      rw [List.nil_append] at hstops ⊢
      rwa [Stops, hhead]
    | cons c front => exact hstops

/-! ### White space -/

namespace WhitespaceScan

/-- What is written, with the space that is still to come. -/
def written (s : WhitespaceScan) : List Char := if s.pendingSpace then ' ' :: s.output else s.output

end WhitespaceScan

/-- A text in which quotes are closed, without white space outside of them. -/
def Solid (text : List Char) : Prop :=
  ∀ s : WhitespaceScan, s.mode = .plain →
    text.foldl WhitespaceScan.step s = ⟨text.reverse ++ s.written, .plain, false⟩

theorem Solid.append {a b : List Char} (ha : Solid a) (hb : Solid b) : Solid (a ++ b) := by
  intro s hs
  rw [List.foldl_append, ha s hs, hb _ rfl, List.reverse_append, List.append_assoc]
  rfl

theorem Solid.ne_nil {text : List Char} (h : Solid text) : text ≠ [] := by
  rintro rfl
  have hstart := congrArg WhitespaceScan.pendingSpace (h ⟨[], .plain, true⟩ rfl)
  exact absurd hstart (by decide)

/-- A character other than white space goes into the output. -/
theorem WhitespaceScan.step_taken {s : WhitespaceScan} {c : Char}
    (h : ¬ (s.mode = .plain ∧ isWhitespace c = true)) :
    s.step c = ⟨c :: s.written, s.mode.next c, false⟩ := if_neg h

theorem solid_char {c : Char} (hspace : isWhitespace c = false) (hdouble : c ≠ '"')
    (hsingle : c ≠ '\'') :
    Solid [c] := by
  intro s hs
  have hnot : ¬ (s.mode = .plain ∧ isWhitespace c = true) := by
    rw [hspace]
    exact fun hc => Bool.false_ne_true hc.2
  rw [List.foldl_cons, List.foldl_nil, WhitespaceScan.step_taken hnot, hs,
    SqlishMode.next_plain hdouble hsingle]
  rfl

theorem solid_of_forall {text : List Char} (hne : text ≠ [])
    (h : ∀ c ∈ text, isWhitespace c = false ∧ c ≠ '"' ∧ c ≠ '\'') : Solid text := by
  induction text with
  | nil => exact absurd rfl hne
  | cons c text ih =>
    rw [List.forall_mem_cons] at h
    have hc := solid_char h.1.1 h.1.2.1 h.1.2.2
    cases text with
    | nil => exact hc
    | cons d text => exact hc.append (ih (List.cons_ne_nil d text) h.2)

/-- A text in double quotes stays as it is. -/
theorem solid_literal {body : List Char} (h : Literal body) : Solid ('"' :: (body ++ ['"'])) := by
  have hbody : ∀ output, (body ++ ['"']).foldl WhitespaceScan.step
      ⟨output, .doubleQuote false, false⟩ =
      ⟨'"' :: (body.reverse ++ output), .plain, false⟩ := by
    induction h with
    | nil => exact fun output => rfl
    | @char c body hquote hslash _ ih =>
      intro output
      have hnext : (SqlishMode.doubleQuote false).next c = .doubleQuote false := by
        rw [SqlishMode.next, if_neg hslash, if_neg hquote]
      rw [List.cons_append, List.foldl_cons,
        WhitespaceScan.step_taken (fun hc => by cases hc.1), hnext, ih]
      simp [WhitespaceScan.written]
    | @escape c body _ ih =>
      intro output
      have hslash : (SqlishMode.doubleQuote false).next '\\' = .doubleQuote true := rfl
      have hnext : (SqlishMode.doubleQuote true).next c = .doubleQuote false := rfl
      rw [List.cons_append, List.foldl_cons,
        WhitespaceScan.step_taken (fun hc => by cases hc.1), hslash, List.cons_append,
        List.foldl_cons, WhitespaceScan.step_taken (fun hc => by cases hc.1), hnext, ih]
      simp [WhitespaceScan.written]
  intro s hs
  have hquote : SqlishMode.plain.next '"' = .doubleQuote false := rfl
  rw [List.foldl_cons, WhitespaceScan.step_taken (by rw [hs]; exact fun hc => by cases hc.2), hs,
    hquote, hbody]
  simp

/-- White space is put off, unless it comes first. -/
theorem foldl_blank {space : List Char} (h : ∀ c ∈ space, isWhitespace c = true)
    {s : WhitespaceScan} (hs : s.mode = .plain) :
    space.foldl WhitespaceScan.step s =
      if space = [] then s else { s with pendingSpace := !s.output.isEmpty } := by
  induction space generalizing s with
  | nil => rfl
  | cons c space ih =>
    rw [List.forall_mem_cons] at h
    have hstep : s.step c = { s with pendingSpace := !s.output.isEmpty } := if_pos ⟨hs, h.1⟩
    have hrest := ih h.2 (s := { s with pendingSpace := !s.output.isEmpty }) hs
    rw [List.foldl_cons, hstep, hrest, if_neg (List.cons_ne_nil c space)]
    exact ite_self _

/-- The tokens of a text stay, and the white space where there has to be some. -/
theorem Laid.normalize {tokens : List (List Char)} {text after : List Char}
    (h : Laid tokens text after) (hafter : after = []) (hsolid : ∀ token ∈ tokens, Solid token)
    {s : WhitespaceScan} (hs : s.mode = .plain) :
    ∃ text', Laid tokens text' [] ∧ text'.head? = text.head? ∧
      (text.foldl WhitespaceScan.step s).mode = .plain ∧
      (text.foldl WhitespaceScan.step s).written = text'.reverse ++ s.written := by
  induction h generalizing s with
  | nil after =>
    subst hafter
    exact ⟨[], .nil [], rfl, hs, rfl⟩
  | @cons token space text after tokens hspace hapart _ ih =>
    rw [List.forall_mem_cons] at hsolid
    -- The state after the token and its white space.
    have hstate : ((token ++ space).foldl WhitespaceScan.step s).mode = .plain ∧
        ((token ++ space).foldl WhitespaceScan.step s).written =
          (if space = [] then [] else [' ']) ++ (token.reverse ++ s.written) := by
      rw [List.foldl_append, hsolid.1 s hs, foldl_blank hspace rfl]
      split_ifs
      · exact ⟨rfl, rfl⟩
      · refine ⟨rfl, ?_⟩
        have hempty : (token.reverse ++ s.written).isEmpty = false := by
          simp [hsolid.1.ne_nil]
        rw [WhitespaceScan.written]
        dsimp only
        rw [hempty]
        rfl
    obtain ⟨text', hlaid, hhead, hmode, hwritten⟩ := ih hafter hsolid.2 hstate.1
    refine ⟨token ++ ((if space = [] then [] else [' ']) ++ text'), .cons ?_ ?_ hlaid, ?_, ?_, ?_⟩
    · split_ifs
      · simp
      · simp only [List.mem_singleton, forall_eq]
        decide
    · intro hnil
      have hspace : space = [] := by
        by_contra hne
        rw [if_neg hne] at hnil
        cases hnil
      exact ⟨(hapart hspace).1, (hapart hspace).2.imp_right fun hstops => by rwa [Stops, hhead]⟩
    · obtain ⟨c, token, rfl⟩ := List.exists_cons_of_ne_nil hsolid.1.ne_nil
      rfl
    · rwa [← List.append_assoc, List.foldl_append]
    · rw [← List.append_assoc, List.foldl_append, hwritten, hstate.2]
      split_ifs <;> simp

end TraceDB
