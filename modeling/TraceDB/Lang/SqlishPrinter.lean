import TraceDB.Lang.Printer
import TraceDB.Lang.Reference
import TraceDB.Lang.SqlishScan

/-!
# The round trip of the SQL-ish form

A query with a tenant, fields, a limit and nothing else compiles to itself (`sqlish_round_trip`),
with any white space between the tokens of its text and with or without a semicolon.  The tenant
must not be empty.

The loops over the text see its keywords only, since what is in quotes is passed over and no name is
a keyword (`SqlishToken`).
-/

namespace TraceDB

open Brackets Text

variable {S : Type}

/-! ### The text of a query -/

/-- The keywords of the adapter. -/
def sqlishKeywords : List String :=
  ["EXPLAIN", "SELECT", "FROM", "WHERE", "AND", "LIMIT"] ++ unsupportedSqlishKeywords

/-- A word is none of some keywords, in any letter case. -/
def Avoids (keywords : List String) (word : List Char) : Prop :=
  ∀ keyword ∈ keywords, eqIgnoreAsciiCase word keyword.toList = false

/-- An identifier of ASCII letters, digits and underscores that is no keyword. -/
structure IsSqlishName (name : String) : Prop where
  ne_nil : name.toList ≠ []
  char : ∀ c ∈ name.toList, c.isAlphanum = true ∨ c = '_'
  avoids : Avoids sqlishKeywords name.toList

/-- The tokens of conditions. -/
def conditionTokens (P : JsonPrinter S) : List (String × Value) → List (List Char)
  | [] => []
  | (field, value) :: entries =>
    field.toList :: ['='] :: value.compact P ::
      (if entries.isEmpty then [] else "AND".toList :: conditionTokens P entries)

/-- The tokens of a query, with its fields in some order. -/
def sqlishTokens (P : JsonPrinter S) (query : HybridQuery S) (entries : List (String × Value))
    (semicolon : Bool) : List (List Char) :=
  (if query.explain then ["EXPLAIN".toList] else []) ++
    (["SELECT".toList, ['*'], "FROM".toList, query.table.toList, "WHERE".toList] ++
      (conditionTokens P (("tenant_id", .string query.tenantId) :: entries) ++
        (["LIMIT".toList, (toString query.topK).toList] ++ (if semicolon then [[';']] else []))))

/-- The queries that the SQL-ish form can write. -/
structure SqlishFragment (query : HybridQuery S) : Prop where
  table : IsSqlishName query.table
  tenantId : query.tenantId ≠ ""
  field : ∀ entry ∈ query.scalarEq.toList, IsSqlishName entry.1
  not_tenant : ∀ entry ∈ query.scalarEq.toList, Avoids ["tenant_id", "tenant"] entry.1.toList
  textField : query.textField = none
  text : query.text = none
  vectorField : query.vectorField = none
  vector : query.vector = none
  cursor : query.cursor = none
  graphSeed : query.graphSeed = none
  temporalAsOf : query.temporalAsOf = none
  freshness : query.freshness = .strict
  topK_pos : 0 < query.topK
  /-- The limit is a `usize`. -/
  topK_le : query.topK ≤ usizeMax

/-- `serde_json` reads back the tenant and the values of a query from what it writes. -/
structure SqlishLossless (F : CompilerFormat S) (P : JsonPrinter S) (query : HybridQuery S) :
    Prop where
  tenantId : F.valueFromStr (String.ofList (quoted query.tenantId)) = .ok (.string query.tenantId)
  value : ∀ entry ∈ query.scalarEq.toList,
    F.valueFromStr (String.ofList (entry.2.compact P)) = .ok entry.2

/-! ### Tokens -/

/-- A token that the loops pass over if they look for other keywords than these. -/
structure SqlishToken (keywords : List String) (token : List Char) : Prop where
  solid : Solid token
  visible : Visible token
  words : PlainWords (Avoids keywords) token

theorem isSqlishIdentifierChar_spec {c : Char} (h : isSqlishIdentifierChar c = true) :
    isWhitespace c = false ∧ c ≠ '"' ∧ c ≠ '\'' := by
  refine ⟨?_, isSqlishIdentifierChar_ne h (by decide), isSqlishIdentifierChar_ne h (by decide)⟩
  simp only [isSqlishIdentifierChar, Bool.or_eq_true, decide_eq_true_eq] at h
  rcases h with (h | rfl) | rfl
  · exact isWhitespace_of_visible (isAlphanum_visible h)
  · decide
  · decide

theorem isSqlishIdentifierChar_of_isWhitespace {c : Char} (h : isWhitespace c = true) :
    isSqlishIdentifierChar c = false := by
  by_contra hc
  rw [Bool.not_eq_false] at hc
  rw [(isSqlishIdentifierChar_spec hc).1] at h
  cases h

theorem IsSqlishWord.isWord {word : List Char} (h : IsSqlishWord word) : IsWord word :=
  ⟨h.1, fun c hc => (isSqlishIdentifierChar_spec (h.2 c hc)).1⟩

section

variable {keywords : List String}

theorem IsSqlishWord.sqlishToken {word : List Char} (h : IsSqlishWord word)
    (havoids : Avoids keywords word) :
    SqlishToken keywords word where
  solid := solid_of_forall h.1 fun c hc => isSqlishIdentifierChar_spec (h.2 c hc)
  visible := h.isWord.visible
  words := .single h havoids

theorem sqlishToken_sign {c : Char} (hword : isSqlishIdentifierChar c = false)
    (hspace : isWhitespace c = false) (hdouble : c ≠ '"') (hsingle : c ≠ '\'') :
      SqlishToken keywords [c] where
  solid := solid_char hspace hdouble hsingle
  visible := ⟨⟨c, [], rfl, hspace⟩, ⟨[], c, rfl, hspace⟩⟩
  words := .sign hword hdouble hsingle .nil

theorem IsSqlishName.isSqlishWord {name : String} (h : IsSqlishName name) :
    IsSqlishWord name.toList := by
  refine ⟨h.ne_nil, fun c hc => ?_⟩
  rcases h.char c hc with halpha | rfl
  · rw [isSqlishIdentifierChar, halpha, Bool.true_or, Bool.true_or]
  · rfl

/-- White space changes no word. -/
theorem PlainWords.blank {allowed : List Char → Prop} {space text : List Char}
    (hspace : ∀ c ∈ space, isWhitespace c = true) (h : PlainWords allowed text) :
    PlainWords allowed (space ++ text) := by
  induction space with
  | nil => exact h
  | cons c space ih =>
    rw [List.forall_mem_cons] at hspace
    have hne : ∀ d, isWhitespace d = false → c ≠ d := by
      rintro d hd rfl
      rw [hspace.1] at hd
      cases hd
    exact .sign (isSqlishIdentifierChar_of_isWhitespace hspace.1)
      (hne _ (by decide)) (hne _ (by decide)) (ih hspace.2)

theorem stops_blank {space : List Char} (hspace : ∀ c ∈ space, isWhitespace c = true) :
    Stops space := by
  cases space with
  | nil => exact stops_nil
  | cons c space => exact stops_cons.2 (isSqlishIdentifierChar_of_isWhitespace
      (hspace c List.mem_cons_self))

/-- The words of a text are those of its tokens. -/
theorem Laid.plainWords {tokens : List (List Char)} {text after : List Char}
    (h : Laid tokens text after) (htokens : ∀ token ∈ tokens, SqlishToken keywords token)
    (hafter : PlainWords (Avoids keywords) after) :
    PlainWords (Avoids keywords) text := by
  induction h with
  | nil => exact hafter
  | @cons token space text after tokens hspace hapart _ ih =>
    rw [List.forall_mem_cons] at htokens
    refine htokens.1.words.append (.blank hspace (ih htokens.2 hafter)) ?_
    cases space with
    | nil => exact (hapart rfl).2
    | cons c space =>
      have hc := isSqlishIdentifierChar_of_isWhitespace (hspace c List.mem_cons_self)
      exact .inr (stops_cons.2 hc)

/-! ### Values -/

/-- Numbers are no keywords: each keyword has a letter that is in no number. -/
theorem avoids_number {word : List Char} (h : ∀ c ∈ word, isJsonNumberChar c = true) :
    Avoids sqlishKeywords word := by
  have hletter : ∀ keyword ∈ sqlishKeywords, ∃ c ∈ keyword.toList,
      isJsonNumberChar c.toLower = false := by
    decide
  have hlower : ∀ c : Char, isJsonNumberChar c = true → isJsonNumberChar c.toLower = true := by
    intro c hc
    by_cases h : c.val ≥ 'A'.val ∧ c.val ≤ 'Z'.val
    · have hlow : 65 ≤ c.toNat := UInt32.le_iff_toNat_le.1 h.1
      have hhigh : c.toNat ≤ 90 := UInt32.le_iff_toNat_le.1 h.2
      have hletters : ∀ n < 128, isJsonNumberChar (Char.ofNat n) = true →
          isJsonNumberChar (Char.ofNat n).toLower = true := by decide
      have hchar := hletters c.toNat (by omega)
      rw [Char.ofNat_toNat] at hchar
      exact hchar hc
    · have hsame : c.toLower = c := toLower_of_not_upper h
      rwa [hsame]
  intro keyword hkeyword
  obtain ⟨c, hc, hnot⟩ := hletter keyword hkeyword
  by_contra heq
  rw [Bool.not_eq_false, eqIgnoreAsciiCase_iff] at heq
  have hmem : c.toLower ∈ word.map Char.toLower := heq ▸ List.mem_map_of_mem hc
  obtain ⟨d, hd, hdc⟩ := List.mem_map.1 hmem
  rw [← hdc, hlower d (h d hd)] at hnot
  cases hnot

theorem avoids_word {word : List Char} (h : Avoids sqlishKeywords word) :
    Avoids unsupportedSqlishKeywords word :=
  fun keyword hkeyword => h keyword (List.mem_append_right _ hkeyword)

/-- The words of a number are parts of it. -/
theorem plainWords_number {text : List Char} (h : ∀ c ∈ text, isJsonNumberChar c = true) :
    PlainWords (Avoids sqlishKeywords) text := by
  induction hlength : text.length using Nat.strong_induction_on generalizing text with
  | _ n ih =>
    cases text with
    | nil => exact .nil
    | cons c text =>
      by_cases hc : isSqlishIdentifierChar c = true
      · -- A word, up to the next sign.
        have hsplit := List.takeWhile_append_dropWhile (p := isSqlishIdentifierChar)
          (l := c :: text)
        have htake := List.takeWhile_cons_of_pos (p := isSqlishIdentifierChar) (l := text) hc
        have hword : IsSqlishWord ((c :: text).takeWhile isSqlishIdentifierChar) := by
          refine ⟨?_, fun d hd => List.mem_takeWhile_imp hd⟩
          rw [htake]
          exact List.cons_ne_nil _ _
        have hhead := List.head?_dropWhile_not isSqlishIdentifierChar (c :: text)
        have hstops : Stops ((c :: text).dropWhile isSqlishIdentifierChar) := by
          cases hdrop : (c :: text).dropWhile isSqlishIdentifierChar with
          | nil => exact stops_nil
          | cons d more =>
            rw [hdrop] at hhead
            rw [stops_cons]
            simpa using hhead
        have hlater : ((c :: text).dropWhile isSqlishIdentifierChar).length < n := by
          have hsum := congrArg List.length hsplit
          rw [List.length_append, htake, List.length_cons] at hsum
          omega
        have hmore := ih _ hlater (fun d hd => h d ((List.dropWhile_suffix _).subset hd)) rfl
        rw [← hsplit]
        exact .word hword (avoids_number fun d hd => h d ((List.takeWhile_prefix _).subset hd))
          hstops hmore
      · rw [Bool.not_eq_true] at hc
        have hnumber := h c List.mem_cons_self
        have hquotes : c ≠ '"' ∧ c ≠ '\'' := by
          constructor <;>
            · rintro rfl
              revert hnumber
              decide
        rw [List.length_cons] at hlength
        exact .sign hc hquotes.1 hquotes.2
          (ih text.length (by omega) (fun d hd => h d (List.mem_cons_of_mem c hd)) rfl)

theorem plainWords_constant {word : List Char}
    (h : word ∈ ["null".toList, "true".toList, "false".toList]) :
    PlainWords (Avoids sqlishKeywords) word := by
  have hconstants : ∀ word ∈ ["null".toList, "true".toList, "false".toList],
      (word ≠ [] ∧ ∀ c ∈ word, isSqlishIdentifierChar c = true) ∧
        ∀ keyword ∈ sqlishKeywords, eqIgnoreAsciiCase word keyword.toList = false := by decide
  exact .single (hconstants word h).1 (hconstants word h).2

/-- A sign after a text. -/
theorem PlainWords.before_sign {allowed : List Char → Prop} {text rest : List Char} {c : Char}
    (h : PlainWords allowed text) (hc : c ∈ ['[', ']', '\x7b', '\x7d', ':', ','])
    (hrest : PlainWords allowed rest) : PlainWords allowed (text ++ c :: rest) := by
  have hsigns : ∀ d ∈ ['[', ']', '\x7b', '\x7d', ':', ','],
      isSqlishIdentifierChar d = false ∧ d ≠ '"' ∧ d ≠ '\'' := by decide
  obtain ⟨hword, hdouble, hsingle⟩ := hsigns c hc
  exact h.append (.sign hword hdouble hsingle hrest) (.inr (stops_cons.2 hword))

variable (P : JsonPrinter S)

mutual

/-- The words of a value are no keywords. -/
theorem Value.plainWords_tokens :
    ∀ v : Value, PlainWords (Avoids sqlishKeywords) (v.tokens P).flatten
  | .null => by
    rw [Value.tokens, List.flatten_singleton]
    exact plainWords_constant (by decide)
  | .bool true => by
    rw [Value.tokens, List.flatten_singleton]
    exact plainWords_constant (by decide)
  | .bool false => by
    rw [Value.tokens, List.flatten_singleton]
    exact plainWords_constant (by decide)
  | .number n => by
    rw [Value.tokens, List.flatten_singleton]
    exact plainWords_number (P.isJsonNumber_number n).2
  | .string s => by
    rw [Value.tokens, List.flatten_singleton]
    exact .literal (literal_escaped s) .nil
  | .array items => by
    rw [Value.tokens, List.flatten_cons, List.flatten_append, List.flatten_singleton]
    exact PlainWords.nil.before_sign (by decide)
      ((Value.plainWords_itemTokens items).before_sign (by decide) .nil)
  | .object fields => by
    rw [Value.tokens, List.flatten_cons, List.flatten_append, List.flatten_singleton]
    exact PlainWords.nil.before_sign (by decide)
      ((Value.plainWords_fieldTokens fields).before_sign (by decide) .nil)

theorem Value.plainWords_itemTokens :
    ∀ vs : List Value, PlainWords (Avoids sqlishKeywords) (Value.itemTokens P vs).flatten
  | [] => .nil
  | [v] => by
    have htext : Value.itemTokens P [v] = v.tokens P := List.append_nil _
    rw [htext]
    exact Value.plainWords_tokens v
  | v :: w :: vs => by
    have htext : (Value.itemTokens P (v :: w :: vs)).flatten =
        (v.tokens P).flatten ++ ',' :: (Value.itemTokens P (w :: vs)).flatten := by
      simp [Value.itemTokens]
    rw [htext]
    exact (Value.plainWords_tokens v).before_sign (by decide)
      (Value.plainWords_itemTokens (w :: vs))

theorem Value.plainWords_fieldTokens :
    ∀ fs : List (String × Value), PlainWords (Avoids sqlishKeywords)
    (Value.fieldTokens P fs).flatten
  | [] => .nil
  | [(k, v)] => by
    have htext : (Value.fieldTokens P [(k, v)]).flatten =
        '"' :: (escaped k ++ '"' :: ([] ++ ':' :: (v.tokens P).flatten)) := by
      simp [Value.fieldTokens, quoted]
    rw [htext]
    exact .literal (literal_escaped k)
      (PlainWords.nil.before_sign (by decide) (Value.plainWords_tokens v))
  | (k, v) :: f :: fs => by
    have htext : (Value.fieldTokens P ((k, v) :: f :: fs)).flatten =
        '"' :: (escaped k ++ '"' :: ([] ++ ':' ::
          ((v.tokens P).flatten ++ ',' :: (Value.fieldTokens P (f :: fs)).flatten))) := by
      simp [Value.fieldTokens, quoted]
    rw [htext]
    exact .literal (literal_escaped k) (PlainWords.nil.before_sign (by decide)
      ((Value.plainWords_tokens v).before_sign (by decide)
        (Value.plainWords_fieldTokens (f :: fs))))

end

/-- A token of JSON is solid. -/
theorem IsJsonToken.solid {token : List Char} (h : IsJsonToken token) : Solid token := by
  cases h with
  | word hword =>
    refine solid_of_forall hword.1 fun c hc => ⟨(isJsonWordChar_spec (hword.2 c hc)).2, ?_⟩
    have hchar := hword.2 c hc
    constructor <;>
      · rintro rfl
        revert hchar
        decide
  | string s => exact solid_literal (literal_escaped s)
  | sign hc =>
    have hsigns : ∀ d ∈ ['[', ']', '\x7b', '\x7d', ':', ','],
        isWhitespace d = false ∧ d ≠ '"' ∧ d ≠ '\'' := by decide
    obtain ⟨hspace, hdouble, hsingle⟩ := hsigns _ hc
    exact solid_char hspace hdouble hsingle

theorem Solid.flatten {tokens : List (List Char)} (hne : tokens ≠ [])
    (h : ∀ token ∈ tokens, Solid token) :
    Solid tokens.flatten := by
  induction tokens with
  | nil => exact absurd rfl hne
  | cons token tokens ih =>
    rw [List.forall_mem_cons] at h
    rw [List.flatten_cons]
    cases tokens with
    | nil =>
      rw [List.flatten_nil, List.append_nil]
      exact h.1
    | cons next tokens => exact h.1.append (ih (List.cons_ne_nil _ _) h.2)

theorem Value.sqlishToken (v : Value) : SqlishToken sqlishKeywords (v.compact P) where
  solid := .flatten (v.tokens_ne_nil P) fun token htoken =>
    ((v.tokens_json P).token token htoken).solid
  visible := (v.compact_text P).edged.visible
  words := v.plainWords_tokens P

theorem SqlishToken.mono {more keywords : List String} (hsub : keywords ⊆ more) {token : List Char}
    (h : SqlishToken more token) : SqlishToken keywords token where
  solid := h.solid
  visible := h.visible
  words := h.words.mono fun _ havoids keyword hkeyword => havoids keyword (hsub hkeyword)

/-! ### The ends of a text -/

theorem Laid.head {tokens : List (List Char)} {text after : List Char} (h : Laid tokens text after)
    (hne : tokens ≠ []) (hvisible : ∀ token ∈ tokens, Visible token) :
    ∃ c rest, text = c :: rest ∧ isWhitespace c = false := by
  cases h with
  | nil => exact absurd rfl hne
  | @cons token space text after tokens _ _ _ =>
    obtain ⟨c, rest, rfl, hc⟩ := (hvisible token List.mem_cons_self).head
    exact ⟨c, _, rfl, hc⟩

/-- Tokens without the white space around them. -/
theorem Laid.strip {tokens : List (List Char)} {last text start : List Char}
    (h : Laid (tokens ++ [last]) text []) (hvisible : ∀ token ∈ tokens ++ [last], Visible token)
    (hselect : last ≠ "SELECT".toList) (hstart : ∀ c ∈ start, isWhitespace c = true) :
    ∃ front, Text.strip (start ++ text) = front ++ last ∧
    Laid (tokens ++ [last]) (front ++ last) [] ∧
      Laid tokens front [] ∧ ∃ space, text = front ++ (last ++ space) ∧ ∀ c ∈ space,
      isWhitespace c = true := by
  obtain ⟨middle, hfront, hlast⟩ := h.append_inv
  obtain - | ⟨hspace, -, ⟨⟩⟩ := hlast
  rename_i space
  obtain ⟨c, rest, hc, hcspace⟩ := (hvisible last (by simp)).head
  obtain ⟨front, rfl, hreplace⟩ := hfront.exists_front
  have hlaid : Laid (tokens ++ [last]) (front ++ last) [] := by
    have hone : Laid [last] (last ++ ([] ++ [])) [] :=
      .cons (by simp) (fun _ => ⟨hselect, .inr stops_nil⟩) (.nil [])
    have hfront' : Laid tokens (front ++ last) last := hreplace last (.inr (by rw [hc]; rfl))
    simp only [List.append_nil] at hone
    exact hfront'.append hone
  have hvisible' : Visible (front ++ last) := by
    refine ⟨hlaid.head (by simp) hvisible, ?_⟩
    obtain ⟨before, d, hd, hdspace⟩ := (hvisible last (by simp)).last
    exact ⟨front ++ before, d, by rw [hd, List.append_assoc], hdspace⟩
  refine ⟨front, ?_, hlaid, ?_, space, by simp, hspace⟩
  · have htext : front ++ (last ++ (space ++ [])) = front ++ last ++ space := by simp
    rw [htext, strip_around hstart hspace hvisible']
  · have hnil := hreplace [] (.inl stops_nil)
    rwa [List.append_nil] at hnil

/-- The tokens of a text are those of the normalised text. -/
theorem normalize_laid {tokens : List (List Char)} {last text start : List Char}
    (h : Laid (tokens ++ [last]) text []) (hsolid : ∀ token ∈ tokens ++ [last], Solid token)
    (hvisible : ∀ token ∈ tokens ++ [last], Visible token) (hselect : last ≠ "SELECT".toList)
    (hstart : ∀ c ∈ start, isWhitespace c = true) :
    ∃ front, strip (normalizeSqlishWhitespace (strip (start ++ text))) = front ++ last ∧
      Laid (tokens ++ [last]) (front ++ last) [] ∧ Laid tokens front [] := by
  obtain ⟨front, hstrip, hfront, -⟩ := h.strip hvisible hselect hstart
  obtain ⟨text', hlaid, -, -, hwritten⟩ :=
    hfront.normalize (s := ⟨[], .plain, false⟩) rfl hsolid rfl
  -- A space that is still to come is white space at the end.
  have hpending : ∀ s : WhitespaceScan, strip s.output.reverse = strip s.written.reverse := by
    intro s
    rw [WhitespaceScan.written]
    split_ifs
    · rw [List.reverse_cons, strip_concat (by decide)]
    · rfl
  have hnormalized : strip (normalizeSqlishWhitespace (front ++ last)) = strip text' := by
    rw [normalizeSqlishWhitespace, hpending, hwritten, List.reverse_append, List.reverse_reverse]
    rfl
  have hnone : ∀ c ∈ ([] : List Char), isWhitespace c = true := by simp
  obtain ⟨front', hstrip', hfront', hnil, -⟩ := hlaid.strip hvisible hselect hnone
  exact ⟨front', by rw [hstrip, hnormalized]; exact hstrip', hfront', hnil⟩

/-- The semicolon and the white space at the ends are dropped. -/
theorem sqlishText_laid {tokens : List (List Char)} {last text start : List Char} {semicolon : Bool}
    (h : Laid (tokens ++ [last] ++ if semicolon then [[';']] else []) text [])
    (hsolid : ∀ token ∈ tokens ++ [last], Solid token)
    (hvisible : ∀ token ∈ tokens ++ [last], Visible token) (hselect : last ≠ "SELECT".toList)
    (hlast : ';' ∉ last) (hstart : ∀ c ∈ start, isWhitespace c = true) :
    ∃ front, sqlishText (strip (start ++ text)) = front ++ last ∧
    Laid (tokens ++ [last]) (front ++ last) [] := by
  have hkeep : ∀ front space : List Char, (∀ c ∈ space, isWhitespace c = true) →
      (front ++ (last ++ space)).rdropWhile (· = ';') = front ++ (last ++ space) := by
    intro front space hspace
    have hne : last ++ space ≠ [] := by
      have hlastne := (hvisible last (by simp)).ne_nil
      simp [hlastne]
    rw [List.rdropWhile_eq_self_iff]
    intro hall
    have hmem := List.getLast_mem hne
    rw [List.getLast_append_of_ne_nil _ hne, decide_eq_true_eq]
    intro heq
    rw [heq, List.mem_append] at hmem
    exact hmem.elim hlast fun hc => absurd (hspace _ hc) (by decide)
  have hnone : ∀ c ∈ ([] : List Char), isWhitespace c = true := by simp
  cases semicolon with
  | false =>
    rw [if_neg Bool.false_ne_true, List.append_nil] at h
    obtain ⟨front, hnormalized, hfront, -⟩ := normalize_laid h hsolid hvisible hselect hstart
    obtain ⟨front', hstrip, hfront', -, -⟩ := hfront.strip hvisible hselect hnone
    have hsame := hkeep front [] (by simp)
    rw [List.append_nil] at hsame
    refine ⟨front', ?_, hfront'⟩
    rw [sqlishText, hnormalized, hsame]
    exact hstrip
  | true =>
    have hsemicolon : Solid [';'] ∧ Visible [';'] :=
      ⟨solid_char (by decide) (by decide) (by decide),
        ⟨⟨';', [], rfl, by decide⟩, ⟨[], ';', rfl, by decide⟩⟩⟩
    have hone : ∀ {Q : List Char → Prop}, (∀ token ∈ tokens ++ [last], Q token) → Q [';'] →
        ∀ token ∈ tokens ++ [last] ++ [[';']], Q token := by
      intro Q htokens hq
      rw [List.forall_mem_append, List.forall_mem_singleton]
      exact ⟨htokens, hq⟩
    rw [if_pos rfl] at h
    obtain ⟨front, hnormalized, -, hfront⟩ :=
      normalize_laid h (hone hsolid hsemicolon.1) (hone hvisible hsemicolon.2) (by decide) hstart
    obtain ⟨front', hstrip, hfront', -, space, hshape, hspace⟩ :=
      hfront.strip hvisible hselect hnone
    refine ⟨front', ?_, hfront'⟩
    rw [sqlishText, hnormalized, List.rdropWhile_concat_pos _ _ _ (by decide), hshape,
      hkeep _ _ hspace, ← hshape]
    exact hstrip

/-! ### The head of a query -/

/-- A keyword with white space around it. -/
theorem stripSqlishKeywordPrefix_blank {keyword : String} (hkeyword : IsWord keyword.toList)
    {before space text : List Char} (hbefore : ∀ c ∈ before, isWhitespace c = true)
    (hspace : ∀ c ∈ space, isWhitespace c = true) (hne : space ≠ []) (h : Begins text) :
    stripSqlishKeywordPrefix (before ++ (keyword.toList ++ (space ++ text))) keyword =
      some text := by
  obtain ⟨c, rest, hc, hcspace⟩ := hkeyword.visible.head
  have hbegins : Begins (keyword.toList ++ (space ++ text)) :=
    ⟨c, rest ++ (space ++ text), by rw [hc]; rfl, hcspace⟩
  refine stripSqlishKeywordPrefix_eq_some_iff.2
    ⟨keyword.toList, space ++ text, trimStart_blank hbefore hbegins, ?_,
      ends_blank hspace hne text, ?_⟩
  · rw [eqIgnoreAsciiCase_iff]
  · exact (trimStart_blank hspace h).symm

/-- After a word that another one follows there is white space. -/
theorem Separate.not_of_word {word text : List Char} (hword : IsSqlishWord word)
    (h : ¬ Stops text) :
    ¬ Separate word text := by
  rintro ⟨-, hstops | hstops⟩
  · exact hword.reverse.not_stops hstops
  · exact h hstops

theorem IsSqlishWord.not_stops_append {word : List Char} (h : IsSqlishWord word)
    (text : List Char) :
    ¬ Stops (word ++ text) := fun hstops => h.not_stops ((stops_append h.1 text).1 hstops)

theorem isSqlishWord_keywords : ∀ keyword ∈ sqlishKeywords, IsSqlishWord keyword.toList := by
  unfold IsSqlishWord
  decide

theorem takeSqlishIdentifier_append {word after : List Char} (hword : IsWord word)
    (hafter : Ends after) :
    takeSqlishIdentifier (word ++ after) = some (word, after) := by
  have htake : ∀ c ∈ word, (!isWhitespace c) = true := fun c hc => by rw [hword.2 c hc]; rfl
  have hafter' : after.takeWhile (fun c => !isWhitespace c) = [] ∧
      after.dropWhile (fun c => !isWhitespace c) = after := by
    cases after with
    | nil => exact ⟨rfl, rfl⟩
    | cons c after =>
      have hc := ends_cons.1 hafter
      exact ⟨List.takeWhile_cons_of_neg (by simp [hc]), List.dropWhile_cons_of_neg (by simp [hc])⟩
  have htrim : trimStart (word ++ after) = word ++ after := by
    obtain ⟨c, rest, rfl, hc⟩ := hword.visible.head
    exact List.dropWhile_cons_of_neg (by simp [hc])
  rw [takeSqlishIdentifier, htrim, List.takeWhile_append_of_pos htake,
    List.dropWhile_append_of_pos htake, hafter'.1, hafter'.2, List.append_nil, if_neg hword.1]

/-- The head of a query is read back. -/
theorem sqlishHead_laid {table : List Char} (htable : IsSqlishWord table) {explain : Bool}
    {tokens : List (List Char)} {query : List Char}
    (h : Laid ((if explain then ["EXPLAIN".toList] else []) ++
      (["SELECT".toList, ['*'], "FROM".toList, table, "WHERE".toList] ++ tokens)) query [])
    (htokens : ∀ text, Laid tokens text [] → Begins text ∧ ¬ Stops text) :
    ∃ rest, sqlishHead query = .ok (explain, table, rest) ∧ Laid tokens rest [] := by
  have hkeyword := isSqlishWord_keywords
  have hbegins : ∀ {word : List Char} (text : List Char), IsSqlishWord word →
      Begins (word ++ text) := by
    intro word text hword
    obtain ⟨c, rest, rfl, hc⟩ := hword.isWord.visible.head
    exact ⟨c, rest ++ text, rfl, hc⟩
  have hnone : ∀ c ∈ ([] : List Char), isWhitespace c = true := by simp
  -- From `SELECT` on.
  have hselect : ∀ text, Laid
      ("SELECT".toList :: ['*'] :: "FROM".toList :: table :: "WHERE".toList :: tokens) text [] →
      ∃ afterSelect afterStar afterFrom afterTable rest,
        stripSqlishKeywordPrefix text "SELECT" = some afterSelect ∧
        trimStart afterSelect = '*' :: afterStar ∧
          stripSqlishKeywordPrefix (trimStart afterStar) "FROM" = some afterFrom ∧
          takeSqlishIdentifier afterFrom = some (table, afterTable) ∧
          stripSqlishKeywordPrefix afterTable "WHERE" = some rest ∧ Laid tokens rest [] := by
    intro text htext
    obtain - | ⟨hs1, hapart1, htext⟩ := htext
    obtain - | ⟨hs2, -, htext⟩ := htext
    obtain - | ⟨hs3, hapart3, htext⟩ := htext
    obtain - | ⟨hs4, hapart4, htext⟩ := htext
    obtain - | ⟨hs5, hapart5, htext⟩ := htext
    rename_i s1 s2 s3 s4 s5 rest
    obtain ⟨hrest, hword⟩ := htokens rest htext
    have hne1 : s1 ≠ [] := fun hnil => (hapart1 hnil).1 rfl
    have hne3 : s3 ≠ [] := fun hnil =>
      Separate.not_of_word (hkeyword "FROM" (by decide)) (htable.not_stops_append _) (hapart3 hnil)
    have hne4 : s4 ≠ [] := fun hnil =>
      Separate.not_of_word htable ((hkeyword "WHERE" (by decide)).not_stops_append _) (hapart4 hnil)
    have hne5 : s5 ≠ [] := fun hnil =>
      Separate.not_of_word (hkeyword "WHERE" (by decide)) hword (hapart5 hnil)
    have hstar : ∀ text : List Char, Begins ('*' :: text) := fun text => ⟨'*', text, rfl, by decide⟩
    refine ⟨_, s2 ++ ("FROM".toList ++ (s3 ++ (table ++ (s4 ++ ("WHERE".toList ++ (s5 ++ rest)))))),
      table ++ (s4 ++ ("WHERE".toList ++ (s5 ++ rest))), _, rest,
      stripSqlishKeywordPrefix_blank (hkeyword "SELECT" (by decide)).isWord hnone hs1
        hne1 (hstar _),
      trimStart_blank hnone (hstar _), ?_, ?_,
      stripSqlishKeywordPrefix_blank (hkeyword "WHERE" (by decide)).isWord hs4 hs5 hne5 hrest,
        htext⟩
    · rw [trimStart_blank hs2 (hbegins _ (hkeyword "FROM" (by decide)))]
      exact stripSqlishKeywordPrefix_blank (hkeyword "FROM" (by decide)).isWord hnone
        hs3 hne3 (hbegins _ htable)
    · exact takeSqlishIdentifier_append htable.isWord (ends_blank hs4 hne4 _)
  cases explain with
  | false =>
    obtain ⟨afterSelect, afterStar, afterFrom, afterTable, rest, hprefix, hstar, hfrom, hidentifier,
        hwhere, hlaid⟩ :=
      hselect query h
    have hexplain : stripSqlishKeywordPrefix query "EXPLAIN" = none := by
      by_contra hsome
      obtain ⟨after, hafter⟩ := Option.ne_none_iff_exists'.1 hsome
      obtain ⟨word, hwords, heq⟩ := words_of_stripSqlishKeywordPrefix isWord_explain hafter
      obtain ⟨word', hwords', heq'⟩ := words_of_stripSqlishKeywordPrefix isWord_select hprefix
      rw [hwords] at hwords'
      obtain ⟨rfl, -⟩ := List.cons.inj hwords'
      rw [eqIgnoreAsciiCase_congr heq] at heq'
      exact absurd heq' (by decide)
    refine ⟨rest, ?_, hlaid⟩
    simp only [sqlishHead, hexplain, hprefix, hstar, hfrom, hidentifier, hwhere]
  | true =>
    obtain - | ⟨hs0, hapart0, h⟩ := h
    rename_i s0 text
    obtain ⟨afterSelect, afterStar, afterFrom, afterTable, rest, hprefix, hstar, hfrom, hidentifier,
        hwhere, hlaid⟩ :=
      hselect text h
    obtain ⟨after, rfl⟩ : ∃ after, text = "SELECT".toList ++ after := by
      obtain - | ⟨-, -, -⟩ := h
      exact ⟨_, rfl⟩
    have hne0 : s0 ≠ [] := fun hnil => Separate.not_of_word (hkeyword "EXPLAIN" (by decide))
      ((hkeyword "SELECT" (by decide)).not_stops_append _) (hapart0 hnil)
    have hexplain := stripSqlishKeywordPrefix_blank
      (hkeyword "EXPLAIN" (by decide)).isWord hnone hs0 hne0
      (hbegins after (hkeyword "SELECT" (by decide)))
    rw [List.nil_append] at hexplain
    refine ⟨rest, ?_, hlaid⟩
    simp only [sqlishHead, hexplain, hprefix, hstar, hfrom, hidentifier, hwhere]

/-! ### Cuts at keywords -/

/-- A text without what follows its tokens; a word that follows is set apart. -/
theorem Laid.split {tokens : List (List Char)} {text after : List Char}
    (h : Laid tokens text after) :
    ∃ front, text = front ++ after ∧ Laid tokens front [] ∧
    (¬ Stops after → Stops front.reverse) := by
  induction h with
  | nil after => exact ⟨[], rfl, .nil [], fun _ => stops_nil⟩
  | @cons token space text after tokens hspace hapart hrest ih =>
    obtain ⟨front, rfl, hfront, hstops⟩ := ih
    refine ⟨token ++ (space ++ front),
      by simp only [List.append_assoc], .cons hspace (fun hnil => ?_) hfront, ?_⟩
    · refine ⟨(hapart hnil).1, (hapart hnil).2.imp_right stops_of_append⟩
    · intro hafter
      rw [List.reverse_append, List.reverse_append]
      cases front with
      | cons c front =>
        have hne : (c :: front).reverse ≠ [] := by simp
        rw [List.append_assoc, stops_append hne]
        exact hstops hafter
      | nil =>
        rw [List.reverse_nil, List.nil_append]
        cases space with
        | nil => exact (hapart rfl).2.resolve_right (by rwa [List.nil_append])
        | cons c space =>
          have hblank : Stops (c :: space).reverse :=
            stops_blank fun d hd => hspace d (List.mem_reverse.1 hd)
          exact (stops_append (by simp) _).2 hblank

/-- Tokens of other words. -/
theorem findSqlishKeyword_none {keyword : String} (hkeyword : keyword ∈ keywords)
    (hword : IsSqlishWord keyword.toList) {tokens : List (List Char)} {before text : List Char}
    (hbefore : ∀ c ∈ before, isWhitespace c = true)
    (htokens : ∀ token ∈ tokens, SqlishToken keywords token) (h : Laid tokens text []) :
      findSqlishKeyword (before ++ text) keyword = none := by
  have hwords : PlainWords (Avoids keywords) (before ++ text) :=
    .blank hbefore (h.plainWords htokens .nil)
  have hskip := findSqlishKeywordFrom_append hword
    (fun word havoids => havoids keyword hkeyword) hwords
    (.inl stops_nil) (.inr stops_nil)
  rw [List.append_nil] at hskip
  rw [findSqlishKeyword, hskip]
  rfl

/-- Tokens of other words up to the keyword. -/
theorem findSqlishKeyword_laid {keyword : String} (hkeyword : keyword ∈ keywords)
    (hword : IsSqlishWord keyword.toList) {tokens more : List (List Char)} {before text : List Char}
    (hbefore : ∀ c ∈ before, isWhitespace c = true)
    (htokens : ∀ token ∈ tokens, SqlishToken keywords token)
    (h : Laid (tokens ++ keyword.toList :: more) text [])
    (hmore : ∀ text, Laid more text [] → ¬ Stops text) :
    ∃ front space rest, findSqlishKeyword (before ++ text) keyword =
      some (before ++ front, space ++ rest) ∧
      text = front ++ (keyword.toList ++ (space ++ rest)) ∧ Laid tokens front [] ∧
      (∀ c ∈ space, isWhitespace c = true) ∧ Laid more rest [] := by
  obtain ⟨middle, hfront, hlast⟩ := h.append_inv
  obtain ⟨front, rfl, hlaid, hstops⟩ := hfront.split
  obtain - | ⟨hspace, hapart, hrest⟩ := hlast
  rename_i space rest
  have hwords : PlainWords (Avoids keywords) (before ++ front) :=
    .blank hbefore (hlaid.plainWords htokens .nil)
  have hends : Stops (before ++ front).reverse := by
    rw [List.reverse_append]
    cases front with
    | nil => exact stops_blank fun c hc => hbefore c (List.mem_reverse.1 hc)
    | cons c front =>
      have hne : (c :: front).reverse ≠ [] := by simp
      rw [stops_append hne]
      exact hstops (hword.not_stops_append _)
  have hafter : Stops (space ++ rest) := by
    cases space with
    | nil => exact absurd (hapart rfl) (Separate.not_of_word hword (hmore rest hrest))
    | cons c space => exact (stops_append (List.cons_ne_nil c space) rest).2 (stops_blank hspace)
  have hskip : findSqlishKeywordFrom keyword [] .plain
      (before ++ front ++ (keyword.toList ++ (space ++ rest))) = _ :=
    findSqlishKeywordFrom_append hword (fun word havoids => havoids keyword hkeyword) hwords
      (.inl stops_nil) (.inl hends)
  have hhit : findSqlishKeywordFrom keyword ((before ++ front).reverse ++ []) .plain
      (keyword.toList ++ (space ++ rest)) = _ :=
    findSqlishKeywordFrom_hit hword (eqIgnoreAsciiCase_iff.2 rfl) (by rwa [List.append_nil]) hafter
  refine ⟨front, space, rest, ?_, rfl, hlaid, hspace, hrest⟩
  rw [findSqlishKeyword, ← List.append_assoc, hskip, hhit, List.append_nil, List.reverse_reverse]

/-! ### Conditions -/

/-- A part of the text that is the condition of an entry. -/
def IsCondition (part : List Char) (entry : String × Value) : Prop :=
  ∃ space text, part = space ++ text ∧ (∀ c ∈ space, isWhitespace c = true) ∧
    Laid [entry.1.toList, ['='], entry.2.compact P] text []

theorem conditionTokens_cons (entry : String × Value) (entries : List (String × Value)) :
    conditionTokens P (entry :: entries) = [entry.1.toList, ['='], entry.2.compact P] ++
      (if entries.isEmpty then [] else "AND".toList :: conditionTokens P entries) := rfl

theorem condition_sqlishToken {entry : String × Value} (h : IsSqlishName entry.1) :
    ∀ token ∈ [entry.1.toList, ['='], entry.2.compact P], SqlishToken sqlishKeywords token := by
  rw [List.forall_mem_cons, List.forall_mem_cons, List.forall_mem_singleton]
  exact ⟨h.isSqlishWord.sqlishToken h.avoids,
    sqlishToken_sign (by decide) (by decide) (by decide) (by decide), entry.2.sqlishToken P⟩

theorem Laid.not_stops {word text after : List Char} {tokens : List (List Char)}
    (h : Laid (word :: tokens) text after) (hword : IsSqlishWord word) : ¬ Stops text := by
  obtain - | ⟨-, -, -⟩ := h
  exact hword.not_stops_append _

/-- The text is cut into the conditions. -/
theorem sqlishConditions_laid {entries : List (String × Value)} (hne : entries ≠ [])
    (hnames : ∀ entry ∈ entries, IsSqlishName entry.1) {before text : List Char}
    (hbefore : ∀ c ∈ before, isWhitespace c = true) (h : Laid (conditionTokens P entries) text [])
    {rounds : ℕ} (hrounds : (before ++ text).length ≤ rounds) :
    List.Forall₂ (IsCondition P) (sqlishConditions rounds (before ++ text)) entries := by
  induction entries generalizing before text rounds with
  | nil => exact absurd rfl hne
  | cons entry entries ih =>
    rw [List.forall_mem_cons] at hnames
    have htokens := condition_sqlishToken P hnames.1
    rw [conditionTokens_cons] at h
    cases entries with
    | nil =>
      rw [List.isEmpty_nil, if_pos rfl, List.append_nil] at h
      have hlast : sqlishConditions rounds (before ++ text) = [before ++ text] := by
        cases rounds with
        | zero => rfl
        | succ rounds =>
          rw [sqlishConditions, findSqlishKeyword_none (by decide)
            (isSqlishWord_keywords "AND" (by decide)) hbefore htokens h]
      rw [hlast]
      exact .cons ⟨before, text, rfl, hbefore, h⟩ .nil
    | cons next entries =>
      rw [List.isEmpty_cons, if_neg Bool.false_ne_true] at h
      have hnext : ∀ text, Laid (conditionTokens P (next :: entries)) text [] → ¬ Stops text :=
        fun text htext => htext.not_stops (hnames.2 next List.mem_cons_self).isSqlishWord
      obtain ⟨front, space, rest, hfind, rfl, hfront, hspace, hrest⟩ :=
        findSqlishKeyword_laid (by decide) (isSqlishWord_keywords "AND" (by decide)) hbefore
          htokens h hnext
      have hlength : "AND".toList.length = 3 := rfl
      simp only [List.length_append, hlength] at hrounds
      obtain ⟨rounds, rfl⟩ : ∃ n, rounds = n + 1 := ⟨rounds - 1, by omega⟩
      rw [sqlishConditions, hfind]
      refine .cons ⟨before, front, rfl, hbefore, hfront⟩
        (ih (List.cons_ne_nil _ _) hnames.2 hspace hrest ?_)
      rw [List.length_append]
      omega

variable {P} {F : CompilerFormat S}

theorem parseSqlishValue_visible {text : List Char} (h : Edged text) {value : Value}
    (hvalue : F.valueFromStr (String.ofList text) = .ok value) :
      parseSqlishValue F text = .ok value := by
  have hvisible := h.visible
  have hnot : ¬ (text.head? = some '\'' ∨ text.getLast? = some '\'') := by
    rintro (hhead | hlast)
    · obtain ⟨c, rest, rfl, hc⟩ := h.head
      exact (isEdge_spec hc).2.1 (Option.some.inj hhead)
    · obtain ⟨front, c, rfl, hc⟩ := h.last
      rw [List.getLast?_concat] at hlast
      exact (isEdge_spec hc).2.1 (Option.some.inj hlast)
  rw [parseSqlishValue, hvisible.strip, if_neg hnot, parseTraceqlValue_visible hvisible hvalue]

/-- A condition is a field, an equals sign and a value. -/
theorem IsCondition.parts {part : List Char} {field : String} {value : Value}
    (h : IsCondition P part (field, value)) (hname : IsSqlishName field) :
    ∃ rest, strip part ≠ [] ∧ (strip part).dropWhile (fun c => decide (c ≠ '=')) = '=' :: rest ∧
      strip ((strip part).takeWhile fun c => decide (c ≠ '=')) = field.toList ∧
      strip rest = value.compact P := by
  obtain ⟨space, text, rfl, hspace, h⟩ := h
  obtain ⟨s1, _, rfl, hs1, -, h⟩ := h.cons_inv
  obtain ⟨s2, _, rfl, hs2, -, h⟩ := h.cons_inv
  obtain ⟨s3, _, rfl, hs3, -, ⟨⟩⟩ := h.cons_inv
  have hfield := hname.isSqlishWord
  have htext := (value.compact_text P).edged
  have hnone : ∀ c ∈ ([] : List Char), isWhitespace c = true := by simp
  have hcondition : strip
      (space ++ (field.toList ++ (s1 ++ (['='] ++ (s2 ++ (value.compact P ++ (s3 ++ []))))))) =
      (field.toList ++ s1) ++ '=' :: (s2 ++ value.compact P) := by
    have hvisible := hfield.isWord.visible.around htext.visible (s1 ++ '=' :: s2)
    have hstrip := strip_around hspace hs3 hvisible
    simp only [List.append_assoc, List.cons_append, List.nil_append, List.append_nil] at hstrip ⊢
    exact hstrip
  have hpass : ∀ c ∈ field.toList ++ s1, decide (c ≠ '=') = true := by
    intro c hc
    rw [decide_eq_true_eq]
    rintro rfl
    rcases List.mem_append.1 hc with hc | hc
    · exact absurd (hfield.2 _ hc) (by decide)
    · exact absurd (hs1 _ hc) (by decide)
  have hdrop : ((field.toList ++ s1) ++ '=' :: (s2 ++ value.compact P)).dropWhile
      (fun c => decide (c ≠ '=')) =
      '=' :: (s2 ++ value.compact P) := by
    rw [List.dropWhile_append_of_pos hpass]
    rfl
  have htake : ((field.toList ++ s1) ++ '=' :: (s2 ++ value.compact P)).takeWhile
      (fun c => decide (c ≠ '=')) =
      field.toList ++ s1 := by
    rw [List.takeWhile_append_of_pos hpass, List.takeWhile_cons_of_neg (by simp), List.append_nil]
  have hfront : strip (field.toList ++ s1) = field.toList :=
    strip_around hnone hs1 hfield.isWord.visible
  have hback : strip (s2 ++ value.compact P) = value.compact P := by
    have hstrip := strip_around hs2 hnone htext.visible
    rwa [List.append_nil] at hstrip
  have hne : (field.toList ++ s1) ++ '=' :: (s2 ++ value.compact P) ≠ [] := by simp
  refine ⟨s2 ++ value.compact P, ?_, ?_, ?_, hback⟩
  · rw [hcondition]
    exact hne
  · rw [hcondition, hdrop]
  · rw [hcondition, htake, hfront]

section

variable {part : List Char} {field : String} {value : Value}

theorem isSqlishName_tenant : IsSqlishName "tenant_id" :=
  ⟨by decide, by decide, by unfold Avoids; decide⟩

/-- The condition of the tenant. -/
theorem SqlishDraft.apply_tenant {tenantId : String}
    (h : IsCondition P part ("tenant_id", .string tenantId))
    (hvalue : F.valueFromStr (String.ofList (quoted tenantId)) = .ok (.string tenantId))
    (hne : tenantId ≠ "") :
    (⟨none, ∅⟩ : SqlishDraft).apply F part = .ok ⟨some tenantId, ∅⟩ := by
  have hname := isSqlishName_tenant
  obtain ⟨rest, hpart, hdrop, hfield, hrest⟩ := h.parts hname
  have hcompact : (Value.string tenantId).compact P = quoted tenantId := List.append_nil _
  have hparse : parseSqlishValue F (quoted tenantId) = .ok (.string tenantId) :=
    parseSqlishValue_visible (quoted_text tenantId).edged hvalue
  have hone : ¬ ("tenant_id".toList = [] ∨ wordCount "tenant_id".toList ≠ 1) := by
    rw [wordCount_of_isWord hname.isSqlishWord.isWord]
    decide
  rw [SqlishDraft.apply, if_neg hpart, hdrop]
  dsimp only
  rw [hfield, hrest, if_neg hone, hcompact, hparse, Except.ok_bind, if_pos (by decide)]
  dsimp only
  rw [if_neg hne, if_neg (by simp)]

/-- The condition of a field that is not set. -/
theorem SqlishDraft.apply_field (h : IsCondition P part (field, value)) (hname : IsSqlishName field)
    (hnot : Avoids ["tenant_id", "tenant"] field.toList)
    (hvalue : F.valueFromStr (String.ofList (value.compact P)) = .ok value) {draft : SqlishDraft}
    (hfree : draft.scalarEq[field]? = none) :
    draft.apply F part = .ok { draft with scalarEq := draft.scalarEq.insert field value } := by
  obtain ⟨rest, hpart, hdrop, hfield, hrest⟩ := h.parts hname
  have hparse : parseSqlishValue F (value.compact P) = .ok value :=
    parseSqlishValue_visible (value.compact_text P).edged hvalue
  have hone : ¬ (field.toList = [] ∨ wordCount field.toList ≠ 1) := by
    rintro (hnil | hcount)
    · exact hname.ne_nil hnil
    · exact hcount (wordCount_of_isWord hname.isSqlishWord.isWord)
  have htenant : ¬ (eqIgnoreAsciiCase field.toList "tenant_id".toList ||
      eqIgnoreAsciiCase field.toList "tenant".toList) = true := by
    rw [hnot "tenant_id" (by simp), hnot "tenant" (by simp)]
    decide
  rw [SqlishDraft.apply, if_neg hpart, hdrop]
  dsimp only
  rw [hfield, hrest, if_neg hone, hparse, Except.ok_bind, if_neg htenant, String.ofList_toList,
    hfree, if_neg (by simp)]

end

/-- The conditions of fields set them. -/
theorem foldlM_fields {tenantId : Option String} {entries before : List (String × Value)}
    {parts : List (List Char)} (h : List.Forall₂ (IsCondition P) parts entries)
    (hname : ∀ entry ∈ entries, IsSqlishName entry.1 ∧
      Avoids ["tenant_id", "tenant"] entry.1.toList)
    (hvalue : ∀ entry ∈ entries, F.valueFromStr (String.ofList (entry.2.compact P)) = .ok entry.2)
    (hnodup : ((before ++ entries).map Prod.fst).Nodup) :
    parts.foldlM (SqlishDraft.apply F) ⟨tenantId, SortedMap.ofEntries before⟩ =
      .ok ⟨tenantId, SortedMap.ofEntries (before ++ entries)⟩ := by
  induction h generalizing before with
  | nil => rw [List.append_nil]; rfl
  | @cons part entry parts entries hpart _ ih =>
    obtain ⟨field, value⟩ := entry
    rw [List.forall_mem_cons] at hname hvalue
    have hassoc : before ++ (field, value) :: entries = before ++ [(field, value)] ++ entries :=
      by simp
    have hfree : (SortedMap.ofEntries before)[field]? = none := by
      rw [List.map_append, List.nodup_append] at hnodup
      by_contra hsome
      obtain ⟨found, hfound⟩ := Option.ne_none_iff_exists'.1 hsome
      have hmem := (SortedMap.getElem?_ofEntries_iff hnodup.1).1 hfound
      exact hnodup.2.2 _ (List.mem_map_of_mem hmem) _ List.mem_cons_self rfl
    rw [List.foldlM_cons, SqlishDraft.apply_field hpart hname.1.1 hname.1.2 hvalue.1 hfree,
      Except.ok_bind, hassoc]
    dsimp only
    rw [← SortedMap.ofEntries_concat]
    exact ih hname.2 hvalue.2 (hassoc ▸ hnodup)

/-! ### The round trip -/

theorem unsupported_subset : unsupportedSqlishKeywords ⊆ sqlishKeywords :=
  List.subset_append_right _ _

theorem limit_sqlishToken (n : ℕ) : IsSqlishWord (toString n).toList ∧
    SqlishToken sqlishKeywords (toString n).toList := by
  have hdigit : ∀ c ∈ (toString n).toList, c.isDigit = true := fun _ => isDigit_of_mem_toString
  have hword : IsSqlishWord (toString n).toList := by
    refine ⟨(isWord_toString n).1, fun c hc => ?_⟩
    rw [isSqlishIdentifierChar, Char.isAlphanum, hdigit c hc, Bool.or_true]
    rfl
  exact ⟨hword, hword.sqlishToken (avoids_number (isJsonNumber_toString n).2)⟩

theorem conditionTokens_sqlishToken (hsub : keywords ⊆ sqlishKeywords)
    (hand : Avoids keywords "AND".toList) {entries : List (String × Value)}
    (h : ∀ entry ∈ entries, IsSqlishName entry.1) :
    ∀ token ∈ conditionTokens P entries, SqlishToken keywords token := by
  induction entries with
  | nil => simp [conditionTokens]
  | cons entry entries ih =>
    rw [List.forall_mem_cons] at h
    rw [conditionTokens_cons, List.forall_mem_append]
    refine ⟨fun token htoken => (condition_sqlishToken P h.1 token htoken).mono hsub, ?_⟩
    split_ifs
    · simp
    · rw [List.forall_mem_cons]
      exact ⟨(isSqlishWord_keywords "AND" (by decide)).sqlishToken hand, ih h.2⟩

theorem parseSqlishLimit_append {n : ℕ} (hpos : 0 < n) (hle : n ≤ usizeMax)
    {before after : List Char} (hbefore : ∀ c ∈ before, isWhitespace c = true)
    (hafter : ∀ c ∈ after, isWhitespace c = true) :
    parseSqlishLimit (before ++ ((toString n).toList ++ after)) = .ok n := by
  have hword := isWord_toString n
  obtain ⟨m, rfl⟩ := Nat.exists_eq_succ_of_ne_zero (Nat.pos_iff_ne_zero.1 hpos)
  rw [parseSqlishLimit, strip_around hbefore hafter hword.visible, if_neg hword.1,
    if_neg (not_not.2 (wordCount_of_isWord hword)), String.ofList_toList, parseUsize_toString hle]
  rfl

/-- The text of a query is in the SQL-ish form. -/
theorem startsWithSqlishSelect_laid {explain : Bool} {tokens : List (List Char)}
    {start text : List Char} (hstart : ∀ c ∈ start, isWhitespace c = true)
    (h : Laid ((if explain then ["EXPLAIN".toList] else []) ++ "SELECT".toList :: tokens) text []) :
    startsWithSqlishSelect (strip (start ++ text)) = true := by
  have hkeyword := isSqlishWord_keywords
  have hblank : ∀ {space : List Char}, (∀ c ∈ space, isWhitespace c = true) → ∀ text,
      words (space ++ text) = words text := by
    intro space hspace text
    induction space with
    | nil => rfl
    | cons c space ih =>
      rw [List.forall_mem_cons] at hspace
      rw [List.cons_append, words_cons hspace.1, ih hspace.2]
  have hselect : ∀ text, Laid ("SELECT".toList :: tokens) text [] →
      ∃ rest, words text = "SELECT".toList :: rest := by
    intro text htext
    obtain ⟨space, rest, rfl, hspace, hapart, -⟩ := htext.cons_inv
    have hne : space ≠ [] := fun hnil => (hapart hnil).1 rfl
    exact ⟨_, words_append (hkeyword "SELECT" (by decide)).isWord (ends_blank hspace hne rest)⟩
  rw [startsWithSqlishSelect_iff, words_strip, hblank hstart]
  cases explain with
  | false =>
    obtain ⟨rest, hrest⟩ := hselect text h
    rw [hrest]
    exact .inl (by decide)
  | true =>
    obtain ⟨space, rest, rfl, hspace, hapart, hrest⟩ := h.cons_inv
    obtain ⟨more, hmore⟩ := hselect rest hrest
    have hnext := hrest.not_stops (hkeyword "SELECT" (by decide))
    have hne : space ≠ [] := fun hnil =>
      Separate.not_of_word (hkeyword "EXPLAIN" (by decide)) hnext (hapart hnil)
    rw [words_append (hkeyword "EXPLAIN" (by decide)).isWord (ends_blank hspace hne rest),
      hblank hspace, hmore]
    exact .inr ⟨by decide, _, _, rfl, by decide⟩

variable {query : HybridQuery S}

/-- The text of a query is compiled to the query. -/
theorem sqlish_round_trip (h : SqlishFragment query) (hlossless : SqlishLossless F P query)
    {entries : List (String × Value)} (hperm : entries.Perm query.scalarEq.toList)
    {semicolon : Bool} {start text : List Char} (hstart : ∀ c ∈ start, isWhitespace c = true)
    (htext : Laid (sqlishTokens P query entries semicolon) text []) :
    traceqlQueryFromStr F (String.ofList (start ++ text)) = .ok query := by
  have hkeyword := isSqlishWord_keywords
  have hnone : ∀ c ∈ ([] : List Char), isWhitespace c = true := by simp
  have hnames : ∀ entry ∈ ("tenant_id", Value.string query.tenantId) :: entries,
      IsSqlishName entry.1 := by
    rw [List.forall_mem_cons]
    exact ⟨isSqlishName_tenant, fun entry hentry => h.field entry (hperm.mem_iff.1 hentry)⟩
  obtain ⟨hlimitWord, hlimit⟩ := limit_sqlishToken query.topK
  -- The tokens before the limit.
  let conditions := conditionTokens P (("tenant_id", .string query.tenantId) :: entries)
  let tokens := (if query.explain then ["EXPLAIN".toList] else []) ++
    (["SELECT".toList, ['*'], "FROM".toList, query.table.toList, "WHERE".toList] ++
      (conditions ++ ["LIMIT".toList]))
  have hshape : sqlishTokens P query entries semicolon =
      tokens ++ [(toString query.topK).toList] ++ if semicolon then [[';']] else [] := by
    simp only [sqlishTokens, tokens, conditions, List.append_assoc, List.cons_append,
      List.nil_append]
  have htokens : ∀ token ∈ tokens ++ [(toString query.topK).toList],
      SqlishToken unsupportedSqlishKeywords token := by
    have hwords : ∀ keyword ∈ ["EXPLAIN", "SELECT", "FROM", "WHERE", "LIMIT"],
        SqlishToken unsupportedSqlishKeywords keyword.toList := by
      have hmem : ∀ keyword ∈ ["EXPLAIN", "SELECT", "FROM", "WHERE", "LIMIT"],
          keyword ∈ sqlishKeywords ∧
          ∀ other ∈ unsupportedSqlishKeywords,
            eqIgnoreAsciiCase keyword.toList other.toList = false := by decide
      exact fun keyword hin => (hkeyword keyword (hmem keyword hin).1).sqlishToken
        (hmem keyword hin).2
    have hexplain : ∀ token ∈ (if query.explain then ["EXPLAIN".toList] else []),
        SqlishToken unsupportedSqlishKeywords token := by
      split_ifs
      · simpa using hwords "EXPLAIN" (by decide)
      · simp
    have hstar : SqlishToken unsupportedSqlishKeywords ['*'] :=
      sqlishToken_sign (by decide) (by decide) (by decide) (by decide)
    have hand : Avoids unsupportedSqlishKeywords "AND".toList := by
      unfold Avoids
      decide
    have hnil : ∀ token ∈ ([] : List (List Char)), SqlishToken unsupportedSqlishKeywords token :=
      by simp
    simp only [tokens, List.forall_mem_append, List.forall_mem_cons]
    refine ⟨⟨hexplain, ⟨hwords "SELECT" (by decide), hstar, hwords "FROM" (by decide), ?_,
      hwords "WHERE" (by decide), hnil⟩, conditionTokens_sqlishToken unsupported_subset hand hnames,
      hwords "LIMIT" (by decide), hnil⟩, hlimit.mono unsupported_subset, hnil⟩
    exact h.table.isSqlishWord.sqlishToken (avoids_word h.table.avoids)
  rw [hshape] at htext
  have hdigit : ∀ c ∈ (toString query.topK).toList, c.isDigit = true :=
    fun _ => isDigit_of_mem_toString
  have hselect : (toString query.topK).toList ≠ "SELECT".toList := by
    intro heq
    exact absurd (hdigit 'S' (by rw [heq]; decide)) (by decide)
  have hsemicolon : ';' ∉ (toString query.topK).toList :=
    fun hmem => absurd (hdigit _ hmem) (by decide)
  obtain ⟨front, hquery, hfront⟩ :=
    sqlishText_laid htext (fun token htoken => (htokens token htoken).solid)
    (fun token htoken => (htokens token htoken).visible) hselect hsemicolon hstart
  have hreject : rejectUnsupportedSqlishKeywords
      (front ++ (toString query.topK).toList) = .ok () := by
    have hfind : unsupportedSqlishKeywords.find? (fun keyword =>
        (findSqlishKeyword (front ++ (toString query.topK).toList) keyword).isSome) = none := by
      rw [List.find?_eq_none]
      intro keyword hin
      have hmissing := findSqlishKeyword_none hin (hkeyword keyword (unsupported_subset hin)) hnone
        htokens hfront
      rw [List.nil_append] at hmissing
      rw [hmissing]
      exact Bool.false_ne_true
    rw [rejectUnsupportedSqlishKeywords, hfind]
  have hstarts : startsWithSqlishSelect (strip (start ++ text)) = true := by
    have hassoc : tokens ++ [(toString query.topK).toList] ++ (if semicolon then [[';']] else []) =
        (if query.explain then ["EXPLAIN".toList] else []) ++ "SELECT".toList ::
          (['*'] :: "FROM".toList ::
          query.table.toList :: "WHERE".toList ::
            (conditions ++ ["LIMIT".toList] ++ [(toString query.topK).toList] ++
            if semicolon then [[';']] else [])) := by
      simp only [tokens, List.append_assoc, List.cons_append, List.nil_append]
    rw [hassoc] at htext
    exact startsWithSqlishSelect_laid hstart htext
  -- The head, and then the limit.
  have hconditions : ∀ text,
      Laid (conditions ++ ["LIMIT".toList, (toString query.topK).toList]) text [] →
      Begins text ∧ ¬ Stops text := by
    intro text htext
    have hname := isSqlishName_tenant.isSqlishWord
    have hfirst := htext.not_stops hname
    obtain ⟨space, rest, rfl, -, -, -⟩ := htext.cons_inv
    obtain ⟨c, more, hc, hcspace⟩ := hname.isWord.visible.head
    exact ⟨⟨c, more ++ (space ++ rest), congrArg (· ++ (space ++ rest)) hc, hcspace⟩, hfirst⟩
  have hassoc : tokens ++ [(toString query.topK).toList] =
      (if query.explain then ["EXPLAIN".toList] else []) ++
      (["SELECT".toList, ['*'], "FROM".toList, query.table.toList, "WHERE".toList] ++
        (conditions ++ ["LIMIT".toList, (toString query.topK).toList])) := by
    simp only [tokens, List.append_assoc, List.cons_append, List.nil_append]
  rw [hassoc] at hfront
  obtain ⟨rest, hhead, hrest⟩ := sqlishHead_laid h.table.isSqlishWord hfront hconditions
  have hlimitTokens : ∀ token ∈ conditions, SqlishToken ["LIMIT"] token :=
    conditionTokens_sqlishToken (by decide) (by unfold Avoids; decide) hnames
  have hmem : "LIMIT" ∈ ["LIMIT"] := List.mem_singleton.2 rfl
  obtain ⟨whereClause, space, limitClause, hfind, -, hwhere, hspace, hlast⟩ :=
    findSqlishKeyword_laid hmem (hkeyword "LIMIT" (by decide)) hnone hlimitTokens hrest
      fun text htext => htext.not_stops hlimitWord
  obtain ⟨after, _, rfl, hafter, -, ⟨⟩⟩ := hlast.cons_inv
  have hparts := sqlishConditions_laid P (List.cons_ne_nil _ _) hnames hnone hwhere le_rfl
  simp only [List.nil_append, List.append_nil] at hfind hparts
  -- The conditions.
  have hfold : (splitSqlishAndConditions whereClause).foldlM (SqlishDraft.apply F) ⟨none, ∅⟩ =
      .ok ⟨some query.tenantId, query.scalarEq⟩ := by
    rw [splitSqlishAndConditions]
    generalize sqlishConditions whereClause.length whereClause = parts at hparts
    cases hparts with
    | cons hfirst hmore =>
      have hnodup : (([] ++ entries).map Prod.fst).Nodup := SortedMap.nodup_of_perm_toList hperm
      have hfields : List.foldlM (SqlishDraft.apply F)
          ⟨some query.tenantId, SortedMap.ofEntries []⟩ _ = _ :=
        foldlM_fields hmore
          (fun entry hentry => ⟨h.field entry (hperm.mem_iff.1 hentry),
            h.not_tenant entry (hperm.mem_iff.1 hentry)⟩)
          (fun entry hentry => hlossless.value entry (hperm.mem_iff.1 hentry)) hnodup
      rw [List.nil_append, SortedMap.ofEntries_eq_of_perm hperm] at hfields
      rw [List.foldlM_cons, SqlishDraft.apply_tenant hfirst hlossless.tenantId h.tenantId,
        Except.ok_bind]
      exact hfields
  have hquery' : traceqlQueryFromStr F (String.ofList (start ++ text)) = .ok {
      table := query.table
      tenantId := query.tenantId
      cursor := none
      textField := none
      text := none
      vectorField := none
      vector := none
      scalarEq := query.scalarEq
      graphSeed := none
      temporalAsOf := none
      topK := query.topK
      freshness := .strict
      explain := query.explain } := by
    rw [traceqlQueryFromStr, String.toList_ofList, if_pos hstarts, traceqlSqlishSelectFromStr,
      hquery, hreject, Except.ok_bind, hhead, Except.ok_bind]
    dsimp only
    rw [hfind]
    dsimp only
    rw [parseSqlishLimit_append h.topK_pos h.topK_le hspace hafter, Except.ok_bind, hfold,
      Except.ok_bind]
    dsimp only
    rw [String.ofList_toList]
  obtain ⟨table, tenantId, cursor, textField, text', vectorField, vector, scalarEq,
      graphSeed, temporalAsOf,
    topK, freshness, explain⟩ := query
  obtain ⟨-, -, -, -, htextField, htext', hvectorField, hvector, hcursor, hgraph, htime,
      hfreshness, -, -⟩ := h
  dsimp only at htextField htext' hvectorField hvector hcursor hgraph htime hfreshness
  subst htextField htext' hvectorField hvector hcursor hgraph htime hfreshness
  exact hquery'

end

/-- Tokens with one blank after each. -/
def blanked (tokens : List (List Char)) : List Char := tokens.flatMap fun token => token ++ [' ']

theorem laid_blanked (tokens : List (List Char)) : Laid tokens (blanked tokens) [] := by
  induction tokens with
  | nil => exact .nil []
  | cons token tokens ih =>
    have hcons : Laid (token :: tokens) (token ++ ([' '] ++ blanked tokens)) [] :=
      .cons (by decide) (fun hnil => absurd hnil (List.cons_ne_nil _ _)) ih
    rwa [← List.append_assoc] at hcons

/-- A query whose strings hold keywords, quotes and equals signs. -/
def keywordQuery : HybridQuery ℚ where
  table := "notes"
  tenantId := "a' OR 'b"
  cursor := none
  textField := none
  text := none
  vectorField := none
  vector := none
  scalarEq := SortedMap.ofEntries [("n", .number (.posInt 7)),
    ("title", .string "x = \"y\" AND LIMIT 1")]
  graphSeed := none
  temporalAsOf := none
  topK := 5
  freshness := .strict
  explain := true

/-- The query with its fields the other way round, and with a semicolon. -/
theorem keywordQuery_round_trip :
    traceqlQueryFromStr .reference
      (String.ofList ([] ++ blanked (sqlishTokens .reference keywordQuery
      [("title", .string "x = \"y\" AND LIMIT 1"), ("n", .number (.posInt 7))] true))) =
        .ok keywordQuery := by
  have hname : ∀ name ∈ ["notes", "n", "title"], IsSqlishName name ∧
      Avoids ["tenant_id", "tenant"] name.toList := by
    have hall : ∀ name ∈ ["notes", "n", "title"], (name.toList ≠ [] ∧
        (∀ c ∈ name.toList, c.isAlphanum = true ∨ c = '_') ∧
          ∀ keyword ∈ sqlishKeywords, eqIgnoreAsciiCase name.toList keyword.toList = false) ∧
        ∀ keyword ∈ ["tenant_id", "tenant"], eqIgnoreAsciiCase name.toList keyword.toList = false :=
          by decide
    exact fun name hin => ⟨⟨(hall name hin).1.1, (hall name hin).1.2.1, (hall name hin).1.2.2⟩,
      (hall name hin).2⟩
  have hentries : keywordQuery.scalarEq.toList =
      [("n", .number (.posInt 7)), ("title", .string "x = \"y\" AND LIMIT 1")] := rfl
  have hfragment : SqlishFragment keywordQuery := by
    refine ⟨(hname _ (by decide)).1,
      by decide, ?_, ?_, rfl, rfl, rfl, rfl, rfl, rfl, rfl, rfl, by decide, by decide⟩
    · rw [hentries, List.forall_mem_cons, List.forall_mem_singleton]
      exact ⟨(hname _ (by decide)).1, (hname _ (by decide)).1⟩
    · rw [hentries, List.forall_mem_cons, List.forall_mem_singleton]
      exact ⟨(hname _ (by decide)).2, (hname _ (by decide)).2⟩
  have hlossless : SqlishLossless .reference .reference keywordQuery := by
    refine ⟨Except.eq_ok_of_toOption (by decide +kernel), ?_⟩
    rw [hentries, List.forall_mem_cons, List.forall_mem_singleton]
    exact ⟨Except.eq_ok_of_toOption (by decide +kernel),
      Except.eq_ok_of_toOption (by decide +kernel)⟩
  have hperm : [("title", Value.string "x = \"y\" AND LIMIT 1"), ("n", .number (.posInt 7))].Perm
      keywordQuery.scalarEq.toList := by
    rw [hentries]
    exact .swap _ _ _
  exact sqlish_round_trip hfragment hlossless hperm (by simp) (laid_blanked _)

/-- A tenant without a name is refused, although it is read. -/
theorem empty_tenant_refused :
    CompilerFormat.reference.valueFromStr "\"\"" = .ok (.string "") ∧
      (traceqlQueryFromStr CompilerFormat.reference
        "SELECT * FROM notes WHERE tenant_id = \"\" LIMIT 1").toOption.isSome = false :=
  ⟨Except.eq_ok_of_toOption (by decide +kernel), by decide +kernel⟩

end TraceDB
