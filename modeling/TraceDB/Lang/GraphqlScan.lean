import TraceDB.Lang.Graphql
import TraceDB.Lang.Reference

/-!
# The loops of the bounded form of GraphQL

What the loops over a GraphQL text do with tokens: comments between them become white space
(`stripGraphqlComments_spaced`), a bracket finds its partner behind any tokens
(`matchingGraphqlDelimiter_nested`), and a list of parts is cut at the commas between them
(`cut_spaced`).
-/

namespace TraceDB

open Brackets Text

/-! ### Comments -/

/-- White space and comments.  A comment ends with a line end. -/
inductive GraphqlGap : List Char → Prop where
  | nil : GraphqlGap []
  | blank {c : Char} {gap : List Char} : isJsonWhitespace c = true → GraphqlGap gap →
      GraphqlGap (c :: gap)
  | comment {body gap : List Char} {last : Char} : (∀ c ∈ body, c ≠ '\n' ∧ c ≠ '\r') →
      last = '\n' ∨ last = '\r' → GraphqlGap gap → GraphqlGap ('#' :: (body ++ last :: gap))

/-- White space of JSON only. -/
def JsonBlank (space : List Char) : Prop := ∀ c ∈ space, isJsonWhitespace c = true

theorem isJsonWhitespace_spec {c : Char} (h : isJsonWhitespace c = true) :
    isWhitespace c = true ∧ isPlain c = true ∧ c ≠ '"' ∧ c ≠ '#' := by
  simp only [isJsonWhitespace, Bool.or_eq_true, decide_eq_true_eq] at h
  rcases h with ((rfl | rfl) | rfl) | rfl <;> decide

theorem JsonBlank.white {space : List Char} (h : JsonBlank space) :
    ∀ c ∈ space, isWhitespace c = true :=
  fun c hc => (isJsonWhitespace_spec (h c hc)).1

/-- A text that stays as it is when the comments are taken out. -/
def Verbatim (text : List Char) : Prop :=
  ∀ rest, stripGraphqlCommentsFrom .code (text ++ rest) =
    text ++ stripGraphqlCommentsFrom .code rest

theorem verbatim_of_forall {text : List Char} (h : ∀ c ∈ text, c ≠ '"' ∧ c ≠ '#') :
    Verbatim text := by
  intro rest
  induction text with
  | nil => rfl
  | cons c text ih =>
    rw [List.forall_mem_cons] at h
    have hnext : GraphqlMode.code.next c = .code := by
      rw [GraphqlMode.next, if_neg h.1.1, if_neg h.1.2]
    rw [List.cons_append, stripGraphqlCommentsFrom, hnext, if_neg (fun hc => by cases hc), ih h.2,
      List.cons_append]

theorem verbatim_literal {body : List Char} (h : Literal body) :
    Verbatim ('"' :: (body ++ ['"'])) := by
  intro rest
  have hstring : ∀ {mode : GraphqlMode} {next : GraphqlMode} {c : Char} (rest : List Char),
      mode.next c = next → next ≠ .comment →
        stripGraphqlCommentsFrom mode (c :: rest) = c :: stripGraphqlCommentsFrom next rest := by
    intro mode next c rest hnext hne
    rw [stripGraphqlCommentsFrom]
    rw [hnext, if_neg hne]
  have hbody : stripGraphqlCommentsFrom (.string false) (body ++ '"' :: rest) =
      body ++ '"' :: stripGraphqlCommentsFrom .code rest := by
    induction h with
    | nil => exact hstring rest rfl (fun hc => by cases hc)
    | @char c body hquote hslash _ ih =>
      have hnext : (GraphqlMode.string false).next c = .string false := by
        rw [GraphqlMode.next, if_neg hslash, if_neg hquote]
      rw [List.cons_append, hstring _ hnext (fun hc => by cases hc), ih, List.cons_append]
    | @escape c body _ ih =>
      have hslash : (GraphqlMode.string false).next '\\' = .string true := rfl
      have hnext : (GraphqlMode.string true).next c = .string false := rfl
      rw [List.cons_append, hstring _ hslash (fun hc => by cases hc), List.cons_append,
        hstring _ hnext (fun hc => by cases hc), ih, List.cons_append, List.cons_append]
  have hquote : GraphqlMode.code.next '"' = .string false := rfl
  rw [List.cons_append, List.append_assoc, hstring _ hquote (fun hc => by cases hc),
    List.singleton_append, hbody]
  simp

theorem IsJsonToken.verbatim {token : List Char} (h : IsJsonToken token) : Verbatim token := by
  cases h with
  | word hword =>
    refine verbatim_of_forall fun c hc => ?_
    have hchar := hword.2 c hc
    constructor <;>
      · rintro rfl
        revert hchar
        decide
  | string s => exact verbatim_literal (literal_escaped s)
  | sign hc =>
    have hsigns : ∀ d ∈ ['[', ']', '\x7b', '\x7d', ':', ','], d ≠ '"' ∧ d ≠ '#' := by decide
    exact verbatim_of_forall (by simpa using hsigns _ hc)

/-- A comment leaves its line end. -/
theorem stripGraphqlCommentsFrom_comment {body : List Char}
    (h : ∀ c ∈ body, c ≠ '\n' ∧ c ≠ '\r') {last : Char} (hlast : last = '\n' ∨ last = '\r')
    (rest : List Char) :
    stripGraphqlCommentsFrom .comment (body ++ last :: rest) =
      last :: stripGraphqlCommentsFrom .code rest := by
  induction body with
  | nil =>
    have hnext : GraphqlMode.comment.next last = .code := if_pos hlast
    rw [List.nil_append, stripGraphqlCommentsFrom]
    rw [hnext, if_neg (fun hc => by cases hc)]
  | cons c body ih =>
    rw [List.forall_mem_cons] at h
    have hnext : GraphqlMode.comment.next c = .comment := if_neg (not_or.2 h.1)
    rw [List.cons_append, stripGraphqlCommentsFrom]
    rw [hnext, if_pos rfl, ih h.2]

/-- White space is left of a gap. -/
theorem stripGraphqlCommentsFrom_gap {gap : List Char} (h : GraphqlGap gap) :
    ∃ space, JsonBlank space ∧
      ∀ rest, stripGraphqlCommentsFrom .code (gap ++ rest) =
        space ++ stripGraphqlCommentsFrom .code rest := by
  induction h with
  | nil => exact ⟨[], by simp [JsonBlank], fun rest => rfl⟩
  | @blank c gap hc _ ih =>
    obtain ⟨space, hspace, hstrip⟩ := ih
    have hone : Verbatim [c] := verbatim_of_forall (by simpa using (isJsonWhitespace_spec hc).2.2)
    refine ⟨c :: space, List.forall_mem_cons.2 ⟨hc, hspace⟩, fun rest => ?_⟩
    have hrest := hone (gap ++ rest)
    rw [List.singleton_append] at hrest
    rw [List.cons_append, hrest, hstrip]
    rfl
  | @comment body gap last hbody hlast _ ih =>
    obtain ⟨space, hspace, hstrip⟩ := ih
    have hend : isJsonWhitespace last = true := by
      rcases hlast with rfl | rfl <;> rfl
    refine ⟨last :: space, List.forall_mem_cons.2 ⟨hend, hspace⟩, fun rest => ?_⟩
    have hsign : GraphqlMode.code.next '#' = .comment := rfl
    rw [List.cons_append, List.append_assoc, stripGraphqlCommentsFrom]
    rw [hsign, if_pos rfl, List.cons_append, stripGraphqlCommentsFrom_comment hbody hlast, hstrip]
    rfl

/-- The tokens of a text without its comments. -/
theorem stripGraphqlCommentsFrom_spaced {tokens : List (List Char)}
    (htokens : ∀ token ∈ tokens, Verbatim token) {text : List Char}
    (h : Spaced GraphqlGap tokens text) :
    Spaced JsonBlank tokens (stripGraphqlCommentsFrom .code text) := by
  induction h with
  | nil => exact .nil
  | @cons token gap text tokens hgap _ ih =>
    rw [List.forall_mem_cons] at htokens
    obtain ⟨space, hspace, hstrip⟩ := stripGraphqlCommentsFrom_gap hgap
    rw [htokens.1, hstrip]
    exact .cons hspace (ih htokens.2)

/-! ### Delimiters -/

theorem isPlain_spec {c : Char} (h : isPlain c = true) :
    c ∉ ['"', '\'', '#', '(', ')', '[', ']', '\x7b', '\x7d'] := by
  simpa [isPlain] using h

theorem GraphqlMode.next_plain {c : Char} (h : isPlain c = true) :
    GraphqlMode.code.next c = .code := by
  have hne := isPlain_spec h
  simp only [List.mem_cons, not_or] at hne
  rw [GraphqlMode.next, if_neg hne.1, if_neg hne.2.2.1]

theorem matchingGraphqlDelimiterFrom_other {opening closing c : Char} {mode : GraphqlMode}
    (h : mode = .code → c ≠ opening ∧ c ≠ closing) (depth : ℕ) (inner rest : List Char) :
    matchingGraphqlDelimiterFrom opening closing depth mode inner (c :: rest) =
      matchingGraphqlDelimiterFrom opening closing depth (mode.next c) (c :: inner) rest := by
  rw [matchingGraphqlDelimiterFrom, if_neg fun hc => (h hc.1).1 hc.2,
    if_neg fun hc => (h hc.1).2 hc.2]

theorem matchingGraphqlDelimiterFrom_literal {opening closing : Char} {body : List Char}
    (h : Literal body) (depth : ℕ) (inner rest : List Char) :
    matchingGraphqlDelimiterFrom opening closing depth (.string false) inner (body ++ '"' :: rest) =
      matchingGraphqlDelimiterFrom opening closing depth .code
        ('"' :: (body.reverse ++ inner)) rest := by
  have hnot : ∀ (escaped : Bool) (c : Char), GraphqlMode.string escaped = .code →
      c ≠ opening ∧ c ≠ closing :=
    fun _ _ hc => by cases hc
  induction h generalizing inner with
  | nil => exact matchingGraphqlDelimiterFrom_other (hnot _ _) depth inner rest
  | @char c body hquote hslash _ ih =>
    have hnext : (GraphqlMode.string false).next c = .string false := by
      rw [GraphqlMode.next, if_neg hslash, if_neg hquote]
    rw [List.cons_append, matchingGraphqlDelimiterFrom_other (hnot _ _), hnext, ih]
    simp
  | @escape c body _ ih =>
    have hslash : (GraphqlMode.string false).next '\\' = .string true := rfl
    have hnext : (GraphqlMode.string true).next c = .string false := rfl
    rw [List.cons_append, matchingGraphqlDelimiterFrom_other (hnot _ _), hslash, List.cons_append,
      matchingGraphqlDelimiterFrom_other (hnot _ _), hnext, ih]
    simp

/-- Two pairs of brackets are the same or have nothing in common. -/
theorem pair_cases {opening closing opening' closing' : Char} (h : Pair opening closing)
    (h' : Pair opening' closing') :
    (opening' = opening ∧ closing' = closing ∧ closing ≠ opening) ∨
      ((opening' ≠ opening ∧ opening' ≠ closing) ∧ closing' ≠ opening ∧ closing' ≠ closing) := by
  cases h <;> cases h' <;> decide

theorem GraphqlMode.next_bracket {opening closing : Char} (h : Pair opening closing) :
    GraphqlMode.code.next opening = .code ∧ GraphqlMode.code.next closing = .code := by
  cases h <;> decide

/-- A nested text is passed over. -/
theorem matchingGraphqlDelimiterFrom_nested {opening closing : Char} (hpair : Pair opening closing)
    {text : List Char} (h : Nested text) (depth : ℕ) (inner rest : List Char) :
    matchingGraphqlDelimiterFrom opening closing (depth + 1) .code inner (text ++ rest) =
      matchingGraphqlDelimiterFrom opening closing (depth + 1) .code
        (text.reverse ++ inner) rest := by
  induction h generalizing depth inner rest with
  | nil => rfl
  | @char c text hc _ ih =>
    have hne : c ≠ opening ∧ c ≠ closing := by
      have hspec := isPlain_spec hc
      constructor <;>
        · rintro rfl
          cases hpair <;> exact hspec (by decide)
    rw [List.cons_append, matchingGraphqlDelimiterFrom_other fun _ => hne,
      GraphqlMode.next_plain hc, ih]
    simp
  | @literal body text hbody _ ih =>
    have hne : '"' ≠ opening ∧ '"' ≠ closing := by cases hpair <;> decide
    have hquote : GraphqlMode.code.next '"' = .string false := rfl
    rw [List.cons_append, List.append_assoc,
      matchingGraphqlDelimiterFrom_other fun _ => hne, hquote, List.cons_append,
      matchingGraphqlDelimiterFrom_literal hbody, ih]
    simp
  | @group opening' closing' inside text hpair' _ _ ihinner ihrest =>
    obtain ⟨hopen, hclose⟩ := GraphqlMode.next_bracket hpair'
    rw [List.cons_append, List.append_assoc, List.cons_append]
    rcases pair_cases hpair hpair' with ⟨rfl, rfl, hne⟩ | ⟨hopening, hclosing⟩
    · -- One more bracket is open up to its partner.
      rw [matchingGraphqlDelimiterFrom, if_pos ⟨rfl, rfl⟩, ihinner, matchingGraphqlDelimiterFrom,
        if_neg (fun hc => hne hc.2), if_pos ⟨rfl, rfl⟩, if_neg (by omega), if_neg (by omega),
        Nat.add_sub_cancel, ihrest]
      simp
    · rw [matchingGraphqlDelimiterFrom_other fun _ => hopening, hopen, ihinner,
        matchingGraphqlDelimiterFrom_other fun _ => hclosing, hclose, ihrest]
      simp

/-- A bracket and its partner around a nested text. -/
theorem matchingGraphqlDelimiter_nested {opening closing : Char} (hpair : Pair opening closing)
    {text : List Char} (h : Nested text) (rest : List Char) :
    matchingGraphqlDelimiter (opening :: (text ++ closing :: rest)) opening closing =
      some (text, rest) := by
  have hne : closing ≠ opening := by cases hpair <;> decide
  have hmatch := matchingGraphqlDelimiterFrom_nested hpair h 0 [] (closing :: rest)
  rw [matchingGraphqlDelimiter, if_pos rfl, hmatch, matchingGraphqlDelimiterFrom,
    if_neg fun hc => hne hc.2, if_pos ⟨rfl, rfl⟩, if_neg (by omega), if_pos rfl]
  simp

/-! ### Cuts -/

/-- The parts of a text. -/
theorem splitGraphqlTopLevelFrom_eq (separator : Char) (mode : Mode) (part text : List Char) :
    (splitGraphqlTopLevelFrom separator mode part text).toOption =
      (cut separator mode part text).map (List.map strip) := by
  induction text generalizing mode part with
  | nil =>
    rw [splitGraphqlTopLevelFrom, cut_end]
    split_ifs <;> rfl
  | cons c text ih =>
    rw [splitGraphqlTopLevelFrom, cut_cons]
    split_ifs
    · have hrest := ih .top []
      cases hsplit : splitGraphqlTopLevelFrom separator .top [] text with
      | error e =>
        rw [hsplit, Except.toOption_error, eq_comm, Option.map_eq_none_iff] at hrest
        rw [hrest]
        rfl
      | ok parts =>
        rw [hsplit, Except.toOption_ok, eq_comm, Option.map_eq_some_iff] at hrest
        obtain ⟨texts, htexts, rfl⟩ := hrest
        rw [htexts]
        rfl
    · cases mode.next c with
      | none => rfl
      | some next => exact ih next (c :: part)

/-- A text that is not cut, and in which nothing stays open. -/
def Whole (separator : Char) (text : List Char) : Prop :=
  ∀ part rest, cut separator .top part (text ++ rest) = cut separator .top
    (text.reverse ++ part) rest

section

variable {separator : Char}

theorem Whole.append {a b : List Char} (ha : Whole separator a) (hb : Whole separator b) :
    Whole separator (a ++ b) := by
  intro part rest
  rw [List.append_assoc, ha, hb, List.reverse_append, List.append_assoc]

theorem whole_plain {text : List Char} (hsep : separator ∉ text)
    (h : ∀ c ∈ text, isPlain c = true) :
    Whole separator text := fun part rest => cut_plain hsep h 0 0 0 part rest

theorem whole_quoted (hsep : separator ≠ '"') (s : String) : Whole separator (quoted s) := by
  intro part rest
  have hcut := cut_quoted hsep (literal_escaped s) 0 0 0 part rest
  rw [quoted, List.cons_append, List.append_assoc, List.singleton_append, hcut]
  simp

theorem whole_group {opening closing : Char} (hpair : Pair opening closing)
    (hsep : separator ≠ opening) {inner : List Char} (h : Nested inner) :
      Whole separator (opening :: (inner ++ [closing])) := by
  intro part rest
  have hcut := cut_group hpair hsep h 0 0 0 part rest
  rw [List.cons_append, List.append_assoc, List.singleton_append, hcut]
  simp

end

/-- A part of a text is some tokens, with white space around them. -/
def IsPart (part : List Char) (tokens : List (List Char)) : Prop :=
  ∃ space text, part = space ++ text ∧ JsonBlank space ∧ Spaced JsonBlank tokens text

theorem JsonBlank.whole {separator : Char} (hsep : isJsonWhitespace separator = false)
    {space : List Char} (h : JsonBlank space) : Whole separator space := by
  refine whole_plain (fun hmem => ?_) fun c hc => (isJsonWhitespace_spec (h c hc)).2.1
  rw [h separator hmem] at hsep
  cases hsep

/-- Groups of tokens with commas between them. -/
def withCommas (groups : List (List (List Char))) :
    List (List Char) := List.intercalate [[',']] groups

/-- A text is cut at the commas between its groups of tokens. -/
theorem cut_spaced {groups : List (List (List Char))} (hne : groups ≠ [])
    (hwhole : ∀ tokens ∈ groups, ∀ text, Spaced JsonBlank tokens text → Whole ',' text)
    {before text : List Char} (hbefore : JsonBlank before)
    (h : Spaced JsonBlank (withCommas groups) text) :
    ∃ parts, cut ',' .top [] (before ++ text) = some parts ∧ List.Forall₂ IsPart parts groups := by
  induction groups generalizing before text with
  | nil => exact absurd rfl hne
  | cons tokens groups ih =>
    rw [List.forall_mem_cons] at hwhole
    cases groups with
    | nil =>
      have htokens : withCommas [tokens] = tokens := by simp [withCommas]
      rw [htokens] at h
      have hpart := (hbefore.whole (by decide)).append (hwhole.1 text h) [] []
      rw [List.append_nil, List.append_nil, cut_nil, List.reverse_reverse] at hpart
      exact ⟨_, hpart, .cons ⟨before, text, rfl, hbefore, h⟩ .nil⟩
    | cons next groups =>
      have htokens : withCommas (tokens :: next :: groups) = tokens ++
          [','] :: withCommas (next :: groups) := by
        simp [withCommas, List.intercalate]
      rw [htokens] at h
      obtain ⟨front, back, rfl, hfront, hback⟩ := h.append_inv
      obtain - | ⟨hspace, hrest⟩ := hback
      obtain ⟨parts, hparts, hall⟩ := ih (List.cons_ne_nil _ _) hwhole.2 hspace hrest
      have hpart := (hbefore.whole (by decide)).append (hwhole.1 front hfront) []
      refine ⟨(before ++ front) :: parts, ?_, .cons ⟨before, front, rfl, hbefore, hfront⟩ hall⟩
      rw [← List.append_assoc, hpart, List.singleton_append, cut_separator, hparts, List.append_nil,
        List.reverse_reverse]
      rfl

end TraceDB
