import TraceDB.Lang.Reference
import TraceDB.Lang.Statements
import TraceDB.Lang.Words

/-!
# Comments in TraceQL

A statement that starts with `#` is left out, but only after `split_traceql_statements` has looked
at its characters: quotes and brackets in it are those of a statement.

* `comment_inert_iff` : a comment between two statements changes nothing, whatever the statements
  are, if and only if it closes every quote and bracket that it opens, and no other.
* `inch_comment_rejected` : the comment `# 5" disk` makes a text unacceptable.
-/

namespace TraceDB

open Brackets Text

/-- A text ends with a line end at which no string and no bracket is open. -/
def EndsLine (text : List Char) : Prop :=
  ∃ line, text = line ++ ['\n'] ∧ Mode.top.run line = some .top

theorem next_newline (p b k : ℕ) : (Mode.code p b k).next '\n' = some (.code p b k) := rfl

/-- At a line end outside of strings and brackets, what comes before and what comes after are cut
apart. -/
theorem cut_line {m : Mode} {part before : List Char} (h : m.run before = some .top)
    (after : List Char) :
    ∃ lines, cut '\n' m part before = some lines ∧
      cut '\n' m part (before ++ '\n' :: after) = (lines ++ ·) <$> cut '\n' .top [] after := by
  induction before generalizing m part with
  | nil =>
    obtain rfl := Option.some.inj h
    exact ⟨[part.reverse], rfl, cut_separator '\n' part after⟩
  | cons c before ih =>
    rw [Mode.run] at h
    obtain ⟨m', hnext, hrun⟩ := Option.bind_eq_some_iff.1 h
    rw [List.cons_append, cut_cons, cut_cons]
    split_ifs with hline
    · obtain ⟨rfl, rfl⟩ := hline
      obtain rfl := Option.some.inj hnext
      obtain ⟨lines, hlines, hall⟩ := @ih .top [] hrun
      refine ⟨part.reverse :: lines, by rw [hlines]; rfl, ?_⟩
      rw [hall]
      cases cut '\n' .top [] after <;> rfl
    · obtain ⟨lines, hlines, hall⟩ := @ih m' (c :: part) hrun
      exact ⟨lines, by rw [hnext]; exact hlines, by rw [hnext]; exact hall⟩

/-- The statements of a text that is cut at a line end. -/
theorem statementTexts_line {before : List Char} (h : EndsLine before) (after : List Char) :
    ∃ texts, ∀ after, (cut '\n' .top [] (before ++ after)).map statementTexts =
      ((cut '\n' .top [] after).map statementTexts).map (texts ++ ·) := by
  obtain ⟨line, rfl, hrun⟩ := h
  obtain ⟨lines, hlines, -⟩ := @cut_line .top [] line hrun after
  refine ⟨statementTexts lines, fun after => ?_⟩
  obtain ⟨lines', hlines', hall⟩ := @cut_line .top [] line hrun after
  obtain rfl := Option.some.inj (hlines.symm.trans hlines')
  rw [List.append_assoc, List.singleton_append, hall]
  cases cut '\n' .top [] after with
  | none => rfl
  | some more => exact congrArg some (statementTexts_append _ _)

/-- A line that starts with `#` is no statement. -/
theorem statementTexts_comment (comment : List Char) : statementTexts ['#' :: comment] = [] := by
  have hstrip := strip_cons_of_not (c := '#') (by decide) comment
  simp [statementTexts, hstrip]

/-- The loop comes to the end of a text if everything is closed there. -/
theorem cut_isSome_iff {m : Mode} {part text : List Char} :
    (cut '\n' m part text).isSome = true ↔ m.run text = some .top := by
  induction text generalizing m part with
  | nil =>
    rw [cut_end, Mode.run]
    split_ifs with h <;> simp [h]
  | cons c text ih =>
    rw [cut_cons, Mode.run]
    split_ifs with hline
    · obtain ⟨rfl, rfl⟩ := hline
      rw [next_newline, Option.bind_some, ← @ih .top []]
      cases cut '\n' .top [] text <;> rfl
    · cases m.next c with
      | none => simp
      | some m' => exact ih

/-- The words of a text before a line end and after it. -/
theorem words_line {before : List Char} (h : EndsLine before) (after : List Char) :
    words (before ++ after) = words before ++ words after := by
  obtain ⟨line, rfl, -⟩ := h
  rw [List.append_assoc, List.singleton_append, words_append_cons (by decide),
    words_concat (by decide)]

/-- A blank text has no statements. -/
theorem words_ne_nil {text : List Char} {lines : List (List Char)}
    (hcut : cut '\n' .top [] text = some lines) (h : statementTexts lines ≠ []) :
      words text ≠ [] := by
  intro hwords
  rcases trimStart_cases text with ⟨hblank, -⟩ | ⟨word, after, -, -, -, hcons⟩
  · have hstrip := statementTexts_cut_strip text
    rw [strip, hblank, hcut] at hstrip
    exact h (Option.some.inj hstrip).symm
  · rw [hwords] at hcons
    cases hcons

/-- A position between two statements of a text in line form: at a line end outside of strings and
brackets, with a statement before it and a statement after it. -/
structure BetweenStatements (before after : List Char) : Prop where
  line : EndsLine before
  lineForm : startsWithSqlishSelect (strip (before ++ after)) = false
  statementBefore : ∃ lines, cut '\n' .top [] before = some lines ∧ statementTexts lines ≠ []
  statementAfter : ∀ lines, cut '\n' .top [] after = some lines → statementTexts lines ≠ []

/-- A line form stays one when a comment is put into it. -/
theorem BetweenStatements.lineForm_comment {before after : List Char}
    (h : BetweenStatements before after) (comment : List Char) :
    startsWithSqlishSelect (strip (before ++ '#' :: (comment ++ '\n' :: after))) = false := by
  obtain ⟨lines, hlines, hne⟩ := h.statementBefore
  have hform := h.lineForm
  rw [← Bool.not_eq_true, startsWithSqlishSelect_iff, words_strip, words_line h.line] at hform ⊢
  -- The first word of the comment begins with its sign, so it is no keyword.
  have hsign : ∃ word more, words ('#' :: (comment ++ '\n' :: after)) = word :: more ∧
      eqIgnoreAsciiCase word "SELECT".toList = false := by
    rcases trimStart_cases ('#' :: (comment ++ '\n' :: after)) with ⟨hnil, -⟩ |
      ⟨word, rest, htrim, hword, -, hcons⟩
    · rw [trimStart, List.dropWhile_cons_of_neg (by decide)] at hnil
      cases hnil
    · refine ⟨word, words rest, hcons, ?_⟩
      rw [trimStart, List.dropWhile_cons_of_neg (by decide)] at htrim
      cases word with
      | nil => exact absurd rfl hword.1
      | cons c word =>
        obtain ⟨rfl, -⟩ := List.cons.inj htrim
        rw [← Bool.not_eq_true, eqIgnoreAsciiCase_iff]
        intro heq
        have hfirst := (List.cons.inj heq).1
        exact absurd hfirst (by decide)
  obtain ⟨sign, more, hwords, hsign⟩ := hsign
  rw [hwords]
  cases hbefore : words before with
  | nil => exact absurd hbefore (words_ne_nil hlines hne)
  | cons word rest =>
    rw [hbefore] at hform
    rintro (hselect | ⟨hexplain, next, more', hrest, hnext⟩)
    · exact hform (.inl hselect)
    · cases rest with
      | nil =>
        obtain ⟨rfl, -⟩ := List.cons.inj hrest
        rw [hsign] at hnext
        cases hnext
      | cons second rest =>
        obtain ⟨rfl, -⟩ := List.cons.inj hrest
        exact hform (.inr ⟨hexplain, _, _, rfl, hnext⟩)

variable {S : Type} (F : CompilerFormat S)

/-- A comment that closes what it opens changes nothing. -/
theorem comment_inert {comment : List Char} (hline : '\n' ∉ comment)
    (hcomment : Mode.top.run comment = some .top) {before after : List Char}
    (h : BetweenStatements before after) :
    (traceqlQueryFromStr F (String.ofList (before ++ '#' :: (comment ++ '\n' :: after)))).toOption =
      (traceqlQueryFromStr F (String.ofList (before ++ after))).toOption := by
  have hsign : '\n' ∉ '#' :: comment := by simpa using hline
  have hrun : Mode.top.run ('#' :: comment) = some .top := hcomment
  obtain ⟨texts, htexts⟩ := statementTexts_line h.line after
  have hinserted : (cut '\n' .top [] ('#' :: (comment ++ '\n' :: after))).map statementTexts =
      (cut '\n' .top [] after).map statementTexts := by
    rw [← List.cons_append, cut_run hsign, hrun, Option.bind_some, cut_separator]
    cases cut '\n' .top [] after with
    | none => rfl
    | some lines =>
      have hnone := statementTexts_comment comment
      show some (statementTexts (_ :: lines)) = _
      rw [statementTexts_cons, List.append_nil, List.reverse_reverse, hnone]
      rfl
  have hlines := htexts ('#' :: (comment ++ '\n' :: after))
  rw [hinserted, ← htexts after] at hlines
  have hbind : ∀ x : Option (List (List Char)),
      (x.bind fun lines => queryOfTexts F (statementTexts lines)) =
      (x.map statementTexts).bind (queryOfTexts F) := by
    intro x
    cases x <;> rfl
  rw [traceqlQueryFromStr_lines F (by rw [String.toList_ofList]; exact h.lineForm_comment comment),
    traceqlQueryFromStr_lines F (by rw [String.toList_ofList]; exact h.lineForm),
    String.toList_ofList, String.toList_ofList, hbind, hbind, hlines]

/-- Inside a string, a text without quotes and backslashes closes nothing. -/
theorem run_literal_open {text : List Char} (hquote : '"' ∉ text) (hslash : '\\' ∉ text) (p b k : ℕ)
    (escaped : Bool) : (Mode.literal p b k escaped).run text ≠ some .top := by
  induction text generalizing escaped with
  | nil => exact fun h => by cases h
  | cons c text ih =>
    rw [List.mem_cons, not_or] at hquote hslash
    cases escaped with
    | true => exact ih hquote.2 hslash.2 false
    | false =>
      rw [Mode.run, Mode.next, if_neg (Ne.symm hslash.1), if_neg (Ne.symm hquote.1)]
      exact ih hquote.2 hslash.2 false

/-- A text of plain characters other than quotes and backslashes leaves open what is open. -/
theorem eq_top_of_run {text : List Char} (hplain : ∀ c ∈ text, isPlain c = true)
    (hslash : '\\' ∉ text) {m : Mode} (h : m.run text = some .top) : m = .top := by
  cases m with
  | code p b k =>
    rw [Mode.run_nested (Nested.of_plain hplain)] at h
    exact Option.some.inj h
  | literal p b k escaped =>
    have hquote : '"' ∉ text := fun hmem => absurd (hplain _ hmem) (by decide)
    exact absurd h (run_literal_open hquote hslash p b k escaped)

/-- Two statements, of which the shortest query consists. -/
def firstStatement : List Char := ['F', 'R', 'O', 'M', ' ', 't', '\n']

/-- The other of the two. -/
def secondStatement : List Char := ['T', 'E', 'N', 'A', 'N', 'T', ' ', 'x']

theorem betweenStatements_first_second : BetweenStatements firstStatement secondStatement where
  line := ⟨firstStatement.dropLast, by decide, by decide⟩
  lineForm := by decide
  statementBefore := ⟨_, rfl, by decide⟩
  statementAfter := by
    intro lines h
    obtain rfl := Option.some.inj h.symm
    decide

theorem first_second_accepted :
    (traceqlQueryFromStr F (String.ofList (firstStatement ++ secondStatement))).toOption ≠
      none := by
  rw [traceqlQueryFromStr_lines F
    (by rw [String.toList_ofList]; exact betweenStatements_first_second.lineForm),
    String.toList_ofList]
  exact fun h => by cases h

/-- A comment between two statements changes nothing, whatever the statements are, if and only if it
closes every quote and bracket that it opens, and no other. -/
theorem comment_inert_iff {comment : List Char} (hline : '\n' ∉ comment) :
    (∀ before after, BetweenStatements before after →
      (traceqlQueryFromStr F
        (String.ofList (before ++ '#' :: (comment ++ '\n' :: after)))).toOption =
        (traceqlQueryFromStr F (String.ofList (before ++ after))).toOption) ↔
      Mode.top.run comment = some .top := by
  refine ⟨fun hinert => ?_, fun hcomment before after h => comment_inert F hline hcomment h⟩
  have hsame := hinert _ _ betweenStatements_first_second
  have haccepted := first_second_accepted F
  rw [← hsame, traceqlQueryFromStr_lines F
    (by rw [String.toList_ofList]; exact betweenStatements_first_second.lineForm_comment comment),
    String.toList_ofList] at haccepted
  cases hcut : cut '\n' .top [] (firstStatement ++ '#' :: (comment ++ '\n' :: secondStatement)) with
  | none =>
    rw [hcut] at haccepted
    exact absurd rfl haccepted
  | some lines =>
    -- The loop came to the end, and the second statement closes nothing.
    have hrun := (@cut_isSome_iff .top [] _).1 (by rw [hcut]; rfl)
    have hfirst : Mode.top.run firstStatement = some .top := rfl
    rw [Mode.run_append, hfirst, Option.bind_some, ← List.cons_append, Mode.run_append] at hrun
    obtain ⟨m, hm, hrest⟩ := Option.bind_eq_some_iff.1 hrun
    obtain rfl := eq_top_of_run (by decide) (by decide) hrest
    exact hm

/-- A comment with a bracket pair and an apostrophe. -/
def pairComment : List Char := [' ', '(', 'i', 't', '\'', 's', ')']

theorem pair_comment_inert :
    (traceqlQueryFromStr CompilerFormat.reference
      (String.ofList (firstStatement ++
        '#' :: (pairComment ++ '\n' :: secondStatement)))).toOption =
      (traceqlQueryFromStr CompilerFormat.reference
        (String.ofList (firstStatement ++ secondStatement))).toOption :=
  (comment_inert_iff CompilerFormat.reference (by decide)).2 (by decide) _ _
    betweenStatements_first_second

/-- An inch sign in a comment. -/
def inchComment : List Char := [' ', '5', '"', ' ', 'd', 'i', 's', 'k']

/-- The two statements are accepted, and are not with the comment between them. -/
theorem inch_comment_rejected :
    BetweenStatements firstStatement secondStatement ∧ '\n' ∉ inchComment ∧
      (traceqlQueryFromStr CompilerFormat.reference
        (String.ofList (firstStatement ++ secondStatement))).toOption ≠ none ∧
      (traceqlQueryFromStr CompilerFormat.reference
        (String.ofList (firstStatement ++
          '#' :: (inchComment ++ '\n' :: secondStatement)))).toOption =
        none := by
  refine ⟨betweenStatements_first_second,
    by decide, first_second_accepted CompilerFormat.reference, ?_⟩
  have hline := betweenStatements_first_second.lineForm_comment inchComment
  rw [traceqlQueryFromStr_lines CompilerFormat.reference
    (by rw [String.toList_ofList]; exact hline), String.toList_ofList]
  rfl

end TraceDB
