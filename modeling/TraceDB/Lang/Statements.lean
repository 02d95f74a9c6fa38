import TraceDB.Data.Brackets
import TraceDB.Lang.Traceql

/-!
# The statements of a text

What `split_traceql_statements` does, without line numbers: the text is cut at the line ends outside
of strings and brackets, and the blank lines and the comments are left out
(`splitTraceqlStatements_texts`). The query depends on the texts of the statements only
(`traceqlQueryFromStr_lines`).
-/

namespace TraceDB

open Brackets

/-! ### The loop -/

namespace StatementScan

/-- What is open. -/
def mode (s : StatementScan) : Mode :=
  if s.inString then .literal s.parenDepth s.braceDepth s.bracketDepth s.escaped
  else .code s.parenDepth s.braceDepth s.bracketDepth

/-- The flag for a backslash is set inside strings only. -/
def WellFormed (s : StatementScan) : Prop := s.escaped = true → s.inString = true

theorem mode_eq_top_iff {s : StatementScan} : s.mode = .top ↔ s.inString = false ∧ s.AtTop := by
  unfold mode AtTop
  cases s.inString <;> simp

/-- A line end at which nothing is open ends the statement. -/
theorem step_line {s : StatementScan} (h : s.WellFormed) (htop : s.mode = .top) :
    ∃ s', s.step '\n' = .ok s' ∧ s'.WellFormed ∧ s'.mode = .top ∧ s'.statement = [] ∧
      s'.statements = pushTraceqlStatement s.statements s.statement.reverse s.statementLine := by
  obtain ⟨hstring, htop⟩ := mode_eq_top_iff.1 htop
  have hstep : s.step '\n' = .ok { s with
      statements := pushTraceqlStatement s.statements s.statement.reverse s.statementLine
      statement := []
      lineNumber := s.lineNumber + 1
      statementLine := s.lineNumber + 1 } := by
    simp [step, hstring, htop]
  exact ⟨_, hstep, h, mode_eq_top_iff.2 ⟨hstring, htop⟩, rfl, rfl⟩

/-- Every other character goes into the statement, and opens and closes what it opens and closes. -/
theorem step_taken {s : StatementScan} (h : s.WellFormed) {ch : Char}
    (hline : ¬ (s.mode = .top ∧ ch = '\n')) :
    match s.step ch with
    | .ok s' => s'.WellFormed ∧ s.mode.next ch = some s'.mode ∧ s'.statement = ch :: s.statement ∧
        s'.statements = s.statements
    | .error _ => s.mode.next ch = none := by
  obtain ⟨statements, statement, lineNumber, statementLine, p, b, k, inString, escaped⟩ := s
  cases inString with
  | true =>
    cases escaped with
    | true => exact ⟨fun _ => rfl, rfl, rfl, rfl⟩
    | false =>
      by_cases hslash : ch = '\\'
      · subst hslash
        exact ⟨fun _ => rfl, rfl, rfl, rfl⟩
      by_cases hquote : ch = '"'
      · subst hquote
        exact ⟨fun hc => absurd hc Bool.false_ne_true, rfl, rfl, rfl⟩
      have hnext : (Mode.literal p b k false).next ch = some (.literal p b k false) := by
        rw [Mode.next, if_neg hslash, if_neg hquote]
      unfold step mode
      dsimp only
      rw [if_pos rfl, if_neg Bool.false_ne_true, if_neg hslash, if_neg hquote]
      exact ⟨fun _ => rfl, hnext, rfl, rfl⟩
  | false =>
    have hescaped : escaped = false := by
      cases escaped with
      | true => cases h rfl
      | false => rfl
    subst hescaped
    have hwell : ¬ false = true := Bool.false_ne_true
    by_cases hquote : ch = '"'
    · subst hquote
      exact ⟨fun _ => rfl, rfl, rfl, rfl⟩
    by_cases hparen : ch = '('
    · subst hparen
      exact ⟨fun hc => absurd hc hwell, rfl, rfl, rfl⟩
    by_cases hparen' : ch = ')'
    · subst hparen'
      cases p with
      | zero => exact rfl
      | succ p => exact ⟨fun hc => absurd hc hwell, rfl, rfl, rfl⟩
    by_cases hbrace : ch = '\x7b'
    · subst hbrace
      exact ⟨fun hc => absurd hc hwell, rfl, rfl, rfl⟩
    by_cases hbrace' : ch = '\x7d'
    · subst hbrace'
      cases b with
      | zero => exact rfl
      | succ b => exact ⟨fun hc => absurd hc hwell, rfl, rfl, rfl⟩
    by_cases hbracket : ch = '['
    · subst hbracket
      exact ⟨fun hc => absurd hc hwell, rfl, rfl, rfl⟩
    by_cases hbracket' : ch = ']'
    · subst hbracket'
      cases k with
      | zero => exact rfl
      | succ k => exact ⟨fun hc => absurd hc hwell, rfl, rfl, rfl⟩
    have hnext : (Mode.code p b k).next ch = some (.code p b k) := by
      rw [Mode.next, if_neg hquote, if_neg hparen, if_neg hparen', if_neg hbrace, if_neg hbrace',
        if_neg hbracket, if_neg hbracket']
    unfold step mode
    dsimp only
    rw [if_neg hwell, if_neg hwell, if_neg hquote, if_neg hparen, if_neg hparen', if_neg hbrace,
      if_neg hbrace', if_neg hbracket, if_neg hbracket']
    by_cases hnewline : ch = '\n'
    · rw [if_pos hnewline, if_neg fun htop => hline ⟨mode_eq_top_iff.2 ⟨rfl, htop⟩, hnewline⟩]
      exact ⟨fun hc => absurd hc hwell, hnext, rfl, rfl⟩
    · rw [if_neg hnewline]
      exact ⟨fun hc => absurd hc hwell, hnext, rfl, rfl⟩

/-- The end of the text is the end of the last statement, if nothing is open. -/
theorem finish_top {s : StatementScan} (h : s.mode = .top) :
    s.finish = .ok (pushTraceqlStatement s.statements
      s.statement.reverse s.statementLine).reverse := by
  obtain ⟨hstring, hparens, hbraces, hbrackets⟩ := mode_eq_top_iff.1 h
  simp [finish, hstring, hparens, hbraces, hbrackets]

theorem finish_open {s : StatementScan} (h : s.mode ≠ .top) : ∃ e, s.finish = .error e := by
  unfold finish
  split_ifs with hstring hparens hbraces hbrackets
  · exact ⟨_, rfl⟩
  · exact ⟨_, rfl⟩
  · exact ⟨_, rfl⟩
  · exact ⟨_, rfl⟩
  · refine absurd (mode_eq_top_iff.2 ⟨by simpa using hstring, ?_⟩) h
    exact ⟨by omega, by omega, by omega⟩

end StatementScan

/-! ### The texts -/

/-- The texts of the statements among the lines of a text. -/
def statementTexts (lines : List (List Char)) : List (List Char) :=
  (lines.map Text.strip).filter fun text => text ≠ [] && text.head? ≠ some '#'

theorem statementTexts_append (lines more : List (List Char)) :
    statementTexts (lines ++ more) = statementTexts lines ++ statementTexts more := by
  simp [statementTexts]

theorem statementTexts_cons (line : List Char) (lines : List (List Char)) :
    statementTexts (line :: lines) = statementTexts [line] ++ statementTexts lines :=
  statementTexts_append [line] lines

theorem pushTraceqlStatement_texts (statements : List TraceqlStatement) (raw : List Char) (n : ℕ) :
    ((pushTraceqlStatement statements raw n).map (·.text)).reverse =
      (statements.map (·.text)).reverse ++ statementTexts [raw] := by
  unfold pushTraceqlStatement statementTexts
  by_cases h : Text.strip raw = [] ∨ (Text.strip raw).head? = some '#'
  · rw [if_pos h]
    rcases h with h | h <;> simp [h]
  · rw [if_neg h]
    rw [not_or] at h
    simp [h.1, h.2]

/-- The loop, from a state in the middle of a text. -/
theorem StatementScan.run_texts {s : StatementScan} (h : s.WellFormed) (text : List Char) :
    ((text.foldlM StatementScan.step s >>= StatementScan.finish).toOption).map (List.map (·.text)) =
      (cut '\n' s.mode s.statement text).map fun lines =>
        (s.statements.map (·.text)).reverse ++ statementTexts lines := by
  induction text generalizing s with
  | nil =>
    rw [List.foldlM_nil, cut]
    split_ifs with htop
    · simp only [pure_bind, finish_top htop, Except.toOption_ok, Option.map_some, List.map_reverse,
        pushTraceqlStatement_texts]
    · obtain ⟨e, he⟩ := finish_open htop
      simp only [pure_bind, he, Except.toOption_error, Option.map_none]
  | cons ch text ih =>
    rw [List.foldlM_cons, cut]
    by_cases hline : s.mode = .top ∧ ch = '\n'
    · obtain ⟨htop, rfl⟩ := hline
      obtain ⟨s', hstep, hwell, hmode, hstatement, hstatements⟩ := step_line h htop
      rw [if_pos ⟨htop, rfl⟩, hstep]
      simp only [Except.ok_bind, ih hwell, hmode, hstatement, hstatements,
        pushTraceqlStatement_texts, Option.map_eq_map, Option.map_map, Function.comp_def,
        List.append_assoc]
      simp only [← statementTexts_cons]
    · have htaken := step_taken h hline
      rw [if_neg hline]
      cases hstep : s.step ch with
      | error e =>
        rw [hstep] at htaken
        have hnext : s.mode.next ch = none := htaken
        rw [hnext]
        rfl
      | ok s' =>
        rw [hstep] at htaken
        obtain ⟨hwell, hmode, hstatement, hstatements⟩ := htaken
        rw [hmode]
        simp only [Except.ok_bind, ih hwell, Option.bind_some, hstatement, hstatements]

/-- The texts of the statements. -/
theorem splitTraceqlStatements_texts (input : List Char) :
    (splitTraceqlStatements input).toOption.map (List.map (·.text)) =
      (cut '\n' .top [] input).map statementTexts := by
  have hstart : StatementScan.start.WellFormed := fun h => by cases h
  exact StatementScan.run_texts hstart input

/-! ### White space at the ends -/

theorem isPlain_of_isWhitespace {c : Char} (h : Text.isWhitespace c = true) : isPlain c = true := by
  by_contra hc
  simp only [isPlain, List.contains_cons, List.contains_nil, Bool.or_false, Bool.not_eq_true,
    Bool.not_eq_false', Bool.or_eq_true, beq_iff_eq] at hc
  rcases hc with rfl | rfl | rfl | rfl | rfl | rfl | rfl | rfl | rfl <;> cases h

/-- White space in front of a part stays in front of it. -/
theorem cut_part (separator : Char) (m : Mode) (part front text : List Char) :
    cut separator m (part ++ front) text =
      (cut separator m part text).map (List.modifyHead (front.reverse ++ ·)) := by
  induction text generalizing m part with
  | nil =>
    rw [cut, cut]
    split_ifs
    · simp
    · rfl
  | cons c text ih =>
    rw [cut, cut]
    split_ifs
    · cases cut separator .top [] text <;> simp
    · cases m.next c with
      | none => rfl
      | some m' => exact ih m' (c :: part)

/-- White space in front of a text changes no statement. -/
theorem statementTexts_cut_cons {c : Char} (h : Text.isWhitespace c = true) (text : List Char) :
    (cut '\n' .top [] (c :: text)).map statementTexts =
      (cut '\n' .top [] text).map statementTexts := by
  rw [cut]
  split_ifs with hline
  · cases cut '\n' .top [] text with
    | none => rfl
    | some lines => simp [statementTexts, Text.strip, Text.trimStart]
  · rw [Mode.next_plain (isPlain_of_isWhitespace h), Option.bind_some,
      ← List.nil_append [c], cut_part]
    cases hcut : cut '\n' .top [] text with
    | none => rfl
    | some lines =>
      cases lines with
      | nil => exact absurd rfl (cut_ne_nil hcut)
      | cons line lines => simp [statementTexts, Text.strip_cons h]

/-- White space after a text changes no statement. -/
theorem statementTexts_cut_concat {c : Char} (h : Text.isWhitespace c = true) (m : Mode)
    (part text : List Char) :
    (cut '\n' m part (text ++ [c])).map statementTexts =
      (cut '\n' m part text).map statementTexts := by
  induction text generalizing m part with
  | nil =>
    have hplain := isPlain_of_isWhitespace h
    -- White space closes nothing: what is open stays open.
    have hstays : m ≠ .top → ∀ m', m.next c = some m' → m' ≠ .top := by
      intro hm m' hnext
      cases m with
      | code p b k =>
        rw [Mode.next_plain hplain] at hnext
        rwa [← Option.some.inj hnext]
      | literal p b k escaped =>
        have hquote : c ≠ '"' := by rintro rfl; cases h
        have hslash : c ≠ '\\' := by rintro rfl; cases h
        cases escaped with
        | true =>
          rw [← Option.some.inj hnext]
          exact fun hc => by cases hc
        | false =>
          rw [Mode.next, if_neg hslash, if_neg hquote] at hnext
          rw [← Option.some.inj hnext]
          exact fun hc => by cases hc
    rw [List.nil_append, cut_cons]
    by_cases hm : m = .top
    · subst hm
      split_ifs with hline
      · exact congrArg some ((statementTexts_append [part.reverse] [[]]).trans (List.append_nil _))
      · rw [Mode.next_plain hplain, Option.bind_some, cut_nil, cut_nil]
        simp [statementTexts, Text.strip_concat h]
    · rw [if_neg fun hc => hm hc.1, cut_end, if_neg hm]
      cases hnext : m.next c with
      | none => rfl
      | some m' => rw [Option.bind_some, cut_end, if_neg (hstays hm m' hnext)]
  | cons d text ih =>
    have hcons : ∀ x : Option (List (List Char)), ((part.reverse :: ·) <$> x).map statementTexts =
        (x.map statementTexts).map (statementTexts [part.reverse] ++ ·) := by
      intro x
      cases x with
      | none => rfl
      | some lines => exact congrArg some (statementTexts_cons _ _)
    rw [List.cons_append, cut_cons, cut_cons]
    split_ifs
    · rw [hcons, hcons, ih]
    · cases m.next d with
      | none => rfl
      | some m' => exact ih m' (d :: part)

/-- The statements of a text are those of the text without the white space at its ends. -/
theorem statementTexts_cut_strip (text : List Char) :
    (cut '\n' .top [] (Text.strip text)).map statementTexts =
      (cut '\n' .top [] text).map statementTexts := by
  have hfront : ∀ text : List Char, (cut '\n' .top [] (Text.trimStart text)).map statementTexts =
      (cut '\n' .top [] text).map statementTexts := by
    intro text
    induction text with
    | nil => rfl
    | cons c text ih =>
      by_cases hc : Text.isWhitespace c = true
      · rw [statementTexts_cut_cons hc, ← ih, Text.trimStart, List.dropWhile_cons_of_pos hc]
        rfl
      · rw [Text.trimStart, List.dropWhile_cons_of_neg hc]
  have hback : ∀ text : List Char,
      (cut '\n' .top [] (text.rdropWhile Text.isWhitespace)).map statementTexts =
        (cut '\n' .top [] text).map statementTexts := by
    intro text
    induction text using List.reverseRecOn with
    | nil => rfl
    | append_singleton text c ih =>
      by_cases hc : Text.isWhitespace c = true
      · rw [statementTexts_cut_concat hc, ← ih, List.rdropWhile_concat_pos _ _ _ hc]
      · rw [List.rdropWhile_concat_neg _ _ _ hc]
  rw [Text.strip, hback, hfront]

/-! ### Queries -/

/-- The line number of a statement is in the text of an error only. -/
theorem parseTraceqlSingleArgument_line (directive : String) (body : List Char) (m n : ℕ) :
    (parseTraceqlSingleArgument directive body m).toOption =
      (parseTraceqlSingleArgument directive body n).toOption := by
  unfold parseTraceqlSingleArgument
  dsimp only
  split_ifs <;> rfl

theorem setTraceqlOnce_line (target : Option String) (directive value : String) (m n : ℕ) :
    (setTraceqlOnce target directive value m).toOption =
      (setTraceqlOnce target directive value n).toOption := by
  unfold setTraceqlOnce
  split_ifs <;> rfl

theorem parseTraceqlWhere_line (body : List Char) (m n : ℕ) :
    (parseTraceqlWhere body m).toOption = (parseTraceqlWhere body n).toOption := by
  unfold parseTraceqlWhere
  split
  · rfl
  · dsimp only
    split_ifs <;> rfl

theorem parseTraceqlColumnValue_line (directive : String) (body : List Char) (m n : ℕ) :
    (parseTraceqlColumnValue directive body m).toOption =
      (parseTraceqlColumnValue directive body n).toOption := by
  unfold parseTraceqlColumnValue
  dsimp only
  split_ifs <;> rfl

variable {S : Type} (F : CompilerFormat S)

theorem parseTraceqlValue_line (raw : List Char) (m n : ℕ) :
    (parseTraceqlValue F raw m).toOption = (parseTraceqlValue F raw n).toOption := by
  unfold parseTraceqlValue
  dsimp only
  split_ifs
  · rfl
  · split
    · rfl
    · rfl
  · split
    · rfl
    · rfl

theorem parseTraceqlStringValue_line (raw : List Char) (m n : ℕ) :
    (parseTraceqlStringValue F raw m).toOption = (parseTraceqlStringValue F raw n).toOption := by
  rw [parseTraceqlStringValue, parseTraceqlStringValue, Except.toOption_bind, Except.toOption_bind,
    parseTraceqlValue_line F raw m n]
  refine congrArg _ ?_
  funext value
  cases value <;> rfl

theorem TraceqlDraft.applyDirective_line (draft : TraceqlDraft S) (directive : TraceqlDirective)
    (body : List Char) (m n : ℕ) :
    (draft.applyDirective F directive body m).toOption =
      (draft.applyDirective F directive body n).toOption := by
  cases directive with
  | fromTable =>
    simp only [applyDirective, Except.toOption_bind, Except.toOption_ok,
      parseTraceqlSingleArgument_line _ body m n, setTraceqlOnce_line _ _ _ m n]
  | tenant =>
    simp only [applyDirective, Except.toOption_bind, Except.toOption_ok,
      parseTraceqlSingleArgument_line _ body m n, setTraceqlOnce_line _ _ _ m n]
  | whereField =>
    rw [applyDirective, applyDirective, Except.toOption_bind, Except.toOption_bind,
      parseTraceqlWhere_line body m n]
    refine congrArg _ ?_
    funext parts
    obtain ⟨field, value⟩ := parts
    dsimp only
    split_ifs
    · rfl
    · rw [Except.toOption_bind, Except.toOption_bind, parseTraceqlValue_line F _ m n]
  | matchText =>
    simp only [applyDirective, Except.toOption_bind, Except.toOption_ok,
      parseTraceqlColumnValue_line _ body m n, setTraceqlOnce_line _ _ _ m n,
      parseTraceqlStringValue_line F _ m n]
  | near =>
    simp only [applyDirective, Except.toOption_bind, parseTraceqlColumnValue_line _ body m n,
      setTraceqlOnce_line _ _ _ m n]
    refine congrArg _ ?_
    funext parts
    refine congrArg _ ?_
    funext vectorField
    split <;> rfl
  | freshness =>
    rw [applyDirective, applyDirective]
    split_ifs
    · rfl
    · rw [Except.toOption_bind, Except.toOption_bind, parseTraceqlSingleArgument_line _ body m n]
      refine congrArg _ ?_
      funext value
      cases freshnessOfWord value.toList <;> rfl
  | limit =>
    rw [applyDirective, applyDirective]
    split_ifs
    · rfl
    · rw [Except.toOption_bind, Except.toOption_bind, parseTraceqlSingleArgument_line _ body m n]
      refine congrArg _ ?_
      funext value
      split <;> rfl
  | explain =>
    rw [applyDirective, applyDirective]
    split_ifs <;> rfl

/-- What a statement does to what is set so far, if it is accepted. -/
def TraceqlDraft.applyText (draft : TraceqlDraft S) (text : List Char) : Option (TraceqlDraft S) :=
  (draft.apply F ⟨0, text⟩).toOption

theorem TraceqlDraft.apply_toOption (draft : TraceqlDraft S) (statement : TraceqlStatement) :
    (draft.apply F statement).toOption = draft.applyText F statement.text := by
  obtain ⟨n, text⟩ := statement
  rw [applyText, apply, apply]
  dsimp only
  obtain ⟨word, body⟩ := splitTraceqlDirective text
  cases traceqlDirective word with
  | none => rfl
  | some directive => exact applyDirective_line F draft directive body n 0

/-- The query that statements make up, if they are accepted. -/
def queryOfTexts (texts : List (List Char)) : Option (HybridQuery S) :=
  (texts.foldlM (TraceqlDraft.applyText F) .empty).bind fun draft => draft.finish.toOption

/-- The line form depends on the texts of the statements only. -/
theorem traceqlLinesFromStr_toOption (input : List Char) :
    (traceqlLinesFromStr F input).toOption =
      (cut '\n' .top [] input).bind fun lines => queryOfTexts F (statementTexts lines) := by
  have htexts := splitTraceqlStatements_texts input
  have hfold : ∀ statements : List TraceqlStatement,
      (statements.foldlM (TraceqlDraft.apply F) .empty).toOption =
        (statements.map (·.text)).foldlM (TraceqlDraft.applyText F) .empty := by
    intro statements
    rw [Except.toOption_foldlM, List.foldlM_map]
    simp only [TraceqlDraft.apply_toOption]
  rw [traceqlLinesFromStr, Except.toOption_bind]
  cases hsplit : (splitTraceqlStatements input).toOption with
  | none =>
    rw [hsplit, Option.map_none, eq_comm, Option.map_eq_none_iff] at htexts
    rw [htexts]
    rfl
  | some statements =>
    rw [hsplit, Option.map_some, eq_comm, Option.map_eq_some_iff] at htexts
    obtain ⟨lines, hlines, heq⟩ := htexts
    rw [hlines, Option.bind_some, Option.bind_some, Except.toOption_bind, hfold, ← heq]
    rfl

/-- A text that is not in the SQL-ish form is read line by line. -/
theorem traceqlQueryFromStr_lines {input : String}
    (h : startsWithSqlishSelect (Text.strip input.toList) = false) :
    (traceqlQueryFromStr F input).toOption =
      (cut '\n' .top [] input.toList).bind fun lines => queryOfTexts F (statementTexts lines) := by
  have hstrip := statementTexts_cut_strip input.toList
  have hbind : ∀ x : Option (List (List Char)),
      (x.bind fun lines => queryOfTexts F (statementTexts lines)) =
      (x.map statementTexts).bind (queryOfTexts F) := by
    intro x
    cases x <;> rfl
  rw [traceqlQueryFromStr, if_neg (by rw [h]; exact Bool.false_ne_true),
    traceqlLinesFromStr_toOption, hbind, hbind, hstrip]

end TraceDB
