import TraceDB.Lang.Directives
import TraceDB.Lang.Graphql
import TraceDB.Lang.Reference
import TraceDB.Server.Decoding

/-!
# The endpoint of TraceQL

A request to `/v1/traceql` is first searched for a command, and its text is compiled only if it is
none.

* `traceql_endpoint_iff` : a text that compiles to a query is answered by the query if and only if
  it does not begin, in line form, with `EXPLAIN`, and no command ends inside one of its characters.
* `explain_first_refused` : a query that begins with `EXPLAIN` is taken for a command.
-/

namespace TraceDB

open Brackets Text

variable {S : Type}

/-- The routes with the compilers of `tracedb-query`. -/
def RouteFormat.withCompilers (X : RouteFormat S) (F : CompilerFormat S) : RouteFormat S :=
  { X with
    traceqlQueryFromStr :=
      fun text => (TraceDB.traceqlQueryFromStr F text).mapError TraceDbError.text
    graphqlQueryFromStr :=
      fun text => (TraceDB.graphqlQueryFromStr F text).mapError TraceDbError.text }

/-! ### Commands -/

/-- The first word of a command. -/
def commandWord (entry : String × TraceqlCommand) : List Char :=
  entry.1.toList.takeWhile fun c => !isWhitespace c

/-- The text of a command after its first word. -/
def commandRest (entry : String × TraceqlCommand) : List Char :=
  entry.1.toList.dropWhile fun c => !isWhitespace c

/-- The command that shares its word with a directive. -/
def explainCommand : String × TraceqlCommand := ("EXPLAIN", .explain)

theorem commandWord_spec : ∀ entry ∈ traceqlCommands, commandWord entry ≠ [] ∧
    (∀ c ∈ commandWord entry, isWhitespace c = false ∧ isPlain c = true ∧
      isPlain c.toLower = true) ∧
    (commandRest entry).head?.all isWhitespace = true := by
  decide

/-- No command but `EXPLAIN` begins with a word of a query. -/
theorem commandWord_foreign : ∀ entry ∈ traceqlCommands, entry = explainCommand ∨
    traceqlDirective (commandWord entry) = none ∧
      eqIgnoreAsciiCase (commandWord entry) "SELECT".toList = false ∧
      eqIgnoreAsciiCase (commandWord entry) "EXPLAIN".toList = false := by
  decide

theorem isWhitespace_of_isAsciiWhitespace {c : Char} (h : isAsciiWhitespace c = true) :
    isWhitespace c = true := by
  simp only [isAsciiWhitespace, Bool.or_eq_true, decide_eq_true_eq] at h
  rcases h with (((rfl | rfl) | rfl) | rfl) | rfl <;> decide

theorem isPlain_of_toLower {c : Char} (h : isPlain c.toLower = true) : isPlain c = true := by
  by_contra hc
  simp only [isPlain, List.contains_cons, List.contains_nil, Bool.or_false, Bool.not_eq_true,
    Bool.not_eq_false', Bool.or_eq_true, beq_iff_eq] at hc
  rcases hc with rfl | rfl | rfl | rfl | rfl | rfl | rfl | rfl | rfl <;> exact absurd h (by decide)

/-- A command begins with its first word. -/
theorem IsCommand.exists_word {trimmed : String} {entry : String × TraceqlCommand}
    (h : IsCommand trimmed entry) (hentry : entry ∈ traceqlCommands) :
    ∃ word after, trimmed.toList = word ++ after ∧
    eqIgnoreAsciiCase word (commandWord entry) = true ∧
      Ends after := by
  obtain ⟨-, -, hends⟩ := commandWord_spec entry hentry
  have hsplit : entry.1.toList = commandWord entry ++ commandRest entry :=
    List.takeWhile_append_dropWhile.symm
  rcases h with hwhole | ⟨before, after, htext, hbefore, hafter, -⟩
  · rw [hsplit] at hwhole
    obtain ⟨word, rest, htext, hword, hrest⟩ := exists_word_of_eqIgnoreAsciiCase hends hwhole
    exact ⟨word, rest, htext, hword, hrest⟩
  · rw [hsplit] at hbefore
    obtain ⟨word, rest, rfl, hword, hrest⟩ := exists_word_of_eqIgnoreAsciiCase hends hbefore
    refine ⟨word, rest ++ after, by rw [htext, List.append_assoc], hword, ?_⟩
    cases rest with
    | cons c rest => exact hrest
    | nil =>
      cases after with
      | nil => exact ends_nil
      | cons c after => exact ends_cons.2 (isWhitespace_of_isAsciiWhitespace
          (by simpa using hafter))

/-- `starts_with_sqlish_select_payload` is one half of `starts_with_sqlish_select`. -/
theorem startsWithSqlishSelectPayload_eq (input : List Char) :
    startsWithSqlishSelectPayload input = (stripSqlishKeywordPrefix input "SELECT").isSome := by
  rw [startsWithSqlishSelectPayload, stripSqlishKeywordPrefix, trimStart]
  cases splitBytes (input.dropWhile isWhitespace) "SELECT".utf8ByteSize with
  | none => rfl
  | some parts =>
    obtain ⟨before, after⟩ := parts
    dsimp only
    generalize eqIgnoreAsciiCase before "SELECT".toList = hword
    cases hword with
    | false => rfl
    | true => cases after.head?.all isWhitespace <;> rfl

/-- `split_traceql_command` finds no command if no text of a command stands in front, and none cuts
the text. -/
theorem splitTraceqlCommandAmong_eq_some_none_iff (trimmed : String)
    (commands : List (String × TraceqlCommand)) :
    splitTraceqlCommandAmong trimmed commands = some none ↔
      ∀ entry ∈ commands, ¬ CutsAt trimmed entry ∧ ¬ IsCommand trimmed entry := by
  induction commands with
  | nil => simp [splitTraceqlCommandAmong]
  | cons entry rest ih =>
    rw [List.forall_mem_cons]
    rcases splitTraceqlCommandAmong_cons trimmed entry rest with
      ⟨hcuts, -, hnone⟩ | ⟨hcuts, hcommand, command, hsome⟩ | ⟨hcuts, hcommand, hrest⟩
    · rw [hnone]
      exact ⟨fun h => absurd h (by simp), fun h => absurd hcuts h.1.1⟩
    · rw [hsome]
      exact ⟨fun h => absurd h (by simp), fun h => absurd hcommand h.1.2⟩
    · rw [hrest, ih]
      exact ⟨fun h => ⟨⟨hcuts, hcommand⟩, h⟩, fun h => h.2⟩

/-! ### Texts that compile -/

/-- A text begins with `EXPLAIN`, in any letter case, and goes on with ASCII white space. -/
def LeadsWithExplain (text : List Char) : Prop :=
  ∃ before after, text = before ++ after ∧ eqIgnoreAsciiCase before "EXPLAIN".toList = true ∧
    after.head?.all isAsciiWhitespace = true

variable (X : RouteFormat S) (F : CompilerFormat S)

/-- A text that compiles is no command but `EXPLAIN`. -/
theorem eq_explain_of_isCommand {text : String} {query : HybridQuery S}
    (hcompile : traceqlQueryFromStr F text = .ok query) {entry : String × TraceqlCommand}
    (hentry : entry ∈ traceqlCommands) (hcommand : IsCommand (trim text) entry) :
    entry = explainCommand := by
  obtain ⟨word, after, htext, hword, hends⟩ := hcommand.exists_word hentry
  obtain ⟨hne, hchars, -⟩ := commandWord_spec entry hentry
  have hisWord : IsWord word :=
    isWord_of_eqIgnoreAsciiCase ⟨hne, fun c hc => (hchars c hc).1⟩ hword
  have hstrip : strip text.toList = word ++ after := by
    rw [← toList_trim, htext]
  rcases commandWord_foreign entry hentry with heq | ⟨hdirective, hselect, hexplain⟩
  · exact heq
  exfalso
  rw [traceqlQueryFromStr, hstrip] at hcompile
  split_ifs at hcompile with hform
  · rw [startsWithSqlishSelect_iff, words_append hisWord hends] at hform
    rcases hform with hfirst | ⟨hfirst, -⟩
    · rw [eqIgnoreAsciiCase_congr hword, hselect] at hfirst
      cases hfirst
    · rw [eqIgnoreAsciiCase_congr hword, hexplain] at hfirst
      cases hfirst
  · have hplain : ∀ c ∈ word, isPlain c = true := by
      intro c hc
      have hmem : c.toLower ∈ (commandWord entry).map Char.toLower := by
        rw [← eqIgnoreAsciiCase_iff.1 hword]
        exact List.mem_map_of_mem hc
      obtain ⟨d, hd, hdc⟩ := List.mem_map.1 hmem
      refine isPlain_of_toLower ?_
      rw [← hdc]
      exact (hchars d hd).2.2
    rw [← traceqlDirective_congr hword] at hdirective
    exact directive_of_accepted F hisWord hplain hends hcompile hdirective

/-- When a text is the command `EXPLAIN`. -/
theorem isCommand_explain_iff (trimmed : String) :
    IsCommand trimmed explainCommand ↔
      startsWithSqlishSelect trimmed.toList = false ∧ LeadsWithExplain trimmed.toList := by
  have hsql : ∀ {before after : List Char}, eqIgnoreAsciiCase before "EXPLAIN".toList = true →
      Ends after →
      (startsWithSqlishSelect (before ++ after) = true ↔
        (stripSqlishKeywordPrefix after "SELECT").isSome = true) := by
    intro before after hbefore hends
    rw [startsWithSqlishSelect_iff,
      words_append (isWord_of_eqIgnoreAsciiCase isWord_explain hbefore) hends,
      stripSqlishKeywordPrefix_isSome_iff isWord_select]
    constructor
    · rintro (hselect | ⟨-, next, more, hwords, hnext⟩)
      · rw [eqIgnoreAsciiCase_congr hbefore] at hselect
        exact absurd hselect (by decide)
      · exact ⟨next, more, hwords, hnext⟩
    · rintro ⟨next, more, hwords, hnext⟩
      exact .inr ⟨hbefore, next, more, hwords, hnext⟩
  have hpayload : ∀ after : List Char,
      startsWithSqlishSelectPayload (trim (String.ofList after)).toList =
        (stripSqlishKeywordPrefix after "SELECT").isSome := by
    intro after
    rw [startsWithSqlishSelectPayload_eq, trim_ofList, String.toList_ofList, Bool.eq_iff_iff,
      stripSqlishKeywordPrefix_isSome_iff isWord_select,
      stripSqlishKeywordPrefix_isSome_iff isWord_select, words_strip]
  rw [IsCommand]
  generalize trimmed.toList = text
  constructor
  · rintro (hwhole | ⟨before, after, rfl, hbefore, hafter, hselect⟩)
    · have hnot := (hsql hwhole ends_nil).not
      rw [List.append_nil, Bool.not_eq_true] at hnot
      exact ⟨hnot.2 (by decide), text, [], (List.append_nil _).symm, hwhole, rfl⟩
    · cases after with
      | nil => cases hafter
      | cons c after =>
        have hc : isAsciiWhitespace c = true := by simpa using hafter
        have hends : Ends (c :: after) := ends_cons.2 (isWhitespace_of_isAsciiWhitespace hc)
        have hnot := (hsql hbefore hends).not
        rw [Bool.not_eq_true] at hnot
        rw [hpayload] at hselect
        exact ⟨hnot.2 fun h => hselect ⟨rfl, h⟩, before, _, rfl, hbefore, by simpa using hc⟩
  · rintro ⟨hform, before, after, rfl, hbefore, hafter⟩
    cases after with
    | nil =>
      rw [List.append_nil]
      exact .inl hbefore
    | cons c after =>
      have hc : isAsciiWhitespace c = true := by simpa using hafter
      refine .inr ⟨before, _, rfl, hbefore, by simpa using hc, ?_⟩
      rintro ⟨-, hselect⟩
      have hends : Ends (c :: after) := ends_cons.2 (isWhitespace_of_isAsciiWhitespace hc)
      rw [hpayload, ← hsql hbefore hends, hform] at hselect
      cases hselect

/-- A text that compiles to a query is answered by that query, and by no command, if and only if it
does not begin, in line form, with `EXPLAIN`, and the end of no command lies inside one of its
characters. -/
theorem traceql_endpoint_iff {q : Request} (hmethod : q.method = "POST")
    (hpath : q.path = "/v1/traceql") {text : String} (hbody : X.traceqlFromStr q.body = .ok text)
    {query : HybridQuery S} (hcompile : traceqlQueryFromStr F text = .ok query) :
    (splitTraceqlCommand text = some none ∧
        q.parse (X.withCompilers F) = .command (.query query)) ↔
      (∀ entry ∈ traceqlCommands, ¬ CutsAt (trim text) entry) ∧
        (startsWithSqlishSelect (strip text.toList) = true ∨
          ¬ LeadsWithExplain (strip text.toList)) := by
  have hparse : splitTraceqlCommand text = some none →
      q.parse (X.withCompilers F) = .command (.query query) := by
    intro hsplit
    have hroute : (X.withCompilers F).traceqlFromStr q.body = .ok text := hbody
    have hquery : (X.withCompilers F).traceqlQueryFromStr text = .ok query := by
      show (TraceDB.traceqlQueryFromStr F text).mapError TraceDbError.text = _
      rw [hcompile]
      rfl
    rw [Request.parse_traceql _ hmethod hpath, hroute]
    dsimp only
    rw [hsplit, hquery]
    rfl
  have hcommand : (∀ entry ∈ traceqlCommands, ¬ IsCommand (trim text) entry) ↔
      startsWithSqlishSelect (strip text.toList) = true ∨
      ¬ LeadsWithExplain (strip text.toList) := by
    have hexplain := isCommand_explain_iff (trim text)
    rw [toList_trim] at hexplain
    constructor
    · intro h
      by_contra hleads
      rw [not_or, not_not, Bool.not_eq_true] at hleads
      exact h explainCommand (by decide) (hexplain.2 hleads)
    · intro h entry hentry hcommand
      obtain rfl := eq_explain_of_isCommand F hcompile hentry hcommand
      obtain ⟨hform, hleads⟩ := hexplain.1 hcommand
      rcases h with hselect | hnot
      · rw [hform] at hselect
        cases hselect
      · exact hnot hleads
  rw [and_iff_left_of_imp hparse, splitTraceqlCommand, splitTraceqlCommandAmong_eq_some_none_iff,
    ← hcommand]
  constructor
  · exact fun h => ⟨fun entry hentry => (h entry hentry).1, fun entry hentry => (h entry hentry).2⟩
  · exact fun h entry hentry => ⟨h.1 entry hentry, h.2 entry hentry⟩

/-- A query of which `EXPLAIN` is the last line. -/
def explainLast : String := "FROM t\nTENANT x\nEXPLAIN"

/-- The same query with `EXPLAIN` first. -/
def explainFirst : String := "EXPLAIN\nFROM t\nTENANT x"

/-- What both compile to. -/
def explainedQuery : HybridQuery ℚ where
  table := "t"
  tenantId := "x"
  cursor := none
  textField := none
  text := none
  vectorField := none
  vector := none
  scalarEq := ∅
  graphSeed := none
  temporalAsOf := none
  topK := 10
  freshness := .strict
  explain := true

/-- The body of a request with a text. -/
def traceqlBody (text : String) : String := "\x7b\"query\":" ++ quote text ++ "\x7d"

/-- The reference format, which reads the bodies with the two texts. -/
def RouteFormat.explained : RouteFormat ℚ :=
  { RouteFormat.reference with
    traceqlFromStr := fun body =>
      if body = traceqlBody explainLast then .ok explainLast
      else if body = traceqlBody explainFirst then .ok explainFirst
      else .error expectedValue }

/-- A request with a text. -/
def traceqlRequest (text : String) : Request where
  method := "POST"
  path := "/v1/traceql"
  idempotencyKey := none
  actor := .tenantUser "x" "reader"
  body := traceqlBody text

theorem not_leadsWithExplain_explainLast : ¬ LeadsWithExplain (strip explainLast.toList) := by
  rintro ⟨before, after, htext, heq, -⟩
  rw [eqIgnoreAsciiCase_iff] at heq
  cases before with
  | nil => cases heq
  | cons c before =>
    obtain rfl : 'F' = c := (List.cons.inj htext).1
    exact absurd (List.cons.inj heq).1 (by decide)

theorem explain_last_answered :
    splitTraceqlCommand explainLast = some none ∧
      (traceqlRequest explainLast).parse
        (RouteFormat.explained.withCompilers CompilerFormat.reference) =
        .command (.query explainedQuery) := by
  refine (traceql_endpoint_iff RouteFormat.explained CompilerFormat.reference rfl rfl rfl rfl).2
    ⟨fun entry _ => ?_, .inr not_leadsWithExplain_explainLast⟩
  exact not_cutsCharacter (by decide) _

/-- The text that begins with `EXPLAIN` compiles, and is refused as a command whose payload is no
JSON. -/
theorem explain_first_refused :
    traceqlQueryFromStr CompilerFormat.reference explainFirst = .ok explainedQuery ∧
      splitTraceqlCommand explainFirst = some (some (.explain, "FROM t\nTENANT x")) ∧
      (traceqlRequest explainFirst).parse
        (RouteFormat.explained.withCompilers CompilerFormat.reference) =
        .refused expectedValue :=
  ⟨rfl, by decide +kernel, by rfl⟩

end TraceDB
