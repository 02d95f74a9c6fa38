import TraceDB.Lang.Components
import TraceDB.Lang.Directives
import TraceDB.Lang.Printer

/-!
# The round trip of TraceQL

A query without cursor, graph seed and time, written with one directive on each line, compiles to
itself (`traceql_round_trip`): whatever its values hold, and in whatever order the lines after the
first one stand.

The texts of the lines are statements of their own, since names have no quotes and brackets and the
texts of values close theirs (`cut_joinLines`).  Each line then sets what its clause says
(`applyText_clause`), and the clauses of a query set each component once.
-/

namespace TraceDB

open Brackets Text

variable {S : Type}

/-! ### The text of a query -/

/-- A line of the text of a query. -/
inductive TraceqlClause (S : Type) where
  | tenant (tenantId : String)
  | whereField (field : String) (value : Value)
  | matchText (column text : String)
  | near (column : String) (vector : List S)
  | freshness (mode : FreshnessMode)
  | limit (topK : ℕ)
  | explain

/-- The word for a freshness. -/
def freshnessWord : FreshnessMode → String
  | .strict => "STRICT"
  | .lazy => "LAZY"
  | .allowDirty => "ALLOW_DIRTY"

/-- The word of a directive. -/
def directiveWord : TraceqlDirective → List Char
  | .fromTable => "FROM".toList
  | .tenant => "TENANT".toList
  | .whereField => "WHERE".toList
  | .matchText => "MATCH".toList
  | .near => "NEAR".toList
  | .freshness => "FRESHNESS".toList
  | .limit => "LIMIT".toList
  | .explain => "EXPLAIN".toList

namespace TraceqlClause

/-- The directive of a clause. -/
def directive : TraceqlClause S → TraceqlDirective
  | .tenant _ => .tenant
  | .whereField _ _ => .whereField
  | .matchText _ _ => .matchText
  | .near _ _ => .near
  | .freshness _ => .freshness
  | .limit _ => .limit
  | .explain => .explain

/-- What follows the word of a clause. -/
def body (P : JsonPrinter S) : TraceqlClause S → List Char
  | .tenant tenantId => ' ' :: tenantId.toList
  | .whereField field value => ' ' :: (field.toList ++ (" = ".toList ++ value.compact P))
  | .matchText column text => ' ' :: (column.toList ++ ([' '] ++ quoted text))
  | .near column vector => ' ' :: (column.toList ++ ([' '] ++ compactVector P vector))
  | .freshness mode => ' ' :: (freshnessWord mode).toList
  | .limit topK => ' ' :: (toString topK).toList
  | .explain => []

/-- The text of a clause. -/
def text (P : JsonPrinter S) (clause : TraceqlClause S) : List Char :=
  directiveWord clause.directive ++ clause.body P

end TraceqlClause

/-- The clauses of a query, after its table. -/
def HybridQuery.clauses (query : HybridQuery S) : List (TraceqlClause S) :=
  .tenant query.tenantId ::
    (query.scalarEq.toList.map (fun entry => .whereField entry.1 entry.2) ++
      ((query.textField.toList.zip query.text.toList).map (fun pair => .matchText pair.1 pair.2) ++
        ((query.vectorField.toList.zip query.vector.toList).map (fun pair => .near pair.1 pair.2) ++
          (.freshness query.freshness :: .limit query.topK :: if query.explain
            then [.explain] else []))))

/-- Lines with line ends between them. -/
def joinLines (lines : List (List Char)) : List Char := List.intercalate ['\n'] lines

/-- The text of a query with its clauses in some order. -/
def traceqlText (P : JsonPrinter S) (table : String) (clauses : List (TraceqlClause S)) : String :=
  String.ofList (joinLines
    ((directiveWord .fromTable ++ ' ' :: table.toList) :: clauses.map (TraceqlClause.text P)))

/-- A name without white space, quotes, brackets and equals signs. -/
def IsTraceqlName (name : String) : Prop :=
  name.toList ≠ [] ∧ ∀ c ∈ name.toList,
    isWhitespace c = false ∧ c ∉ ['"', '(', ')', '[', ']', '\x7b', '\x7d', '=']

/-- The queries that TraceQL can write. -/
structure TraceqlFragment (query : HybridQuery S) : Prop where
  table : IsTraceqlName query.table
  tenantId : IsTraceqlName query.tenantId
  field : ∀ entry ∈ query.scalarEq.toList, IsTraceqlName entry.1
  textField : ∀ column, query.textField = some column → IsTraceqlName column
  vectorField : ∀ column, query.vectorField = some column → IsTraceqlName column
  text : query.text.isSome = query.textField.isSome
  vector : query.vector.isSome = query.vectorField.isSome
  vector_ne_nil : query.vector ≠ some []
  cursor : query.cursor = none
  graphSeed : query.graphSeed = none
  temporalAsOf : query.temporalAsOf = none
  topK_pos : 0 < query.topK
  /-- The limit is a `usize`. -/
  topK_le : query.topK ≤ usizeMax

/-- `serde_json` reads back the values, the text and the vector of a query from what it writes. -/
structure TraceqlLossless (F : CompilerFormat S) (P : JsonPrinter S) (query : HybridQuery S) :
    Prop where
  value : ∀ entry ∈ query.scalarEq.toList,
    F.valueFromStr (String.ofList (entry.2.compact P)) = .ok entry.2
  text : ∀ text, query.text = some text →
    F.valueFromStr (String.ofList (quoted text)) = .ok (.string text)
  vector : ∀ vector, query.vector = some vector →
    F.vectorFromStr (String.ofList (compactVector P vector)) = .ok vector

/-! ### Lines -/

/-- A text leaves open what is open, outside of strings. -/
def Balanced (text : List Char) : Prop := ∀ p b k, (Mode.code p b k).run text = some (.code p b k)

theorem Balanced.append {a b : List Char} (ha : Balanced a) (hb : Balanced b) :
    Balanced (a ++ b) := by
  intro p b' k
  rw [Mode.run_append, ha, Option.bind_some, hb]

theorem Balanced.of_nested {text : List Char} (h : Nested text) : Balanced text := Mode.run_nested h

/-- A text without quotes and brackets is balanced. -/
theorem Balanced.of_forall {text : List Char}
    (h : ∀ c ∈ text, c ∉ ['"', '(', ')', '[', ']', '\x7b', '\x7d', '=']) : Balanced text := by
  intro p b k
  induction text with
  | nil => rfl
  | cons c text ih =>
    rw [List.forall_mem_cons] at h
    simp only [List.mem_cons, List.not_mem_nil, or_false, not_or] at h
    obtain ⟨⟨h1, h2, h3, h4, h5, h6, h7, -⟩, hrest⟩ := h
    rw [Mode.run, Mode.next, if_neg h1, if_neg h2, if_neg h3, if_neg h6, if_neg h7,
      if_neg h4, if_neg h5]
    exact ih (by simpa using hrest)

/-- A line that can stand by itself. -/
structure IsLine (text : List Char) : Prop where
  line : '\n' ∉ text
  balanced : Balanced text

theorem IsLine.append {a b : List Char} (ha : IsLine a) (hb : IsLine b) : IsLine (a ++ b) where
  line := by simpa using ⟨ha.line, hb.line⟩
  balanced := ha.balanced.append hb.balanced

theorem JsonText.isLine {text : List Char} (h : JsonText text) : IsLine text where
  line := h.line
  balanced := .of_nested h.nested

theorem IsTraceqlName.isLine {name : String} (h : IsTraceqlName name) : IsLine name.toList where
  line := fun hmem => by
    have hline := (h.2 _ hmem).1
    revert hline
    decide
  balanced := .of_forall fun c hc => (h.2 c hc).2

theorem IsTraceqlName.isWord {name : String} (h : IsTraceqlName name) : IsWord name.toList :=
  ⟨h.1, fun c hc => (h.2 c hc).1⟩

/-- Plain text without line ends is a line. -/
theorem isLine_of_plain {text : List Char} (h : ∀ c ∈ text, isPlain c = true ∧ c ≠ '\n') :
    IsLine text where
  line := fun hmem => (h _ hmem).2 rfl
  balanced := .of_nested (.of_plain fun c hc => (h c hc).1)

/-- Lines are cut where they are joined. -/
theorem cut_joinLines {lines : List (List Char)} (hne : lines ≠ [])
    (h : ∀ line ∈ lines, IsLine line) :
    cut '\n' .top [] (joinLines lines) = some lines := by
  induction lines with
  | nil => exact absurd rfl hne
  | cons line lines ih =>
    rw [List.forall_mem_cons] at h
    have hline : ∀ rest, cut '\n' .top [] (line ++ rest) = cut '\n' .top line.reverse rest := by
      intro rest
      rw [cut_run h.1.line, h.1.balanced, Option.bind_some, List.append_nil]
    cases lines with
    | nil =>
      have hjoin : joinLines [line] = line ++ [] := by simp [joinLines]
      rw [hjoin, hline, cut_nil, List.reverse_reverse]
    | cons next lines =>
      have hjoin : joinLines (line :: next :: lines) =
          line ++ '\n' :: joinLines (next :: lines) := by
        simp [joinLines, List.intercalate]
      rw [hjoin, hline, cut_separator, ih (List.cons_ne_nil _ _) h.2, List.reverse_reverse]
      rfl

/-! ### Clauses -/

namespace TraceqlClause

/-- The component that a clause sets; a text and a vector stand for their fields too. -/
def component : TraceqlClause S → QueryComponent
  | .tenant _ => .tenant
  | .whereField field _ => .scalar field
  | .matchText _ _ => .text
  | .near _ _ => .vector
  | .freshness _ => .freshness
  | .limit _ => .limit
  | .explain => .explain

@[simp] def tenantId? : TraceqlClause S → Option String
  | .tenant tenantId => some tenantId
  | _ => none

@[simp] def entry? : TraceqlClause S → Option (String × Value)
  | .whereField field value => some (field, value)
  | _ => none

@[simp] def match? : TraceqlClause S → Option (String × String)
  | .matchText column text => some (column, text)
  | _ => none

@[simp] def near? : TraceqlClause S → Option (String × List S)
  | .near column vector => some (column, vector)
  | _ => none

@[simp] def freshness? : TraceqlClause S → Option FreshnessMode
  | .freshness mode => some mode
  | _ => none

@[simp] def limit? : TraceqlClause S → Option ℕ
  | .limit topK => some topK
  | _ => none

@[simp] def explain? : TraceqlClause S → Option Unit
  | .explain => some ()
  | _ => none

/-- A clause that can be written: its names are names, and its values are read back. -/
def Writable (F : CompilerFormat S) (P : JsonPrinter S) : TraceqlClause S → Prop
  | .tenant tenantId => IsTraceqlName tenantId
  | .whereField field value =>
    IsTraceqlName field ∧ F.valueFromStr (String.ofList (value.compact P)) = .ok value
  | .matchText column text =>
    IsTraceqlName column ∧ F.valueFromStr (String.ofList (quoted text)) = .ok (.string text)
  | .near column vector =>
    IsTraceqlName column ∧ vector ≠ [] ∧
      F.vectorFromStr (String.ofList (compactVector P vector)) = .ok vector
  | .freshness _ => True
  | .limit topK => 0 < topK ∧ topK ≤ usizeMax
  | .explain => True

end TraceqlClause

/-- What a table and clauses set. -/
def draftOf (table : String) (clauses : List (TraceqlClause S)) : TraceqlDraft S where
  table := some table
  tenantId := clauses.findSome? TraceqlClause.tenantId?
  textField := (clauses.findSome? TraceqlClause.match?).map Prod.fst
  text := (clauses.findSome? TraceqlClause.match?).map Prod.snd
  vectorField := (clauses.findSome? TraceqlClause.near?).map Prod.fst
  vector := (clauses.findSome? TraceqlClause.near?).map Prod.snd
  scalarEq := SortedMap.ofEntries (clauses.filterMap TraceqlClause.entry?)
  seenScalarEq := ((clauses.filterMap TraceqlClause.entry?).map Prod.fst).reverse
  topK := (clauses.findSome? TraceqlClause.limit?).getD 10
  topKSeen := (clauses.findSome? TraceqlClause.limit?).isSome
  freshness := (clauses.findSome? TraceqlClause.freshness?).getD .strict
  freshnessSeen := (clauses.findSome? TraceqlClause.freshness?).isSome
  explain := (clauses.findSome? TraceqlClause.explain?).isSome
  explainSeen := (clauses.findSome? TraceqlClause.explain?).isSome

section

variable {P : JsonPrinter S}

theorem freshnessWord_spec (mode : FreshnessMode) :
    IsWord (freshnessWord mode).toList ∧ (∀ c ∈ (freshnessWord mode).toList, isPlain c = true) ∧
      freshnessOfWord (freshnessWord mode).toList = some mode := by
  cases mode with
  | strict => exact ⟨⟨by decide, by decide⟩, by decide, rfl⟩
  | lazy => exact ⟨⟨by decide, by decide⟩, by decide, rfl⟩
  | allowDirty => exact ⟨⟨by decide, by decide⟩, by decide, rfl⟩

theorem isLine_toString (n : ℕ) : IsLine (toString n).toList := by
  have hdigit : ∀ c ∈ (toString n).toList, c.isDigit = true := fun _ => isDigit_of_mem_toString
  refine isLine_of_plain fun c hc => ⟨?_, ?_⟩
  · exact isPlain_of_isAlphanum (by rw [Char.isAlphanum, hdigit c hc, Bool.or_true])
  · rintro rfl
    exact absurd (hdigit _ hc) (by decide)

/-- The parts of a clause: its word, and what follows it. -/
structure IsClause (word body : List Char) : Prop where
  isWord : IsWord word
  plain : ∀ c ∈ word, isPlain c = true
  ends : Ends body
  bodyLine : IsLine body
  visible : Visible (word ++ body)

theorem isLine_space : IsLine [' '] := isLine_of_plain (by decide)

theorem directiveWord_spec (directive : TraceqlDirective) :
    IsWord (directiveWord directive) ∧ (∀ c ∈ directiveWord directive, isPlain c = true) ∧
      traceqlDirective (directiveWord directive) = some directive := by
  cases directive <;> exact ⟨⟨by decide, by decide⟩, by decide, by decide⟩

theorem isClause_directive (directive : TraceqlDirective) {rest : List Char} (hrest : IsLine rest)
    (hvisible : Visible rest) : IsClause (directiveWord directive) (' ' :: rest) where
  isWord := (directiveWord_spec directive).1
  plain := (directiveWord_spec directive).2.1
  ends := ends_cons.2 (by decide)
  bodyLine := isLine_space.append hrest
  visible := (directiveWord_spec directive).1.visible.around hvisible [' ']

theorem TraceqlClause.isClause {F : CompilerFormat S} {clause : TraceqlClause S}
    (h : clause.Writable F P) : IsClause (directiveWord clause.directive) (clause.body P) := by
  cases clause with
  | tenant tenantId => exact isClause_directive .tenant h.isLine h.isWord.visible
  | whereField field value =>
    have hvalue := value.compact_text P
    exact isClause_directive .whereField
      (h.1.isLine.append ((isLine_of_plain (by decide)).append hvalue.isLine))
      (h.1.isWord.visible.around hvalue.edged.visible _)
  | matchText column text =>
    have htext := quoted_text text
    exact isClause_directive .matchText (h.1.isLine.append (isLine_space.append htext.isLine))
      (h.1.isWord.visible.around htext.edged.visible _)
  | near column vector =>
    have hvector := compactVector_text P vector
    exact isClause_directive .near (h.1.isLine.append (isLine_space.append hvector.isLine))
      (h.1.isWord.visible.around hvector.edged.visible _)
  | freshness mode =>
    obtain ⟨hword, hplain, -⟩ := freshnessWord_spec mode
    refine isClause_directive .freshness
      (isLine_of_plain fun c hc => ⟨hplain c hc, ?_⟩) hword.visible
    rintro rfl
    exact absurd (hword.2 _ hc) (by decide)
  | limit topK =>
    exact isClause_directive .limit (isLine_toString topK) (isWord_toString topK).visible
  | explain =>
    obtain ⟨hword, hplain, -⟩ := directiveWord_spec .explain
    refine ⟨hword, hplain, ends_nil, isLine_of_plain (by simp [TraceqlClause.body]), ?_⟩
    exact (List.append_nil (directiveWord .explain)).symm ▸ hword.visible

theorem IsClause.isLine {word body : List Char} (h : IsClause word body) :
    IsLine (word ++ body) := by
  refine IsLine.append (isLine_of_plain fun c hc => ⟨h.plain c hc, ?_⟩) h.bodyLine
  rintro rfl
  exact absurd (h.isWord.2 _ hc) (by decide)

/-- A clause is a statement by itself. -/
theorem IsClause.statementTexts {word body : List Char} (h : IsClause word body) :
    statementTexts [word ++ body] = [word ++ body] := by
  rw [TraceDB.statementTexts, List.map_singleton, h.visible.strip]
  obtain ⟨c, rest, hword⟩ := List.exists_cons_of_ne_nil h.isWord.1
  have hplain := h.plain c (by rw [hword]; exact List.mem_cons_self)
  have hsign : c ≠ '#' := by
    rintro rfl
    exact absurd hplain (by decide)
  simp [hword, hsign]

/-! ### What a clause sets -/

variable {F : CompilerFormat S}

theorem applyText_append {word body : List Char} (h : IsClause word body)
    {directive : TraceqlDirective} (hdirective : traceqlDirective word = some directive)
    (draft : TraceqlDraft S) :
    draft.applyText F (word ++ body) =
      (draft.applyDirective F directive (strip body) 0).toOption := by
  rw [TraceqlDraft.applyText, TraceqlDraft.apply]
  dsimp only
  rw [splitTraceqlDirective_append h.isWord h.ends, hdirective]

theorem parseTraceqlSingleArgument_word {value : String} (h : IsWord value.toList)
    (directive : String) (n : ℕ) :
      parseTraceqlSingleArgument directive value.toList n = .ok value := by
  rw [parseTraceqlSingleArgument, h.visible.strip, if_neg h.1,
    if_neg (not_not.2 (wordCount_of_isWord h)), String.ofList_toList]

theorem setTraceqlOnce_free (directive value : String) (n : ℕ) :
    setTraceqlOnce none directive value n = .ok (some value) := rfl

/-- A column, a blank and a value. -/
theorem parseTraceqlColumnValue_append {column : String} (h : IsWord column.toList)
    {value : List Char} (hvalue : Visible value) (directive : String) (n : ℕ) :
    parseTraceqlColumnValue directive (column.toList ++ ([' '] ++ value)) n =
      .ok (column, value) := by
  have htake : ∀ c ∈ column.toList, (!isWhitespace c) = true := fun c hc => by rw [h.2 c hc]; rfl
  rw [parseTraceqlColumnValue, (h.visible.around hvalue [' ']).strip,
    List.takeWhile_append_of_pos htake, List.dropWhile_append_of_pos htake]
  show (if ' ' :: value = [] ∨ strip (column.toList ++ []) = [] ∨ strip (' ' :: value) = [] then _
    else Except.ok (String.ofList (strip (column.toList ++ [])), strip (' ' :: value))) = _
  rw [List.append_nil, h.visible.strip, strip_cons (by decide), hvalue.strip, if_neg,
    String.ofList_toList]
  rintro (hc | hc | hc)
  · cases hc
  · exact h.1 hc
  · exact hvalue.ne_nil hc

/-- A field, an equals sign and a value. -/
theorem parseTraceqlWhere_append {field : String} (h : IsTraceqlName field) {value : List Char}
    (hvalue : Visible value) (n : ℕ) :
    parseTraceqlWhere (field.toList ++ (" = ".toList ++ value)) n = .ok (field, value) := by
  have htake : ∀ c ∈ field.toList, decide (c ≠ '=') = true := by
    intro c hc
    have hnot := (h.2 c hc).2
    rw [decide_eq_true_eq]
    rintro rfl
    exact hnot (by decide)
  have hsplit : (field.toList ++ (" = ".toList ++ value)).dropWhile (fun c => decide (c ≠ '=')) =
      '=' :: ' ' :: value := by
    rw [List.dropWhile_append_of_pos htake]
    rfl
  have hfront : (field.toList ++ (" = ".toList ++ value)).takeWhile (fun c => decide (c ≠ '=')) =
      field.toList ++ [' '] := by
    rw [List.takeWhile_append_of_pos htake]
    rfl
  rw [parseTraceqlWhere, hsplit, hfront]
  dsimp only
  rw [strip_concat (by decide), h.isWord.visible.strip, strip_cons (by decide),
    hvalue.strip, if_neg, if_neg hvalue.ne_nil, String.ofList_toList]
  rintro (hc | hc)
  · exact h.1 hc
  · exact hc (wordCount_of_isWord h.isWord)

theorem findSome?_component {β : Type} {f : TraceqlClause S → Option β} {c : QueryComponent}
    (hf : ∀ clause b, f clause = some b → clause.component = c) {clauses : List (TraceqlClause S)}
    (h : c ∉ clauses.map TraceqlClause.component) : clauses.findSome? f = none := by
  rw [List.findSome?_eq_none_iff]
  intro clause hclause
  by_contra hsome
  obtain ⟨b, hb⟩ := Option.ne_none_iff_exists'.1 hsome
  exact h (List.mem_map.2 ⟨clause, hclause, hf clause b hb⟩)

/-- What one more clause sets. -/
theorem draftOf_concat (table : String) (clauses : List (TraceqlClause S))
    (clause : TraceqlClause S) :
    draftOf table (clauses ++ [clause]) = {
      table := some table
      tenantId := (clauses.findSome? TraceqlClause.tenantId?).or clause.tenantId?
      textField := ((clauses.findSome? TraceqlClause.match?).or clause.match?).map Prod.fst
      text := ((clauses.findSome? TraceqlClause.match?).or clause.match?).map Prod.snd
      vectorField := ((clauses.findSome? TraceqlClause.near?).or clause.near?).map Prod.fst
      vector := ((clauses.findSome? TraceqlClause.near?).or clause.near?).map Prod.snd
      scalarEq := SortedMap.ofEntries
        (clauses.filterMap TraceqlClause.entry? ++ clause.entry?.toList)
      seenScalarEq :=
        ((clauses.filterMap TraceqlClause.entry? ++ clause.entry?.toList).map Prod.fst).reverse
      topK := ((clauses.findSome? TraceqlClause.limit?).or clause.limit?).getD 10
      topKSeen := ((clauses.findSome? TraceqlClause.limit?).or clause.limit?).isSome
      freshness := ((clauses.findSome? TraceqlClause.freshness?).or clause.freshness?).getD .strict
      freshnessSeen := ((clauses.findSome? TraceqlClause.freshness?).or clause.freshness?).isSome
      explain := ((clauses.findSome? TraceqlClause.explain?).or clause.explain?).isSome
      explainSeen := ((clauses.findSome? TraceqlClause.explain?).or clause.explain?).isSome } := by
  have hsingle : ∀ {β : Type} (f : TraceqlClause S → Option β),
      [clause].findSome? f = f clause := by
    intro β f
    rw [List.findSome?_cons]
    cases f clause <;> rfl
  have hentry : [clause].filterMap TraceqlClause.entry? = clause.entry?.toList := by
    cases clause <;> rfl
  simp only [draftOf, List.findSome?_append, hsingle, List.filterMap_append, hentry]

/-- A clause sets what it says, if its component is not set. -/
theorem applyText_clause {clause : TraceqlClause S} (h : clause.Writable F P) (table : String)
    {clauses : List (TraceqlClause S)}
    (hfree : clause.component ∉ clauses.map TraceqlClause.component) :
    (draftOf table clauses).applyText F (clause.text P) =
      some (draftOf table (clauses ++ [clause])) := by
  rw [TraceqlClause.text, applyText_append (TraceqlClause.isClause h) (directiveWord_spec _).2.2,
    draftOf_concat]
  cases clause with
  | tenant tenantId =>
    have hnone : clauses.findSome? TraceqlClause.tenantId? = none :=
      findSome?_component (by rintro (_ | _) b hb <;> first | rfl | cases hb) hfree
    have hdraft : (draftOf table clauses).tenantId = none := hnone
    show ((draftOf table clauses).applyDirective F .tenant
      (strip (' ' :: tenantId.toList)) 0).toOption = _
    rw [strip_cons (by decide), h.isWord.visible.strip, TraceqlDraft.applyDirective,
      parseTraceqlSingleArgument_word h.isWord, Except.ok_bind, hdraft, setTraceqlOnce_free,
      Except.ok_bind]
    simp [draftOf, hnone]
  | whereField field value =>
    have hvalue := (value.compact_text P).edged.visible
    have hnot : field ∉ (draftOf table clauses).seenScalarEq := by
      rw [draftOf, List.mem_reverse]
      intro hmem
      obtain ⟨entry, hentry, rfl⟩ := List.mem_map.1 hmem
      obtain ⟨clause, hclause, hsome⟩ := List.mem_filterMap.1 hentry
      refine hfree (List.mem_map.2 ⟨clause, hclause, ?_⟩)
      cases clause <;> cases hsome
      rfl
    show ((draftOf table clauses).applyDirective F .whereField
      (strip (' ' :: (field.toList ++ (" = ".toList ++ value.compact P)))) 0).toOption = _
    rw [strip_cons (by decide), (h.1.isWord.visible.around hvalue _).strip,
      TraceqlDraft.applyDirective, parseTraceqlWhere_append h.1 hvalue, Except.ok_bind]
    dsimp only
    rw [if_neg hnot, parseTraceqlValue_visible hvalue h.2, Except.ok_bind]
    simp [draftOf, SortedMap.ofEntries_concat]
  | matchText column text =>
    have htext := (quoted_text text).edged.visible
    have hnone : clauses.findSome? TraceqlClause.match? = none :=
      findSome?_component (by rintro (_ | _) b hb <;> first | rfl | cases hb) hfree
    have hdraft : (draftOf table clauses).textField = none := by simp [draftOf, hnone]
    show ((draftOf table clauses).applyDirective F .matchText
      (strip (' ' :: (column.toList ++ ([' '] ++ quoted text)))) 0).toOption = _
    rw [strip_cons (by decide), (h.1.isWord.visible.around htext _).strip,
      TraceqlDraft.applyDirective, parseTraceqlColumnValue_append h.1.isWord htext,
      Except.ok_bind, hdraft]
    dsimp only
    rw [setTraceqlOnce_free, Except.ok_bind, parseTraceqlStringValue,
      parseTraceqlValue_visible htext h.2]
    simp [draftOf, hnone]
  | near column vector =>
    have hvector := (compactVector_text P vector).edged.visible
    have hnone : clauses.findSome? TraceqlClause.near? = none :=
      findSome?_component (by rintro (_ | _) b hb <;> first | rfl | cases hb) hfree
    have hdraft : (draftOf table clauses).vectorField = none := by simp [draftOf, hnone]
    obtain ⟨x, vector, rfl⟩ := List.exists_cons_of_ne_nil h.2.1
    show ((draftOf table clauses).applyDirective F .near
      (strip (' ' :: (column.toList ++ ([' '] ++ compactVector P (x :: vector))))) 0).toOption = _
    rw [strip_cons (by decide), (h.1.isWord.visible.around hvector _).strip,
      TraceqlDraft.applyDirective, parseTraceqlColumnValue_append h.1.isWord hvector,
      Except.ok_bind, hdraft]
    dsimp only
    rw [setTraceqlOnce_free, Except.ok_bind, hvector.strip, h.2.2]
    simp [draftOf, hnone]
  | freshness mode =>
    obtain ⟨hword, -, hmode⟩ := freshnessWord_spec mode
    have hnone : clauses.findSome? TraceqlClause.freshness? = none :=
      findSome?_component (by rintro (_ | _) b hb <;> first | rfl | cases hb) hfree
    have hdraft : (draftOf table clauses).freshnessSeen = false := by simp [draftOf, hnone]
    show ((draftOf table clauses).applyDirective F .freshness
      (strip (' ' :: (freshnessWord mode).toList)) 0).toOption = _
    rw [strip_cons (by decide), hword.visible.strip, TraceqlDraft.applyDirective, hdraft,
      if_neg Bool.false_ne_true, parseTraceqlSingleArgument_word hword, Except.ok_bind, hmode]
    simp [draftOf, hnone]
  | limit topK =>
    have hword := isWord_toString topK
    have hnone : clauses.findSome? TraceqlClause.limit? = none :=
      findSome?_component (by rintro (_ | _) b hb <;> first | rfl | cases hb) hfree
    have hdraft : (draftOf table clauses).topKSeen = false := by simp [draftOf, hnone]
    obtain ⟨n, rfl⟩ := Nat.exists_eq_succ_of_ne_zero (Nat.pos_iff_ne_zero.1 h.1)
    show ((draftOf table clauses).applyDirective F .limit
      (strip (' ' :: (toString (n + 1)).toList)) 0).toOption = _
    rw [strip_cons (by decide), hword.visible.strip, TraceqlDraft.applyDirective, hdraft,
      if_neg Bool.false_ne_true, parseTraceqlSingleArgument_word hword, Except.ok_bind,
      parseUsize_toString h.2]
    simp [draftOf, hnone]
  | explain =>
    have hnone : clauses.findSome? TraceqlClause.explain? = none :=
      findSome?_component (by rintro (_ | _) b hb <;> first | rfl | cases hb) hfree
    have hdraft : (draftOf table clauses).explainSeen = false := by simp [draftOf, hnone]
    show ((draftOf table clauses).applyDirective F .explain (strip []) 0).toOption = _
    rw [TraceqlDraft.applyDirective, hdraft, if_neg Bool.false_ne_true, if_neg (by decide)]
    simp [draftOf, hnone]

theorem foldlM_clauses (table : String) {order before : List (TraceqlClause S)}
    (h : ∀ clause ∈ order, clause.Writable F P)
    (hnodup : ((before ++ order).map TraceqlClause.component).Nodup) :
    (order.map (TraceqlClause.text P)).foldlM (TraceqlDraft.applyText F) (draftOf table before) =
      some (draftOf table (before ++ order)) := by
  induction order generalizing before with
  | nil => rw [List.append_nil]; rfl
  | cons clause order ih =>
    rw [List.forall_mem_cons] at h
    have hfree : clause.component ∉ before.map TraceqlClause.component := by
      rw [List.map_append, List.nodup_append] at hnodup
      exact fun hmem => hnodup.2.2 _ hmem _ List.mem_cons_self rfl
    have hassoc : before ++ clause :: order = before ++ [clause] ++ order := by simp
    rw [List.map_cons, List.foldlM_cons, applyText_clause h.1 table hfree, hassoc]
    exact ih h.2 (hassoc ▸ hnodup)

/-- The line of the table. -/
theorem applyText_table {table : String} (h : IsTraceqlName table) :
    TraceqlDraft.empty.applyText F (directiveWord .fromTable ++ ' ' :: table.toList) =
      some (draftOf table []) := by
  rw [applyText_append (isClause_directive .fromTable h.isLine h.isWord.visible)
    (directiveWord_spec _).2.2, strip_cons (by decide), h.isWord.visible.strip,
    TraceqlDraft.applyDirective, parseTraceqlSingleArgument_word h.isWord, Except.ok_bind]
  rfl

/-! ### The clauses of a query -/

variable {query : HybridQuery S}

theorem TraceqlFragment.writable (h : TraceqlFragment query)
    (hlossless : TraceqlLossless F P query) :
    ∀ clause ∈ query.clauses, clause.Writable F P := by
  intro clause hclause
  simp only [HybridQuery.clauses, List.mem_cons, List.mem_append, List.mem_map] at hclause
  rcases hclause with rfl | ⟨entry, hentry, rfl⟩ | ⟨pair, hpair, rfl⟩ |
    ⟨pair, hpair, rfl⟩ | rfl | rfl |
    hexplain
  · exact h.tenantId
  · exact ⟨h.field entry hentry, hlossless.value entry hentry⟩
  · obtain ⟨hcolumn, htext⟩ := List.of_mem_zip hpair
    exact ⟨h.textField _ (Option.mem_toList.1 hcolumn),
      hlossless.text _ (Option.mem_toList.1 htext)⟩
  · obtain ⟨hcolumn, hvector⟩ := List.of_mem_zip hpair
    have hsome := Option.mem_toList.1 hvector
    refine ⟨h.vectorField _ (Option.mem_toList.1 hcolumn), ?_, hlossless.vector _ hsome⟩
    rintro hnil
    exact h.vector_ne_nil (hnil ▸ hsome)
  · exact trivial
  · exact ⟨h.topK_pos, h.topK_le⟩
  · cases hvalue : query.explain with
    | true =>
      rw [hvalue, if_pos rfl, List.mem_singleton] at hexplain
      rw [hexplain]
      exact trivial
    | false => simp [hvalue] at hexplain

/-- The clauses of a query set each component once. -/
theorem HybridQuery.clauses_nodup (query : HybridQuery S) :
    (query.clauses.map TraceqlClause.component).Nodup := by
  have hfields : ((query.scalarEq.toList.map fun entry =>
      (TraceqlClause.whereField entry.1 entry.2 : TraceqlClause S)).map
        TraceqlClause.component).Nodup := by
    rw [List.map_map, List.nodup_iff_pairwise_ne, List.pairwise_map]
    refine Std.ExtTreeMap.distinct_keys_toList.imp fun hne heq => hne ?_
    have hkey : QueryComponent.scalar _ = QueryComponent.scalar _ := heq
    rw [QueryComponent.scalar.inj hkey]
    exact Std.ReflCmp.compare_self
  -- What follows the fields sets other components, each once.
  have hrest : ∀ (columns texts fields : Option String) (vectors : Option (List S))
      (explain : Bool),
      let clauses : List (TraceqlClause S) :=
        (columns.toList.zip texts.toList).map (fun pair => .matchText pair.1 pair.2) ++
          ((fields.toList.zip vectors.toList).map (fun pair => .near pair.1 pair.2) ++
            (.freshness query.freshness :: .limit query.topK :: if explain then [.explain] else []))
      let components := clauses.map TraceqlClause.component
      components.Nodup ∧ ∀ c ∈ components, c ≠ .tenant ∧ ∀ field, c ≠ .scalar field := by
    intro columns texts fields vectors explain
    cases columns <;> cases texts <;> cases fields <;> cases vectors <;> cases explain <;>
      simp [TraceqlClause.component]
  obtain ⟨hnodup, hother⟩ :=
    hrest query.textField query.text query.vectorField query.vector query.explain
  rw [HybridQuery.clauses, List.map_cons, List.map_append, List.nodup_cons, List.nodup_append]
  refine ⟨?_, hfields, hnodup, ?_⟩
  · rw [List.mem_append, not_or]
    refine ⟨?_, fun hmem => (hother _ hmem).1 rfl⟩
    simp [TraceqlClause.component]
  · rintro c hc d hd rfl
    rw [List.map_map, List.mem_map] at hc
    obtain ⟨entry, -, heq⟩ := hc
    exact (hother c hd).2 entry.1 heq.symm

/-- A component that a clause sets is the same in any order of the clauses. -/
theorem findSome?_perm {β : Type} {f : TraceqlClause S → Option β} {c : QueryComponent}
    (hf : ∀ clause b, f clause = some b → clause.component = c)
    {order clauses : List (TraceqlClause S)} (hperm : order.Perm clauses)
    (hnodup : (clauses.map TraceqlClause.component).Nodup) :
    order.findSome? f = clauses.findSome? f := by
  cases hclauses : clauses.findSome? f with
  | none =>
    rw [List.findSome?_eq_none_iff] at hclauses ⊢
    exact fun clause hclause => hclauses clause (hperm.mem_iff.1 hclause)
  | some b =>
    obtain ⟨clause, hclause, hb⟩ := List.exists_of_findSome?_eq_some hclauses
    cases horder : order.findSome? f with
    | none =>
      rw [List.findSome?_eq_none_iff] at horder
      rw [horder clause (hperm.mem_iff.2 hclause)] at hb
      cases hb
    | some b' =>
      obtain ⟨clause', hclause', hb'⟩ := List.exists_of_findSome?_eq_some horder
      have hsame : clause' = clause :=
        List.inj_on_of_nodup_map hnodup (hperm.mem_iff.1 hclause') hclause
        ((hf clause' b' hb').trans (hf clause b hb).symm)
      rw [← hb', ← hb, hsame]

theorem HybridQuery.filterMap_entry? (query : HybridQuery S) :
    query.clauses.filterMap TraceqlClause.entry? = query.scalarEq.toList := by
  have hentry : (TraceqlClause.entry? ∘ fun entry : String × Value =>
      (TraceqlClause.whereField entry.1 entry.2 : TraceqlClause S)) = some := rfl
  have hnone : ∀ clauses : List (TraceqlClause S), (∀ clause ∈ clauses, clause.entry? = none) →
      clauses.filterMap TraceqlClause.entry? = [] := fun clauses h => List.filterMap_eq_nil_iff.2 h
  rw [HybridQuery.clauses, List.filterMap_cons_none rfl, List.filterMap_append,
    List.filterMap_map, hentry, List.filterMap_some, hnone, List.append_nil]
  intro clause hclause
  simp only [List.mem_append, List.mem_map, List.mem_cons] at hclause
  rcases hclause with ⟨pair, -, rfl⟩ | ⟨pair, -, rfl⟩ | rfl | rfl | hexplain
  · rfl
  · rfl
  · rfl
  · rfl
  · split_ifs at hexplain
    · rw [List.mem_singleton.1 hexplain]
      rfl
    · cases hexplain

/-- The clauses of a query make it up, in any order. -/
theorem finish_draftOf (h : TraceqlFragment query) {order : List (TraceqlClause S)}
    (hperm : order.Perm query.clauses) : (draftOf query.table order).finish = .ok query := by
  have hnodup := query.clauses_nodup
  have htenant := findSome?_perm (f := TraceqlClause.tenantId?) (c := .tenant)
    (by rintro (_ | _) b hb <;> first | rfl | cases hb) hperm hnodup
  have hmatch := findSome?_perm (f := TraceqlClause.match?) (c := .text)
    (by rintro (_ | _) b hb <;> first | rfl | cases hb) hperm hnodup
  have hnear := findSome?_perm (f := TraceqlClause.near?) (c := .vector)
    (by rintro (_ | _) b hb <;> first | rfl | cases hb) hperm hnodup
  have hfreshness := findSome?_perm (f := TraceqlClause.freshness?) (c := .freshness)
    (by rintro (_ | _) b hb <;> first | rfl | cases hb) hperm hnodup
  have hlimit := findSome?_perm (f := TraceqlClause.limit?) (c := .limit)
    (by rintro (_ | _) b hb <;> first | rfl | cases hb) hperm hnodup
  have hexplain := findSome?_perm (f := TraceqlClause.explain?) (c := .explain)
    (by rintro (_ | _) b hb <;> first | rfl | cases hb) hperm hnodup
  have hscalar : SortedMap.ofEntries (order.filterMap TraceqlClause.entry?) = query.scalarEq :=
    SortedMap.ofEntries_eq_of_perm (query.filterMap_entry? ▸ hperm.filterMap _)
  rw [draftOf, TraceqlDraft.finish, htenant, hmatch, hnear, hfreshness, hlimit, hexplain, hscalar]
  obtain ⟨table, tenantId, cursor, textField, text, vectorField, vector, scalarEq,
      graphSeed, temporalAsOf,
    topK, freshness, explain⟩ := query
  obtain ⟨-, -, -, -, -, htext, hvector, -, hcursor, hgraph, htime, -, -⟩ := h
  have hnone : ∀ {β : Type} (f : TraceqlClause S → Option β),
      (∀ field value, f (.whereField field value) = none) →
      scalarEq.toList.findSome? (f ∘ fun entry => .whereField entry.1 entry.2) = none :=
    fun f hf => List.findSome?_eq_none_iff.2 fun entry _ => hf entry.1 entry.2
  have hmatches := hnone TraceqlClause.match? fun _ _ => rfl
  have hnears := hnone TraceqlClause.near? fun _ _ => rfl
  have hmodes := hnone TraceqlClause.freshness? fun _ _ => rfl
  have hlimits := hnone TraceqlClause.limit? fun _ _ => rfl
  have hexplains := hnone TraceqlClause.explain? fun _ _ => rfl
  dsimp only at htext hvector hcursor hgraph htime
  subst hcursor hgraph htime
  cases textField <;> cases text <;> cases htext <;> cases vectorField <;>
    cases vector <;> cases hvector <;>
    cases explain <;>
    simp [HybridQuery.clauses, List.findSome?_cons, List.findSome?_append, List.findSome?_map,
      hmatches, hnears, hmodes, hlimits, hexplains]

/-! ### The round trip -/

/-- The text of a query is compiled to the query. -/
theorem traceql_round_trip (h : TraceqlFragment query) (hlossless : TraceqlLossless F P query)
    {order : List (TraceqlClause S)} (hperm : order.Perm query.clauses) :
    traceqlQueryFromStr F (traceqlText P query.table order) = .ok query := by
  have hwritable : ∀ clause ∈ order, clause.Writable F P :=
    fun clause hclause => h.writable hlossless clause (hperm.mem_iff.1 hclause)
  have htable := isClause_directive .fromTable h.table.isLine h.table.isWord.visible
  have hlines : ∀ line ∈ (directiveWord .fromTable ++ ' ' :: query.table.toList) ::
      order.map (TraceqlClause.text P), IsLine line ∧ statementTexts [line] = [line] := by
    rw [List.forall_mem_cons]
    refine ⟨⟨htable.isLine, htable.statementTexts⟩, ?_⟩
    intro line hline
    obtain ⟨clause, hclause, rfl⟩ := List.mem_map.1 hline
    have hclause' := TraceqlClause.isClause (hwritable clause hclause)
    exact ⟨hclause'.isLine, hclause'.statementTexts⟩
  have htexts : ∀ lines : List (List Char), (∀ line ∈ lines, statementTexts [line] = [line]) →
      statementTexts lines = lines := by
    intro lines
    induction lines with
    | nil => intro _; rfl
    | cons line lines ih =>
      rw [List.forall_mem_cons]
      rintro ⟨hline, hrest⟩
      rw [statementTexts_cons, hline, ih hrest]
      rfl
  have hselect : startsWithSqlishSelect (strip (traceqlText P query.table order).toList) =
      false := by
    rw [← Bool.not_eq_true, startsWithSqlishSelect_iff, words_strip]
    obtain ⟨after, hafter, htext⟩ : ∃ after, Ends after ∧
        (traceqlText P query.table order).toList = directiveWord .fromTable ++ after := by
      cases order with
      | nil => exact ⟨' ' :: query.table.toList, ends_cons.2 (by decide),
          by simp [traceqlText, joinLines]⟩
      | cons clause order =>
        exact ⟨' ' :: (query.table.toList ++ '\n' :: joinLines
          ((clause :: order).map (TraceqlClause.text P))), ends_cons.2 (by decide),
          by simp [traceqlText, joinLines, List.intercalate]⟩
    rw [htext, words_append htable.isWord hafter]
    rintro (hfirst | ⟨hfirst, -⟩)
    · exact absurd hfirst (by decide)
    · exact absurd hfirst (by decide)
  have hqueries : queryOfTexts F ((directiveWord .fromTable ++ ' ' :: query.table.toList) ::
      order.map (TraceqlClause.text P)) = some query := by
    rw [queryOfTexts, List.foldlM_cons, applyText_table h.table]
    have hnodup : (([] ++ order).map TraceqlClause.component).Nodup :=
      (hperm.map _).nodup_iff.2 query.clauses_nodup
    have hrun := foldlM_clauses (F := F) (P := P) query.table hwritable hnodup
    rw [Option.bind_eq_bind, Option.bind_some, hrun, Option.bind_some, List.nil_append,
      finish_draftOf h hperm, Except.toOption_ok]
  refine Except.eq_ok_of_toOption ?_
  rw [traceqlQueryFromStr_lines F hselect, traceqlText, String.toList_ofList,
    cut_joinLines (List.cons_ne_nil _ _) fun line hline => (hlines line hline).1, Option.bind_some,
    htexts _ fun line hline => (hlines line hline).2, hqueries]

end

/-- A query whose values hold quotes, a line end, a bracket and a comment sign. -/
def quotedQuery : HybridQuery ℚ where
  table := "notes"
  tenantId := "acme"
  cursor := none
  textField := some "body"
  text := some "say \"hi\"\n# ["
  vectorField := some "emb"
  vector := some [1, 20]
  scalarEq := SortedMap.ofEntries [("kind", .array [.string "]\\", .null]),
    ("n", .number (.posInt 7))]
  graphSeed := none
  temporalAsOf := none
  topK := 5
  freshness := .lazy
  explain := true

/-- The lines of the query from the last to the first. -/
theorem quotedQuery_round_trip :
    traceqlQueryFromStr .reference (traceqlText .reference "notes" quotedQuery.clauses.reverse) =
      .ok quotedQuery := by
  have hname : ∀ name ∈ ["notes", "acme", "body", "emb", "kind", "n"], IsTraceqlName name := by
    unfold IsTraceqlName
    decide
  have hentries : quotedQuery.scalarEq.toList =
      [("kind", .array [.string "]\\", .null]), ("n", .number (.posInt 7))] := by
    rfl
  have hfragment : TraceqlFragment quotedQuery := by
    refine ⟨hname _ (by decide), hname _ (by decide), ?_, ?_, ?_, rfl, rfl, ?_, rfl,
      rfl, rfl, ?_, ?_⟩
    · rw [hentries, List.forall_mem_cons, List.forall_mem_singleton]
      exact ⟨hname _ (by decide), hname _ (by decide)⟩
    · intro column hcolumn
      obtain rfl : "body" = column := Option.some.inj hcolumn
      exact hname _ (by decide)
    · intro column hcolumn
      obtain rfl : "emb" = column := Option.some.inj hcolumn
      exact hname _ (by decide)
    · exact fun h => by cases h
    · decide
    · decide
  have hlossless : TraceqlLossless .reference .reference quotedQuery := by
    refine ⟨?_, ?_, ?_⟩
    · rw [hentries, List.forall_mem_cons, List.forall_mem_singleton]
      exact ⟨Except.eq_ok_of_toOption (by decide +kernel),
        Except.eq_ok_of_toOption (by decide +kernel)⟩
    · intro text htext
      obtain rfl : "say \"hi\"\n# [" = text := Option.some.inj htext
      exact Except.eq_ok_of_toOption (by decide +kernel)
    · intro vector hvector
      obtain rfl : [1, 20] = vector := Option.some.inj hvector
      exact Except.eq_ok_of_toOption (by decide +kernel)
  exact traceql_round_trip hfragment hlossless (List.reverse_perm _)

end TraceDB
