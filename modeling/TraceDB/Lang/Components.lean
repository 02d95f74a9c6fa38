import TraceDB.Data.SortedMap
import TraceDB.Data.Taking
import TraceDB.Lang.Graphql
import TraceDB.Lang.Reference
import TraceDB.Lang.Traceql
import TraceDB.Lang.Words

/-!
# The components that the clauses of a text set

A clause of a query text, or an argument, sets components of the query: the table, the tenant, the
value of a field.  The compilers keep track of what is set, each in its own way.

* `components_nodup_iff` : in an accepted text, no two clauses set the same component, unless the
  text is GraphQL and has a field argument under both of its names.
* `second_text_field_wins` : `match_field` and `text_field` together are accepted.
-/

namespace TraceDB

open Brackets

/-- What a clause sets. -/
inductive QueryComponent where
  | table
  | tenant
  | textField
  | text
  | vectorField
  | vector
  | scalar (field : String)
  | limit
  | freshness
  | explain
  deriving DecidableEq

theorem filterMap_map_eq {α β γ : Type} (f : α → Option β) (g : β → γ) (l : List α) :
    (l.filterMap f).map g = l.flatMap fun a => (f a).toList.map g := by
  rw [List.filterMap_eq_flatMap_toList, List.map_flatMap]

/-! ### The line form -/

/-- The components that a statement sets. -/
def statementComponents (text : List Char) : List QueryComponent :=
  let (word, body) := splitTraceqlDirective text
  match traceqlDirective word with
  | none => []
  | some .fromTable => [.table]
  | some .tenant => [.tenant]
  | some .whereField => [.scalar (String.ofList (Text.strip (body.takeWhile (· ≠ '='))))]
  | some .matchText => [.textField, .text]
  | some .near => [.vectorField, .vector]
  | some .freshness => [.freshness]
  | some .limit => [.limit]
  | some .explain => [.explain]

/-- The components that the statements of a text in line form set. -/
def lineComponents (input : List Char) : List QueryComponent :=
  match splitTraceqlStatements input with
  | .error _ => []
  | .ok statements => statements.flatMap fun statement => statementComponents statement.text

section Lines

variable {S : Type} (F : CompilerFormat S)

/-- A component is set. -/
def TraceqlDraft.Has (draft : TraceqlDraft S) : QueryComponent → Prop
  | .table => draft.table.isSome = true
  | .tenant => draft.tenantId.isSome = true
  | .textField => draft.textField.isSome = true
  | .text => draft.text.isSome = true
  | .vectorField => draft.vectorField.isSome = true
  | .vector => draft.vector.isSome = true
  | .scalar field => field ∈ draft.seenScalarEq
  | .limit => draft.topKSeen = true
  | .freshness => draft.freshnessSeen = true
  | .explain => draft.explainSeen = true

/-- A text or a vector is set together with its field. -/
structure TraceqlDraft.Paired (draft : TraceqlDraft S) : Prop where
  text : draft.text.isSome = draft.textField.isSome
  vector : draft.vector.isSome = draft.vectorField.isSome

theorem setTraceqlOnce_eq_ok_iff {target target' : Option String}
    {directive value : String} {n : ℕ} :
    setTraceqlOnce target directive value n = .ok target' ↔
      target.isSome = false ∧ target' = some value := by
  rw [setTraceqlOnce, Except.guard_eq_ok_iff, Bool.not_eq_true, Except.ok.injEq,
    eq_comm (a := some value)]

theorem parseTraceqlWhere_field {body value : List Char} {field : String} {n : ℕ}
    (h : parseTraceqlWhere body n = .ok (field, value)) :
    field = String.ofList (Text.strip (body.takeWhile (· ≠ '='))) := by
  unfold parseTraceqlWhere at h
  split at h
  · cases h
  · dsimp only at h
    split_ifs at h
    exact (Prod.mk.inj (Except.ok.inj h)).1.symm

/-- A statement sets its components, which were not set before. -/
theorem TraceqlDraft.apply_takes {draft draft' : TraceqlDraft S} {statement : TraceqlStatement}
    (hpaired : draft.Paired) (h : draft.apply F statement = .ok draft') :
    draft'.Paired ∧ Takes TraceqlDraft.Has draft draft' (statementComponents statement.text) := by
  unfold apply at h
  unfold statementComponents
  generalize splitTraceqlDirective statement.text = parts at h ⊢
  obtain ⟨word, body⟩ := parts
  dsimp only at h ⊢
  cases hdirective : traceqlDirective word with
  | none =>
    rw [hdirective] at h
    cases h
  | some directive =>
    rw [hdirective] at h
    dsimp only at h ⊢
    cases directive with
    | fromTable =>
      obtain ⟨value, -, h⟩ := Except.bind_eq_ok_iff.1 h
      obtain ⟨table, htable, h⟩ := Except.bind_eq_ok_iff.1 h
      obtain ⟨hfree, rfl⟩ := setTraceqlOnce_eq_ok_iff.1 htable
      obtain rfl := Except.ok.inj h
      refine ⟨⟨hpaired.text, hpaired.vector⟩, .single (by simp [Has, hfree]) fun c => ?_⟩
      cases c <;> simp [Has]
    | tenant =>
      obtain ⟨value, -, h⟩ := Except.bind_eq_ok_iff.1 h
      obtain ⟨tenantId, htenant, h⟩ := Except.bind_eq_ok_iff.1 h
      obtain ⟨hfree, rfl⟩ := setTraceqlOnce_eq_ok_iff.1 htenant
      obtain rfl := Except.ok.inj h
      refine ⟨⟨hpaired.text, hpaired.vector⟩, .single (by simp [Has, hfree]) fun c => ?_⟩
      cases c <;> simp [Has]
    | whereField =>
      obtain ⟨⟨field, value⟩, hwhere, h⟩ := Except.bind_eq_ok_iff.1 h
      dsimp only at h
      rw [Except.guard_eq_ok_iff] at h
      obtain ⟨hfree, h⟩ := h
      obtain ⟨parsed, -, h⟩ := Except.bind_eq_ok_iff.1 h
      obtain rfl := Except.ok.inj h
      rw [← parseTraceqlWhere_field hwhere]
      refine ⟨⟨hpaired.text, hpaired.vector⟩, .single hfree fun c => ?_⟩
      cases c <;> simp [Has, or_comm]
    | matchText =>
      obtain ⟨⟨column, value⟩, -, h⟩ := Except.bind_eq_ok_iff.1 h
      obtain ⟨textField, hfield, h⟩ := Except.bind_eq_ok_iff.1 h
      obtain ⟨text, -, h⟩ := Except.bind_eq_ok_iff.1 h
      obtain ⟨hfree, rfl⟩ := setTraceqlOnce_eq_ok_iff.1 hfield
      obtain rfl := Except.ok.inj h
      have htext := hpaired.text.trans hfree
      refine ⟨⟨rfl, hpaired.vector⟩, ⟨by simp, ?_, fun c => ?_⟩⟩
      · simp [Has, hfree, htext]
      · cases c <;> simp [Has]
    | near =>
      obtain ⟨⟨column, value⟩, -, h⟩ := Except.bind_eq_ok_iff.1 h
      obtain ⟨vectorField, hfield, h⟩ := Except.bind_eq_ok_iff.1 h
      obtain ⟨hfree, rfl⟩ := setTraceqlOnce_eq_ok_iff.1 hfield
      have hvector := hpaired.vector.trans hfree
      split at h
      · cases h
      · cases h
      · obtain rfl := Except.ok.inj h
        refine ⟨⟨hpaired.text, rfl⟩, ⟨by simp, ?_, fun c => ?_⟩⟩
        · simp [Has, hfree, hvector]
        · cases c <;> simp [Has]
    | freshness =>
      rw [applyDirective, Except.guard_eq_ok_iff] at h
      obtain ⟨hfree, h⟩ := h
      obtain ⟨value, -, h⟩ := Except.bind_eq_ok_iff.1 h
      cases hword : freshnessOfWord value.toList with
      | none =>
        rw [hword] at h
        cases h
      | some freshness =>
        rw [hword] at h
        obtain rfl := Except.ok.inj h
        refine ⟨⟨hpaired.text, hpaired.vector⟩, .single hfree fun c => ?_⟩
        cases c <;> simp [Has]
    | limit =>
      rw [applyDirective, Except.guard_eq_ok_iff] at h
      obtain ⟨hfree, h⟩ := h
      obtain ⟨value, -, h⟩ := Except.bind_eq_ok_iff.1 h
      split at h
      · cases h
      · cases h
      · obtain rfl := Except.ok.inj h
        refine ⟨⟨hpaired.text, hpaired.vector⟩, .single hfree fun c => ?_⟩
        cases c <;> simp [Has]
    | explain =>
      rw [applyDirective, Except.guard_eq_ok_iff, Except.guard_eq_ok_iff] at h
      obtain ⟨hfree, -, h⟩ := h
      obtain rfl := Except.ok.inj h
      refine ⟨⟨hpaired.text, hpaired.vector⟩, .single hfree fun c => ?_⟩
      cases c <;> simp [Has]

/-- The statements of an accepted text set each component once. -/
theorem lineComponents_nodup {input : List Char} {query : HybridQuery S}
    (h : traceqlLinesFromStr F input = .ok query) : (lineComponents input).Nodup := by
  obtain ⟨statements, hsplit, h⟩ := Except.bind_eq_ok_iff.1 h
  obtain ⟨draft, hfold, -⟩ := Except.bind_eq_ok_iff.1 h
  have htakes := Takes.of_foldlM (fun s x s' hs hf => TraceqlDraft.apply_takes F hs hf)
    ⟨rfl, rfl⟩ hfold
  rw [lineComponents, hsplit]
  exact htakes.2.nodup

end Lines

/-! ### The SQL-ish form -/

/-- The component that a condition sets. -/
def conditionComponents (condition : List Char) : List QueryComponent :=
  let field := Text.strip ((Text.strip condition).takeWhile (· ≠ '='))
  if eqIgnoreAsciiCase field "tenant_id".toList || eqIgnoreAsciiCase field "tenant".toList
    then [.tenant]
  else [.scalar (String.ofList field)]

/-- The limits of a text, one for each word `LIMIT`, for as many rounds as there are characters at
most. -/
def limitComponents : ℕ → List Char → List QueryComponent
  | 0, _ => []
  | rounds + 1, rest =>
    match findSqlishKeyword rest "LIMIT" with
    | none => []
    | some (_, after) => .limit :: limitComponents rounds after

/-- The components that the clauses of a text in SQL-ish form set. -/
def sqlishComponents (input : List Char) : List QueryComponent :=
  match sqlishHead (sqlishText input) with
  | .error _ => []
  | .ok (explain, _, rest) =>
    let whereClause := match findSqlishKeyword rest "LIMIT" with
      | some (whereClause, _) => whereClause
      | none => rest
    (if explain then [.explain] else []) ++ .table ::
      ((splitSqlishAndConditions whereClause).flatMap conditionComponents ++
        limitComponents rest.length rest)

section Sqlish

variable {S : Type} (F : CompilerFormat S)

/-- A component is set. -/
def SqlishDraft.Has (draft : SqlishDraft) : QueryComponent → Prop
  | .tenant => draft.tenantId.isSome = true
  | .scalar field => (draft.scalarEq[field]?).isSome = true
  | _ => False

/-- A condition sets its component, which was not set before. -/
theorem SqlishDraft.apply_takes {draft draft' : SqlishDraft} {condition : List Char}
    (h : draft.apply F condition = .ok draft') :
    Takes SqlishDraft.Has draft draft' (conditionComponents condition) := by
  unfold apply at h
  unfold conditionComponents
  dsimp only at h ⊢
  rw [Except.guard_eq_ok_iff] at h
  obtain ⟨-, h⟩ := h
  generalize Text.strip condition = text at h ⊢
  split at h
  · cases h
  rw [Except.guard_eq_ok_iff] at h
  obtain ⟨-, h⟩ := h
  obtain ⟨value, -, h⟩ := Except.bind_eq_ok_iff.1 h
  generalize Text.strip (text.takeWhile (· ≠ '=')) = field at h ⊢
  by_cases htenant : (eqIgnoreAsciiCase field "tenant_id".toList ||
    eqIgnoreAsciiCase field "tenant".toList) = true
  · rw [if_pos htenant] at h ⊢
    split at h
    · rw [Except.guard_eq_ok_iff, Except.guard_eq_ok_iff] at h
      obtain ⟨-, hfree, h⟩ := h
      obtain rfl := Except.ok.inj h
      refine .single hfree fun c => ?_
      cases c <;> simp [Has]
    · cases h
  · rw [if_neg htenant] at h ⊢
    rw [Except.guard_eq_ok_iff] at h
    obtain ⟨hfree, h⟩ := h
    obtain rfl := Except.ok.inj h
    refine .single hfree fun c => ?_
    cases c with
    | scalar name => simp only [Has, SortedMap.isSome_insert, QueryComponent.scalar.injEq]
    | _ => simp [Has]

/-- A keyword that is found is in the text. -/
theorem findSqlishKeywordFrom_eq_some {keyword : String} {before text front after : List Char}
    {mode : SqlishMode} (h : findSqlishKeywordFrom keyword before mode text = some (front, after)) :
    ∃ word, word <:+: text ∧ eqIgnoreAsciiCase word keyword.toList = true := by
  induction text generalizing before mode with
  | nil => cases h
  | cons ch rest ih =>
    have hnext : ∀ {before mode},
        findSqlishKeywordFrom keyword before mode rest = some (front, after) →
        ∃ word, word <:+: ch :: rest ∧ eqIgnoreAsciiCase word keyword.toList = true := by
      intro before mode h
      obtain ⟨word, hin, heq⟩ := ih h
      exact ⟨word, hin.trans (List.suffix_cons ch rest).isInfix, heq⟩
    unfold findSqlishKeywordFrom at h
    dsimp only at h
    split_ifs at h with hstarts
    · cases hhere : keywordHere keyword (ch :: rest) with
      | none =>
        rw [hhere] at h
        exact hnext h
      | some found =>
        unfold keywordHere at hhere
        split at hhere
        · cases hhere
        · rename_i candidate more hsplit
          obtain ⟨htext, -⟩ := splitBytes_eq_some_iff.1 hsplit
          split_ifs at hhere with hword
          exact ⟨candidate, ⟨[], more, htext.symm⟩, hword.1⟩
    · exact hnext h

/-- The characters of a number. -/
theorem parseUsize_chars {s : String} {n : ℕ} (h : parseUsize s = some n) :
    ∀ c ∈ s.toList, c = '+' ∨ c.isDigit = true := by
  unfold parseUsize at h
  generalize s.toList = text at h
  dsimp only at h
  intro c hc
  split_ifs at h with hdigits
  rw [not_or, Bool.not_eq_true, List.any_eq_false] at hdigits
  split at hdigits
  · rcases List.mem_cons.1 hc with rfl | hc
    · exact .inl rfl
    · exact .inr (by simpa using hdigits.2 c hc)
  · exact .inr (by simpa using hdigits.2 c hc)

/-- No word stands in the text of a limit. -/
theorem findSqlishKeyword_limit {limitClause : List Char} {n : ℕ}
    (h : parseSqlishLimit limitClause = .ok n) : findSqlishKeyword limitClause "LIMIT" = none := by
  by_contra hfound
  obtain ⟨⟨front, after⟩, hfound⟩ := Option.ne_none_iff_exists'.1 hfound
  obtain ⟨word, hin, heq⟩ := findSqlishKeywordFrom_eq_some hfound
  rw [eqIgnoreAsciiCase_iff] at heq
  -- The first letter of the word would be white space or part of a number.
  cases word with
  | nil => cases heq
  | cons c word =>
    have hc : c.toLower = 'l' := (List.cons.inj heq).1
    have hmem : c ∈ limitClause := hin.subset List.mem_cons_self
    unfold parseSqlishLimit at h
    dsimp only at h
    rw [Except.guard_eq_ok_iff, Except.guard_eq_ok_iff] at h
    obtain ⟨-, -, h⟩ := h
    cases hn : parseUsize (String.ofList (Text.strip limitClause)) with
    | none =>
      rw [hn] at h
      cases h
    | some m =>
      have hchars := parseUsize_chars hn c
      rw [String.toList_ofList] at hchars
      rcases Text.mem_strip_or_isWhitespace hmem with hstrip | hwhite
      · rcases hchars hstrip with rfl | hdigit
        · revert hc
          decide
        · rw [Text.isDigit_iff] at hdigit
          have hnot : ¬ (c.val ≥ 'A'.val ∧ c.val ≤ 'Z'.val) := fun hupper => by
            have hlow : 65 ≤ c.toNat := UInt32.le_iff_toNat_le.1 hupper.1
            omega
          rw [toLower_of_not_upper hnot] at hc
          subst hc
          revert hdigit
          decide
      · rw [← isWhitespace_toLower, hc] at hwhite
        revert hwhite
        decide

theorem limitComponents_eq_nil {rest : List Char}
    (h : findSqlishKeyword rest "LIMIT" = none) (n : ℕ) :
    limitComponents n rest = [] := by
  cases n with
  | zero => rfl
  | succ n => rw [limitComponents, h]

/-- A text that has one limit has no other one. -/
theorem limitComponents_limit {rest whereClause limitClause : List Char} {n : ℕ}
    (h : findSqlishKeyword rest "LIMIT" = some (whereClause, limitClause))
    (hlimit : parseSqlishLimit limitClause = .ok n) :
      limitComponents rest.length rest = [.limit] := by
  cases rest with
  | nil => cases h
  | cons ch rest =>
    rw [List.length_cons, limitComponents, h]
    dsimp only
    rw [limitComponents_eq_nil (findSqlishKeyword_limit hlimit)]

/-- The head of a text, its conditions and its limit set different things. -/
theorem clauses_nodup {explain : Bool} {conditions : List (List Char)}
    {limits : List QueryComponent} (hconditions : (conditions.flatMap conditionComponents).Nodup)
    (hlimits : limits = [] ∨ limits = [.limit]) :
    ((if explain then [QueryComponent.explain] else []) ++ .table ::
      (conditions.flatMap conditionComponents ++ limits)).Nodup := by
  have hkinds : ∀ c ∈ conditions.flatMap conditionComponents, c ≠ .explain ∧
      c ≠ .table ∧ c ≠ .limit := by
    intro c hc
    obtain ⟨condition, -, hc⟩ := List.mem_flatMap.1 hc
    unfold conditionComponents at hc
    dsimp only at hc
    split_ifs at hc <;> obtain rfl := List.mem_singleton.1 hc <;> simp
  have hexplain : QueryComponent.explain ∉ conditions.flatMap conditionComponents :=
    fun hc => (hkinds _ hc).1 rfl
  have htable : QueryComponent.table ∉ conditions.flatMap conditionComponents :=
    fun hc => (hkinds _ hc).2.1 rfl
  have hlimit : QueryComponent.limit ∉ conditions.flatMap conditionComponents :=
    fun hc => (hkinds _ hc).2.2 rfl
  have hrest : (conditions.flatMap conditionComponents ++ limits).Nodup := by
    rcases hlimits with rfl | rfl
    · rwa [List.append_nil]
    · rw [← List.concat_eq_append]
      exact hconditions.concat hlimit
  have hbody : (QueryComponent.table ::
      (conditions.flatMap conditionComponents ++ limits)).Nodup := by
    refine List.nodup_cons.2 ⟨?_, hrest⟩
    rcases hlimits with rfl | rfl <;> simp [htable]
  cases explain with
  | false => exact hbody
  | true =>
    refine List.nodup_cons.2 ⟨?_, hbody⟩
    rcases hlimits with rfl | rfl <;> simp [hexplain]

/-- The clauses of an accepted text set each component once. -/
theorem sqlishComponents_nodup {input : List Char} {query : HybridQuery S}
    (h : traceqlSqlishSelectFromStr F input = .ok query) : (sqlishComponents input).Nodup := by
  obtain ⟨-, -, h⟩ := Except.bind_eq_ok_iff.1 h
  obtain ⟨⟨explain, table, rest⟩, hhead, h⟩ := Except.bind_eq_ok_iff.1 h
  have hconditions : ∀ {conditions : List (List Char)} {draft : SqlishDraft},
      conditions.foldlM (SqlishDraft.apply F) ⟨none, ∅⟩ = .ok draft →
        (conditions.flatMap conditionComponents).Nodup := by
    intro conditions draft hfold
    exact (Takes.of_foldlM (I := fun _ => True)
      (fun s x s' _ hf => ⟨trivial, SqlishDraft.apply_takes F hf⟩) trivial hfold).2.nodup
  rw [sqlishComponents, hhead]
  dsimp only at h ⊢
  cases hlimit : findSqlishKeyword rest "LIMIT" with
  | none =>
    rw [hlimit] at h
    obtain ⟨topK, -, h⟩ := Except.bind_eq_ok_iff.1 h
    obtain ⟨draft, hfold, -⟩ := Except.bind_eq_ok_iff.1 h
    exact clauses_nodup (hconditions hfold) (.inl (limitComponents_eq_nil hlimit _))
  | some parts =>
    obtain ⟨whereClause, limitClause⟩ := parts
    rw [hlimit] at h
    obtain ⟨topK, htopK, h⟩ := Except.bind_eq_ok_iff.1 h
    obtain ⟨draft, hfold, -⟩ := Except.bind_eq_ok_iff.1 h
    exact clauses_nodup (hconditions hfold) (.inr (limitComponents_limit hlimit htopK))

end Sqlish

/-! ### GraphQL -/

section Graphql

variable {S : Type} (F : CompilerFormat S)

/-- The name and the value of an argument, or of an entry of an object, unless it is blank. -/
def graphqlPair (argument : List Char) : Option (String × List Char) :=
  let argument := Text.strip argument
  if argument = [] then none
  else (splitGraphqlNameValue F argument).toOption.map fun (name, value) =>
    (String.ofList name, value)

/-- The pairs of a list of arguments. -/
def graphqlPairs (arguments : List Char) : List (String × List Char) :=
  match splitGraphqlTopLevel arguments ',' with
  | .error _ => []
  | .ok parts => parts.filterMap (graphqlPair F)

/-- The arguments of the root field of a text. -/
def graphqlArguments (input : String) : List (String × List Char) :=
  match graphqlOperationBody (stripGraphqlComments input.toList) >>= graphqlRootSelection with
  | .error _ => []
  | .ok (_, arguments) => graphqlPairs F arguments

/-- The keys of an object. -/
def graphqlObjectKeys (value : List Char) : List String :=
  match matchingGraphqlDelimiter (Text.strip value) '\x7b' '\x7d' with
  | none => []
  | some (entries, _) => (graphqlPairs F entries).map Prod.fst

/-- The components that an argument sets. -/
def argumentComponents (argument : String × List Char) : List QueryComponent :=
  match argument.1 with
  | "tenant_id" | "tenant" => [.tenant]
  | "where" | "filter" => (graphqlObjectKeys F argument.2).map .scalar
  | "match" | "text" => [.text]
  | "match_field" | "text_field" => [.textField]
  | "near" | "vector" => [.vector]
  | "near_field" | "vector_field" => [.vectorField]
  | "limit" => [.limit]
  | "freshness" => [.freshness]
  | "explain" => [.explain]
  | _ => []

/-- The components that a GraphQL text sets: the table, by its root field, and what the arguments
set. -/
def graphqlComponents (input : String) : List QueryComponent :=
  .table :: (graphqlArguments F input).flatMap (argumentComponents F)

theorem splitGraphqlNameValue_pair {argument name value : List Char}
    (hne : Text.strip argument ≠ [])
    (h : splitGraphqlNameValue F (Text.strip argument) = .ok (name, value)) :
    graphqlPair F argument = some (String.ofList name, value) := by
  rw [graphqlPair]
  dsimp only
  rw [if_neg hne, h]
  rfl

/-- An entry of an object sets its key, which was not set before. -/
theorem insertGraphqlEntry_takes {name : String} {output output' : Fields} {entry : List Char}
    (h : insertGraphqlEntry F name output entry = .ok output') :
    Takes (fun (output : Fields) key => (output[key]?).isSome = true) output output'
      ((graphqlPair F entry).toList.map Prod.fst) := by
  unfold insertGraphqlEntry at h
  dsimp only at h
  by_cases hblank : Text.strip entry = []
  · rw [if_pos hblank] at h
    obtain rfl := Except.ok.inj h
    have hpair : graphqlPair F entry = none := by rw [graphqlPair, hblank]; rfl
    rw [hpair]
    exact Takes.refl _ _
  · rw [if_neg hblank] at h
    obtain ⟨⟨field, raw⟩, hsplit, h⟩ := Except.bind_eq_ok_iff.1 h
    obtain ⟨value, -, h⟩ := Except.bind_eq_ok_iff.1 h
    rw [Except.guard_eq_ok_iff] at h
    obtain ⟨hfree, h⟩ := h
    obtain rfl := Except.ok.inj h
    rw [splitGraphqlNameValue_pair F hblank hsplit]
    exact .single hfree fun key => SortedMap.isSome_insert output _ key value

/-- The keys of an accepted object are distinct. -/
theorem graphqlObjectKeys_nodup {value : List Char} {name : String} {fields : Fields}
    (h : parseGraphqlScalarObject F value name = .ok fields) :
      (graphqlObjectKeys F value).Nodup := by
  unfold parseGraphqlScalarObject at h
  dsimp only at h
  rw [Except.guard_eq_ok_iff] at h
  obtain ⟨-, h⟩ := h
  unfold graphqlObjectKeys
  cases hmatch : matchingGraphqlDelimiter (Text.strip value) '\x7b' '\x7d' with
  | none => exact List.nodup_nil
  | some parts =>
    obtain ⟨entries, rest⟩ := parts
    rw [hmatch] at h
    dsimp only at h ⊢
    rw [Except.guard_eq_ok_iff] at h
    obtain ⟨-, h⟩ := h
    obtain ⟨parts, hsplit, h⟩ := Except.bind_eq_ok_iff.1 h
    have htakes := Takes.of_foldlM (I := fun _ => True)
      (fun s x s' _ hf => ⟨trivial, insertGraphqlEntry_takes F hf⟩) trivial h
    rw [graphqlPairs, hsplit]
    dsimp only
    rw [filterMap_map_eq]
    exact htakes.2.nodup

/-- An argument leaves alone which arguments are seen, and sets each of its components once. -/
theorem GraphqlDraft.applyNamed_spec {draft draft' : GraphqlDraft S} {name : String}
    {value : List Char} (h : draft.applyNamed F name value = .ok draft') :
    draft'.seen = draft.seen ∧ (argumentComponents F (name, value)).Nodup := by
  unfold applyNamed at h
  split at h
  case h_3 | h_4 =>
    obtain ⟨fields, hfields, h⟩ := Except.bind_eq_ok_iff.1 h
    obtain ⟨scalarEq, -, h⟩ := Except.bind_eq_ok_iff.1 h
    obtain rfl := Except.ok.inj h
    refine ⟨rfl, (graphqlObjectKeys_nodup F hfields).map ?_⟩
    intro a b hab
    exact QueryComponent.scalar.inj hab
  case h_16 => cases h
  all_goals
    obtain ⟨parsed, -, h⟩ := Except.bind_eq_ok_iff.1 h
    obtain rfl := Except.ok.inj h
    exact ⟨rfl, List.nodup_singleton _⟩

/-- An argument that is not blank is seen under its canonical name, which was not seen before. -/
theorem GraphqlDraft.apply_takes {draft draft' : GraphqlDraft S} {argument : List Char}
    (h : draft.apply F argument = .ok draft') :
    (∀ pair, graphqlPair F argument = some pair → (argumentComponents F pair).Nodup) ∧
      Takes (fun (draft : GraphqlDraft S) name => name ∈ draft.seen) draft draft'
        ((graphqlPair F argument).toList.map fun pair => canonicalGraphqlName pair.1) := by
  unfold apply at h
  dsimp only at h
  by_cases hblank : Text.strip argument = []
  · rw [if_pos hblank] at h
    obtain rfl := Except.ok.inj h
    have hpair : graphqlPair F argument = none := by rw [graphqlPair, hblank]; rfl
    rw [hpair]
    exact ⟨fun _ hnone => absurd hnone (by simp), Takes.refl _ _⟩
  · rw [if_neg hblank] at h
    obtain ⟨⟨name, value⟩, hsplit, h⟩ := Except.bind_eq_ok_iff.1 h
    rw [Except.guard_eq_ok_iff] at h
    obtain ⟨hfree, h⟩ := h
    obtain ⟨hseen, hnodup⟩ := applyNamed_spec F h
    rw [splitGraphqlNameValue_pair F hblank hsplit]
    refine ⟨fun pair heq => ?_, .single hfree fun c => ?_⟩
    · obtain rfl := Option.some.inj heq
      exact hnodup
    · rw [hseen, List.mem_cons, or_comm]

/-- The canonical names under which a component can be set. -/
def componentNames : QueryComponent → List String
  | .table => []
  | .tenant => ["tenant_id"]
  | .textField => ["match_field", "text_field"]
  | .text => ["match"]
  | .vectorField => ["near_field", "vector_field"]
  | .vector => ["near"]
  | .scalar _ => ["where"]
  | .limit => ["limit"]
  | .freshness => ["freshness"]
  | .explain => ["explain"]

theorem mem_componentNames {pair : String × List Char} {c : QueryComponent}
    (h : c ∈ argumentComponents F pair) : canonicalGraphqlName pair.1 ∈ componentNames c := by
  obtain ⟨name, value⟩ := pair
  unfold argumentComponents at h
  split at h
  case h_3 | h_4 =>
    rename_i hname
    obtain ⟨key, -, rfl⟩ := List.mem_map.1 h
    dsimp only at hname
    subst hname
    simp [componentNames, canonicalGraphqlName]
  case h_16 => cases h
  all_goals
    rename_i hname
    obtain rfl := List.mem_singleton.1 h
    dsimp only at hname
    subst hname
    simp [componentNames, canonicalGraphqlName]

/-- The arguments of an accepted text have distinct canonical names. -/
theorem graphqlArguments_spec {input : String} {query : HybridQuery S}
    (h : graphqlQueryFromStr F input = .ok query) :
    ((graphqlArguments F input).map fun pair => canonicalGraphqlName pair.1).Nodup ∧
      ∀ pair ∈ graphqlArguments F input, (argumentComponents F pair).Nodup := by
  obtain ⟨body, hbody, h⟩ := Except.bind_eq_ok_iff.1 h
  obtain ⟨⟨table, arguments⟩, hroot, h⟩ := Except.bind_eq_ok_iff.1 h
  obtain ⟨parts, hsplit, h⟩ := Except.bind_eq_ok_iff.1 h
  obtain ⟨draft, hfold, -⟩ := Except.bind_eq_ok_iff.1 h
  have hpairs : graphqlArguments F input = parts.filterMap (graphqlPair F) := by
    rw [graphqlArguments, hbody, Except.ok_bind, hroot]
    dsimp only
    rw [graphqlPairs, hsplit]
  rw [hpairs]
  refine ⟨?_, ?_⟩
  · have hstep : ∀ s x s', True → GraphqlDraft.apply F s x = .ok s' →
        True ∧ Takes (fun (draft : GraphqlDraft S) name => name ∈ draft.seen) s s'
          ((graphqlPair F x).toList.map fun pair => canonicalGraphqlName pair.1) :=
      fun s x s' _ hf => ⟨trivial, (GraphqlDraft.apply_takes F hf).2⟩
    rw [filterMap_map_eq]
    exact (Takes.of_foldlM hstep trivial hfold).2.nodup
  · intro pair hpair
    obtain ⟨argument, hargument, heq⟩ := List.mem_filterMap.1 hpair
    exact Except.foldlM_establishes
      (P := fun argument _ => ∀ pair, graphqlPair F argument = some pair →
        (argumentComponents F pair).Nodup)
      hfold (fun s x s' hf => (GraphqlDraft.apply_takes F hf).1) (fun _ _ _ _ _ hkeep => hkeep)
      argument hargument pair heq

/-- A text has a field argument under both of its names. -/
def SetsFieldTwice (input : String) : Prop :=
  let names := (graphqlArguments F input).map Prod.fst
  ("match_field" ∈ names ∧ "text_field" ∈ names) ∨ ("near_field" ∈ names ∧ "vector_field" ∈ names)

instance (input : String) : Decidable (SetsFieldTwice F input) :=
  inferInstanceAs (Decidable (_ ∨ _))

theorem canonicalGraphqlName_eq_iff {name field : String}
    (hfield : field ∈ ["match_field", "text_field", "near_field", "vector_field"]) :
    canonicalGraphqlName name = field ↔ name = field := by
  unfold canonicalGraphqlName
  split
  case h_9 => rfl
  all_goals
    simp only [List.mem_cons, List.not_mem_nil, or_false] at hfield
    rcases hfield with rfl | rfl | rfl | rfl <;> decide

/-- The arguments of an accepted text set each component once, unless a field argument is there
under both of its names. -/
theorem graphqlComponents_nodup_iff {input : String} {query : HybridQuery S}
    (h : graphqlQueryFromStr F input = .ok query) :
    (graphqlComponents F input).Nodup ↔ ¬ SetsFieldTwice F input := by
  obtain ⟨hnames, hnodup⟩ := graphqlArguments_spec F h
  unfold graphqlComponents SetsFieldTwice
  generalize graphqlArguments F input = arguments at hnames hnodup ⊢
  have htable : QueryComponent.table ∉ arguments.flatMap (argumentComponents F) := by
    intro hmem
    obtain ⟨pair, -, hc⟩ := List.mem_flatMap.1 hmem
    exact absurd (mem_componentNames F hc) List.not_mem_nil
  rw [List.nodup_cons, and_iff_right htable, List.nodup_flatMap, and_iff_right hnodup]
  rw [List.nodup_iff_pairwise_ne, List.pairwise_map] at hnames
  constructor
  · intro hdisjoint
    have : Std.Symm (Function.onFun List.Disjoint (argumentComponents F)) := ⟨fun _ _ h => h.symm⟩
    have hclash : ∀ {first second : String} {c : QueryComponent}, first ≠ second →
        (∀ value, argumentComponents F (first, value) = [c]) →
        (∀ value, argumentComponents F (second, value) = [c]) →
          ¬ (first ∈ arguments.map Prod.fst ∧ second ∈ arguments.map Prod.fst) := by
      rintro first second c hne hfirst hsecond ⟨ha, hb⟩
      obtain ⟨⟨name, value⟩, hamem, rfl⟩ := List.mem_map.1 ha
      obtain ⟨⟨name', value'⟩, hbmem, rfl⟩ := List.mem_map.1 hb
      have hdis : List.Disjoint (argumentComponents F (name, value))
          (argumentComponents F (name', value')) :=
        hdisjoint.forall hamem hbmem fun heq => hne (congrArg Prod.fst heq)
      rw [hfirst, hsecond] at hdis
      exact hdis List.mem_cons_self List.mem_cons_self
    rintro (htext | hvector)
    · exact hclash (by decide) (fun _ => rfl) (fun _ => rfl) htext
    · exact hclash (by decide) (fun _ => rfl) (fun _ => rfl) hvector
  · intro honce
    refine hnames.imp_of_mem fun {a b} ha hb hne c hca hcb => honce ?_
    have hnamea := mem_componentNames F hca
    have hnameb := mem_componentNames F hcb
    -- Two names of one field argument are both names of arguments.
    have hboth : ∀ {first second : String}, a.1 = first ∨ a.1 = second → b.1 = first ∨
        b.1 = second →
        first ∈ arguments.map Prod.fst ∧ second ∈ arguments.map Prod.fst := by
      rintro first second (hfirst | hfirst) (hsecond | hsecond)
      · exact absurd (congrArg canonicalGraphqlName (hfirst.trans hsecond.symm)) hne
      · exact ⟨List.mem_map.2 ⟨a, ha, hfirst⟩, List.mem_map.2 ⟨b, hb, hsecond⟩⟩
      · exact ⟨List.mem_map.2 ⟨b, hb, hsecond⟩, List.mem_map.2 ⟨a, ha, hfirst⟩⟩
      · exact absurd (congrArg canonicalGraphqlName (hfirst.trans hsecond.symm)) hne
    cases c with
    | textField =>
      rw [componentNames, List.mem_pair] at hnamea hnameb
      rw [canonicalGraphqlName_eq_iff (by decide), canonicalGraphqlName_eq_iff (by decide)]
        at hnamea hnameb
      exact .inl (hboth hnamea hnameb)
    | vectorField =>
      rw [componentNames, List.mem_pair] at hnamea hnameb
      rw [canonicalGraphqlName_eq_iff (by decide), canonicalGraphqlName_eq_iff (by decide)]
        at hnamea hnameb
      exact .inr (hboth hnamea hnameb)
    | table => cases hnamea
    | _ =>
      rw [componentNames, List.mem_singleton] at hnamea hnameb
      exact absurd (hnamea.trans hnameb.symm) hne

end Graphql

/-! ### Both languages -/

/-- The two compilers of `tracedb-query`. -/
inductive QueryLanguage where
  | traceql
  | graphql
  deriving DecidableEq

section Languages

variable {S : Type} (F : CompilerFormat S)

/-- The query that a text compiles to. -/
def QueryLanguage.compile (language : QueryLanguage) (text : String) : Result (HybridQuery S) :=
  match language with
  | .traceql => traceqlQueryFromStr F text
  | .graphql => graphqlQueryFromStr F text

/-- The components that the clauses of a text set, one after the other. -/
def QueryLanguage.components (language : QueryLanguage) (text : String) : List QueryComponent :=
  match language with
  | .traceql =>
    let input := Text.strip text.toList
    if startsWithSqlishSelect input then sqlishComponents input else lineComponents input
  | .graphql => graphqlComponents F text

/-- In an accepted text no two clauses set the same component, unless the text is GraphQL and has a
field argument under both of its names. -/
theorem components_nodup_iff {language : QueryLanguage} {text : String} {query : HybridQuery S}
    (h : language.compile F text = .ok query) :
    (language.components F text).Nodup ↔ (language = .graphql → ¬ SetsFieldTwice F text) := by
  cases language with
  | traceql =>
    refine iff_of_true ?_ fun heq => by cases heq
    unfold QueryLanguage.compile traceqlQueryFromStr at h
    unfold QueryLanguage.components
    dsimp only at h ⊢
    split_ifs at h ⊢
    · exact sqlishComponents_nodup F h
    · exact lineComponents_nodup F h
  | graphql =>
    exact (graphqlComponents_nodup_iff F h).trans ⟨fun hnot _ => hnot, fun hnot => hnot rfl⟩

end Languages

/-- A query that sets the text and its field once each. -/
def oneTextField : String :=
  "\x7b notes(tenant: \"x\", match: \"fox\", match_field: \"title\") \x7b id \x7d \x7d"

/-- A query that sets the field of its text under both names. -/
def twoTextFields : String :=
  "\x7b notes(tenant: \"x\", match_field: \"title\", match: \"fox\", " ++
    "text_field: \"body\") \x7b id \x7d \x7d"

theorem one_text_field_nodup :
    (QueryLanguage.graphql.components CompilerFormat.reference oneTextField).Nodup := by
  have haccepted : (QueryLanguage.graphql.compile CompilerFormat.reference
      oneTextField).toOption.isSome =
      true := by decide +kernel
  obtain ⟨query, hquery⟩ := Option.isSome_iff_exists.1 haccepted
  refine (components_nodup_iff CompilerFormat.reference (Except.eq_ok_of_toOption hquery)).2
    fun _ => ?_
  decide +kernel

/-- The field under the second name replaces the one under the first. -/
theorem second_text_field_wins :
    (graphqlQueryFromStr CompilerFormat.reference twoTextFields).toOption.map
      (fun query => query.textField) =
        some (some "body") ∧
      ¬ (QueryLanguage.graphql.components CompilerFormat.reference twoTextFields).Nodup :=
  ⟨by decide +kernel, by decide +kernel⟩

end TraceDB
