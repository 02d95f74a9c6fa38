import TraceDB.Lang.GraphqlScan
import TraceDB.Lang.TraceqlPrinter

/-!
# Texts of the bounded form of GraphQL

The tokens of the text of a query (`graphqlTokens`), and what the loops find of one argument in it,
with any white space between the tokens: it is not cut (`whole_of_argument`), its name and its value
come apart (`splitGraphqlNameValue_part`), and it sets its own part of the query
(`applyNamed_spaced`).
-/

namespace TraceDB

open Brackets Text

variable {S : Type}

/-! ### The text of a query -/

/-- An argument of the root field. -/
inductive GraphqlArgument (S : Type) where
  | tenantId (tenantId : String)
  | whereFields (entries : List (String × Value))
  | text (text : String)
  | textField (field : String)
  | vector (vector : List S)
  | vectorField (field : String)
  | limit (topK : ℕ)
  | freshness (mode : FreshnessMode)
  | explain (explain : Bool)

namespace GraphqlArgument

/-- The name of an argument. -/
def name : GraphqlArgument S → String
  | .tenantId _ => "tenant_id"
  | .whereFields _ => "where"
  | .text _ => "match"
  | .textField _ => "match_field"
  | .vector _ => "near"
  | .vectorField _ => "near_field"
  | .limit _ => "limit"
  | .freshness _ => "freshness"
  | .explain _ => "explain"

/-- The JSON value of an argument that is neither an object nor a vector. -/
def value? : GraphqlArgument S → Option Value
  | .tenantId tenant => some (.string tenant)
  | .text words => some (.string words)
  | .textField field => some (.string field)
  | .vectorField field => some (.string field)
  | .limit topK => some (.number (.posInt (.ofNat topK)))
  | .freshness mode => some (.string (freshnessWord mode))
  | .explain flag => some (.bool flag)
  | .whereFields _ => none
  | .vector _ => none

/-- The tokens of an entry of `where`. -/
def entryTokens (P : JsonPrinter S) (entry : String × Value) : List (List Char) :=
  entry.1.toList :: [':'] :: entry.2.tokens P

/-- The tokens of the value of an argument. -/
def valueTokens (P : JsonPrinter S) : GraphqlArgument S → List (List Char)
  | .whereFields entries => ['\x7b'] :: (withCommas (entries.map (entryTokens P)) ++ [['\x7d']])
  | .vector values => vectorTokens P values
  | argument => (argument.value?.map (Value.tokens P)).getD []

/-- The tokens of an argument. -/
def tokens (P : JsonPrinter S) (argument : GraphqlArgument S) : List (List Char) :=
  argument.name.toList :: [':'] :: argument.valueTokens P

end GraphqlArgument

/-- The arguments of a query, with its fields in some order. -/
def HybridQuery.graphqlArguments (query : HybridQuery S) (entries : List (String × Value)) :
    List (GraphqlArgument S) :=
  .tenantId query.tenantId :: .whereFields entries ::
    (query.text.toList.map .text ++ (query.textField.toList.map .textField ++
      (query.vector.toList.map .vector ++ (query.vectorField.toList.map .vectorField ++
        [.limit query.topK, .freshness query.freshness, .explain query.explain]))))

/-- The tokens of a text with a root field and its arguments. -/
def graphqlTokens (P : JsonPrinter S) (table : String) (arguments : List (GraphqlArgument S)) :
    List (List Char) :=
  ['\x7b'] :: table.toList :: ['('] :: (withCommas (arguments.map (GraphqlArgument.tokens P)) ++
    [[')'], ['\x7b'], "id".toList, ['\x7d'], ['\x7d']])

/-- An identifier of GraphQL. -/
def IsGraphqlName (name : String) : Prop :=
  name.toList.head?.any isGraphqlNameStart = true ∧ ∀ c ∈ name.toList, isGraphqlNameChar c = true

/-- The queries that the bounded form can write. -/
structure GraphqlFragment (query : HybridQuery S) : Prop where
  table : IsGraphqlName query.table
  /-- The table is no introspection field. -/
  not_introspection : ¬ "__".toList <+: query.table.toList
  tenantId : query.tenantId ≠ ""
  field : ∀ entry ∈ query.scalarEq.toList, IsGraphqlName entry.1
  not_object : ∀ entry ∈ query.scalarEq.toList, ∀ fields, entry.2 ≠ .object fields
  text : query.text ≠ some ""
  textField : query.textField ≠ some ""
  vector : query.vector ≠ some []
  vectorField : query.vectorField ≠ some ""
  cursor : query.cursor = none
  graphSeed : query.graphSeed = none
  temporalAsOf : query.temporalAsOf = none
  topK_pos : 0 < query.topK
  /-- The limit is a `usize`. -/
  topK_le : query.topK ≤ usizeMax

/-- `serde_json` reads back a value from its tokens, with white space between them. -/
def ReadsBack (F : CompilerFormat S) (P : JsonPrinter S) (value : Value) : Prop :=
  ∀ text, Spaced JsonBlank (value.tokens P) text →
    F.valueFromStr (String.ofList (strip text)) = .ok value

/-- `serde_json` reads back a vector from its tokens, with white space between them. -/
def VectorReadsBack (F : CompilerFormat S) (P : JsonPrinter S) (vector : List S) : Prop :=
  ∀ text, Spaced JsonBlank (vectorTokens P vector) text →
    ∃ value, F.valueFromStr (String.ofList (strip text)) = .ok value ∧
    valueAsF32Vec F value = some vector

/-- `serde_json` reads back the values of an argument. -/
def GraphqlArgument.Lossless (F : CompilerFormat S) (P : JsonPrinter S) : GraphqlArgument S → Prop
  | .whereFields entries => ∀ entry ∈ entries, ReadsBack F P entry.2
  | .vector values => VectorReadsBack F P values
  | argument => ∀ value, argument.value? = some value → ReadsBack F P value

/-! ### Tokens -/

theorem isGraphqlNameChar_spec {c : Char} (h : isGraphqlNameChar c = true) :
    isPlain c = true ∧ isWhitespace c = false ∧ c ∉ ['"', '#', ',', ':', '.'] := by
  simp only [isGraphqlNameChar, Bool.or_eq_true, decide_eq_true_eq] at h
  rcases h with rfl | h
  · decide
  · refine ⟨isPlain_of_isAlphanum h, isWhitespace_of_visible (isAlphanum_visible h), ?_⟩
    have hsigns : ∀ d ∈ ['"', '#', ',', ':', '.'], d.isAlphanum = false := by decide
    intro hmem
    rw [hsigns c hmem] at h
    cases h

section

variable {name : String}

theorem IsGraphqlName.ne_nil (h : IsGraphqlName name) : name.toList ≠ [] := by
  intro hnil
  have hhead := h.1
  rw [hnil] at hhead
  cases hhead

theorem IsGraphqlName.isWord (h : IsGraphqlName name) : IsWord name.toList :=
  ⟨h.ne_nil, fun c hc => (isGraphqlNameChar_spec (h.2 c hc)).2.1⟩

theorem IsGraphqlName.plain (h : IsGraphqlName name) : ∀ c ∈ name.toList, isPlain c = true :=
  fun c hc => (isGraphqlNameChar_spec (h.2 c hc)).1

theorem IsGraphqlName.not_mem (h : IsGraphqlName name) {c : Char}
    (hc : c ∈ ['"', '#', ',', ':', '.']) :
    c ∉ name.toList := fun hmem => (isGraphqlNameChar_spec (h.2 c hmem)).2.2 hc

end

/-- What the loops need of tokens. -/
structure GraphqlTokens (tokens : List (List Char)) : Prop where
  tree : TokenTree tokens
  verbatim : ∀ token ∈ tokens, Verbatim token
  visible : ∀ token ∈ tokens, Visible token

namespace GraphqlTokens

theorem nil : GraphqlTokens [] := ⟨.nil, by simp, by simp⟩

theorem append {a b : List (List Char)} (ha : GraphqlTokens a) (hb : GraphqlTokens b) :
    GraphqlTokens (a ++ b) where
  tree := ha.tree.append hb.tree
  verbatim := List.forall_mem_append.2 ⟨ha.verbatim, hb.verbatim⟩
  visible := List.forall_mem_append.2 ⟨ha.visible, hb.visible⟩

theorem word {word : List Char} (hword : IsWord word) (hplain : ∀ c ∈ word, isPlain c = true) :
    GraphqlTokens [word] where
  tree := .word hplain .nil
  verbatim := by
    rw [List.forall_mem_singleton]
    refine verbatim_of_forall fun c hc => ?_
    have hspec := isPlain_spec (hplain c hc)
    simp only [List.mem_cons, not_or] at hspec
    exact ⟨hspec.1, hspec.2.2.1⟩
  visible := by simpa using hword.visible

theorem sign {c : Char} (hc : c ∈ [':', ',']) : GraphqlTokens [[c]] := by
  have hsigns : ∀ d ∈ [':', ','], isPlain d = true ∧ isWhitespace d = false := by decide
  exact word ⟨List.cons_ne_nil _ _, by simpa using (hsigns c hc).2⟩ (by simpa using (hsigns c hc).1)

theorem group {opening closing : Char} (hpair : Pair opening closing) {inner : List (List Char)}
    (h : GraphqlTokens inner) : GraphqlTokens ([opening] :: (inner ++ [[closing]])) where
  tree := .group hpair h.tree .nil
  verbatim := by
    rw [List.forall_mem_cons, List.forall_mem_append, List.forall_mem_singleton]
    refine ⟨verbatim_of_forall ?_, h.verbatim, verbatim_of_forall ?_⟩ <;> cases hpair <;> decide
  visible := by
    have hone : ∀ {c : Char}, isWhitespace c = false → Visible [c] := fun {c} hc =>
      ⟨⟨c, [], rfl, hc⟩, ⟨[], c, rfl, hc⟩⟩
    rw [List.forall_mem_cons, List.forall_mem_append, List.forall_mem_singleton]
    exact ⟨hone (by cases hpair <;> decide), h.visible, hone (by cases hpair <;> decide)⟩

theorem of_json {tokens : List (List Char)} (h : JsonTokens tokens) : GraphqlTokens tokens where
  tree := h.tree
  verbatim := fun token htoken => (h.token token htoken).verbatim
  visible := fun token htoken => (h.token token htoken).edged.visible

theorem withCommas {groups : List (List (List Char))}
    (h : ∀ tokens ∈ groups, GraphqlTokens tokens) :
    GraphqlTokens (TraceDB.withCommas groups) := by
  induction groups with
  | nil => exact nil
  | cons tokens groups ih =>
    rw [List.forall_mem_cons] at h
    cases groups with
    | nil =>
      have htokens : TraceDB.withCommas [tokens] = tokens := by simp [TraceDB.withCommas]
      rw [htokens]
      exact h.1
    | cons next groups =>
      have htokens : TraceDB.withCommas (tokens :: next :: groups) =
          tokens ++ ([[',']] ++ TraceDB.withCommas (next :: groups)) := by
        simp [TraceDB.withCommas, List.intercalate]
      rw [htokens]
      exact h.1.append ((sign (by decide)).append (ih h.2))

end GraphqlTokens

variable (P : JsonPrinter S)

theorem GraphqlArgument.isGraphqlName (argument : GraphqlArgument S) :
    IsGraphqlName argument.name := by
  have hnames : ∀ name ∈ ["tenant_id", "where", "match", "match_field", "near",
      "near_field", "limit", "freshness", "explain"],
      name.toList.head?.any isGraphqlNameStart = true ∧
        ∀ c ∈ name.toList, isGraphqlNameChar c = true := by decide
  cases argument <;> exact hnames _ (by simp [name])

theorem graphqlTokens_entry {entry : String × Value} (h : IsGraphqlName entry.1) :
    GraphqlTokens (GraphqlArgument.entryTokens P entry) :=
  (GraphqlTokens.word h.isWord h.plain).append
    ((GraphqlTokens.sign (c := ':') (by decide)).append (.of_json (entry.2.tokens_json P)))

/-- The fields of an argument are identifiers. -/
def GraphqlArgument.Named : GraphqlArgument S → Prop
  | .whereFields entries => ∀ entry ∈ entries, IsGraphqlName entry.1
  | _ => True

theorem graphqlTokens_value {argument : GraphqlArgument S} (h : argument.Named) :
    GraphqlTokens (argument.valueTokens P) := by
  have hvalue : ∀ value : Value, GraphqlTokens (value.tokens P) :=
    fun value => .of_json (value.tokens_json P)
  cases argument with
  | whereFields entries =>
    refine .group .braces (.withCommas fun tokens htokens => ?_)
    obtain ⟨entry, hentry, rfl⟩ := List.mem_map.1 htokens
    exact graphqlTokens_entry P (h entry hentry)
  | vector values => exact .of_json (vectorTokens_json P values)
  | tenantId tenant => exact hvalue (.string tenant)
  | text words => exact hvalue (.string words)
  | textField field => exact hvalue (.string field)
  | vectorField field => exact hvalue (.string field)
  | limit topK => exact hvalue (.number (.posInt (.ofNat topK)))
  | freshness mode => exact hvalue (.string (freshnessWord mode))
  | explain flag => exact hvalue (.bool flag)

theorem graphqlTokens_argument {argument : GraphqlArgument S} (h : argument.Named) :
    GraphqlTokens (argument.tokens P) :=
  (GraphqlTokens.word argument.isGraphqlName.isWord argument.isGraphqlName.plain).append
    ((GraphqlTokens.sign (c := ':') (by decide)).append (graphqlTokens_value P h))

/-! ### Laid out tokens -/

/-- The text of tokens without the white space after them. -/
theorem exists_core_of_spaced {tokens : List (List Char)} (hne : tokens ≠ [])
    (hvisible : ∀ token ∈ tokens, Visible token) {text : List Char}
    (h : Spaced JsonBlank tokens text) :
    ∃ core space, text = core ++ space ∧ JsonBlank space ∧ Visible core ∧ strip text = core := by
  have hcore : ∃ core space, text = core ++ space ∧ JsonBlank space ∧ Visible core := by
    induction h with
    | nil => exact absurd rfl hne
    | @cons token space text tokens hspace hrest ih =>
      rw [List.forall_mem_cons] at hvisible
      cases tokens with
      | nil =>
        cases hrest
        exact ⟨token, space, by rw [List.append_nil], hspace, hvisible.1⟩
      | cons next tokens =>
        obtain ⟨core, after, rfl, hafter, hcore⟩ := ih (List.cons_ne_nil _ _) hvisible.2
        exact ⟨token ++ (space ++ core), after, by simp only [List.append_assoc], hafter,
          hvisible.1.around hcore space⟩
  obtain ⟨core, space, rfl, hspace, hvisibleCore⟩ := hcore
  have hnone : ∀ c ∈ ([] : List Char), isWhitespace c = true := by simp
  exact ⟨core, space, rfl, hspace, hvisibleCore, strip_around hnone hspace.white hvisibleCore⟩

theorem nested_of_spaced {tokens : List (List Char)} (h : TokenTree tokens) {text : List Char}
    (hspaced : Spaced JsonBlank tokens text) : Nested text :=
  h.nested (fun _ hspace c hc => (isJsonWhitespace_spec (hspace c hc)).2.1) hspaced

theorem JsonBlank.nested {space : List Char} (h : JsonBlank space) : Nested space :=
  .of_plain fun c hc => (isJsonWhitespace_spec (h c hc)).2.1

/-- A group of tokens in brackets. -/
theorem group_of_spaced {opening closing : Char} {inner : List (List Char)} {text : List Char}
    (h : Spaced JsonBlank ([opening] :: (inner ++ [[closing]])) text) :
    ∃ before inside after, text = opening :: (before ++ inside ++ closing :: after) ∧
    JsonBlank before ∧
      JsonBlank after ∧ Spaced JsonBlank inner inside := by
  obtain ⟨before, rest, rfl, hbefore, hrest⟩ := h.cons_inv
  obtain ⟨inside, back, rfl, hinside, hback⟩ := hrest.append_inv
  obtain ⟨after, _, rfl, hafter, ⟨⟩⟩ := hback.cons_inv
  exact ⟨before, inside, after, by simp, hbefore, hafter, hinside⟩

/-- A text in brackets is not cut. -/
theorem whole_of_group {opening closing : Char} (hpair : Pair opening closing)
    {inner : List (List Char)} (htree : TokenTree inner) {text : List Char}
    (h : Spaced JsonBlank ([opening] :: (inner ++ [[closing]])) text) :
    Whole ',' text := by
  obtain ⟨before, inside, after, rfl, hbefore, hafter, hinside⟩ := group_of_spaced h
  have hsep : ',' ≠ opening := by cases hpair <;> decide
  have hgroup := whole_group hpair hsep (hbefore.nested.append (nested_of_spaced htree hinside))
  have hshape : opening :: (before ++ inside ++ closing :: after) =
      (opening :: (before ++ inside ++ [closing])) ++ after := by simp
  rw [hshape]
  exact hgroup.append (hafter.whole (by decide))

/-- The text of a value is not cut. -/
theorem whole_of_value {value : Value} {text : List Char}
    (h : Spaced JsonBlank (value.tokens P) text) :
    Whole ',' text := by
  have hsingle : ∀ {token text : List Char}, Whole ',' token → Spaced JsonBlank [token] text →
      Whole ',' text := by
    intro token text htoken htext
    obtain ⟨space, _, rfl, hspace, ⟨⟩⟩ := htext.cons_inv
    rw [List.append_nil]
    exact htoken.append (hspace.whole (by decide))
  have hword : ∀ {word : List Char}, IsJsonWord word → Whole ',' word := by
    intro word hword
    refine whole_plain (fun hmem => ?_) fun c hc => (isJsonWordChar_spec (hword.2 c hc)).1
    exact absurd (hword.2 _ hmem) (by decide)
  cases value with
  | null => exact hsingle (hword isJsonWord_null) h
  | bool b =>
    cases b with
    | true => exact hsingle (hword isJsonWord_true) h
    | false => exact hsingle (hword isJsonWord_false) h
  | number n => exact hsingle (hword (P.isJsonNumber_number n).isJsonWord) h
  | string s => exact hsingle (whole_quoted (by decide) s) h
  | array items => exact whole_of_group .brackets (Value.itemTokens_json P items).tree h
  | object fields => exact whole_of_group .braces (Value.fieldTokens_json P fields).tree h

/-- A name, a colon and a value are not cut, if the value is not. -/
theorem whole_of_named {name : String} (hname : IsGraphqlName name) {tokens : List (List Char)}
    (hvalue : ∀ text, Spaced JsonBlank tokens text → Whole ',' text) {text : List Char}
    (h : Spaced JsonBlank (name.toList :: [':'] :: tokens) text) : Whole ',' text := by
  obtain ⟨s1, _, rfl, hs1, h⟩ := h.cons_inv
  obtain ⟨s2, rest, rfl, hs2, h⟩ := h.cons_inv
  exact (whole_plain (hname.not_mem (by decide)) hname.plain).append ((hs1.whole (by decide)).append
    ((whole_plain (by decide) (by decide)).append ((hs2.whole (by decide)).append (hvalue rest h))))

theorem whole_of_argument {argument : GraphqlArgument S} (hnamed : argument.Named)
    {text : List Char} (h : Spaced JsonBlank (argument.tokens P) text) : Whole ',' text := by
  refine whole_of_named argument.isGraphqlName (fun rest hrest => ?_) h
  have hvalue : ∀ value : Value, Spaced JsonBlank (value.tokens P) rest → Whole ',' rest :=
    fun value hspaced => whole_of_value P hspaced
  cases argument with
  | whereFields entries =>
    have htree : TokenTree (withCommas (entries.map (GraphqlArgument.entryTokens P))) := by
      refine (GraphqlTokens.withCommas fun tokens htokens => ?_).tree
      obtain ⟨entry, hentry, rfl⟩ := List.mem_map.1 htokens
      exact graphqlTokens_entry P (hnamed entry hentry)
    exact whole_of_group .braces htree hrest
  | vector values => exact whole_of_group .brackets (floatTokens_json P values).tree hrest
  | tenantId tenant => exact hvalue (.string tenant) hrest
  | text words => exact hvalue (.string words) hrest
  | textField field => exact hvalue (.string field) hrest
  | vectorField field => exact hvalue (.string field) hrest
  | limit topK => exact hvalue (.number (.posInt (.ofNat topK))) hrest
  | freshness mode => exact hvalue (.string (freshnessWord mode)) hrest
  | explain flag => exact hvalue (.bool flag) hrest

/-! ### Names and values -/

variable {P} {F : CompilerFormat S}

theorem topLevelGraphqlSeparatorFrom_plain {separator : Char} {text : List Char}
    (hsep : separator ∉ text) (h : ∀ c ∈ text, isPlain c = true) (before rest : List Char) :
    topLevelGraphqlSeparatorFrom separator .top before (text ++ separator :: rest) =
      some (before.reverse ++ text, rest) := by
  induction text generalizing before with
  | nil =>
    rw [List.nil_append, topLevelGraphqlSeparatorFrom, if_pos ⟨rfl, rfl⟩, List.append_nil]
  | cons c text ih =>
    rw [List.mem_cons, not_or] at hsep
    rw [List.forall_mem_cons] at h
    rw [List.cons_append, topLevelGraphqlSeparatorFrom, if_neg fun hc => hsep.1 hc.2.symm,
      Mode.next_plain h.1, Option.getD_some, ih hsep.2 h.2]
    simp

theorem isGraphqlIdentifier_name {name : String} (h : IsGraphqlName name) :
    isGraphqlIdentifier name.toList = true := by
  have hword := h.isWord
  have htrim : trimStart name.toList = name.toList := by
    obtain ⟨c, rest, hc, hspace⟩ := hword.visible.head
    rw [hc]
    exact List.dropWhile_cons_of_neg (by simp [hspace])
  obtain ⟨hstart, hchars⟩ := h
  rw [isGraphqlIdentifier, takeGraphqlIdentifier, htrim]
  cases hname : name.toList with
  | nil => exact absurd hname hword.1
  | cons c rest =>
    rw [hname] at hstart hchars
    rw [List.forall_mem_cons] at hchars
    have hc : isGraphqlNameStart c = true := hstart
    have hdrop : rest.dropWhile isGraphqlNameChar = [] := List.dropWhile_eq_nil_iff.2 hchars.2
    dsimp only
    rw [if_pos hc, hdrop]
    rfl

/-- A part is a name, a colon and a value. -/
theorem splitGraphqlNameValue_part {name : String} (hname : IsGraphqlName name)
    {tokens : List (List Char)} (hne : tokens ≠ []) (hvisible : ∀ token ∈ tokens, Visible token)
    {part : List Char} (h : IsPart part (name.toList :: [':'] :: tokens)) :
    ∃ text, Spaced JsonBlank tokens text ∧ Visible (strip part) ∧
      splitGraphqlNameValue F (strip part) = .ok (name.toList, strip text) := by
  obtain ⟨space, _, rfl, hspace, h⟩ := h
  obtain ⟨s1, _, rfl, hs1, h⟩ := h.cons_inv
  obtain ⟨s2, text, rfl, hs2, h⟩ := h.cons_inv
  obtain ⟨core, after, rfl, hafter, hcore, hstrip⟩ := exists_core_of_spaced hne hvisible h
  have hnone : ∀ c ∈ ([] : List Char), isWhitespace c = true := by simp
  have hvisiblePart : Visible ((name.toList ++ s1) ++ ':' :: (s2 ++ core)) := by
    have hpart := hname.isWord.visible.around hcore (s1 ++ ':' :: s2)
    simpa only [List.append_assoc, List.cons_append] using hpart
  have hpart : strip (space ++ (name.toList ++ (s1 ++ ([':'] ++ (s2 ++ (core ++ after)))))) =
      (name.toList ++ s1) ++ ':' :: (s2 ++ core) := by
    have hstripPart := strip_around hspace.white hafter.white hvisiblePart
    simp only [List.append_assoc, List.cons_append, List.nil_append] at hstripPart ⊢
    exact hstripPart
  have hseparator : topLevelGraphqlSeparator ((name.toList ++ s1) ++ ':' :: (s2 ++ core)) ':' =
      some (name.toList ++ s1, s2 ++ core) := by
    refine topLevelGraphqlSeparatorFrom_plain (fun hmem => ?_) ?_ [] _
    · exact (List.mem_append.1 hmem).elim (hname.not_mem (by decide)) fun hc =>
        absurd (hs1 _ hc) (by decide)
    · exact List.forall_mem_append.2
        ⟨hname.plain, fun c hc => (isJsonWhitespace_spec (hs1 c hc)).2.1⟩
  have hback : strip (s2 ++ core) = core := by
    have hstripValue := strip_around hs2.white hnone hcore
    rwa [List.append_nil] at hstripValue
  have hfront : strip (name.toList ++ s1) = name.toList :=
    strip_around hnone hs1.white hname.isWord.visible
  refine ⟨core ++ after, h, by rwa [hpart], ?_⟩
  rw [hpart, splitGraphqlNameValue, hseparator]
  dsimp only
  rw [hfront, hback, hstrip, if_neg (not_not.2 (isGraphqlIdentifier_name hname)),
    if_neg hcore.ne_nil]

theorem quoted_of_spaced {s : String} {text : List Char} (h : Spaced JsonBlank [quoted s] text) :
    strip text = quoted s := by
  obtain ⟨space, _, rfl, hspace, ⟨⟩⟩ := h.cons_inv
  have hnone : ∀ c ∈ ([] : List Char), isWhitespace c = true := by simp
  rw [List.append_nil]
  exact strip_around hnone hspace.white (quoted_text s).edged.visible

theorem parseGraphqlString_spaced {s : String} (hread : ReadsBack F P (.string s)) (hne : s ≠ "")
    {text : List Char} (h : Spaced JsonBlank [quoted s] text) (name : String) :
    parseGraphqlString F (strip text) name = .ok s := by
  have hvalue := hread text h
  rw [quoted_of_spaced h] at hvalue ⊢
  have hhead : (quoted s).head? = some '"' := rfl
  rw [parseGraphqlString, (quoted_text s).edged.visible.strip, if_neg (not_not.2 hhead), hvalue]
  dsimp only
  rw [if_neg hne]

/-- A value that is not an object. -/
theorem parseGraphqlValue_spaced {tokens : List (List Char)} {c : Char} {rest : List Char}
    {more : List (List Char)} (htokens : tokens = (c :: rest) :: more) (hc : c ≠ '\x7b')
    (hvisible : ∀ token ∈ tokens, Visible token) {text : List Char}
    (h : Spaced JsonBlank tokens text) {value : Value}
    (hvalue : F.valueFromStr (String.ofList (strip text)) = .ok value) :
    parseGraphqlValue F (strip text) = .ok value := by
  subst htokens
  obtain ⟨core, after, htext, hafter, hcore, hstrip⟩ :=
    exists_core_of_spaced (List.cons_ne_nil _ _) hvisible h
  obtain ⟨space, later, hlater, -, -⟩ := h.cons_inv
  rw [hstrip] at hvalue ⊢
  have hhead : core.head? ≠ some '\x7b' := by
    intro hbrace
    obtain ⟨d, core, rfl, -⟩ := hcore.head
    rw [htext] at hlater
    obtain ⟨rfl, -⟩ := List.cons.inj hlater
    exact hc (Option.some.inj hbrace)
  rw [parseGraphqlValue, hcore.strip, if_neg hcore.ne_nil, if_neg hhead, hvalue]

/-- The first character of a value. -/
theorem Value.exists_first (value : Value) (h : ∀ fields, value ≠ .object fields) :
    ∃ c rest more, value.tokens P = (c :: rest) :: more ∧ c ≠ '\x7b' := by
  have hword : ∀ {word : List Char}, IsJsonWord word → ∃ c rest, word = c :: rest ∧ c ≠ '\x7b' := by
    intro word hword
    obtain ⟨c, rest, rfl⟩ := List.exists_cons_of_ne_nil hword.1
    refine ⟨c, rest, rfl, ?_⟩
    rintro rfl
    exact absurd (hword.2 _ List.mem_cons_self) (by decide)
  cases value with
  | null => exact ⟨_, _, _, rfl, by decide⟩
  | bool b =>
    cases b with
    | true => exact ⟨_, _, _, rfl, by decide⟩
    | false => exact ⟨_, _, _, rfl, by decide⟩
  | number n =>
    obtain ⟨c, rest, heq, hc⟩ := hword (P.isJsonNumber_number n).isJsonWord
    exact ⟨c, rest, [], by rw [Value.tokens, heq], hc⟩
  | string s => exact ⟨'"', _, _, rfl, by decide⟩
  | array items => exact ⟨'[', [], _, rfl, by decide⟩
  | object fields => exact absurd rfl (h fields)

theorem ReadsBack.parse {value : Value} (hread : ReadsBack F P value)
    (hobject : ∀ fields, value ≠ .object fields) {text : List Char}
    (h : Spaced JsonBlank (value.tokens P) text) :
    parseGraphqlValue F (strip text) = .ok value := by
  obtain ⟨c, rest, more, htokens, hc⟩ := value.exists_first (P := P) hobject
  have hvisible : ∀ token ∈ value.tokens P, Visible token :=
    fun token htoken => ((value.tokens_json P).token token htoken).edged.visible
  exact parseGraphqlValue_spaced htokens hc hvisible h (hread text h)

/-! ### Objects -/

/-- The entries of `where` are read back. -/
theorem foldlM_entries {entries before : List (String × Value)} {parts : List (List Char)}
    (h : List.Forall₂ IsPart parts (entries.map (GraphqlArgument.entryTokens P)))
    (hname : ∀ entry ∈ entries, IsGraphqlName entry.1)
    (hobject : ∀ entry ∈ entries, ∀ fields, entry.2 ≠ .object fields)
    (hread : ∀ entry ∈ entries, ReadsBack F P entry.2)
    (hnodup : ((before ++ entries).map Prod.fst).Nodup) (name : String) :
    (parts.map strip).foldlM (insertGraphqlEntry F name) (SortedMap.ofEntries before) =
      .ok (SortedMap.ofEntries (before ++ entries)) := by
  induction entries generalizing before parts with
  | nil =>
    cases h
    rw [List.append_nil]
    rfl
  | cons entry entries ih =>
    obtain - | ⟨hpart, hmore⟩ := h
    rename_i part parts
    rw [List.forall_mem_cons] at hname hobject hread
    have hassoc : before ++ entry :: entries = before ++ [entry] ++ entries := by simp
    have hkeys := hnodup
    rw [List.map_append, List.map_cons, List.nodup_append] at hkeys
    have hfree : (SortedMap.ofEntries before)[entry.1]? = none :=
      SortedMap.getElem?_ofEntries_eq_none hkeys.1 fun hmem => hkeys.2.2 _
        hmem _ List.mem_cons_self rfl
    have hvisible : ∀ token ∈ entry.2.tokens P, Visible token :=
      fun token htoken => ((entry.2.tokens_json P).token token htoken).edged.visible
    obtain ⟨text, htext, hpartVisible, hsplit⟩ :=
      splitGraphqlNameValue_part (F := F) hname.1 (entry.2.tokens_ne_nil P) hvisible hpart
    have hinsert : insertGraphqlEntry F name (SortedMap.ofEntries before) (strip part) =
        .ok (SortedMap.ofEntries (before ++ [entry])) := by
      rw [insertGraphqlEntry, hpartVisible.strip, if_neg hpartVisible.ne_nil, hsplit,
        Except.ok_bind]
      dsimp only
      rw [hread.1.parse hobject.1 htext, Except.ok_bind, String.ofList_toList, hfree,
        if_neg (by simp), SortedMap.ofEntries_concat]
    rw [List.map_cons, List.foldlM_cons, hinsert, Except.ok_bind, hassoc]
    exact ih hmore hname.2 hobject.2 hread.2 (hassoc ▸ hnodup)

/-- An object is read back. -/
theorem parseGraphqlScalarObject_spaced {entries : List (String × Value)}
    (hname : ∀ entry ∈ entries, IsGraphqlName entry.1)
    (hobject : ∀ entry ∈ entries, ∀ fields, entry.2 ≠ .object fields)
    (hread : ∀ entry ∈ entries, ReadsBack F P entry.2) (hnodup : (entries.map Prod.fst).Nodup)
    {text : List Char}
    (h : Spaced JsonBlank ((GraphqlArgument.whereFields entries : GraphqlArgument S).valueTokens P)
      text) (name : String) : parseGraphqlScalarObject F (strip text) name =
        .ok (SortedMap.ofEntries entries) := by
  obtain ⟨before, inside, after, rfl, hbefore, hafter, hinside⟩ := group_of_spaced h
  have hnone : ∀ c ∈ ([] : List Char), isWhitespace c = true := by simp
  have hvisible : Visible ('\x7b' :: (before ++ inside ++ ['\x7d'])) :=
    ⟨⟨_, _, rfl, by decide⟩, ⟨'\x7b' :: (before ++ inside), '\x7d', rfl, by decide⟩⟩
  have hstrip : strip ('\x7b' :: (before ++ inside ++ '\x7d' :: after)) =
      '\x7b' :: (before ++ inside ++ ['\x7d']) := by
    have haround := strip_around hnone hafter.white hvisible
    simpa using haround
  have htokens : ∀ tokens ∈ entries.map (GraphqlArgument.entryTokens P), GraphqlTokens tokens := by
    intro tokens htokens
    obtain ⟨entry, hentry, rfl⟩ := List.mem_map.1 htokens
    exact graphqlTokens_entry P (hname entry hentry)
  have hmatch := matchingGraphqlDelimiter_nested .braces
    (hbefore.nested.append (nested_of_spaced (GraphqlTokens.withCommas htokens).tree hinside)) []
  -- The parts between the commas, of which there is one without entries.
  have hparts : ∃ parts, cut ',' .top [] (before ++ inside) = some parts ∧
      (parts.map strip).foldlM (insertGraphqlEntry F name) ∅ =
        .ok (SortedMap.ofEntries entries) := by
    cases entries with
    | nil =>
      cases hinside
      have hcut := (hbefore.whole (by decide) : Whole ',' before) [] []
      rw [List.append_nil, List.append_nil, cut_nil, List.reverse_reverse] at hcut
      have hblank : strip before = [] := by
        have htrim : trimStart before = [] := List.dropWhile_eq_nil_iff.2 hbefore.white
        rw [strip, htrim]
        rfl
      refine ⟨[before], by rwa [List.append_nil], ?_⟩
      rw [List.map_singleton, hblank]
      rfl
    | cons entry entries =>
      have hwhole : ∀ tokens ∈ (entry :: entries).map (GraphqlArgument.entryTokens P), ∀ text,
          Spaced JsonBlank tokens text → Whole ',' text := by
        intro tokens htokens text htext
        obtain ⟨found, hfound, rfl⟩ := List.mem_map.1 htokens
        exact whole_of_named (hname found hfound) (fun _ hrest => whole_of_value P hrest) htext
      obtain ⟨parts, hcut, hall⟩ := cut_spaced (by simp) hwhole hbefore hinside
      have hnodup' : (([] ++ entry :: entries).map Prod.fst).Nodup := hnodup
      exact ⟨parts, hcut, foldlM_entries hall hname hobject hread hnodup' name⟩
  obtain ⟨parts, hcut, hfold⟩ := hparts
  have hsplit : splitGraphqlTopLevel (before ++ inside) ',' = .ok (parts.map strip) := by
    refine Except.eq_ok_of_toOption ?_
    rw [splitGraphqlTopLevel, splitGraphqlTopLevelFrom_eq, hcut]
    rfl
  rw [parseGraphqlScalarObject, hstrip, hvisible.strip, if_neg (by simp), hmatch]
  dsimp only
  rw [if_neg (by decide), hsplit, Except.ok_bind, hfold]

/-! ### Arguments -/

namespace GraphqlArgument

/-- What an argument sets. -/
def set (draft : GraphqlDraft S) : GraphqlArgument S → GraphqlDraft S
  | .tenantId tenant => { draft with tenantId := some tenant }
  | .whereFields entries => { draft with scalarEq := SortedMap.ofEntries entries }
  | .text words => { draft with text := some words }
  | .textField field => { draft with textField := some field }
  | .vector values => { draft with vector := some values }
  | .vectorField field => { draft with vectorField := some field }
  | .limit topK => { draft with topK := topK }
  | .freshness mode => { draft with freshness := mode }
  | .explain flag => { draft with explain := flag }

/-- The arguments that can be written. -/
def Valid : GraphqlArgument S → Prop
  | .tenantId tenant => tenant ≠ ""
  | .whereFields entries => (entries.map Prod.fst).Nodup ∧
    (∀ entry ∈ entries, IsGraphqlName entry.1) ∧
      ∀ entry ∈ entries, ∀ fields, entry.2 ≠ .object fields
  | .text words => words ≠ ""
  | .textField field => field ≠ ""
  | .vector values => values ≠ []
  | .vectorField field => field ≠ ""
  | .limit topK => 0 < topK ∧ topK ≤ usizeMax
  | .freshness _ => True
  | .explain _ => True

theorem Valid.named {argument : GraphqlArgument S} (h : argument.Valid) : argument.Named := by
  cases argument with
  | whereFields entries => exact h.2.1
  | _ => exact trivial

/-- Arguments under different names set different parts. -/
theorem set_comm (draft : GraphqlDraft S) {a b : GraphqlArgument S} (h : a.name ≠ b.name) :
    b.set (a.set draft) = a.set (b.set draft) := by
  cases a <;> cases b <;> first | rfl | exact absurd rfl h

end GraphqlArgument

/-- A condition under a new name goes into the others. -/
theorem insertScalar_concat {before : List (String × Value)} {entry : String × Value}
    (hnodup : (before.map Prod.fst).Nodup) (hnew : entry.1 ∉ before.map Prod.fst) :
    GraphqlDraft.insertScalar F (SortedMap.ofEntries before) entry =
      .ok (SortedMap.ofEntries (before ++ [entry])) := by
  rw [GraphqlDraft.insertScalar, SortedMap.getElem?_ofEntries_eq_none hnodup hnew, if_neg (by simp),
    SortedMap.ofEntries_concat]

/-- The fields go into an empty draft as they are. -/
theorem foldlM_insertScalar {entries before : List (String × Value)}
    (hnodup : ((before ++ entries).map Prod.fst).Nodup) :
    entries.foldlM (GraphqlDraft.insertScalar F) (SortedMap.ofEntries before) =
      .ok (SortedMap.ofEntries (before ++ entries)) := by
  induction entries generalizing before with
  | nil =>
    rw [List.append_nil]
    rfl
  | cons entry entries ih =>
    have hassoc : before ++ entry :: entries = before ++ [entry] ++ entries := by simp
    have hparts := hnodup
    rw [List.map_append, List.map_cons, List.nodup_append] at hparts
    have hnew : entry.1 ∉ before.map Prod.fst :=
      fun hmem => hparts.2.2 _ hmem _ List.mem_cons_self rfl
    rw [List.foldlM_cons, insertScalar_concat hparts.1 hnew, Except.ok_bind, hassoc]
    exact ih (hassoc ▸ hnodup)

/-- A vector is read back. -/
theorem parseGraphqlVector_spaced {values : List S} (hread : VectorReadsBack F P values)
    (hne : values ≠ []) {text : List Char} (h : Spaced JsonBlank (vectorTokens P values) text)
    (name : String) :
    parseGraphqlVector F (strip text) name = .ok values := by
  obtain ⟨value, hvalue, hvector⟩ := hread text h
  have hvisible : ∀ token ∈ vectorTokens P values, Visible token :=
    fun token htoken => ((vectorTokens_json P values).token token htoken).edged.visible
  have hbracket : '[' ≠ '\x7b' := by decide
  have hparse := parseGraphqlValue_spaced rfl hbracket hvisible h hvalue
  rw [parseGraphqlVector, hparse, Except.ok_bind, hvector]
  cases values with
  | nil => exact absurd rfl hne
  | cons x values => rfl

/-- An argument sets what it says. -/
theorem applyNamed_spaced {argument : GraphqlArgument S} (h : argument.Valid)
    (hread : argument.Lossless F P) {text : List Char}
    (htext : Spaced JsonBlank (argument.valueTokens P) text) {draft : GraphqlDraft S}
    (hempty : argument.name = "where" → draft.scalarEq = ∅) :
    draft.applyNamed F argument.name (strip text) = .ok (argument.set draft) := by
  cases argument with
  | tenantId tenant =>
    have hparse := parseGraphqlString_spaced (hread _ rfl) h htext "tenant_id"
    show (parseGraphqlString F (strip text) "tenant_id" >>= _) = _
    rw [hparse]
    rfl
  | whereFields entries =>
    obtain ⟨hnodup, hname, hobject⟩ := h
    have hparse := parseGraphqlScalarObject_spaced hname hobject hread hnodup htext "where"
    have hkeys : (([] ++ (SortedMap.ofEntries entries).toList).map Prod.fst).Nodup :=
      SortedMap.nodup_of_perm_toList (List.Perm.refl (SortedMap.ofEntries entries).toList)
    have hfold := foldlM_insertScalar (F := F) hkeys
    rw [List.nil_append, SortedMap.ofEntries_eq_of_perm (List.Perm.refl _)] at hfold
    show (parseGraphqlScalarObject F (strip text) "where" >>= _) = _
    rw [hparse, Except.ok_bind, hempty rfl]
    show (List.foldlM (GraphqlDraft.insertScalar F) (SortedMap.ofEntries []) _ >>= _) = _
    rw [hfold]
    rfl
  | text words =>
    have hparse := parseGraphqlString_spaced (hread _ rfl) h htext "match"
    show (parseGraphqlString F (strip text) "match" >>= _) = _
    rw [hparse]
    rfl
  | textField field =>
    have hparse := parseGraphqlString_spaced (hread _ rfl) h htext "match_field"
    show (parseGraphqlString F (strip text) "match_field" >>= _) = _
    rw [hparse]
    rfl
  | vector values =>
    have hparse := parseGraphqlVector_spaced hread h htext "near"
    show (parseGraphqlVector F (strip text) "near" >>= _) = _
    rw [hparse]
    rfl
  | vectorField field =>
    have hparse := parseGraphqlString_spaced (hread _ rfl) h htext "near_field"
    show (parseGraphqlString F (strip text) "near_field" >>= _) = _
    rw [hparse]
    rfl
  | limit topK =>
    have hvalue := (hread _ rfl).parse (fun _ hc => by cases hc) htext
    have hnumber : (Value.number (.posInt (.ofNat topK))).asU64 = some topK := by
      have htop : (UInt64.ofNat topK).toNat = topK := UInt64.toNat_ofNat_of_lt' (by
        have hle := h.2
        rw [usizeMax] at hle
        rw [UInt64.size]
        omega)
      rw [Value.asU64, htop]
    have hparse : parseGraphqlLimit F (strip text) = .ok topK := by
      obtain ⟨k, rfl⟩ : ∃ k, topK = k + 1 := ⟨topK - 1, by have := h.1; omega⟩
      rw [parseGraphqlLimit, hvalue, Except.ok_bind, hnumber]
      rfl
    show (parseGraphqlLimit F (strip text) >>= _) = _
    rw [hparse]
    rfl
  | freshness mode =>
    have hvalue := (hread _ rfl).parse (fun _ hc => by cases hc) htext
    have hparse : parseGraphqlFreshness F (strip text) = .ok mode := by
      have hword : (Value.asStr (.string (freshnessWord mode))).bind
          (fun raw => freshnessOfWord raw.toList) = some mode := (freshnessWord_spec mode).2.2
      rw [parseGraphqlFreshness, hvalue, Except.ok_bind, hword]
    show (parseGraphqlFreshness F (strip text) >>= _) = _
    rw [hparse]
    rfl
  | explain flag =>
    have hvalue := (hread _ rfl).parse (fun _ hc => by cases hc) htext
    have hparse : parseGraphqlBool F (strip text) "explain" = .ok flag := by
      rw [parseGraphqlBool, hvalue, Except.ok_bind]
    show (parseGraphqlBool F (strip text) "explain" >>= _) = _
    rw [hparse]
    rfl

end TraceDB
