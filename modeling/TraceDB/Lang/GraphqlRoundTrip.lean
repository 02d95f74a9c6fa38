import TraceDB.Lang.GraphqlPrinter

/-!
# The round trip of the bounded form of GraphQL

The arguments of a text set the parts of a draft one by one (`foldlM_arguments`), in any order
(`foldl_set_perm`).  The loops around them find the root field, its arguments and its selection
(`graphqlOperationBody_spaced`, `graphqlRootSelection_spaced`).

* `graphql_round_trip` : a query compiles to itself, with its arguments in any order and with any
  white space and comments between the tokens of its text.
-/

namespace TraceDB

open Brackets Text

variable {S : Type} {F : CompilerFormat S} {P : JsonPrinter S}

/-! ### All arguments -/

theorem canonicalGraphqlName_name (argument : GraphqlArgument S) :
    canonicalGraphqlName argument.name = argument.name := by
  cases argument <;> rfl

theorem GraphqlArgument.set_withSeen (draft : GraphqlDraft S) (argument : GraphqlArgument S)
    (seen : List String) :
    argument.set { draft with seen := seen } = { argument.set draft with seen := seen } := by
  cases argument <;> rfl

theorem GraphqlArgument.valueTokens_spec {argument : GraphqlArgument S} (h : argument.Named) :
    argument.valueTokens P ≠ [] ∧ ∀ token ∈ argument.valueTokens P, Visible token := by
  refine ⟨?_, (graphqlTokens_value P h).visible⟩
  have hvalue : ∀ value : Value, value.tokens P ≠ [] := fun value => value.tokens_ne_nil P
  cases argument with
  | whereFields entries => exact List.cons_ne_nil _ _
  | vector values => exact List.cons_ne_nil _ _
  | tenantId tenant => exact hvalue (.string tenant)
  | text words => exact hvalue (.string words)
  | textField field => exact hvalue (.string field)
  | vectorField field => exact hvalue (.string field)
  | limit topK => exact hvalue (.number (.posInt (.ofNat topK)))
  | freshness mode => exact hvalue (.string (freshnessWord mode))
  | explain flag => exact hvalue (.bool flag)

theorem foldl_set_seen (arguments : List (GraphqlArgument S)) (draft : GraphqlDraft S)
    (seen : List String) :
    arguments.foldl GraphqlArgument.set { draft with seen := seen } =
      { arguments.foldl GraphqlArgument.set draft with seen := seen } := by
  induction arguments generalizing draft with
  | nil => rfl
  | cons argument arguments ih =>
    rw [List.foldl_cons, List.foldl_cons, GraphqlArgument.set_withSeen, ih]

/-- One argument of a text, under a name that was not seen. -/
theorem apply_part {argument : GraphqlArgument S} (h : argument.Valid)
    (hread : argument.Lossless F P) {part : List Char} (hpart : IsPart part (argument.tokens P))
    {draft : GraphqlDraft S} (hnew : argument.name ∉ draft.seen)
    (hempty : argument.name = "where" → draft.scalarEq = ∅) :
    GraphqlDraft.apply F draft (strip part) =
      .ok { argument.set draft with seen := argument.name :: draft.seen } := by
  obtain ⟨hne, hvisible⟩ := argument.valueTokens_spec (P := P) h.named
  obtain ⟨text, htext, hpartVisible, hsplit⟩ :=
    splitGraphqlNameValue_part (F := F) argument.isGraphqlName hne hvisible hpart
  have happly : GraphqlDraft.applyNamed F { draft with
      seen := argument.name :: draft.seen } argument.name
      (strip text) = .ok (argument.set { draft with seen := argument.name :: draft.seen }) :=
    applyNamed_spaced h hread htext hempty
  rw [GraphqlDraft.apply, hpartVisible.strip, if_neg hpartVisible.ne_nil, hsplit, Except.ok_bind]
  dsimp only
  rw [String.ofList_toList, canonicalGraphqlName_name, if_neg hnew, happly,
    GraphqlArgument.set_withSeen]

/-- The arguments of a text set what they say, one after the other. -/
theorem foldlM_arguments {arguments : List (GraphqlArgument S)} {parts : List (List Char)}
    (hparts : List.Forall₂ IsPart parts (arguments.map (GraphqlArgument.tokens P)))
    (hvalid : ∀ argument ∈ arguments, argument.Valid)
    (hread : ∀ argument ∈ arguments, argument.Lossless F P)
    (hnodup : (arguments.map GraphqlArgument.name).Nodup) {draft : GraphqlDraft S}
    (hnew : ∀ argument ∈ arguments, argument.name ∉ draft.seen)
    (hempty : "where" ∉ draft.seen → draft.scalarEq = ∅) :
    ∃ seen, (parts.map strip).foldlM (GraphqlDraft.apply F) draft =
      .ok { arguments.foldl GraphqlArgument.set draft with seen := seen } := by
  induction arguments generalizing parts draft with
  | nil =>
    cases hparts
    exact ⟨draft.seen, rfl⟩
  | cons argument arguments ih =>
    obtain - | ⟨hpart, hmore⟩ := hparts
    rename_i part parts
    rw [List.forall_mem_cons] at hvalid hread hnew
    rw [List.map_cons, List.nodup_cons] at hnodup
    have hstep := apply_part hvalid.1 hread.1 hpart hnew.1 fun hname => hempty (hname ▸ hnew.1)
    have hnext : ∀ other ∈ arguments, other.name ∉ argument.name :: draft.seen := by
      intro other hother hmem
      rcases List.mem_cons.1 hmem with hsame | hseen
      · exact hnodup.1 (hsame ▸ List.mem_map_of_mem hother)
      · exact hnew.2 other hother hseen
    -- Only `where` sets the conditions.
    have hconditions : "where" ∉ argument.name :: draft.seen →
        (argument.set draft).scalarEq = ∅ := by
      intro hwhere
      rw [List.mem_cons, not_or] at hwhere
      have hsame := hempty hwhere.2
      cases argument with
      | whereFields entries => exact absurd rfl hwhere.1
      | _ => exact hsame
    obtain ⟨seen, hrest⟩ : ∃ seen, (parts.map strip).foldlM (GraphqlDraft.apply F)
        { argument.set draft with seen := argument.name :: draft.seen } =
          .ok { arguments.foldl GraphqlArgument.set
            { argument.set draft with seen := argument.name :: draft.seen } with seen := seen } :=
      ih hmore hvalid.2 hread.2 hnodup.2 hnext hconditions
    refine ⟨seen, ?_⟩
    rw [List.map_cons, List.foldlM_cons, hstep, Except.ok_bind, hrest, List.foldl_cons,
      foldl_set_seen]

/-! ### The arguments of a query -/

section

variable {query : HybridQuery S} {entries : List (String × Value)}

theorem HybridQuery.nodup_graphqlArguments :
    ((query.graphqlArguments entries).map GraphqlArgument.name).Nodup := by
  have hnames : ((query.graphqlArguments entries).map GraphqlArgument.name).Sublist
      ["tenant_id", "where", "match", "match_field", "near", "near_field", "limit",
        "freshness", "explain"] := by
    have hoption : ∀ {α : Type} (o : Option α) (f : α → GraphqlArgument S) (name : String)
        (rest : List (GraphqlArgument S)) (names : List String), (∀ a, (f a).name = name) →
          (rest.map GraphqlArgument.name).Sublist names →
          ((o.toList.map f ++ rest).map GraphqlArgument.name).Sublist (name :: names) := by
      intro α o f name rest names hname hrest
      cases o with
      | none => exact hrest.cons name
      | some a =>
        show ((f a).name :: rest.map GraphqlArgument.name).Sublist (name :: names)
        rw [hname]
        exact hrest.cons_cons name
    refine .cons_cons _ (.cons_cons _ ?_)
    refine hoption _ _ _ _ _ (fun _ => rfl)
      (hoption _ _ _ _ _ (fun _ => rfl)
        (hoption _ _ _ _ _ (fun _ => rfl) (hoption _ _ _ _ _ (fun _ => rfl) ?_)))
    exact List.Sublist.refl _
  exact hnames.nodup (by decide)

/-- The arguments of a query of the fragment can be written. -/
theorem GraphqlFragment.valid (h : GraphqlFragment query)
    (hentries : entries.Perm query.scalarEq.toList) :
    ∀ argument ∈ query.graphqlArguments entries, argument.Valid := by
  intro argument hargument
  simp only [HybridQuery.graphqlArguments, List.mem_cons, List.mem_append, List.mem_map,
    Option.mem_toList, List.not_mem_nil, or_false] at hargument
  rcases hargument with rfl | rfl | ⟨words, hwords, rfl⟩ | ⟨field, hfield, rfl⟩ | ⟨vector,
    hvector, rfl⟩ |
    ⟨field, hfield, rfl⟩ | rfl | rfl | rfl
  · exact h.tenantId
  · exact ⟨SortedMap.nodup_of_perm_toList hentries, fun entry hentry => h.field entry
      (hentries.mem_iff.1 hentry),
      fun entry hentry => h.not_object entry (hentries.mem_iff.1 hentry)⟩
  · rintro rfl
    exact h.text hwords
  · rintro rfl
    exact h.textField hfield
  · rintro rfl
    exact h.vector hvector
  · rintro rfl
    exact h.vectorField hfield
  · exact ⟨h.topK_pos, h.topK_le⟩
  · exact trivial
  · exact trivial

/-- The order of the arguments makes no difference. -/
theorem foldl_set_perm {arguments : List (GraphqlArgument S)}
    (hperm : arguments.Perm (query.graphqlArguments entries)) (draft : GraphqlDraft S) :
    arguments.foldl GraphqlArgument.set draft =
      (query.graphqlArguments entries).foldl GraphqlArgument.set draft := by
  have hnodup : (arguments.map GraphqlArgument.name).Nodup :=
    (hperm.map _).nodup_iff.2 HybridQuery.nodup_graphqlArguments
  apply hperm.foldl_eq'
  intro a ha b hb draft
  by_cases hname : a.name = b.name
  · rw [List.inj_on_of_nodup_map hnodup ha hb hname]
  · exact GraphqlArgument.set_comm draft hname

/-- The arguments of a query set all of it. -/
theorem finish_graphqlArguments (h : GraphqlFragment query)
    (hentries : entries.Perm query.scalarEq.toList) (seen : List String) :
    GraphqlDraft.finish
      { (query.graphqlArguments entries).foldl GraphqlArgument.set .empty with seen := seen }
        query.table = .ok query := by
  have hfields := SortedMap.ofEntries_eq_of_perm hentries
  obtain ⟨table, tenantId, cursor, textField, text, vectorField, vector, scalarEq,
      graphSeed, temporalAsOf,
    topK, freshness, explain⟩ := query
  obtain ⟨-, -, -, -, -, -, -, -, -, hcursor, hgraph, htime, -, -⟩ := h
  dsimp only at hfields hcursor hgraph htime
  subst hfields hcursor hgraph htime
  cases text <;> cases textField <;> cases vector <;> cases vectorField <;> rfl

end

/-! ### The loops around the arguments -/

/-- A name is read up to its end. -/
theorem takeGraphqlIdentifier_name {name : String} (h : IsGraphqlName name) {rest : List Char}
    (hrest : rest.head?.any isGraphqlNameChar = false) :
    takeGraphqlIdentifier (name.toList ++ rest) = some (name.toList, rest) := by
  obtain ⟨hstart, hchars⟩ := h
  have hspaces := IsGraphqlName.isWord ⟨hstart, hchars⟩
  cases hname : name.toList with
  | nil => exact absurd hname hspaces.1
  | cons c more =>
    rw [hname] at hstart hchars
    rw [List.forall_mem_cons] at hchars
    have hc : isGraphqlNameStart c = true := hstart
    have hspace : isWhitespace c = false := hspaces.2 c (hname ▸ List.mem_cons_self)
    have htrim : trimStart (c :: more ++ rest) = c :: (more ++ rest) :=
      List.dropWhile_cons_of_neg (by simp [hspace])
    have htake : rest.takeWhile isGraphqlNameChar = [] ∧
        rest.dropWhile isGraphqlNameChar = rest := by
      cases rest with
      | nil => exact ⟨rfl, rfl⟩
      | cons d rest =>
        have hd : isGraphqlNameChar d = false := hrest
        exact ⟨List.takeWhile_cons_of_neg (by simp [hd]), List.dropWhile_cons_of_neg (by simp [hd])⟩
    rw [takeGraphqlIdentifier, htrim]
    dsimp only
    rw [if_pos hc, List.takeWhile_append_of_pos hchars.2, List.dropWhile_append_of_pos hchars.2,
      htake.1, htake.2, List.append_nil]

/-- Tokens in braces are the selection set of a query. -/
theorem graphqlOperationBody_spaced {inner : List (List Char)} (htree : TokenTree inner)
    {space text : List Char} (hspace : JsonBlank space)
    (h : Spaced JsonBlank (['\x7b'] :: (inner ++ [['\x7d']])) text) :
    ∃ before body, graphqlOperationBody (space ++ text) = .ok (before ++ body) ∧ JsonBlank before ∧
      Spaced JsonBlank inner body := by
  obtain ⟨before, inside, after, rfl, hbefore, hafter, hinside⟩ := group_of_spaced h
  have hvisible : Visible ('\x7b' :: (before ++ inside ++ ['\x7d'])) :=
    ⟨⟨_, _, rfl, by decide⟩, ⟨'\x7b' :: (before ++ inside), '\x7d', rfl, by decide⟩⟩
  have hstrip : strip (space ++ '\x7b' :: (before ++ inside ++ '\x7d' :: after)) =
      '\x7b' :: (before ++ inside ++ ['\x7d']) := by
    have haround := strip_around hspace.white hafter.white hvisible
    simpa using haround
  have hmatch := matchingGraphqlDelimiter_nested .braces
    (hbefore.nested.append (nested_of_spaced htree hinside)) []
  have hoperation : checkGraphqlOperation [] = .ok () := by
    rw [checkGraphqlOperation]
    rfl
  refine ⟨before, inside, ?_, hbefore, hinside⟩
  rw [graphqlOperationBody, hstrip, if_neg (List.cons_ne_nil _ _),
    List.dropWhile_cons_of_neg (by simp), List.takeWhile_cons_of_neg (by simp)]
  dsimp only
  rw [hoperation, Except.ok_bind, hmatch]
  rfl

/-- `id` in braces is a selection. -/
theorem checkGraphqlSelection_spaced {before inside : List Char} (hbefore : JsonBlank before)
    (hinside : Spaced JsonBlank ["id".toList] inside) :
    checkGraphqlSelection ('\x7b' :: (before ++ inside ++ ['\x7d'])) = .ok () := by
  obtain ⟨behind, _, rfl, hbehind, ⟨⟩⟩ := hinside.cons_inv
  rw [List.append_nil]
  have hid : Nested "id".toList := .of_plain (by decide)
  have hnested : Nested (before ++ ("id".toList ++ behind)) :=
    hbefore.nested.append (hid.append hbehind.nested)
  have hmatch := matchingGraphqlDelimiter_nested .braces hnested []
  have hword : Visible "id".toList := ⟨⟨_, _, rfl, by decide⟩, ⟨['i'], 'd', rfl, by decide⟩⟩
  have hselection : strip (before ++ ("id".toList ++ behind)) = "id".toList :=
    strip_around hbefore.white hbehind.white hword
  rw [checkGraphqlSelection, if_neg (by simp), hmatch]
  dsimp only
  rw [hselection]
  decide

/-- The root field with its arguments. -/
theorem graphqlRootSelection_spaced {table : String} (htable : IsGraphqlName table)
    (hintrospection : ¬ "__".toList <+: table.toList) {inner : List (List Char)}
    (htree : TokenTree inner) {space text : List Char} (hspace : JsonBlank space)
    (h : Spaced JsonBlank (table.toList :: ['('] :: (inner ++
      [[')'], ['\x7b'], "id".toList, ['\x7d']])) text) :
    ∃ before arguments, graphqlRootSelection (space ++ text) =
      .ok (table.toList, before ++ arguments) ∧
      JsonBlank before ∧ Spaced JsonBlank inner arguments := by
  obtain ⟨s1, rest, rfl, hs1, hrest⟩ := h.cons_inv
  have htokens : ['('] :: (inner ++ [[')'], ['\x7b'], "id".toList, ['\x7d']]) =
      (['('] :: (inner ++ [[')']])) ++ (['\x7b'] :: (["id".toList] ++ [['\x7d']])) := by simp
  rw [htokens] at hrest
  obtain ⟨front, back, rfl, hfront, hback⟩ := hrest.append_inv
  obtain ⟨before, inside, s2, rfl, hbefore, hs2, hinside⟩ := group_of_spaced hfront
  obtain ⟨b, selected, after, rfl, hb, hafter, hselected⟩ := group_of_spaced hback
  let selection := '\x7b' :: (b ++ selected ++ ['\x7d'])
  let arguments := '(' :: (before ++ inside ++ ')' :: (s2 ++ selection))
  have hselection : Visible selection :=
    ⟨⟨_, _, rfl, by decide⟩, ⟨'\x7b' :: (b ++ selected), '\x7d', rfl, by decide⟩⟩
  have hvisible : Visible (table.toList ++ (s1 ++ arguments)) := by
    have haround := htable.isWord.visible.around hselection
      (s1 ++ '(' :: (before ++ inside ++ ')' :: s2))
    simpa only [arguments, List.append_assoc, List.cons_append] using haround
  have hstrip : strip (space ++ (table.toList ++ (s1 ++ ('(' :: (before ++ inside ++ ')' :: s2) ++
      '\x7b' :: (b ++ selected ++ '\x7d' :: after))))) = table.toList ++ (s1 ++ arguments) := by
    have haround := strip_around hspace.white hafter.white hvisible
    simpa [arguments, selection] using haround
  -- The table ends where the white space or the arguments begin.
  have hname : takeGraphqlIdentifier (table.toList ++ (s1 ++ arguments)) =
      some (table.toList, s1 ++ arguments) := by
    refine takeGraphqlIdentifier_name htable ?_
    cases s1 with
    | nil => rfl
    | cons c s1 =>
      have hc : isJsonWhitespace c = true := hs1 c List.mem_cons_self
      show isGraphqlNameChar c = false
      rw [Bool.eq_false_iff]
      intro hchar
      have hwhite := (isJsonWhitespace_spec hc).1
      rw [(isGraphqlNameChar_spec hchar).2.1] at hwhite
      cases hwhite
  have htrim : trimStart (s1 ++ arguments) = arguments := by
    rw [trimStart, List.dropWhile_append_of_pos hs1.white]
    exact List.dropWhile_cons_of_neg (by decide)
  have hmatch := matchingGraphqlDelimiter_nested .parens
    (hbefore.nested.append (nested_of_spaced htree hinside)) (s2 ++ selection)
  have htrimSelection : trimStart (s2 ++ selection) = selection := by
    rw [trimStart, List.dropWhile_append_of_pos hs2.white]
    exact List.dropWhile_cons_of_neg (by decide)
  have hdots : ¬ "...".toList <+: table.toList ++ (s1 ++ arguments) := by
    intro hprefix
    obtain ⟨c, more, hchars, -⟩ := htable.isWord.visible.head
    rw [hchars] at hprefix
    have hdot : '.' = c := (List.cons_prefix_cons.1 hprefix).1
    refine htable.not_mem (c := '.') (by decide) ?_
    rw [hchars, hdot]
    exact List.mem_cons_self
  refine ⟨before, inside, ?_, hbefore, hinside⟩
  rw [graphqlRootSelection, hstrip, if_neg hvisible.ne_nil,
    if_neg (by rwa [List.isPrefixOf_iff_prefix]), hname]
  dsimp only
  rw [htrim, if_neg (by rwa [List.isPrefixOf_iff_prefix]), if_neg (by simp [arguments]),
    if_neg (by simp [arguments])]
  have hmatch' : matchingGraphqlDelimiter arguments '(' ')' =
      some (before ++ inside, s2 ++ selection) := hmatch
  rw [hmatch']
  dsimp only
  rw [htrimSelection, checkGraphqlSelection_spaced hb hselected]
  rfl

/-! ### The round trip -/

/-- A query of the bounded form compiles to itself, with its arguments in any order, and with any
white space and comments around the tokens of its text, if `serde_json` reads back the values in
it. -/
theorem graphql_round_trip {query : HybridQuery S} (h : GraphqlFragment query)
    {entries : List (String × Value)} (hentries : entries.Perm query.scalarEq.toList)
    {arguments : List (GraphqlArgument S)}
    (harguments : arguments.Perm (query.graphqlArguments entries)) (hread : ∀ argument ∈ arguments,
      argument.Lossless F P) {gap text : List Char} (hgap : GraphqlGap gap)
    (htext : Spaced GraphqlGap (graphqlTokens P query.table arguments) text) :
    graphqlQueryFromStr F (String.ofList (gap ++ text)) = .ok query := by
  have hvalid : ∀ argument ∈ arguments, argument.Valid :=
    fun argument hargument => h.valid hentries argument (harguments.mem_iff.1 hargument)
  have hnodup : (arguments.map GraphqlArgument.name).Nodup :=
    (harguments.map _).nodup_iff.2 HybridQuery.nodup_graphqlArguments
  have hne : arguments ≠ [] := by
    rintro rfl
    cases harguments.nil_eq
  -- The tokens inside the brackets of the arguments.
  let inner := withCommas (arguments.map (GraphqlArgument.tokens P))
  have hinner : GraphqlTokens inner := by
    refine .withCommas fun tokens htokens => ?_
    obtain ⟨argument, hargument, rfl⟩ := List.mem_map.1 htokens
    exact graphqlTokens_argument P (hvalid argument hargument).named
  have hselection : GraphqlTokens [['\x7b'], "id".toList, ['\x7d']] :=
    .group .braces (.word ⟨by decide, by decide⟩ (by decide))
  let body := query.table.toList :: (['('] :: (inner ++ [[')']])) ++
    [['\x7b'], "id".toList, ['\x7d']]
  have hbody : GraphqlTokens body :=
    ((GraphqlTokens.word h.table.isWord h.table.plain).append (.group .parens hinner)).append
      hselection
  have htokens : graphqlTokens P query.table arguments = ['\x7b'] :: (body ++ [['\x7d']]) := by
    simp [graphqlTokens, body, inner]
  have hall : GraphqlTokens (graphqlTokens P query.table arguments) :=
    htokens ▸ .group .braces hbody
  -- Without its comments the text still has its tokens.
  obtain ⟨space, hspace, hstrip⟩ := stripGraphqlCommentsFrom_gap hgap
  have hplain := stripGraphqlCommentsFrom_spaced hall.verbatim htext
  rw [htokens] at hplain
  obtain ⟨b1, inside, hoperation, hb1, hinside⟩ :=
    graphqlOperationBody_spaced hbody.tree hspace hplain
  have hshape : body = query.table.toList :: ['('] ::
      (inner ++ [[')'], ['\x7b'], "id".toList, ['\x7d']]) := by
    simp [body]
  rw [hshape] at hinside
  obtain ⟨b2, written, hroot, hb2, hwritten⟩ :=
    graphqlRootSelection_spaced h.table h.not_introspection hinner.tree hb1 hinside
  -- Each part between the commas is an argument.
  have hwhole : ∀ tokens ∈ arguments.map (GraphqlArgument.tokens P), ∀ text,
      Spaced JsonBlank tokens text →
      Whole ',' text := by
    intro tokens htokens text htext
    obtain ⟨argument, hargument, rfl⟩ := List.mem_map.1 htokens
    exact whole_of_argument P (hvalid argument hargument).named htext
  obtain ⟨parts, hcut, hparts⟩ := cut_spaced (by simpa using hne) hwhole hb2 hwritten
  have hsplit : splitGraphqlTopLevel (b2 ++ written) ',' = .ok (parts.map strip) := by
    refine Except.eq_ok_of_toOption ?_
    rw [splitGraphqlTopLevel, splitGraphqlTopLevelFrom_eq, hcut]
    rfl
  obtain ⟨seen, hfold⟩ : ∃ seen, (parts.map strip).foldlM (GraphqlDraft.apply F) .empty =
      .ok { arguments.foldl GraphqlArgument.set .empty with seen := seen } :=
    foldlM_arguments hparts hvalid hread hnodup (fun _ _ => List.not_mem_nil) fun _ => rfl
  rw [graphqlQueryFromStr, String.toList_ofList, stripGraphqlComments, hstrip]
  dsimp only
  rw [hoperation, Except.ok_bind, hroot, Except.ok_bind]
  dsimp only
  rw [hsplit, Except.ok_bind, hfold, Except.ok_bind, foldl_set_perm harguments,
    String.ofList_toList]
  exact finish_graphqlArguments h hentries seen


/-! ### A text with comments -/

/-- Each token with a gap behind it. -/
def withGaps (gap : List Char) (tokens : List (List Char)) : List Char := tokens.flatMap (· ++ gap)

theorem spaced_withGaps {gap : List Char} (hgap : GraphqlGap gap) (tokens : List (List Char)) :
    Spaced GraphqlGap tokens (withGaps gap tokens) := by
  induction tokens with
  | nil => exact .nil
  | cons token tokens ih =>
    have hcons : Spaced GraphqlGap (token :: tokens) (token ++ (gap ++ withGaps gap tokens)) :=
      .cons hgap ih
    rw [withGaps, List.flatMap_cons, List.append_assoc]
    exact hcons

/-- A blank and a comment with a quote and brackets in it. -/
def signsComment : List Char := " # \"\x7b ]),\n".toList

theorem graphqlGap_signsComment : GraphqlGap signsComment := by
  have hbody : ∀ c ∈ " \"\x7b ]),".toList, c ≠ '\n' ∧ c ≠ '\r' := by decide
  exact .blank rfl (.comment hbody (.inl rfl) .nil)

/-- A query whose strings hold quotes, brackets, commas, colons and comment signs. -/
def signsQuery : HybridQuery ℚ where
  table := "notes"
  tenantId := "a,b: #1"
  cursor := none
  textField := some "body"
  text := some "say \"hi\", \x7b#: [\n"
  vectorField := some "emb)"
  vector := some [3]
  scalarEq := SortedMap.ofEntries [("kind", .string "]\\\x7d, n: 1 #"), ("n", .number (.posInt 7))]
  graphSeed := none
  temporalAsOf := none
  topK := 5
  freshness := .lazy
  explain := true

theorem readsBack_of_token {value : Value} {token : List Char}
    (htokens : value.tokens JsonPrinter.reference = [token]) (hvisible : Visible token)
    (hread : readJson (String.ofList token) = .ok value) :
      ReadsBack .reference .reference value := by
  intro text htext
  rw [htokens] at htext
  obtain ⟨space, _, rfl, hspace, ⟨⟩⟩ := htext.cons_inv
  have hnone : ∀ c ∈ ([] : List Char), isWhitespace c = true := by simp
  have hstrip : strip (token ++ (space ++ [])) = token := by
    rw [List.append_nil]
    exact strip_around hnone hspace.white hvisible
  rw [hstrip]
  exact hread

theorem readsBack_string {s : String}
    (hread : readJson (String.ofList (quoted s)) = .ok (.string s)) :
    ReadsBack .reference .reference (.string s) :=
  readsBack_of_token rfl (quoted_text s).edged.visible hread

theorem dropWhile_blank {space : List Char} (h : JsonBlank space) {c : Char}
    (hc : isJsonWhitespace c = false) (rest : List Char) :
      (space ++ c :: rest).dropWhile isJsonWhitespace = c :: rest := by
  rw [List.dropWhile_append_of_pos h]
  exact List.dropWhile_cons_of_neg (by simp [hc])

/-- The vector of one number, with any white space in it. -/
theorem vectorReadsBack_three : VectorReadsBack .reference .reference [3] := by
  intro text htext
  have htokens : vectorTokens JsonPrinter.reference [3] = [['['], ['3'], [']']] := by decide +kernel
  rw [htokens] at htext
  obtain ⟨s1, _, rfl, hs1, htext⟩ := htext.cons_inv
  obtain ⟨s2, _, rfl, hs2, htext⟩ := htext.cons_inv
  obtain ⟨s3, _, rfl, hs3, ⟨⟩⟩ := htext.cons_inv
  have hnone : ∀ c ∈ ([] : List Char), isWhitespace c = true := by simp
  have hvisible : Visible ('[' :: (s1 ++ '3' :: (s2 ++ [']']))) :=
    ⟨⟨_, _, rfl, by decide⟩, ⟨'[' :: (s1 ++ '3' :: s2), ']', by simp, by decide⟩⟩
  have hstrip : strip (['['] ++ (s1 ++ (['3'] ++ (s2 ++ ([']'] ++ (s3 ++ [])))))) =
      '[' :: (s1 ++ '3' :: (s2 ++ [']'])) := by
    have haround := strip_around hnone hs3.white hvisible
    simpa using haround
  -- The digits of the number end where the white space or the bracket begins.
  have hdigits : (s2 ++ [']']).takeWhile Char.isDigit = [] ∧
      (s2 ++ [']']).dropWhile Char.isDigit = s2 ++ [']'] := by
    cases s2 with
    | nil => exact ⟨rfl, rfl⟩
    | cons c s2 =>
      have hc : c.isDigit = false := by
        have hblank : isJsonWhitespace c = true := hs2 c List.mem_cons_self
        simp only [isJsonWhitespace, Bool.or_eq_true, decide_eq_true_eq] at hblank
        rcases hblank with ((rfl | rfl) | rfl) | rfl <;> rfl
      exact ⟨List.takeWhile_cons_of_neg (by simp [hc]), List.dropWhile_cons_of_neg (by simp [hc])⟩
  have hnumber : ∀ n, readValue (n + 1) ('3' :: (s2 ++ [']'])) =
      some (.number (.posInt 3), s2 ++ [']']) := by
    intro n
    show (parseUsize (String.ofList ('3' :: (s2 ++ [']']).takeWhile Char.isDigit))).map (fun n =>
      (Value.number (.posInt (UInt64.ofNat n)), (s2 ++ [']']).dropWhile Char.isDigit)) = _
    rw [hdigits.1, hdigits.2]
    have hthree : parseUsize (String.ofList ['3']) = some 3 := by decide +kernel
    rw [hthree]
    rfl
  have hitems : ∀ n, readItems (n + 3) (s1 ++ '3' :: (s2 ++ [']'])) =
      some ([.number (.posInt 3)], []) := by
    intro n
    have hcomma : skipComma (s2 ++ [']']) = [']'] := by
      rw [skipComma, dropWhile_blank hs2 (by decide)]
      rfl
    rw [readItems, dropWhile_blank hs1 (by decide)]
    show (readValue (n + 2) ('3' :: (s2 ++ [']'])) >>= _) = _
    rw [hnumber]
    show (readItems (n + 2) (skipComma (s2 ++ [']'])) >>= _) = _
    rw [hcomma]
    rfl
  have hvalue : ∀ n, readValue (n + 4) ('[' :: (s1 ++ '3' :: (s2 ++ [']']))) =
      some (.array [.number (.posInt 3)], []) := by
    intro n
    show (readItems (n + 3) (s1 ++ '3' :: (s2 ++ [']']))).map _ = _
    rw [hitems]
    rfl
  have hlength : (String.ofList ('[' :: (s1 ++ '3' :: (s2 ++ [']'])))).length =
      s1.length + s2.length + 3 := by
    rw [String.length_ofList]
    simp only [List.length_cons, List.length_append, List.length_nil]
    omega
  refine ⟨.array [.number (.posInt 3)], ?_, by decide +kernel⟩
  rw [hstrip]
  show readJson _ = _
  rw [readJson, hlength, String.toList_ofList, hvalue]
  rfl

/-- The arguments of the query from the last to the first, with a comment behind every token. -/
theorem signsQuery_round_trip :
    graphqlQueryFromStr .reference (String.ofList (signsComment ++ withGaps signsComment
      (graphqlTokens .reference "notes"
        (signsQuery.graphqlArguments signsQuery.scalarEq.toList).reverse))) =
        .ok signsQuery := by
  have hentries : signsQuery.scalarEq.toList = [("kind", .string "]\\\x7d, n: 1 #"),
      ("n", .number (.posInt 7))] :=
    rfl
  have hnames : ∀ name ∈ ["notes", "kind", "n"], name.toList.head?.any isGraphqlNameStart = true ∧
      ∀ c ∈ name.toList, isGraphqlNameChar c = true := by decide
  have hfragment : GraphqlFragment signsQuery := by
    refine ⟨hnames _ (by decide),
      by decide, by decide, ?_, ?_,
      by decide, by decide, by decide, by decide, rfl, rfl, rfl, by decide, by decide⟩
    · rw [hentries, List.forall_mem_cons, List.forall_mem_singleton]
      exact ⟨hnames _ (by decide), hnames _ (by decide)⟩
    · rw [hentries, List.forall_mem_cons, List.forall_mem_singleton]
      exact ⟨(fun _ h => by cases h), fun _ h => by cases h⟩
  refine graphql_round_trip hfragment (List.Perm.refl _) (List.reverse_perm _)
    ?_ graphqlGap_signsComment
    (spaced_withGaps graphqlGap_signsComment _)
  intro argument hargument
  rw [List.mem_reverse] at hargument
  simp only [HybridQuery.graphqlArguments, List.mem_cons, List.mem_append, List.mem_map,
    Option.mem_toList, List.not_mem_nil, or_false] at hargument
  have hstring : ∀ {s : String}, (readJson (String.ofList (quoted s))).toOption = some (.string s) →
      ∀ value, some (Value.string s) = some value → ReadsBack .reference .reference value := by
    intro s hs value hvalue
    obtain rfl : Value.string s = value := Option.some.inj hvalue
    exact readsBack_string (Except.eq_ok_of_toOption hs)
  rcases hargument with rfl | rfl | ⟨words, hwords, rfl⟩ | ⟨field, hfield, rfl⟩ | ⟨vector,
    hvector, rfl⟩ |
    ⟨field, hfield, rfl⟩ | rfl | rfl | rfl
  · exact hstring (by decide +kernel)
  · show ∀ entry ∈ signsQuery.scalarEq.toList, ReadsBack .reference .reference entry.2
    rw [hentries, List.forall_mem_cons, List.forall_mem_singleton]
    refine ⟨hstring (by decide +kernel) _ rfl, ?_⟩
    exact readsBack_of_token rfl ⟨⟨_, _, rfl, by decide⟩, ⟨[], _, rfl, by decide⟩⟩
      (Except.eq_ok_of_toOption (by decide +kernel))
  · obtain rfl : "say \"hi\", \x7b#: [\n" = words := Option.some.inj hwords
    exact hstring (by decide +kernel)
  · obtain rfl : "body" = field := Option.some.inj hfield
    exact hstring (by decide +kernel)
  · obtain rfl : [3] = vector := Option.some.inj hvector
    exact vectorReadsBack_three
  · obtain rfl : "emb)" = field := Option.some.inj hfield
    exact hstring (by decide +kernel)
  · intro value hvalue
    obtain rfl : Value.number (.posInt 5) = value := Option.some.inj hvalue
    exact readsBack_of_token rfl ⟨⟨_, _, rfl, by decide⟩, ⟨[], _, rfl, by decide⟩⟩
      (Except.eq_ok_of_toOption (by decide +kernel))
  · exact hstring (by decide +kernel)
  · intro value hvalue
    obtain rfl : Value.bool true = value := Option.some.inj hvalue
    exact readsBack_of_token rfl ⟨⟨_, _, rfl, by decide⟩, ⟨['t', 'r', 'u'], 'e', rfl, by decide⟩⟩
      (Except.eq_ok_of_toOption (by decide +kernel))

end TraceDB
