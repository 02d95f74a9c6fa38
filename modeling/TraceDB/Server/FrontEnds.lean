import TraceDB.Data.Brackets
import TraceDB.Lang.Printer
import TraceDB.Lang.Words
import TraceDB.Server.Endpoint

/-!
# The front ends

Records are written and read on routes of their own, with commands of TraceQL and with fields of
GraphQL.  The three lead to one `Command`, and the command alone, with the actor, decides what is
done and what is answered.

* `splitTraceqlCommand_of_word` : a text that starts with the words of a command is split there.
* `graphqlInputString_of_text` : the argument `input` of a root field is found.
* `Phrases.parse` : the requests that phrase an operation parse to its command.
* `front_ends_agree` : runs of requests that phrase the same operations answer alike and leave the
  same server.
-/

open Brackets

namespace TraceDB

/-! ### TraceQL -/

/-- No command starts like another one. -/
theorem traceqlCommands_apart : ∀ entry ∈ traceqlCommands, ∀ other ∈ traceqlCommands,
    entry.1.toList.map Char.toLower <+: other.1.toList.map Char.toLower → entry = other := by
  decide +kernel

/-- Only one command is the one of a text. -/
theorem isCommand_unique {trimmed : String} {entry other : String × TraceqlCommand}
    (hentry : entry ∈ traceqlCommands) (hother : other ∈ traceqlCommands)
    (h : IsCommand trimmed entry) (h' : IsCommand trimmed other) : entry = other := by
  have hstart : ∀ e, IsCommand trimmed e →
      e.1.toList.map Char.toLower <+: trimmed.toList.map Char.toLower := by
    rintro e (hwhole | ⟨before, after, htext, heq, -, -⟩)
    · rw [eqIgnoreAsciiCase_iff.1 hwhole]
    · rw [htext, List.map_append, eqIgnoreAsciiCase_iff.1 heq]
      exact List.prefix_append _ _
  rcases List.prefix_or_prefix_of_prefix (hstart entry h) (hstart other h') with hprefix | hprefix
  · exact traceqlCommands_apart entry hentry other hother hprefix
  · exact (traceqlCommands_apart other hother entry hentry hprefix).symm

/-- The split at the command of a text, if no cut inside a character has come before. -/
theorem splitTraceqlCommandAmong_of_command {trimmed : String} {entry : String × TraceqlCommand}
    {shown after : List Char} (htext : trimmed.toList = shown ++ after)
    (hshown : eqIgnoreAsciiCase shown entry.1.toList = true)
    (hspace : after.head?.any isAsciiWhitespace = true) (hselect : ¬ (entry.2 = .explain ∧
      startsWithSqlishSelectPayload (Text.trim (String.ofList after)).toList = true))
    {commands : List (String × TraceqlCommand)} (hmem : entry ∈ commands)
    (hother : ∀ other ∈ commands, IsCommand trimmed other → other = entry)
    (hsplit : splitTraceqlCommandAmong trimmed commands ≠ none) :
    splitTraceqlCommandAmong trimmed commands =
      some (some (entry.2, Text.trim (String.ofList after))) := by
  induction commands with
  | nil => cases hmem
  | cons first rest ih =>
    by_cases hfirst : first = entry
    · subst hfirst
      obtain ⟨text, command⟩ := first
      have hlength : byteLength shown = text.utf8ByteSize :=
        (byteLength_of_eqIgnoreAsciiCase hshown).trans (utf8ByteSize_eq text).symm
      obtain ⟨c, after, rfl⟩ : ∃ c rest, after = c :: rest := by
        cases after with
        | nil => cases hspace
        | cons c after => exact ⟨c, after, rfl⟩
      have hlonger : text.utf8ByteSize < trimmed.utf8ByteSize := by
        have hpos := c.utf8Size_pos
        rw [utf8ByteSize_eq trimmed, htext, byteLength_append, byteLength_cons, hlength]
        omega
      have hwhole : ¬ eqIgnoreAsciiCase trimmed.toList text.toList = true := by
        intro heq
        have hsame := (byteLength_of_eqIgnoreAsciiCase heq).trans (utf8ByteSize_eq text).symm
        rw [← utf8ByteSize_eq] at hsame
        omega
      have hcut : splitBytes trimmed.toList text.utf8ByteSize = some (shown, c :: after) := by
        rw [← hlength]
        exact splitBytes_eq_some_iff.2 ⟨htext, rfl⟩
      rw [splitTraceqlCommandAmong, if_neg hwhole, if_pos hlonger, hcut]
      dsimp only
      rw [if_pos (by rw [hshown, hspace]; rfl), if_neg hselect]
    · have hnot : ¬ IsCommand trimmed first := fun h => hfirst (hother first List.mem_cons_self h)
      rcases splitTraceqlCommandAmong_cons trimmed first rest with ⟨-, -, hnone⟩ |
        ⟨-, hcommand, -⟩ | ⟨-, -, hrest⟩
      · exact absurd hnone hsplit
      · exact absurd hcommand hnot
      · rw [hrest] at hsplit ⊢
        exact ih ((List.mem_cons.1 hmem).resolve_left fun h => hfirst h.symm)
          (fun other hmem => hother other (List.mem_cons_of_mem _ hmem)) hsplit

/-- A text that starts with the words of a command is split after them, unless it panics. -/
theorem splitTraceqlCommand_of_word {text : String} {entry : String × TraceqlCommand}
    (hentry : entry ∈ traceqlCommands) {shown after : List Char}
    (htext : (Text.trim text).toList = shown ++ after)
    (hshown : eqIgnoreAsciiCase shown entry.1.toList = true)
    (hspace : after.head?.any isAsciiWhitespace = true) (hselect : ¬ (entry.2 = .explain ∧
      startsWithSqlishSelectPayload (Text.trim (String.ofList after)).toList = true))
    (hsplit : splitTraceqlCommand text ≠ none) :
    splitTraceqlCommand text = some (some (entry.2, Text.trim (String.ofList after))) :=
  splitTraceqlCommandAmong_of_command htext hshown hspace hselect hentry
    (fun _ hother h => isCommand_unique hother hentry h
      (.inr ⟨shown, after, htext, hshown, hspace, hselect⟩)) hsplit

/-! ### GraphQL -/

theorem dropWhile_paren {skipped rest : List Char} (h : '(' ∉ skipped) :
    (skipped ++ '(' :: rest).dropWhile (· ≠ '(') = '(' :: rest := by
  rw [List.dropWhile_append_of_pos]
  · exact List.dropWhile_cons_of_neg (by simp)
  · intro c hc
    exact decide_eq_true fun hparen => h (hparen ▸ hc)

/-- What is found after a name ends at the parenthesis, if there is none before. -/
theorem afterFirst_dropWhile {needle before gap rest : List Char} (hbefore : '(' ∉ before)
    (hneedle : '(' ∉ needle) (hgap : '(' ∉ gap) :
    ∃ after, afterFirst needle (before ++ (needle ++ (gap ++ '(' :: rest))) = some after ∧
      after.dropWhile (· ≠ '(') = '(' :: rest := by
  induction before with
  | nil =>
    refine ⟨gap ++ '(' :: rest, ?_, dropWhile_paren hgap⟩
    cases needle with
    | nil =>
      rw [List.nil_append, List.nil_append]
      cases gap <;> rfl
    | cons c needle =>
      have hprefix : (c :: needle).isPrefixOf (c :: (needle ++ (gap ++ '(' :: rest))) = true :=
        List.isPrefixOf_iff_prefix.2 (List.prefix_append (c :: needle) (gap ++ '(' :: rest))
      rw [List.nil_append, List.cons_append, afterFirst, if_pos hprefix, ← List.cons_append,
        List.drop_left]
  | cons c before ih =>
    rw [List.mem_cons, not_or] at hbefore
    rw [List.cons_append, afterFirst]
    split_ifs with hprefix
    · -- The name is found earlier; it has no parenthesis, and so ends before it.
      refine ⟨_, rfl, ?_⟩
      have hlen : needle.length ≤ (c :: before ++ (needle ++ gap)).length := by
        rw [List.length_append, List.length_append]
        omega
      have hsplit : c :: (before ++ (needle ++ (gap ++ '(' :: rest))) =
          (c :: before ++ (needle ++ gap)) ++ '(' :: rest := by
        simp
      rw [hsplit, List.drop_append_of_le_length hlen]
      refine dropWhile_paren fun hmem => ?_
      rcases List.mem_append.1 (List.mem_of_mem_drop hmem) with hmem | hmem
      · exact (List.mem_cons.1 hmem).elim hbefore.1 hbefore.2
      · exact (List.mem_append.1 hmem).elim hneedle hgap
    · exact ih hbefore.2

/-- What is found after a name that does not occur earlier: `gap` is of characters that are not in
it. -/
theorem afterFirst_of_not_infix {needle before gap rest : List Char} (hneedle : needle ≠ [])
    (hbefore : ¬ needle <:+: before) (hgap : gap ≠ []) (hother : ∀ c ∈ gap, c ∉ needle) :
    afterFirst needle (before ++ (gap ++ (needle ++ rest))) = some rest := by
  obtain ⟨first, name, rfl⟩ := List.exists_cons_of_ne_nil hneedle
  have hfound : afterFirst (first :: name) ((first :: name) ++ rest) = some rest := by
    have hprefix : (first :: name).isPrefixOf (first :: (name ++ rest)) = true :=
      List.isPrefixOf_iff_prefix.2 (List.prefix_append (first :: name) rest)
    rw [List.cons_append, afterFirst, if_pos hprefix, ← List.cons_append, List.drop_left]
  have hskip : ∀ skipped : List Char, (∀ c ∈ skipped, c ∉ first :: name) →
      afterFirst (first :: name) (skipped ++ ((first :: name) ++ rest)) = some rest := by
    intro skipped hskipped
    induction skipped with
    | nil => exact hfound
    | cons c skipped ih =>
      rw [List.forall_mem_cons] at hskipped
      rw [List.cons_append, afterFirst, if_neg, ih hskipped.2]
      intro hprefix
      obtain ⟨rfl, -⟩ := List.cons_prefix_cons.1 (List.isPrefixOf_iff_prefix.1 hprefix)
      exact hskipped.1 List.mem_cons_self
  induction before with
  | nil => exact hskip gap hother
  | cons c before ih =>
    rw [List.cons_append, afterFirst, if_neg,
      ih fun hin => hbefore (hin.trans (List.suffix_cons c before).isInfix)]
    intro hprefix
    rcases List.prefix_or_prefix_of_prefix (List.isPrefixOf_iff_prefix.1 hprefix)
      (List.prefix_append (c :: before) (gap ++ ((first :: name) ++ rest))) with hin | ⟨tail, htail⟩
    · exact hbefore hin.isInfix
    · -- The name would reach into the gap.
      obtain ⟨d, gap, rfl⟩ := List.exists_cons_of_ne_nil hgap
      rw [← htail, List.isPrefixOf_iff_prefix, ← List.cons_append,
        List.prefix_append_right_inj] at hprefix
      cases tail with
      | nil =>
        rw [List.append_nil] at htail
        exact hbefore (htail ▸ List.infix_rfl)
      | cons d' tail =>
        obtain ⟨rfl, -⟩ := List.cons_prefix_cons.1 hprefix
        refine hother d' List.mem_cons_self ?_
        rw [← htail]
        exact List.mem_append_right _ List.mem_cons_self

/-- A text that the scanners of arguments pass over, outside of literals. -/
structure Flat (text : List Char) : Prop where
  matching : ∀ depth rest, matchingFrom '(' ')' depth false false (text ++ rest) =
    (text ++ ·) <$> matchingFrom '(' ')' depth false false rest
  parts : ∀ depth part rest, splitTopLevelFrom ',' depth false false part (text ++ rest) =
    splitTopLevelFrom ',' depth false false (text.reverse ++ part) rest

namespace Flat

variable {a b text : List Char}

theorem nil : Flat [] where
  matching depth rest := by
    cases h : matchingFrom '(' ')' depth false false rest with
    | none => simp [h]
    | some out => simp [h]
  parts _ _ _ := rfl

theorem append (ha : Flat a) (hb : Flat b) : Flat (a ++ b) where
  matching depth rest := by
    rw [List.append_assoc, ha.matching, hb.matching]
    cases matchingFrom '(' ')' depth false false rest with
    | none => rfl
    | some out => exact congrArg some (List.append_assoc a b out).symm
  parts depth part rest := by
    rw [List.append_assoc, ha.parts, hb.parts, List.reverse_append, List.append_assoc]

/-- A character that is no bracket, quote or comma. -/
theorem char {c : Char} (hplain : isPlain c = true) (hcomma : c ≠ ',') : Flat [c] := by
  have hne : ∀ d ∈ ['"', '\'', '#', '(', ')', '[', ']', '\x7b', '\x7d'], c ≠ d := by
    rintro d hd rfl
    rw [isPlain, List.contains_iff_mem.2 hd] at hplain
    cases hplain
  constructor
  · intro depth rest
    rw [List.singleton_append, matchingFrom, if_neg (hne '"' (by decide)),
      if_neg (hne '(' (by decide)), if_neg (hne ')' (by decide))]
    rfl
  · intro depth part rest
    have hopen : ¬ ((decide (c = '(') || decide (c = '[') || decide (c = '\x7b')) = true) := by
      simp [hne '(' (by decide), hne '[' (by decide), hne '\x7b' (by decide)]
    have hclose : ¬ ((decide (c = ')') || decide (c = ']') || decide (c = '\x7d')) = true) := by
      simp [hne ')' (by decide), hne ']' (by decide), hne '\x7d' (by decide)]
    rw [List.singleton_append, splitTopLevelFrom, if_neg (hne '"' (by decide)), if_neg hopen,
      if_neg hclose, if_neg (by simp [hcomma])]
    rfl

theorem of_forall (h : ∀ c ∈ text, isPlain c = true ∧ c ≠ ',') : Flat text := by
  induction text with
  | nil => exact nil
  | cons c text ih =>
    rw [List.forall_mem_cons] at h
    exact (char h.1.1 h.1.2).append (ih h.2)

theorem matchingFrom_literal {body : List Char} (h : Literal body) (depth : ℕ) (rest : List Char) :
    matchingFrom '(' ')' depth true false (body ++ '"' :: rest) =
      (body ++ '"' :: ·) <$> matchingFrom '(' ')' depth false false rest := by
  induction h with
  | nil => rfl
  | char hquote hslash _ ih =>
    rw [List.cons_append, matchingFrom, if_neg Bool.false_ne_true, if_neg hslash,
      decide_eq_true hquote, ih]
    cases matchingFrom '(' ')' depth false false rest <;> rfl
  | escape c _ ih =>
    rw [List.cons_append, List.cons_append, matchingFrom, if_neg Bool.false_ne_true,
      if_pos rfl, matchingFrom, if_pos rfl, ih]
    cases matchingFrom '(' ')' depth false false rest <;> rfl

theorem splitTopLevelFrom_literal {body : List Char} (h : Literal body) (depth : ℕ)
    (part rest : List Char) :
    splitTopLevelFrom ',' depth true false part (body ++ '"' :: rest) =
      splitTopLevelFrom ',' depth false false ('"' :: (body.reverse ++ part)) rest := by
  induction h generalizing part with
  | nil => rfl
  | char hquote hslash _ ih =>
    rw [List.cons_append, splitTopLevelFrom, if_neg Bool.false_ne_true, if_neg hslash,
      decide_eq_true hquote, ih]
    simp
  | escape c _ ih =>
    rw [List.cons_append, List.cons_append, splitTopLevelFrom,
      if_neg Bool.false_ne_true, if_pos rfl, splitTopLevelFrom, if_pos rfl, ih]
    simp

/-- A literal. -/
theorem literal {body : List Char} (h : Literal body) : Flat ('"' :: (body ++ ['"'])) where
  matching depth rest := by
    rw [List.cons_append, matchingFrom, if_pos rfl, List.append_assoc, List.singleton_append,
      matchingFrom_literal h]
    cases matchingFrom '(' ')' depth false false rest with
    | none => rfl
    | some out => simp
  parts depth part rest := by
    rw [List.cons_append, splitTopLevelFrom, if_pos rfl, List.append_assoc, List.singleton_append,
      splitTopLevelFrom_literal h]
    simp

end Flat

/-- White space. -/
structure Blank where
  text : List Char
  blank : ∀ c ∈ text, Text.isWhitespace c = true

theorem Blank.plain (space : Blank) : ∀ c ∈ space.text, isPlain c = true ∧ c ≠ ',' ∧ c ≠ ':' := by
  intro c hc
  have hspace := space.blank c hc
  refine ⟨?_, ?_, ?_⟩
  · rw [isPlain, Bool.not_eq_true', Bool.eq_false_iff]
    intro hmem
    have hnone : ∀ d ∈ ['"', '\'', '#', '(', ')', '[', ']', '\x7b', '\x7d'],
        Text.isWhitespace d = false := by decide
    rw [hnone c (List.contains_iff_mem.1 hmem)] at hspace
    cases hspace
  · rintro rfl
    revert hspace
    decide
  · rintro rfl
    revert hspace
    decide

/-- A variable, or a literal. -/
inductive IsInput : List Char → Prop where
  | named {name : List Char} : (∀ c ∈ name, c.isAlphanum = true ∨ c = '_') → IsInput ('$' :: name)
  | literal {body : List Char} : Literal body → IsInput ('"' :: (body ++ ['"']))

/-- A root field and its argument `input`. -/
structure RootField where
  /-- What stands before the brace. -/
  before : List Char
  field : String
  input : List Char
  afterBrace : Blank
  afterField : Blank
  afterParen : Blank
  afterName : Blank
  afterColon : Blank
  afterInput : Blank
  /-- What stands behind the argument. -/
  rest : List Char
  noBrace : '\x7b' ∉ before
  /-- The name of the field is looked up in the whole text, and then the parenthesis after it. -/
  apart : '(' ∉ before ∨ ¬ field.toList <:+: before
  isName : field ≠ "" ∧ ∀ c ∈ field.toList, c.isAlphanum = true ∨ c = '_'
  isInput : IsInput input

namespace RootField

variable (root : RootField)

/-- The argument. -/
def argument : List Char :=
  root.afterParen.text ++
    ("input".toList ++ (root.afterName.text ++ (':' :: (root.afterColon.text ++
    (root.input ++ root.afterInput.text)))))

/-- The text of the operation. -/
def text : String :=
  String.ofList (root.before ++ '\x7b' ::
    (root.afterBrace.text ++ (root.field.toList ++ (root.afterField.text ++
    '(' :: (root.argument ++ ')' :: root.rest)))))

/-! #### The scanners on it -/

theorem isName_char {c : Char} (h : c.isAlphanum = true ∨ c = '_') :
    isPlain c = true ∧ c ≠ ',' ∧ c ≠ ':' ∧ c ≠ '(' ∧ Text.isWhitespace c = false := by
  have hnot : ∀ d ∈ ['"', '\'', '#', '(', ')', '[', ']', '\x7b', '\x7d', ',', ':'], c ≠ d := by
    have hnone : ∀ d ∈ ['"', '\'', '#', '(', ')', '[', ']', '\x7b', '\x7d', ',', ':'],
        ¬ (d.isAlphanum = true ∨ d = '_') := by decide
    rintro d hd rfl
    exact hnone c hd h
  refine ⟨?_, hnot ',' (by decide), hnot ':' (by decide), hnot '(' (by decide), ?_⟩
  · rw [isPlain, Bool.not_eq_true', Bool.eq_false_iff]
    intro hmem
    have hin := List.contains_iff_mem.1 hmem
    exact hnot c (List.mem_append_left [',', ':'] hin) rfl
  · rcases h with h | rfl
    · exact Text.isWhitespace_of_visible (isAlphanum_visible h)
    · decide

theorem flat_input : Flat root.input := by
  have hinput := root.isInput
  cases hroot : root.input with
  | nil => exact .nil
  | cons c rest =>
    rw [hroot] at hinput
    cases hinput with
    | named hname =>
      refine .of_forall (List.forall_mem_cons.2 ⟨by decide, fun c hc => ?_⟩)
      exact ⟨(isName_char (hname c hc)).1, (isName_char (hname c hc)).2.1⟩
    | literal h => exact .literal h

theorem visible_input : Text.Visible root.input := by
  have hinput := root.isInput
  cases hroot : root.input with
  | nil =>
    rw [hroot] at hinput
    cases hinput
  | cons c rest =>
    rw [hroot] at hinput
    cases hinput with
    | named hname =>
      refine ⟨⟨'$', rest, rfl, by decide⟩, ?_⟩
      rcases List.eq_nil_or_concat rest with rfl | ⟨front, d, rfl⟩
      · exact ⟨[], '$', rfl, by decide⟩
      · refine ⟨'$' :: front, d, by simp, ?_⟩
        exact (isName_char (hname d (by simp))).2.2.2.2
    | @literal body h => exact ⟨⟨'"', _, rfl, by decide⟩, '"' :: body, '"', rfl, by decide⟩

theorem flat_argument : Flat root.argument := by
  have hspace : ∀ space : Blank, Flat space.text := fun space =>
    .of_forall fun c hc => ⟨(space.plain c hc).1, (space.plain c hc).2.1⟩
  have hcolon : Flat [':'] := .char (by decide) (by decide)
  exact (hspace _).append ((Flat.of_forall (by decide)).append ((hspace _).append (hcolon.append
    ((hspace _).append (root.flat_input.append (hspace _))))))

/-- The argument, without the white space around it. -/
theorem strip_argument : Text.strip root.argument =
    "input".toList ++ (root.afterName.text ++ (':' :: (root.afterColon.text ++ root.input))) := by
  have hname : Text.Visible "input".toList :=
    ⟨⟨'i', _, rfl, by decide⟩, ⟨['i', 'n', 'p', 'u'], 't', rfl, by decide⟩⟩
  have hvisible := hname.around root.visible_input
    (root.afterName.text ++ (':' :: root.afterColon.text))
  have hparts : root.argument = root.afterParen.text ++ (("input".toList ++ ((root.afterName.text ++
      (':' :: root.afterColon.text)) ++ root.input)) ++ root.afterInput.text) := by
    rw [argument]
    simp
  rw [hparts, Text.strip_around root.afterParen.blank root.afterInput.blank hvisible]
  simp

/-- Wherever the name of the field is first found, the first parenthesis after it is that of the
field. -/
theorem afterFirst_field : ∃ found, afterFirst root.field.toList ((root.before ++ '\x7b' ::
      root.afterBrace.text) ++ (root.field.toList ++ (root.afterField.text ++ '(' ::
        (root.argument ++ ')' :: root.rest)))) = some found ∧
      found.dropWhile (· ≠ '(') = '(' :: (root.argument ++ ')' :: root.rest) := by
  have hfield : '(' ∉ root.field.toList :=
    fun hmem => (isName_char (root.isName.2 _ hmem)).2.2.2.1 rfl
  have hgap : '(' ∉ root.afterField.text := by
    intro hmem
    have hplain := (root.afterField.plain _ hmem).1
    revert hplain
    decide
  rcases root.apart with hbefore | hbefore
  · refine afterFirst_dropWhile (fun hmem => ?_) hfield hgap
    rcases List.mem_append.1 hmem with hmem | hmem
    · exact hbefore hmem
    · rcases List.mem_cons.1 hmem with hmem | hmem
      · revert hmem
        decide
      · have hplain := (root.afterBrace.plain _ hmem).1
        revert hplain
        decide
  · refine ⟨_, ?_, dropWhile_paren hgap⟩
    rw [List.append_assoc]
    refine afterFirst_of_not_infix (mt String.toList_eq_nil_iff.1 root.isName.1) hbefore
      (List.cons_ne_nil _ _) (List.forall_mem_cons.2 ⟨fun hmem => ?_, fun c hc hmem => ?_⟩)
    · have hplain := (isName_char (root.isName.2 _ hmem)).1
      revert hplain
      decide
    · have hvisible := (isName_char (root.isName.2 c hmem)).2.2.2.2
      rw [root.afterBrace.blank c hc] at hvisible
      cases hvisible

/-- The argument `input` is found. -/
theorem graphqlArgRaw_text :
    graphqlArgRaw root.text root.field "input" = some (String.ofList root.input) := by
  obtain ⟨found, hfound, hdrop⟩ := root.afterFirst_field
  have htext : root.text.toList = (root.before ++ '\x7b' :: root.afterBrace.text) ++
      (root.field.toList ++
      (root.afterField.text ++ '(' :: (root.argument ++ ')' :: root.rest))) := by
    rw [text, String.toList_ofList]
    simp
  have hargs : matchingDelimited found '(' ')' = some root.argument := by
    rw [matchingDelimited, hdrop]
    dsimp only
    rw [root.flat_argument.matching]
    simp [matchingFrom]
  have hparts : splitTopLevel root.argument ',' = [Text.trim (String.ofList root.argument)] := by
    have hflat := root.flat_argument.parts 0 [] []
    rw [List.append_nil, List.append_nil] at hflat
    rw [splitTopLevel, hflat, splitTopLevelFrom, List.reverse_reverse]
    rfl
  have hcolon : ∀ c ∈ "input".toList ++ root.afterName.text, decide (c ≠ ':') = true := by
    intro c hc
    rw [decide_eq_true_eq]
    rcases List.mem_append.1 hc with hc | hc
    · rintro rfl
      revert hc
      decide
    · exact (root.afterName.plain c hc).2.2
  have hvisible : Text.Visible "input".toList :=
    ⟨⟨'i', _, rfl, by decide⟩, ⟨['i', 'n', 'p', 'u'], 't', rfl, by decide⟩⟩
  have hname : Text.trim (String.ofList ("input".toList ++ root.afterName.text)) = "input" := by
    have hstrip : Text.strip ([] ++ ("input".toList ++ root.afterName.text)) = "input".toList :=
      Text.strip_around (fun c hc => absurd hc List.not_mem_nil) root.afterName.blank hvisible
    rw [List.nil_append] at hstrip
    rw [Text.trim_ofList, hstrip, String.ofList_toList]
  have hvalue : Text.trim (String.ofList (root.afterColon.text ++ root.input)) =
      String.ofList root.input := by
    have hstrip : Text.strip (root.afterColon.text ++ (root.input ++ [])) = root.input :=
      Text.strip_around root.afterColon.blank
        (fun c hc => absurd hc List.not_mem_nil) root.visible_input
    rw [List.append_nil] at hstrip
    rw [Text.trim_ofList, hstrip]
  rw [graphqlArgRaw, htext, hfound]
  simp only [Option.bind_eq_bind, Option.bind_some, hargs, hparts, List.findSome?_cons,
    Text.trim_ofList, String.toList_ofList, root.strip_argument]
  rw [← List.append_assoc, List.dropWhile_append_of_pos hcolon, List.takeWhile_append_of_pos hcolon,
    List.dropWhile_cons_of_neg (by decide), List.takeWhile_cons_of_neg (by decide)]
  dsimp only
  rw [List.append_nil, ← Text.trim_ofList, hname, if_pos rfl, ← Text.trim_ofList, hvalue]

/-- The field is the root field. -/
theorem graphqlRootField_text : graphqlRootField root.text = some root.field := by
  have hbefore : ∀ c ∈ root.before, decide (c ≠ '\x7b') = true := by
    intro c hc
    rw [decide_eq_true_eq]
    rintro rfl
    exact root.noBrace hc
  obtain ⟨c, field, hfield⟩ : ∃ c field, root.field.toList = c :: field := by
    cases hfield : root.field.toList with
    | nil => exact absurd (String.toList_eq_nil_iff.1 hfield) root.isName.1
    | cons c field => exact ⟨c, field, rfl⟩
  have hname : ∀ d ∈ root.field.toList, (d.isAlphanum || decide (d = '_')) = true := fun d hd => by
    simpa using root.isName.2 d hd
  have hhead : Text.isWhitespace c = false :=
    (isName_char (root.isName.2 c (by rw [hfield]; exact List.mem_cons_self))).2.2.2.2
  have hends : ∀ rest, (root.afterField.text ++ '(' :: rest).takeWhile
      (fun d => d.isAlphanum || decide (d = '_')) = [] := by
    intro rest
    cases hspace : root.afterField.text with
    | nil => exact List.takeWhile_cons_of_neg (by decide)
    | cons d space =>
      refine List.takeWhile_cons_of_neg fun hd => ?_
      have hblank := root.afterField.blank d (by rw [hspace]; exact List.mem_cons_self)
      rw [(isName_char (by simpa using hd)).2.2.2.2] at hblank
      cases hblank
  rw [graphqlRootField, text, String.toList_ofList, List.dropWhile_append_of_pos hbefore,
    List.dropWhile_cons_of_neg (by decide)]
  dsimp only
  rw [List.dropWhile_append_of_pos root.afterBrace.blank, hfield, List.cons_append,
    List.dropWhile_cons_of_neg (by rw [hhead]; exact Bool.false_ne_true),
    ← List.cons_append, ← hfield, List.takeWhile_append_of_pos hname, hends, List.append_nil,
    String.ofList_toList, if_neg (by rw [hfield]; exact Bool.false_ne_true)]

variable {S : Type} (X : RouteFormat S) in
/-- What the argument says, with the values of the variables: a string, or the JSON text of another
value. -/
def Gives (values : Value) (payload : String) : Prop :=
  (∃ name value, root.input = '$' :: name ∧ values.get (String.ofList name) = some value ∧
    (value = .string payload ∨ value.asStr = none ∧ X.valueToString value = payload)) ∨
    (∀ name, root.input ≠ '$' :: name) ∧ X.stringFromStr (String.ofList root.input) = .ok payload

theorem graphqlInputString_text {S : Type} {X : RouteFormat S} {values : Value} {payload : String}
    (h : root.Gives X values payload) :
      graphqlInputString X ⟨root.text, values⟩ root.field = .ok payload := by
  rw [graphqlInputString, root.graphqlArgRaw_text]
  dsimp only
  rw [String.toList_ofList]
  rcases h with ⟨name, value, hinput, hvalue, rfl | ⟨hother, rfl⟩⟩ | ⟨hnot, hstring⟩
  · simp only [hinput, hvalue]
  · simp only [hinput, hvalue]
    cases value with
    | string text => cases hother
    | _ => rfl
  · split
    · next name hinput => exact absurd hinput (hnot name)
    · rw [hstring]
      rfl

end RootField

/-! ### Operations -/

/-- What all front ends offer. -/
inductive FrontEndOp where
  | put
  | putBatch
  | patch
  | delete
  | get
  | scan
  | query
  | explain
  deriving DecidableEq

namespace FrontEndOp

/-- The path of its own route. -/
def path : FrontEndOp → String
  | put => "/v1/records/put"
  | putBatch => "/v1/records/put-batch"
  | patch => "/v1/records/patch"
  | delete => "/v1/records/delete"
  | get => "/v1/records/get"
  | scan => "/v1/records/scan"
  | query => "/v1/query"
  | explain => "/v1/explain"

/-- The command of TraceQL. -/
def traceql : FrontEndOp → TraceqlCommand
  | put => .recordPut
  | putBatch => .recordBatch
  | patch => .recordPatch
  | delete => .recordDelete
  | get => .recordGet
  | scan => .recordScan
  | query => .query
  | explain => .explain

/-- The root field of GraphQL. -/
def field : FrontEndOp → String
  | put => "put"
  | putBatch => "batch"
  | patch => "patch"
  | delete => "delete"
  | get => "get"
  | scan => "scan"
  | query => "query"
  | explain => "explain"

end FrontEndOp

section Requests

variable {S : Type} (X : RouteFormat S)

/-- What an operation reads from a payload it also reads from the value of the payload.  The value
of a payload can be refused where a field that the operation ignores nests too deep or is out of
range. -/
def RouteFormat.Coherent (payload : String) : FrontEndOp → Prop
  | .put => True
  | .putBatch => ∀ batch, X.putBatchFromStr payload = .ok batch →
    (X.valueFromStr payload).bind X.putBatchFromValue = .ok batch.2
  | .patch => ∀ input, X.patchFromStr payload = .ok input →
    (X.valueFromStr payload).bind X.patchFromValue = .ok input
  | .delete => ∀ deletion, X.deleteFromStr payload = .ok deletion →
    (X.valueFromStr payload).bind X.deleteFromValue = .ok deletion
  | .get => ∀ request, X.getFromStr payload = .ok request →
    (X.valueFromStr payload).bind X.getFromValue = .ok request
  | .scan => ∀ request, X.scanFromStr payload = .ok request →
    (X.valueFromStr payload).bind X.scanFromValue = .ok request
  | .query | .explain => ∀ query, X.queryFromStr payload = .ok query →
    (X.valueFromStr payload).bind X.queryFromValue = .ok query

/-- The requests for an operation with a payload. -/
inductive Phrases (op : FrontEndOp) (payload : String) (q : Request) : Prop where
  /-- On the route of the operation; batches ask for no timing. -/
  | route : q.method = "POST" → q.path = op.path → q.body = payload →
      (op = .putBatch → ∀ batch, X.putBatchFromStr payload = .ok batch → batch.1 = false) →
      Phrases op payload q
  /-- As a command of TraceQL, with any of its words and in any case; its text is not cut inside a
  character. -/
  | traceql {text word : String} {shown after : List Char} : q.method = "POST" →
      q.path = "/v1/traceql" →
      X.traceqlFromStr q.body = .ok text → (word, op.traceql) ∈ traceqlCommands →
      (Text.trim text).toList = shown ++ after → eqIgnoreAsciiCase shown word.toList = true →
      after.head?.any isAsciiWhitespace = true → Text.trim (String.ofList after) = payload →
      ¬ (op = .explain ∧ startsWithSqlishSelectPayload payload.toList = true) →
      splitTraceqlCommand text ≠ none → Phrases op payload q
  /-- As a root field of GraphQL. -/
  | graphql {root : RootField} {values : Value} : q.method = "POST" → q.path = "/v1/graphql" →
      X.graphqlFromStr q.body = .ok ⟨root.text, values⟩ → X.parseQuery root.text = .ok () →
      root.field = op.field → root.Gives X values payload → X.Coherent payload op →
        Phrases op payload q

variable {X} {op : FrontEndOp} {payload : String} {q : Request} {command : Command S}

/-- GraphQL reads what TraceQL reads. -/
theorem graphqlCommand_of_payload (hX : X.Coherent payload op) {root : RootField} {values : Value}
    (hparse : X.parseQuery root.text = .ok ()) (hfield : root.field = op.field)
    (hgives : root.Gives X values payload)
    (hdecode : traceqlCommand X op.traceql payload = .ok command) :
    graphqlCommand X ⟨root.text, values⟩ = .ok command := by
  have hstring := root.graphqlInputString_text hgives
  have hjson : ∀ {α : Type} {f : Value → Except String α} {a : α},
      (X.valueFromStr payload).bind f = .ok a →
      (graphqlInputJson X ⟨root.text, values⟩ root.field).bind f = .ok a := by
    intro α f a h
    rw [graphqlInputJson, hstring]
    cases hvalue : X.valueFromStr payload with
    | error e =>
      rw [hvalue] at h
      cases h
    | ok value =>
      rw [hvalue] at h
      rw [Except.ok_bind, hvalue]
      exact h
  rw [graphqlCommand, hparse]
  simp only [Except.mapError, Except.ok_bind, root.graphqlRootField_text]
  rw [hfield] at hstring hjson ⊢
  cases op with
  | put =>
    show Command.put <$> (graphqlInputString X ⟨root.text, values⟩ "put" >>= X.parseRecordPutBody) =
      .ok command
    rw [show graphqlInputString X ⟨root.text, values⟩ "put" = .ok payload from hstring]
    exact hdecode
  | putBatch =>
    obtain ⟨batch, hbatch, rfl⟩ := Except.map_eq_ok_iff.1 hdecode
    exact congrArg (Command.putBatch false <$> ·) (hjson (hX _ hbatch))
  | patch =>
    obtain ⟨input, hinput, rfl⟩ := Except.map_eq_ok_iff.1 hdecode
    exact congrArg (Command.patch <$> ·) (hjson (hX _ hinput))
  | delete =>
    obtain ⟨deletion, hdeletion, rfl⟩ := Except.map_eq_ok_iff.1 hdecode
    exact congrArg (Command.delete <$> ·) (hjson (hX _ hdeletion))
  | get =>
    obtain ⟨request, hrequest, rfl⟩ := Except.map_eq_ok_iff.1 hdecode
    exact congrArg (Command.get <$> ·) (hjson (hX _ hrequest))
  | scan =>
    obtain ⟨request, hrequest, rfl⟩ := Except.map_eq_ok_iff.1 hdecode
    exact congrArg (Command.scan <$> ·) (hjson (hX _ hrequest))
  | query =>
    obtain ⟨query, hquery, rfl⟩ := Except.map_eq_ok_iff.1 hdecode
    exact congrArg (Command.query <$> ·) (hjson (hX _ hquery))
  | explain =>
    obtain ⟨query, hquery, rfl⟩ := Except.map_eq_ok_iff.1 hdecode
    exact congrArg ((fun query => Command.explain { query with explain := true }) <$> ·)
      (hjson (hX _ hquery))

/-- The requests for an operation parse to its command. -/
theorem Phrases.parse (h : Phrases X op payload q)
    (hdecode : traceqlCommand X op.traceql payload = .ok command) :
      q.parse X = .command command := by
  cases h with
  | route hmethod hpath hbody htiming =>
    rw [Request.parse, if_neg (not_not.2 hmethod), hpath, hbody]
    have hread : Parsed.ofExcept (traceqlCommand X op.traceql payload) = .command command := by
      rw [hdecode]
      rfl
    cases op with
    | putBatch =>
      obtain ⟨batch, hbatch, rfl⟩ := Except.map_eq_ok_iff.1 hdecode
      have hplain := htiming rfl batch hbatch
      show Parsed.ofExcept
        ((fun batch => Command.putBatch batch.1 batch.2) <$> X.putBatchFromStr payload) = _
      rw [hbatch]
      exact congrArg (fun timed => Parsed.command (Command.putBatch timed batch.2)) hplain
    | put | patch | delete | get | scan | query | explain => exact hread
  | @traceql text word shown after hmethod hpath htext hword hsplit hshown
      hspace hpayload hselect hcut =>
    have hselect' : ¬ (op.traceql = .explain ∧
        startsWithSqlishSelectPayload (Text.trim (String.ofList after)).toList = true) := by
      rw [hpayload]
      rintro ⟨hexplain, hstarts⟩
      cases op <;> cases hexplain
      exact hselect ⟨rfl, hstarts⟩
    have hcommand := splitTraceqlCommand_of_word hword hsplit hshown hspace hselect' hcut
    rw [Request.parse_traceql X hmethod hpath, htext]
    simp only [hcommand]
    rw [hpayload, hdecode]
    rfl
  | graphql hmethod hpath htext hparse hfield hgives hX =>
    simp only [Request.parse, hmethod, hpath, ne_eq, not_true_eq_false, if_false, htext,
      graphqlCommand_of_payload hX hparse hfield hgives hdecode]

variable (X) in
/-- Requests that phrase one operation, with the same actor and without an idempotency key.  Where
the tenant of an actor is looked up in the body, it may well be found on one front end only. -/
structure SameAsk (q q' : Request) : Prop where
  actor : q.actor = q'.actor
  unkeyed : q.cacheKey = none
  unkeyed' : q'.cacheKey = none
  phrased : ∃ op payload command, traceqlCommand X (FrontEndOp.traceql op) payload = .ok command ∧
    Phrases X op payload q ∧ Phrases X op payload q'

/-! ### Runs -/

/-- An answer without the forms in which GraphQL answers values and errors, and TraceQL the error of
a snapshot. -/
def Answer.plain : Answer S → Ending S
  | .graphqlData _ value => value.plain
  | .graphqlErrors message | .snapshot (.error message) => .failed message
  | answer => .answered answer

/-- An ending without these forms. -/
def Ending.plain : Ending S → Ending S
  | .answered answer => answer.plain
  | ending => ending

theorem Request.plain_answer (q : Request) (value : Answer S) :
    (q.answer X value).plain = value.plain := by
  unfold Request.answer
  split_ifs
  · split
    · rfl
    · split <;> rfl
  · rfl

variable (X) in
/-- Requests, one after the other. -/
def Server.serveAll (env : RouteEnv S) (text : Answer S → String) (s : Server) :
    List Request → List (Ending S) × Server
  | [] => ([], s)
  | q :: requests =>
    let (ending, s) := s.serve X env q text
    let (endings, s) := s.serveAll env text requests
    (ending :: endings, s)

variable {env : RouteEnv S} {text : Answer S → String} {s : Server} {q' : Request}

/-- A request without a key answers with what its command does, and with nothing else. -/
theorem Server.serve_plain (hkey : q.cacheKey = none)
    (hparse : q.parse X = .command command) {s₁ : Server}
    (hopen : s.forActor X.toServerFormat q = .ok s₁) {db : Db} (hdb : s₁.db q.shard = some db) :
    (s.serve X env q text).map Ending.plain id = match db.execute X env q.actor none command with
      | (.ok answer, db') =>
        (answer.plain, (s₁.setDb q.shard db').overwrite (command.writes env))
      | (.error e, db') => (.failed e, (s₁.setDb q.shard db').overwrite (command.writes env)) := by
  have hlookup : s₁.lookup X.toServerFormat q = none := by
    rw [lookup, hkey]
  have hreceipt : q.commandReceipt X = none := by
    rw [Request.commandReceipt, Request.receipt, hkey]
    exact ite_self none
  simp only [serve, hopen, hlookup, serveMiss, hdb, hparse, hreceipt]
  rcases db.execute X env q.actor none command with ⟨e | answer, db'⟩
  · dsimp only
    split_ifs
    · rw [finish, hkey]
      rfl
    · rfl
  · dsimp only
    rw [finish, hkey]
    exact Prod.ext (q.plain_answer answer) rfl

/-- Requests that ask for the same do the same. -/
theorem Server.serve_sameAsk (h : SameAsk X q q') :
    (s.serve X env q text).map Ending.plain id = (s.serve X env q' text).map Ending.plain id := by
  obtain ⟨op, payload, command, hdecode, hq, hq'⟩ := h.phrased
  have hparse := hq.parse hdecode
  have hparse' := hq'.parse hdecode
  have hshard : q.shard = q'.shard := by
    rw [Request.shard, Request.shard, h.actor]
  have hopen' : s.forActor X.toServerFormat q = s.forActor X.toServerFormat q' := by
    simp only [forActor, hshard]
  cases hopen : s.forActor X.toServerFormat q with
  | error e =>
    simp only [serve, hopen, hopen'.symm.trans hopen]
  | ok s₁ =>
    have hlookup : ∀ {r : Request}, r.cacheKey = none → s₁.lookup X.toServerFormat r = none := by
      intro r hkey
      rw [lookup, hkey]
    cases hdb : s₁.db q.shard with
    | none =>
      simp only [serve, hopen, hopen'.symm.trans hopen, hlookup h.unkeyed, hlookup h.unkeyed',
        serveMiss, hdb, hshard ▸ hdb]
    | some db =>
      rw [serve_plain h.unkeyed hparse hopen hdb,
        serve_plain h.unkeyed' hparse' (hopen'.symm.trans hopen) (hshard ▸ hdb), h.actor, hshard]

/-- **The front ends agree**: requests of a run can be phrased on any of them. -/
theorem front_ends_agree (s : Server) {requests requests' : List Request}
    (h : List.Forall₂ (fun q q' => q = q' ∨ SameAsk X q q') requests requests') :
    (s.serveAll X env text requests).map (List.map Ending.plain) id =
      (s.serveAll X env text requests').map (List.map Ending.plain) id := by
  induction h generalizing s with
  | nil => rfl
  | @cons q q' requests requests' hask _ ih =>
    have hstep : (s.serve X env q text).map Ending.plain id =
        (s.serve X env q' text).map Ending.plain id := by
      rcases hask with rfl | hask
      · rfl
      · exact Server.serve_sameAsk hask
    have hending : (s.serve X env q text).1.plain = (s.serve X env q' text).1.plain :=
      congrArg Prod.fst hstep
    have hserver : (s.serve X env q text).2 = (s.serve X env q' text).2 := (Prod.mk.inj hstep).2
    have hrest := ih (s.serve X env q text).2
    have hendings := congrArg Prod.fst hrest
    have hservers := congrArg Prod.snd hrest
    rw [hserver] at hendings hservers
    refine Prod.ext ?_ ?_
    · simp only [Server.serveAll, Prod.map_fst, List.map_cons, hending, hserver]
      exact congrArg _ hendings
    · simp only [Server.serveAll, hserver]
      exact hservers

end Requests

/-! ### A case put and read on each of them -/

/-- A command that gets the case. -/
def getCaseText : String := "record get\n" ++ caseBody

/-- A field that puts the record of a variable. -/
def putCaseField : RootField where
  before := "mutation ($record: String!) ".toList
  field := "put"
  input := "$record".toList
  afterBrace := ⟨[' '], by decide⟩
  afterField := ⟨[], by decide⟩
  afterParen := ⟨[], by decide⟩
  afterName := ⟨[], by decide⟩
  afterColon := ⟨[' '], by decide⟩
  afterInput := ⟨[], by decide⟩
  rest := " \x7d".toList
  noBrace := by decide
  apart := .inr (by decide)
  isName := by decide
  isInput := .named (by decide)

/-- A field that gets it; what is read of the case is its key. -/
def getCaseField : RootField :=
  { putCaseField with
    before := "query ".toList
    field := "get"
    noBrace := by decide
    apart := .inl (by decide)
    isName := by decide }

/-- The bodies of requests with a field and the variable, as a string and as an object. -/
def putCaseFieldBody : String :=
  "\x7b\"query\":" ++ quote putCaseField.text ++ ",\"variables\":\x7b\"record\":" ++
    quote caseBody ++ "\x7d\x7d"

def getCaseFieldBody : String :=
  "\x7b\"query\":" ++ quote getCaseField.text ++ ",\"variables\":\x7b\"record\":" ++
    caseBody ++ "\x7d\x7d"

/-- The key of a record. -/
def readGet (value : Value) : Except String RecordGetRequest := do
  return ⟨← requiredStr value "table", ← requiredStr value "tenant_id", ← requiredStr value "id"⟩

/-- The key of a record, and how it is deleted. -/
def readDeletion (value : Value) : Except String RecordDeletion := do
  return ⟨← requiredStr value "table", ← requiredStr value "id", ← requiredStr value "tenant_id",
    ((value.get "tombstone").bind Value.asStr).getD "user_delete"⟩

/-- The reference format, which reads the bodies with the commands and with the fields. -/
def RouteFormat.casePut : RouteFormat ℚ :=
  { RouteFormat.reference with
    lossless := EngineFormat.lossless_reference
    patchFromStr := fun text => (RouteFormat.reference.valueFromStr text).bind
      RouteFormat.reference.recordInputFromValue
    patchFromValue := RouteFormat.reference.recordInputFromValue
    deleteFromStr := fun text => (RouteFormat.reference.valueFromStr text).bind readDeletion
    deleteFromValue := readDeletion
    getFromStr := fun text => (RouteFormat.reference.valueFromStr text).bind readGet
    getFromValue := readGet
    traceqlFromStr := fun body =>
      if body = traceqlBody getCaseText then .ok getCaseText else .error expectedValue
    graphqlFromStr := fun body =>
      if body = putCaseFieldBody
        then .ok ⟨putCaseField.text, .object [("record", .string caseBody)]⟩
      else if body = getCaseFieldBody then .ok ⟨getCaseField.text, .object [("record", caseValue)]⟩
      else .error expectedValue
    parseQuery := fun query =>
      if query = putCaseField.text ∨ query = getCaseField.text
        then .ok () else .error expectedValue }

/-- Puts, patches, deletions and gets are read from the values; the payload of the case is one of
each of them. -/
theorem coherent_casePut (payload : String) (op : FrontEndOp) :
    RouteFormat.casePut.Coherent payload op := by
  cases op with
  | put => trivial
  | patch => exact fun _ h => h
  | delete => exact fun _ h => h
  | get => exact fun _ h => h
  | putBatch | scan | query | explain => exact fun _ h => by cases h

/-- The case put or read with a body, on a path. -/
def caseOn (path body : String) : Request := { putCaseAs "t" with path := path, body := body }

theorem valueFromStr_caseBody : RouteFormat.reference.valueFromStr caseBody = .ok caseValue := by
  simp [RouteFormat.reference]

theorem traceqlCommand_put_casePut :
    traceqlCommand RouteFormat.casePut (FrontEndOp.traceql .put) caseBody =
      .ok (.put (sampleCase "a" [])) :=
  Except.map_eq_ok_iff.2 ⟨_, parseRecordPutBody_caseBody, rfl⟩

theorem traceqlCommand_get_casePut :
    traceqlCommand RouteFormat.casePut (FrontEndOp.traceql .get) caseBody =
      .ok (.get ⟨"cases", "t", "a"⟩) := by
  have hread : RouteFormat.casePut.getFromStr caseBody = .ok ⟨"cases", "t", "a"⟩ := by
    show (RouteFormat.reference.valueFromStr caseBody).bind readGet = _
    rw [valueFromStr_caseBody]
    rfl
  exact Except.map_eq_ok_iff.2 ⟨_, hread, rfl⟩

theorem phrases_put_route : Phrases RouteFormat.casePut .put caseBody (putCaseAs "t") :=
  .route rfl rfl rfl nofun

theorem phrases_put_graphql :
    Phrases RouteFormat.casePut .put caseBody (caseOn "/v1/graphql" putCaseFieldBody) := by
  have htext : RouteFormat.casePut.graphqlFromStr putCaseFieldBody =
      .ok ⟨putCaseField.text, .object [("record", .string caseBody)]⟩ := by
    simp only [RouteFormat.casePut, if_true]
  have hparse : RouteFormat.casePut.parseQuery putCaseField.text = .ok () := by
    simp only [RouteFormat.casePut, true_or, if_true]
  have hvalue : (Value.object [("record", .string caseBody)]).get (String.ofList "record".toList) =
      some (.string caseBody) := by
    decide +kernel
  exact .graphql rfl rfl htext hparse rfl (.inl ⟨"record".toList, _, by decide, hvalue, .inl rfl⟩)
    (coherent_casePut _ _)

theorem phrases_get_traceql :
    Phrases RouteFormat.casePut .get caseBody (caseOn "/v1/traceql" (traceqlBody getCaseText)) := by
  have htext : RouteFormat.casePut.traceqlFromStr (traceqlBody getCaseText) = .ok getCaseText := by
    simp only [RouteFormat.casePut, if_true]
  exact @Phrases.traceql ℚ _ .get caseBody _ getCaseText "RECORD GET" "record get".toList
    ('\n' :: caseBody.toList) rfl rfl htext (by decide) (by decide +kernel) (by decide) rfl
      (by decide +kernel) (by rintro ⟨h, -⟩; cases h) (by decide +kernel)

theorem phrases_get_graphql :
    Phrases RouteFormat.casePut .get caseBody (caseOn "/v1/graphql" getCaseFieldBody) := by
  have htext : RouteFormat.casePut.graphqlFromStr getCaseFieldBody =
      .ok ⟨getCaseField.text, .object [("record", caseValue)]⟩ := by
    have hother : getCaseFieldBody ≠ putCaseFieldBody := by decide +kernel
    simp only [RouteFormat.casePut, if_neg hother, if_true]
  have hparse : RouteFormat.casePut.parseQuery getCaseField.text = .ok () := by
    simp only [RouteFormat.casePut, or_true, if_true]
  have hvalue : (Value.object [("record", caseValue)]).get (String.ofList "record".toList) =
      some caseValue := by
    decide +kernel
  have hwritten : RouteFormat.casePut.valueToString caseValue = caseBody := by
    decide +kernel
  exact .graphql rfl rfl htext hparse rfl
    (.inl ⟨"record".toList, _, by decide, hvalue, .inr ⟨rfl, hwritten⟩⟩) (coherent_casePut _ _)

/-- The case is put on its route and read by a command, or both by root fields. -/
theorem case_put_agrees :
    (casesServer.serveAll .casePut .reference (fun _ => "")
        [putCaseAs "t", caseOn "/v1/traceql" (traceqlBody getCaseText)]).map
          (List.map Ending.plain) id =
      (casesServer.serveAll .casePut .reference (fun _ => "")
        [caseOn "/v1/graphql" putCaseFieldBody, caseOn "/v1/graphql" getCaseFieldBody]).map
          (List.map Ending.plain) id :=
  front_ends_agree casesServer
    (.cons (.inr ⟨rfl, rfl, rfl, .put, caseBody, _, traceqlCommand_put_casePut, phrases_put_route,
      phrases_put_graphql⟩) (.cons (.inr ⟨rfl, rfl, rfl, .get, caseBody, _,
        traceqlCommand_get_casePut, phrases_get_traceql, phrases_get_graphql⟩) .nil))

end TraceDB
