import TraceDB.Lang.Sqlish

/-!
# Words

The words of a text between its white space, and what the tests for a leading keyword say of them: a
text is in the SQL-ish form if its first words are `SELECT`, or `EXPLAIN` and `SELECT`
(`startsWithSqlishSelect_iff`).
-/

namespace TraceDB

namespace Text

/-- The words of a text. -/
def words (text : List Char) : List (List Char) := (text.splitOnP isWhitespace).filter (· ≠ [])

theorem splitWhitespace_ofList (text : List Char) :
    splitWhitespace (String.ofList text) = (words text).map String.ofList := by
  rw [splitWhitespace, String.toList_ofList]
  rfl

@[simp] theorem words_nil : words [] = [] := rfl

/-- White space parts the words before it from those after it. -/
theorem words_append_cons {c : Char} (h : isWhitespace c = true) (before after : List Char) :
    words (before ++ c :: after) = words before ++ words after := by
  rw [words, List.splitOnP_append_cons _ _ h, List.filter_append]
  rfl

theorem words_cons {c : Char} (h : isWhitespace c = true) (text : List Char) :
    words (c :: text) = words text :=
  words_append_cons h [] text

theorem words_concat {c : Char} (h : isWhitespace c = true) (text : List Char) :
    words (text ++ [c]) = words text := by
  rw [words_append_cons h, words_nil, List.append_nil]

theorem words_trimStart (text : List Char) : words (trimStart text) = words text := by
  induction text with
  | nil => rfl
  | cons c text ih =>
    by_cases hc : isWhitespace c = true
    · rw [words_cons hc, ← ih, trimStart, List.dropWhile_cons_of_pos hc]
      rfl
    · rw [trimStart, List.dropWhile_cons_of_neg hc]

theorem words_strip (text : List Char) : words (strip text) = words text := by
  have hback : ∀ text : List Char, words (text.rdropWhile isWhitespace) = words text := by
    intro text
    induction text using List.reverseRecOn with
    | nil => rfl
    | append_singleton text c ih =>
      by_cases hc : isWhitespace c = true
      · rw [List.rdropWhile_concat_pos _ _ _ hc, ih, words_concat hc]
      · rw [List.rdropWhile_concat_neg _ _ _ hc]
  rw [strip, hback, words_trimStart]

/-- What a text loses at its ends is white space. -/
theorem mem_strip_or_isWhitespace {text : List Char} {c : Char} (h : c ∈ text) :
    c ∈ strip text ∨ isWhitespace c = true := by
  rw [← List.takeWhile_append_dropWhile (p := isWhitespace) (l := text), List.mem_append] at h
  rcases h with h | h
  · exact .inr (List.mem_takeWhile_imp h)
  · rw [← List.mem_reverse,
      ← List.takeWhile_append_dropWhile (p := isWhitespace)
      (l := (text.dropWhile isWhitespace).reverse), List.mem_append] at h
    rcases h with h | h
    · exact .inr (List.mem_takeWhile_imp h)
    · exact .inl (List.mem_reverse.2 h)

/-- A word has no white space. -/
def IsWord (word : List Char) : Prop := word ≠ [] ∧ ∀ c ∈ word, isWhitespace c = false

/-- What follows a word is white space or nothing. -/
def Ends (text : List Char) : Prop := text.head?.all isWhitespace = true

theorem ends_nil : Ends [] := rfl

theorem ends_cons {c : Char} {text : List Char} : Ends (c :: text) ↔ isWhitespace c = true := by
  simp [Ends]

/-- The first word of a text. -/
theorem words_append {word after : List Char} (hword : IsWord word) (hafter : Ends after) :
    words (word ++ after) = word :: words after := by
  have hone : words word = [word] := by
    rw [words, List.splitOnP_eq_singleton hword.2]
    simp [hword.1]
  cases after with
  | nil => rw [List.append_nil, hone, words_nil]
  | cons c after =>
    rw [words_append_cons (ends_cons.1 hafter), hone, words_cons (ends_cons.1 hafter)]
    rfl

theorem words_of_isWord {word : List Char} (h : IsWord word) : words word = [word] := by
  have hwords := words_append h ends_nil
  rwa [List.append_nil] at hwords

/-- A text without its leading white space is empty or begins with a word. -/
theorem trimStart_cases (text : List Char) :
    (trimStart text = [] ∧ words text = []) ∨
      ∃ word after, trimStart text = word ++ after ∧ IsWord word ∧ Ends after ∧
        words text = word :: words after := by
  cases htrim : trimStart text with
  | nil =>
    rw [← words_trimStart, htrim]
    exact .inl ⟨rfl, rfl⟩
  | cons c rest =>
    have hc : isWhitespace c = false := by
      have hhead := List.head?_dropWhile_not isWhitespace text
      rw [show text.dropWhile isWhitespace = c :: rest from htrim] at hhead
      simpa using hhead
    have hword : IsWord ((c :: rest).takeWhile (!isWhitespace ·)) := by
      refine ⟨?_, fun d hd => by simpa using List.mem_takeWhile_imp hd⟩
      rw [List.takeWhile_cons_of_pos (by simpa using hc)]
      exact List.cons_ne_nil _ _
    have hends : Ends ((c :: rest).dropWhile (!isWhitespace ·)) := by
      have hhead := List.head?_dropWhile_not (!isWhitespace ·) (c :: rest)
      unfold Ends
      cases hdrop : ((c :: rest).dropWhile (!isWhitespace ·)).head? with
      | none => rfl
      | some d =>
        rw [hdrop] at hhead
        simpa using hhead
    refine .inr ⟨_, _, List.takeWhile_append_dropWhile.symm, hword, hends, ?_⟩
    rw [← words_append hword hends, List.takeWhile_append_dropWhile, ← htrim, words_trimStart]

/-- A text with no white space at its ends. -/
structure Visible (text : List Char) : Prop where
  head : ∃ c rest, text = c :: rest ∧ isWhitespace c = false
  last : ∃ front c, text = front ++ [c] ∧ isWhitespace c = false

theorem Visible.strip {text : List Char} (h : Visible text) : strip text = text := by
  obtain ⟨c, rest, rfl, hc⟩ := h.head
  obtain ⟨front, d, hfront, hd⟩ := h.last
  refine strip_eq_self ?_ ?_
  · intro e he
    obtain rfl := Option.some.inj he
    exact hc
  · intro e he
    rw [hfront, List.getLast?_concat] at he
    obtain rfl := Option.some.inj he
    exact hd

theorem Visible.ne_nil {text : List Char} (h : Visible text) : text ≠ [] := by
  obtain ⟨c, rest, rfl, -⟩ := h.head
  exact List.cons_ne_nil c rest

/-- What stands between two texts is not at an end. -/
theorem Visible.around {a b : List Char} (ha : Visible a) (hb : Visible b) (between : List Char) :
    Visible (a ++ (between ++ b)) where
  head := by
    obtain ⟨c, rest, rfl, hc⟩ := ha.head
    exact ⟨c, _, rfl, hc⟩
  last := by
    obtain ⟨front, c, rfl, hc⟩ := hb.last
    exact ⟨a ++ (between ++ front), c, by simp only [List.append_assoc], hc⟩

/-- A text with white space around it. -/
theorem strip_around {before text after : List Char} (hbefore : ∀ c ∈ before, isWhitespace c = true)
    (hafter : ∀ c ∈ after, isWhitespace c = true) (h : Visible text) :
      Text.strip (before ++ (text ++ after)) = text := by
  have hfront : ∀ rest, Text.strip (before ++ rest) = Text.strip rest := by
    intro rest
    induction before with
    | nil => rfl
    | cons c before ih =>
      rw [List.forall_mem_cons] at hbefore
      rw [List.cons_append, strip_cons hbefore.1, ih hbefore.2]
  have hback : Text.strip (text ++ after) = Text.strip text := by
    induction after using List.reverseRecOn with
    | nil => rw [List.append_nil]
    | append_singleton after c ih =>
      rw [List.forall_mem_append, List.forall_mem_singleton] at hafter
      rw [← List.append_assoc, strip_concat hafter.2, ih hafter.1]
  rw [hfront, hback, h.strip]

/-- A text begins with something visible. -/
def Begins (text : List Char) : Prop := ∃ c rest, text = c :: rest ∧ isWhitespace c = false

theorem trimStart_blank {space text : List Char} (hspace : ∀ c ∈ space, isWhitespace c = true)
    (h : Begins text) : trimStart (space ++ text) = text := by
  obtain ⟨c, rest, rfl, hc⟩ := h
  rw [trimStart, List.dropWhile_append_of_pos hspace, List.dropWhile_cons_of_neg (by simp [hc])]

theorem ends_blank {space : List Char} (hspace : ∀ c ∈ space, isWhitespace c = true)
    (hne : space ≠ []) (text : List Char) : Ends (space ++ text) := by
  obtain ⟨c, space, rfl⟩ := List.exists_cons_of_ne_nil hne
  exact ends_cons.2 (hspace c List.mem_cons_self)

theorem IsWord.visible {word : List Char} (h : IsWord word) : Visible word where
  head := by
    obtain ⟨c, rest, rfl⟩ := List.exists_cons_of_ne_nil h.1
    exact ⟨c, rest, rfl, h.2 c List.mem_cons_self⟩
  last := ⟨word.dropLast, word.getLast h.1, (List.dropLast_append_getLast h.1).symm,
    h.2 _ (List.getLast_mem h.1)⟩

theorem wordCount_of_isWord {word : List Char} (h : IsWord word) : wordCount word = 1 := by
  rw [wordCount, splitWhitespace_ofList, words_of_isWord h]
  rfl

end Text

/-! ### Keywords -/

open Text

/-- A word in another letter case is a word. -/
theorem isWord_of_eqIgnoreAsciiCase {word keyword : List Char} (h : IsWord keyword)
    (heq : eqIgnoreAsciiCase word keyword = true) : IsWord word := by
  rw [eqIgnoreAsciiCase_iff] at heq
  refine ⟨?_, fun c hc => ?_⟩
  · rintro rfl
    exact h.1 (List.map_eq_nil_iff.1 heq.symm)
  · have hmem : c.toLower ∈ keyword.map Char.toLower := heq ▸ List.mem_map_of_mem hc
    obtain ⟨d, hd, hdc⟩ := List.mem_map.1 hmem
    rw [← isWhitespace_toLower, ← hdc, isWhitespace_toLower]
    exact h.2 d hd

/-- What `strip_sqlish_keyword_prefix` finds. -/
theorem stripSqlishKeywordPrefix_eq_some_iff {keyword : String} {input rest : List Char} :
    stripSqlishKeywordPrefix input keyword = some rest ↔
      ∃ word after, trimStart input = word ++ after ∧
        eqIgnoreAsciiCase word keyword.toList = true ∧ Ends after ∧ rest = trimStart after := by
  rw [stripSqlishKeywordPrefix]
  constructor
  · intro h
    cases hsplit : splitBytes (trimStart input) keyword.utf8ByteSize with
    | none =>
      rw [hsplit] at h
      cases h
    | some parts =>
      obtain ⟨word, after⟩ := parts
      rw [hsplit] at h
      dsimp only at h
      split_ifs at h with hcase hends
      exact ⟨word, after, (splitBytes_eq_some_iff.1 hsplit).1, by simpa using hcase, hends,
        (Option.some.inj h).symm⟩
  · rintro ⟨word, after, htrim, heq, hends, rfl⟩
    have hends' : after.head?.all isWhitespace = true := hends
    rw [htrim, utf8ByteSize_eq, ← byteLength_of_eqIgnoreAsciiCase heq, splitBytes_append]
    simp only [heq, hends', Bool.not_true, Bool.false_eq_true, if_false, if_true]

/-- A keyword is at the front of a text if it is the first word, in any letter case. -/
theorem stripSqlishKeywordPrefix_isSome_iff {keyword : String} (hkeyword : IsWord keyword.toList)
    {input : List Char} :
    (stripSqlishKeywordPrefix input keyword).isSome = true ↔
      ∃ word rest, words input = word :: rest ∧ eqIgnoreAsciiCase word keyword.toList = true := by
  rw [Option.isSome_iff_exists]
  constructor
  · rintro ⟨rest, hrest⟩
    obtain ⟨word, after, htrim, heq, hends, -⟩ :=
      stripSqlishKeywordPrefix_eq_some_iff.1 hrest
    refine ⟨word, words after, ?_, heq⟩
    rw [← words_trimStart, htrim, words_append (isWord_of_eqIgnoreAsciiCase hkeyword heq) hends]
  · rintro ⟨word, rest, hwords, heq⟩
    rcases trimStart_cases input with ⟨-, hnil⟩ | ⟨word', after, htrim, -, hends, hwords'⟩
    · rw [hnil] at hwords
      cases hwords
    · rw [hwords'] at hwords
      obtain ⟨rfl, -⟩ := List.cons.inj hwords
      exact ⟨_, stripSqlishKeywordPrefix_eq_some_iff.2 ⟨_, _, htrim, heq, hends, rfl⟩⟩

/-- The words after a keyword at the front. -/
theorem words_of_stripSqlishKeywordPrefix {keyword : String} (hkeyword : IsWord keyword.toList)
    {input rest : List Char} (h : stripSqlishKeywordPrefix input keyword = some rest) :
    ∃ word, words input = word :: words rest ∧ eqIgnoreAsciiCase word keyword.toList = true := by
  obtain ⟨word, after, htrim, heq, hends, rfl⟩ := stripSqlishKeywordPrefix_eq_some_iff.1 h
  refine ⟨word, ?_, heq⟩
  rw [← words_trimStart input, htrim, words_append (isWord_of_eqIgnoreAsciiCase hkeyword heq) hends,
    words_trimStart]

theorem isWord_select : IsWord "SELECT".toList := by
  refine ⟨by decide, ?_⟩
  decide

theorem isWord_explain : IsWord "EXPLAIN".toList := by
  refine ⟨by decide, ?_⟩
  decide

/-- The first words of a text in the SQL-ish form. -/
def SqlishWords : List (List Char) → Prop
  | [] => False
  | word :: rest => eqIgnoreAsciiCase word "SELECT".toList = true ∨
    eqIgnoreAsciiCase word "EXPLAIN".toList = true ∧
      ∃ next more, rest = next :: more ∧ eqIgnoreAsciiCase next "SELECT".toList = true

/-- A text is in the SQL-ish form if it begins with `SELECT`, or with `EXPLAIN` and `SELECT`. -/
theorem startsWithSqlishSelect_iff (input : List Char) :
    startsWithSqlishSelect input = true ↔ SqlishWords (words input) := by
  rw [startsWithSqlishSelect, Bool.or_eq_true, stripSqlishKeywordPrefix_isSome_iff isWord_select]
  constructor
  · rintro (⟨word, rest, hwords, heq⟩ | h)
    · rw [hwords]
      exact .inl heq
    · obtain ⟨rest, hrest⟩ := Option.isSome_iff_exists.1 h
      obtain ⟨after, hexplain, hselect⟩ := Option.bind_eq_some_iff.1 hrest
      obtain ⟨word, hwords, heq⟩ := words_of_stripSqlishKeywordPrefix isWord_explain hexplain
      obtain ⟨next, hnext, hnexteq⟩ := words_of_stripSqlishKeywordPrefix isWord_select hselect
      rw [hwords]
      exact .inr ⟨heq, next, words rest, hnext, hnexteq⟩
  · intro h
    cases hwords : words input with
    | nil =>
      rw [hwords] at h
      exact h.elim
    | cons word rest =>
      rw [hwords] at h
      rcases h with heq | ⟨heq, next, more, rfl, hnext⟩
      · exact .inl ⟨word, rest, rfl, heq⟩
      · right
        obtain ⟨after, hafter⟩ := Option.isSome_iff_exists.1
          ((stripSqlishKeywordPrefix_isSome_iff isWord_explain).2 ⟨word, next :: more, hwords, heq⟩)
        obtain ⟨word', hwords', -⟩ := words_of_stripSqlishKeywordPrefix isWord_explain hafter
        rw [hwords] at hwords'
        rw [hafter, Option.bind_some, stripSqlishKeywordPrefix_isSome_iff isWord_select]
        exact ⟨next, more, ((List.cons.inj hwords').2).symm, hnext⟩

/-! ### Numbers and values -/

theorem isWord_toString (n : ℕ) : IsWord (toString n).toList := by
  refine ⟨?_, fun c hc => isWhitespace_of_isDigit (isDigit_of_mem_toString hc)⟩
  rw [Nat.toString_eq_ofList_toDigits, String.toList_ofList]
  exact Nat.toDigits_ne_nil

/-- A number is read back. -/
theorem parseUsize_toString {n : ℕ} (h : n ≤ usizeMax) : parseUsize (toString n) = some n := by
  have hdigit : ∀ c ∈ (toString n).toList, c.isDigit = true := fun _ => isDigit_of_mem_toString
  have hvalue : (toString n).toList.foldl (fun n c => 10 * n + (c.toNat - '0'.toNat)) 0 = n := by
    rw [Nat.toString_eq_ofList_toDigits, String.toList_ofList]
    exact Nat.ofDigitChars_ten_toDigits
  have hne := (isWord_toString n).1
  rw [parseUsize]
  generalize (toString n).toList = digits at hdigit hvalue hne
  have hany : ¬ (digits = [] ∨ digits.any (fun c => !c.isDigit) = true) := by
    rw [not_or, Bool.not_eq_true, List.any_eq_false]
    exact ⟨hne, fun c hc => by rw [hdigit c hc]; decide⟩
  have hsign : digits.head? ≠ some '+' := by
    intro hhead
    exact absurd (hdigit _ (List.mem_of_mem_head? hhead)) (by decide)
  split
  · exact absurd rfl hsign
  · rw [if_neg hany, hvalue, if_pos h]

/-- A text that is read as a value. -/
theorem parseTraceqlValue_visible {S : Type} {F : CompilerFormat S} {text : List Char}
    (h : Visible text) {value : Value} (hvalue : F.valueFromStr (String.ofList text) = .ok value)
    (n : ℕ) :
    parseTraceqlValue F text n = .ok value := by
  rw [parseTraceqlValue, h.strip, if_neg h.ne_nil, hvalue]

end TraceDB
