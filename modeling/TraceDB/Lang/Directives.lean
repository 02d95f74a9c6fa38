import TraceDB.Lang.Statements
import TraceDB.Lang.Words

/-!
# The first word of a statement

A statement is read by its first word.  The first word of a text in line form is that of its first
statement, so it is a directive if the text is accepted (`directive_of_accepted`).
-/

namespace TraceDB

open Brackets Text

/-! ### Letter case -/

theorem toUpper_toLower (c : Char) : c.toLower.toUpper = c.toUpper := by
  by_cases h : c.val ≥ 'A'.val ∧ c.val ≤ 'Z'.val
  · have hlow : 65 ≤ c.toNat := UInt32.le_iff_toNat_le.1 h.1
    have hhigh : c.toNat ≤ 90 := UInt32.le_iff_toNat_le.1 h.2
    have hletters : ∀ n < 128, (Char.ofNat n).toLower.toUpper = (Char.ofNat n).toUpper := by decide
    have hletter := hletters c.toNat (by omega)
    rwa [Char.ofNat_toNat] at hletter
  · exact congrArg Char.toUpper (dif_neg h)

/-- A directive is known in any letter case. -/
theorem traceqlDirective_congr {a b : List Char} (h : eqIgnoreAsciiCase a b = true) :
    traceqlDirective a = traceqlDirective b := by
  have hupper : ∀ word : List Char, word.map Char.toUpper =
      (word.map Char.toLower).map Char.toUpper := by
    intro word
    rw [List.map_map]
    refine List.map_congr_left fun c _ => ?_
    exact (toUpper_toLower c).symm
  have hmap : a.map Char.toUpper = b.map Char.toUpper := by
    rw [hupper a, hupper b, eqIgnoreAsciiCase_iff.1 h]
  rw [traceqlDirective, traceqlDirective, hmap]

/-- A text that starts like another one, apart from letter case, starts with a word of that one. -/
theorem exists_word_of_eqIgnoreAsciiCase {text word rest : List Char} (hends : Ends rest)
    (h : eqIgnoreAsciiCase text (word ++ rest) = true) :
    ∃ word' rest', text = word' ++ rest' ∧ eqIgnoreAsciiCase word' word = true ∧ Ends rest' := by
  rw [eqIgnoreAsciiCase_iff, List.map_append] at h
  obtain ⟨word', rest', rfl, hword, hrest⟩ := List.map_eq_append_iff.1 h
  refine ⟨word', rest', rfl, eqIgnoreAsciiCase_iff.2 hword, ?_⟩
  cases rest' with
  | nil => exact ends_nil
  | cons c rest' =>
    cases rest with
    | nil => cases hrest
    | cons d rest =>
      have hcd : c.toLower = d.toLower := (List.cons.inj hrest).1
      rw [ends_cons] at hends ⊢
      rwa [← isWhitespace_toLower, hcd, isWhitespace_toLower]

/-! ### Statements -/

/-- A statement of a word and what follows it. -/
theorem splitTraceqlDirective_append {word after : List Char} (hword : IsWord word)
    (hafter : Ends after) :
    splitTraceqlDirective (word ++ after) = (word, strip after) := by
  have htake : ∀ c ∈ word, (!isWhitespace c) = true := fun c hc => by rw [hword.2 c hc]; rfl
  have hnone : after.takeWhile (fun c => !isWhitespace c) = [] ∧
      after.dropWhile (fun c => !isWhitespace c) = after := by
    cases after with
    | nil => exact ⟨rfl, rfl⟩
    | cons c after =>
      have hc := ends_cons.1 hafter
      exact ⟨List.takeWhile_cons_of_neg (by simp [hc]), List.dropWhile_cons_of_neg (by simp [hc])⟩
  rw [splitTraceqlDirective, List.takeWhile_append_of_pos htake, List.dropWhile_append_of_pos htake,
    hnone.1, hnone.2, List.append_nil]

/-- The first part of a text is the beginning of it. -/
theorem exists_first_part {separator : Char} {m : Mode} {part text first : List Char}
    {parts : List (List Char)} (h : cut separator m part text = some (first :: parts)) :
    ∃ front, first = part.reverse ++ front ∧ front <+: text := by
  induction text generalizing m part with
  | nil =>
    rw [cut_end] at h
    split_ifs at h
    obtain ⟨rfl, -⟩ := List.cons.inj (Option.some.inj h)
    exact ⟨[], (List.append_nil _).symm, List.nil_prefix⟩
  | cons c text ih =>
    rw [cut_cons] at h
    split_ifs at h
    · obtain ⟨rest, -, heq⟩ := Option.map_eq_some_iff.1 h
      obtain ⟨rfl, -⟩ := List.cons.inj heq
      exact ⟨[], (List.append_nil _).symm, List.nil_prefix⟩
    · obtain ⟨m', -, hrest⟩ := Option.bind_eq_some_iff.1 h
      obtain ⟨front, rfl, hfront⟩ := ih hrest
      refine ⟨c :: front, by rw [List.reverse_cons, List.append_assoc, List.singleton_append], ?_⟩
      exact List.cons_prefix_cons.2 ⟨rfl, hfront⟩

theorem ends_of_isPrefix {front text : List Char} (h : Ends text) (hfront : front <+: text) :
    Ends front := by
  cases front with
  | nil => exact ends_nil
  | cons c front =>
    obtain ⟨rest, rfl⟩ := hfront
    exact h

/-- A text without its trailing white space begins with the same word. -/
theorem strip_word_append {word after : List Char} (hword : IsWord word) (hafter : Ends after) :
    ∃ after', strip (word ++ after) = word ++ after' ∧ Ends after' := by
  obtain ⟨c, word, rfl⟩ := List.exists_cons_of_ne_nil hword.1
  have htrim : trimStart (c :: word ++ after) = c :: word ++ after :=
    List.dropWhile_cons_of_neg (by simp [hword.2 c List.mem_cons_self])
  have hprefix : strip (c :: word ++ after) <+: c :: word ++ after := by
    have h := List.rdropWhile_prefix isWhitespace (c :: word ++ after)
    rwa [strip, htrim]
  have hwords : words (strip (c :: word ++ after)) = (c :: word) :: words after := by
    rw [words_strip, words_append hword hafter]
  rcases trimStart_cases (strip (c :: word ++ after)) with ⟨-, hnil⟩ |
    ⟨first, rest, hfirst, hisWord, hends, hcons⟩
  · rw [hwords] at hnil
    cases hnil
  · have hsame : first = c :: word := by
      rw [hwords] at hcons
      exact (List.cons.inj hcons).1.symm
    subst hsame
    refine ⟨rest, ?_, hends⟩
    -- Nothing stands in front of the word.
    rw [← hfirst, trimStart, List.dropWhile_eq_self_iff.2]
    intro hlt
    have hhead : (strip (c :: word ++ after))[0] = c := by
      obtain ⟨more, hmore⟩ := hprefix
      have hget : (strip (c :: word ++ after) ++ more)[0]? = some c := by rw [hmore]; rfl
      rw [List.getElem?_append_left hlt] at hget
      exact (List.getElem?_eq_some_iff.1 hget).2
    rw [hhead, hword.2 c List.mem_cons_self]
    exact Bool.false_ne_true

variable {S : Type} (F : CompilerFormat S)

/-- The first statement of an accepted text names a directive. -/
theorem directive_of_queryOfTexts {text : List Char} {texts : List (List Char)}
    {query : HybridQuery S} (h : queryOfTexts F (text :: texts) = some query) :
    traceqlDirective (splitTraceqlDirective text).1 ≠ none := by
  intro hnone
  have happly : TraceqlDraft.applyText F TraceqlDraft.empty text = none := by
    rw [TraceqlDraft.applyText, TraceqlDraft.apply]
    dsimp only
    rw [hnone]
    rfl
  rw [queryOfTexts, List.foldlM_cons, happly] at h
  cases h

/-- The first word of an accepted text names a directive. -/
theorem directive_of_accepted {word after : List Char} {query : HybridQuery S} (hword : IsWord word)
    (hplain : ∀ c ∈ word, isPlain c = true) (hafter : Ends after)
    (h : traceqlLinesFromStr F (word ++ after) = .ok query) : traceqlDirective word ≠ none := by
  have hnoline : '\n' ∉ word := fun hmem => by
    have hline := hword.2 _ hmem
    revert hline
    decide
  have hoption := traceqlLinesFromStr_toOption F (word ++ after)
  rw [h, Except.toOption_ok, cut_run hnoline, Mode.run_nested (Nested.of_plain hplain),
    Option.bind_some] at hoption
  obtain ⟨lines, hlines, hquery⟩ := Option.bind_eq_some_iff.1 hoption.symm
  cases lines with
  | nil => exact absurd rfl (cut_ne_nil hlines)
  | cons first lines =>
    obtain ⟨front, rfl, hfront⟩ := exists_first_part hlines
    rw [List.append_nil, List.reverse_reverse] at hquery
    have hends := ends_of_isPrefix hafter hfront
    obtain ⟨after', hstrip, hends'⟩ := strip_word_append hword hends
    -- The sign of a comment is not plain.
    have hstatement : statementTexts [word ++ front] = [word ++ after'] := by
      rw [statementTexts, List.map_singleton, hstrip]
      obtain ⟨c, word, rfl⟩ := List.exists_cons_of_ne_nil hword.1
      have hc := hplain c List.mem_cons_self
      have hsign : c ≠ '#' := by rintro rfl; revert hc; decide
      simp [hsign]
    rw [statementTexts_cons, hstatement] at hquery
    have hdirective := directive_of_queryOfTexts F hquery
    rwa [splitTraceqlDirective_append hword hends'] at hdirective

end TraceDB
