import TraceDB.Data.Brackets

/-!
# Tokens of nested texts

A text that is written as tokens: words without quotes and brackets, string literals, and brackets,
each with its partner (`TokenTree`).  The tokens may be laid out with gaps between them (`Spaced`);
where the gaps are plain, the text is nested, as it is without gaps.
-/

namespace Brackets

/-- Tokens in which brackets have their partners. -/
inductive TokenTree : List (List Char) → Prop where
  | nil : TokenTree []
  | word {word : List Char} {tokens : List (List Char)} : (∀ c ∈ word, isPlain c = true) →
      TokenTree tokens → TokenTree (word :: tokens)
  | literal {body : List Char} {tokens : List (List Char)} : Literal body → TokenTree tokens →
      TokenTree (('"' :: (body ++ ['"'])) :: tokens)
  | group {opening closing : Char} {inner tokens : List (List Char)} : Pair opening closing →
      TokenTree inner → TokenTree tokens → TokenTree ([opening] :: (inner ++ [closing] :: tokens))

theorem TokenTree.append {a b : List (List Char)} (ha : TokenTree a) (hb : TokenTree b) :
    TokenTree (a ++ b) := by
  induction ha with
  | nil => exact hb
  | word hword _ ih => exact .word hword ih
  | literal hbody _ ih => exact .literal hbody ih
  | group hpair hinner _ _ ih =>
    rw [List.cons_append, List.append_assoc]
    exact .group hpair hinner ih

/-- A text is made of tokens, each with a gap after it. -/
inductive Spaced (gap : List Char → Prop) : List (List Char) → List Char → Prop where
  | nil : Spaced gap [] []
  | cons {token space text : List Char} {tokens : List (List Char)} : gap space →
      Spaced gap tokens text → Spaced gap (token :: tokens) (token ++ (space ++ text))

theorem Spaced.cons_inv {gap : List Char → Prop} {token text : List Char}
    {tokens : List (List Char)} (h : Spaced gap (token :: tokens) text) :
    ∃ space rest, text = token ++ (space ++ rest) ∧ gap space ∧ Spaced gap tokens rest := by
  cases h with
  | cons hspace hrest => exact ⟨_, _, rfl, hspace, hrest⟩

theorem Spaced.append_inv {gap : List Char → Prop} {a b : List (List Char)} {text : List Char}
    (h : Spaced gap (a ++ b) text) :
    ∃ front back, text = front ++ back ∧ Spaced gap a front ∧ Spaced gap b back := by
  induction a generalizing text with
  | nil => exact ⟨[], text, rfl, .nil, h⟩
  | cons token a ih =>
    obtain - | ⟨hgap, hrest⟩ := h
    obtain ⟨front, back, rfl, hfront, hback⟩ := ih hrest
    exact ⟨_, back, by simp only [List.append_assoc], .cons hgap hfront, hback⟩

theorem Spaced.append {gap : List Char → Prop} {a b : List (List Char)} {front back : List Char}
    (ha : Spaced gap a front) (hb : Spaced gap b back) : Spaced gap (a ++ b) (front ++ back) := by
  induction ha with
  | nil => exact hb
  | cons hgap _ ih =>
    simp only [List.cons_append, List.append_assoc]
    exact .cons hgap ih

/-- Without gaps. -/
theorem Spaced.flatten {gap : List Char → Prop} (hnil : gap []) (tokens : List (List Char)) :
    Spaced gap tokens tokens.flatten := by
  induction tokens with
  | nil => exact .nil
  | cons token tokens ih =>
    have hcons : Spaced gap (token :: tokens) (token ++ ([] ++ tokens.flatten)) := .cons hnil ih
    exact hcons

/-- Plain gaps between tokens open and close nothing. -/
theorem TokenTree.nested {gap : List Char → Prop}
    (hgap : ∀ space, gap space → ∀ c ∈ space, isPlain c = true) {tokens : List (List Char)}
    {text : List Char} (h : TokenTree tokens) (hspaced : Spaced gap tokens text) :
    Nested text := by
  induction h generalizing text with
  | nil =>
    cases hspaced
    exact .nil
  | word hword _ ih =>
    obtain - | ⟨hspace, hrest⟩ := hspaced
    exact (Nested.of_plain hword).append ((Nested.of_plain (hgap _ hspace)).append (ih hrest))
  | literal hbody _ ih =>
    obtain - | ⟨hspace, hrest⟩ := hspaced
    rw [List.cons_append, List.append_assoc, List.singleton_append]
    exact .literal hbody ((Nested.of_plain (hgap _ hspace)).append (ih hrest))
  | group hpair _ _ ihinner ihrest =>
    obtain - | ⟨hspace, hrest⟩ := hspaced
    obtain ⟨front, back, rfl, hfront, hback⟩ := hrest.append_inv
    obtain - | ⟨hspace', hback⟩ := hback
    rw [List.singleton_append, ← List.append_assoc, List.singleton_append]
    exact .group hpair ((Nested.of_plain (hgap _ hspace)).append (ihinner hfront))
      ((Nested.of_plain (hgap _ hspace')).append (ihrest hback))

theorem TokenTree.nested_flatten {tokens : List (List Char)} (h : TokenTree tokens) :
    Nested tokens.flatten :=
  h.nested (by rintro space rfl; simp) (@Spaced.flatten (fun space => space = []) rfl tokens)

end Brackets
