import Mathlib.Data.List.Basic
import Mathlib.Tactic.Common

/-!
# Texts with string literals and brackets

A loop over the characters of a text often has to leave alone what stands in string literals and in
brackets. `Mode` is what such a loop keeps: how many brackets of each kind are open, and whether it
is inside a literal. `cut` splits a text at the separators outside of both.

`Nested` is the shape of a text in which every literal is closed and every bracket has its partner:
loops return from it in the mode in which they entered it (`cut_nested`).  What encloses a nested
text hides its separators (`cut_hidden`).
-/

namespace Brackets

/-! ### Modes -/

/-- Where a loop over a text stands: outside of string literals, or inside one, and there perhaps
after a backslash; with the numbers of open parentheses, braces and brackets. -/
inductive Mode where
  | code (parens braces brackets : ℕ)
  | literal (parens braces brackets : ℕ) (escaped : Bool)
  deriving DecidableEq

/-- Nothing is open. -/
abbrev Mode.top : Mode := .code 0 0 0

/-- The mode after a character; there is none after a bracket that closes nothing. -/
def Mode.next : Mode → Char → Option Mode
  | .code p b k, c =>
    if c = '"' then some (.literal p b k false)
    else if c = '(' then some (.code (p + 1) b k)
    else if c = ')' then if p = 0 then none else some (.code (p - 1) b k)
    else if c = '\x7b' then some (.code p (b + 1) k)
    else if c = '\x7d' then if b = 0 then none else some (.code p (b - 1) k)
    else if c = '[' then some (.code p b (k + 1))
    else if c = ']' then if k = 0 then none else some (.code p b (k - 1))
    else some (.code p b k)
  | .literal p b k true, _ => some (.literal p b k false)
  | .literal p b k false, c =>
    if c = '\\' then some (.literal p b k true)
    else if c = '"' then some (.code p b k)
    else some (.literal p b k false)

/-- The mode after a text. -/
def Mode.run : Mode → List Char → Option Mode
  | m, [] => some m
  | m, c :: text => (m.next c).bind fun m' => m'.run text

theorem Mode.run_append (m : Mode) (a b : List Char) :
    m.run (a ++ b) = (m.run a).bind fun m' => m'.run b := by
  induction a generalizing m with
  | nil => rfl
  | cons c a ih =>
    rw [List.cons_append, Mode.run, Mode.run]
    cases m.next c with
    | none => rfl
    | some m' => exact ih m'

/-! ### Cutting -/

/-- The parts of a text between the separators at which nothing is open, after a part that is read
already, last character first.  There are none when a bracket closes nothing, or when something is
open at the end. -/
def cut (separator : Char) : Mode → List Char → List Char → Option (List (List Char))
  | m, part, [] => if m = .top then some [part.reverse] else none
  | m, part, c :: text =>
    if m = .top ∧ c = separator then (part.reverse :: ·) <$> cut separator .top [] text
    else (m.next c).bind fun m' => cut separator m' (c :: part) text

theorem cut_end (separator : Char) (m : Mode) (part : List Char) :
    cut separator m part [] = if m = .top then some [part.reverse] else none := rfl

theorem cut_cons (separator : Char) (m : Mode) (part : List Char) (c : Char) (text : List Char) :
    cut separator m part (c :: text) =
      if m = .top ∧ c = separator then (part.reverse :: ·) <$> cut separator .top [] text
      else (m.next c).bind fun m' => cut separator m' (c :: part) text := rfl

theorem cut_nil (separator : Char) (part : List Char) :
    cut separator .top part [] = some [part.reverse] :=
  rfl

theorem cut_separator (separator : Char) (part text : List Char) :
    cut separator .top part (separator :: text) = (part.reverse :: ·) <$>
      cut separator .top [] text := by
  rw [cut, if_pos ⟨rfl, rfl⟩]

/-- A part without the separator is read through. -/
theorem cut_run {separator : Char} {line : List Char} (h : separator ∉ line) (m : Mode)
    (part text : List Char) :
    cut separator m part (line ++ text) =
      (m.run line).bind fun m' => cut separator m' (line.reverse ++ part) text := by
  induction line generalizing m part with
  | nil => rfl
  | cons c line ih =>
    rw [List.mem_cons, not_or] at h
    have hsep : ¬ (m = .top ∧ c = separator) := fun hc => h.1 hc.2.symm
    rw [List.cons_append, cut, if_neg hsep, Mode.run]
    cases m.next c with
    | none => rfl
    | some m' =>
      simp only [Option.bind_some, ih h.2, List.reverse_cons, List.append_assoc,
        List.singleton_append]

/-- A text is cut into at least one part. -/
theorem cut_ne_nil {separator : Char} {m : Mode} {part text : List Char} {parts : List (List Char)}
    (h : cut separator m part text = some parts) : parts ≠ [] := by
  induction text generalizing m part parts with
  | nil =>
    rw [cut] at h
    split_ifs at h
    rw [← Option.some.inj h]
    exact List.cons_ne_nil _ _
  | cons c text ih =>
    rw [cut] at h
    split_ifs at h with hsep
    · obtain ⟨rest, -, rfl⟩ := Option.map_eq_some_iff.1 h
      exact List.cons_ne_nil _ _
    · obtain ⟨m', -, hrest⟩ := Option.bind_eq_some_iff.1 h
      exact ih hrest

/-! ### Nested texts -/

/-- The inside of a string literal. -/
inductive Literal : List Char → Prop where
  | nil : Literal []
  | char {c : Char} {text : List Char} : c ≠ '"' → c ≠ '\\' → Literal text → Literal (c :: text)
  | escape (c : Char) {text : List Char} : Literal text → Literal ('\\' :: c :: text)

/-- A character that opens and closes nothing: no quote, bracket or comment sign. -/
def isPlain (c : Char) : Bool :=
  !(['"', '\'', '#', '(', ')', '[', ']', '\x7b', '\x7d'].contains c)

/-- The kinds of brackets. -/
inductive Pair : Char → Char → Prop where
  | parens : Pair '(' ')'
  | braces : Pair '\x7b' '\x7d'
  | brackets : Pair '[' ']'

/-- A text in which literals are closed and brackets have their partners. -/
inductive Nested : List Char → Prop where
  | nil : Nested []
  | char {c : Char} {text : List Char} : isPlain c = true → Nested text → Nested (c :: text)
  | literal {body text : List Char} : Literal body → Nested text →
      Nested ('"' :: (body ++ '"' :: text))
  | group {opening closing : Char} {inner text : List Char} : Pair opening closing → Nested inner →
      Nested text → Nested (opening :: (inner ++ closing :: text))

theorem Literal.append {a b : List Char} (ha : Literal a) (hb : Literal b) : Literal (a ++ b) := by
  induction ha with
  | nil => exact hb
  | char hquote hslash _ ih => exact .char hquote hslash ih
  | escape c _ ih => exact .escape c ih

theorem Literal.of_forall {text : List Char} (h : ∀ c ∈ text, c ≠ '"' ∧ c ≠ '\\') :
    Literal text := by
  induction text with
  | nil => exact .nil
  | cons c text ih =>
    rw [List.forall_mem_cons] at h
    exact .char h.1.1 h.1.2 (ih h.2)

theorem Nested.append {a b : List Char} (ha : Nested a) (hb : Nested b) : Nested (a ++ b) := by
  induction ha with
  | nil => exact hb
  | char hc _ ih => exact .char hc ih
  | literal hbody _ ih =>
    rw [List.cons_append, List.append_assoc]
    exact .literal hbody ih
  | group hpair hinner _ _ ih =>
    rw [List.cons_append, List.append_assoc]
    exact .group hpair hinner ih

theorem Nested.of_plain {text : List Char} (h : ∀ c ∈ text, isPlain c = true) : Nested text := by
  induction text with
  | nil => exact .nil
  | cons c text ih =>
    rw [List.forall_mem_cons] at h
    exact .char h.1 (ih h.2)

theorem Nested.flatten {texts : List (List Char)} (h : ∀ text ∈ texts, Nested text) :
    Nested texts.flatten := by
  induction texts with
  | nil => exact .nil
  | cons text texts ih =>
    rw [List.forall_mem_cons] at h
    exact h.1.append (ih h.2)

/-! ### Modes over nested texts -/

theorem Mode.next_plain {c : Char} (h : isPlain c = true) (p b k : ℕ) :
    (Mode.code p b k).next c = some (.code p b k) := by
  simp only [isPlain, List.contains_cons, List.contains_nil, Bool.or_false, Bool.not_eq_true',
    Bool.or_eq_false_iff, beq_eq_false_iff_ne, ne_eq] at h
  obtain ⟨h1, -, -, h4, h5, h6, h7, h8, h9⟩ := h
  rw [Mode.next, if_neg h1, if_neg h4, if_neg h5, if_neg h8, if_neg h9, if_neg h6, if_neg h7]

theorem Mode.run_literal {body : List Char} (h : Literal body) (p b k : ℕ) (rest : List Char) :
    (Mode.literal p b k false).run (body ++ '"' :: rest) = (Mode.code p b k).run rest := by
  induction h with
  | nil => rfl
  | char hquote hslash _ ih =>
    rw [List.cons_append, Mode.run, Mode.next, if_neg hslash, if_neg hquote]
    exact ih
  | escape c _ ih => exact ih

/-- The bracket that opens a pair is closed by its partner. -/
theorem Mode.run_pair {opening closing : Char} (h : Pair opening closing) (p b k : ℕ) :
    ∃ p' b' k', p + b + k < p' + b' + k' ∧ (Mode.code p b k).next opening = some (.code p' b' k') ∧
      (Mode.code p' b' k').next closing = some (.code p b k) := by
  cases h with
  | parens => exact ⟨p + 1, b, k, by omega, rfl, rfl⟩
  | braces => exact ⟨p, b + 1, k, by omega, rfl, rfl⟩
  | brackets => exact ⟨p, b, k + 1, by omega, rfl, rfl⟩

/-- A nested text leaves the mode as it is. -/
theorem Mode.run_nested {text : List Char} (h : Nested text) (p b k : ℕ) :
    (Mode.code p b k).run text = some (.code p b k) := by
  induction h generalizing p b k with
  | nil => rfl
  | char hc _ ih =>
    rw [Mode.run, Mode.next_plain hc]
    exact ih p b k
  | literal hbody _ ih =>
    show (Mode.literal p b k false).run _ = _
    rw [Mode.run_literal hbody]
    exact ih p b k
  | group hpair _ _ ihinner ihrest =>
    obtain ⟨p', b', k', -, hopen, hclose⟩ := Mode.run_pair hpair p b k
    rw [Mode.run, hopen, Option.bind_some, Mode.run_append, ihinner, Option.bind_some,
      Mode.run, hclose]
    exact ihrest p b k

/-! ### Cuts of nested texts -/

theorem cut_literal (separator : Char) {body : List Char} (h : Literal body) (p b k : ℕ)
    (part text : List Char) :
    cut separator (.literal p b k false) part (body ++ '"' :: text) =
      cut separator (.code p b k) ('"' :: (body.reverse ++ part)) text := by
  induction h generalizing part with
  | nil => rfl
  | char hquote hslash _ ih =>
    rw [List.cons_append, cut, if_neg (by simp), Mode.next, if_neg hslash, if_neg hquote]
    simp only [Option.bind_some, ih, List.reverse_cons, List.append_assoc, List.singleton_append]
  | @escape c body _ ih =>
    show cut separator (.literal p b k false) (c :: '\\' :: part) (body ++ '"' :: text) = _
    rw [ih]
    simp

/-- The text of one literal is not cut. -/
theorem cut_quoted {separator : Char} (hsep : separator ≠ '"') {body : List Char} (h : Literal body)
    (p b k : ℕ) (part text : List Char) :
    cut separator (.code p b k) part ('"' :: (body ++ '"' :: text)) =
      cut separator (.code p b k) ('"' :: (body.reverse ++ '"' :: part)) text := by
  rw [cut, if_neg fun hc => hsep hc.2.symm, ← cut_literal separator h]
  rfl

/-- Where something is open, a nested text is not cut. -/
theorem cut_hidden {separator : Char} {inner : List Char} (h : Nested inner) {p b k : ℕ}
    (hopen : 0 < p + b + k) (part text : List Char) :
    cut separator (.code p b k) part (inner ++ text) =
      cut separator (.code p b k) (inner.reverse ++ part) text := by
  have hne : ∀ {p b k : ℕ} (c : Char), 0 < p + b + k →
      ¬ (Mode.code p b k = .top ∧ c = separator) := by
    rintro p b k c hpos ⟨htop, -⟩
    obtain ⟨rfl, rfl, rfl⟩ := Mode.code.inj htop
    omega
  induction h generalizing p b k part text with
  | nil => rfl
  | char hc _ ih =>
    rw [List.cons_append, cut, if_neg (hne _ hopen), Mode.next_plain hc]
    simp only [Option.bind_some, ih hopen, List.reverse_cons, List.append_assoc,
      List.singleton_append]
  | literal hbody _ ih =>
    rw [List.cons_append, cut, if_neg (hne _ hopen), List.append_assoc]
    show cut separator (.literal p b k false) _ _ = _
    rw [List.cons_append, cut_literal separator hbody, ih hopen]
    simp
  | group hpair _ _ ihinner ihrest =>
    obtain ⟨p', b', k', hmore, hnext, hclose⟩ := Mode.run_pair hpair p b k
    rw [List.cons_append, cut, if_neg (hne _ hopen), hnext, Option.bind_some, List.append_assoc,
      ihinner (by omega), List.cons_append, cut, if_neg (hne _ (by omega)), hclose,
      Option.bind_some, ihrest hopen]
    simp

/-- A group of brackets is not cut. -/
theorem cut_group {separator opening closing : Char} (hpair : Pair opening closing)
    (hsep : separator ≠ opening) {inner : List Char} (h : Nested inner) (p b k : ℕ)
    (part text : List Char) :
    cut separator (.code p b k) part (opening :: (inner ++ closing :: text)) =
      cut separator (.code p b k) (closing :: (inner.reverse ++ opening :: part)) text := by
  obtain ⟨p', b', k', hmore, hnext, hclose⟩ := Mode.run_pair hpair p b k
  have htop : ¬ (Mode.code p' b' k' = .top ∧ closing = separator) := by
    rintro ⟨heq, -⟩
    obtain ⟨rfl, rfl, rfl⟩ := Mode.code.inj heq
    omega
  rw [cut, if_neg fun hc => hsep hc.2.symm, hnext, Option.bind_some, cut_hidden h (by omega), cut,
    if_neg htop, hclose, Option.bind_some]

/-- Plain characters other than the separator are not cut. -/
theorem cut_plain {separator : Char} {word : List Char} (hsep : separator ∉ word)
    (h : ∀ c ∈ word, isPlain c = true) (p b k : ℕ) (part text : List Char) :
    cut separator (.code p b k) part (word ++ text) =
      cut separator (.code p b k) (word.reverse ++ part) text := by
  rw [cut_run hsep, Mode.run_nested (Nested.of_plain h), Option.bind_some]

end Brackets
