import Mathlib.Data.List.Infix

/-!
# Escaping with a mark that is itself kept

An `Escaping` keeps some symbols as they are and spells every other one as a mark followed by a code
of kept symbols.  Because the mark is kept as well, a text can hold what looks like a spelling
already, and escaping is not injective.  `Escaping.escape_eq_iff` says which texts it confuses:
exactly those that differ by writing symbols for their spellings (`Escaping.Respelled`).
-/

namespace TraceDB

/-- A spelling of the symbols that are not kept. -/
structure Escaping (α : Type) where
  /-- The symbols that stand for themselves. -/
  keep : α → Bool
  /-- The start of a spelling, which is kept too. -/
  mark : α
  /-- What follows the mark. -/
  code : α → List α
  keep_mark : keep mark = true
  keep_of_mem_code : ∀ a, ∀ c ∈ code a, keep c = true
  mark_notMem_code : ∀ a, mark ∉ code a
  length_code : ∀ a b, (code a).length = (code b).length
  code_injective : Function.Injective code

namespace Escaping

variable {α : Type} (E : Escaping α)

/-- The spelling of a symbol. -/
def spell (a : α) : List α := if E.keep a then [a] else E.mark :: E.code a

/-- The spelling of a text. -/
def escape (text : List α) : List α := text.flatMap E.spell

/-- The texts that differ by some symbols, each written out on one side and spelled on the other. -/
inductive Respelled : List α → List α → Prop where
  | nil : Respelled [] []
  | same (c : α) {a b : List α} : Respelled a b → Respelled (c :: a) (c :: b)
  | left {c : α} {a b : List α} :
      E.keep c = false → Respelled a b → Respelled (c :: a) (E.mark :: (E.code c ++ b))
  | right {c : α} {a b : List α} :
      E.keep c = false → Respelled a b → Respelled (E.mark :: (E.code c ++ a)) (c :: b)

variable {E}

theorem Respelled.refl (text : List α) : E.Respelled text text := by
  induction text with
  | nil => exact .nil
  | cons c text ih => exact .same c ih

@[simp] theorem escape_nil : E.escape [] = [] := rfl

@[simp] theorem escape_cons (a : α) (text : List α) :
    E.escape (a :: text) = E.spell a ++ E.escape text := rfl

theorem spell_of_keep {a : α} (h : E.keep a = true) : E.spell a = [a] := if_pos h

theorem spell_of_not_keep {a : α} (h : E.keep a = false) : E.spell a = E.mark :: E.code a :=
  if_neg (by rw [h]; exact Bool.false_ne_true)

theorem spell_ne_nil (a : α) : E.spell a ≠ [] := by
  unfold spell
  split_ifs <;> exact List.cons_ne_nil _ _

@[simp] theorem escape_eq_nil {text : List α} : E.escape text = [] ↔ text = [] := by
  cases text with
  | nil => simp
  | cons a text => simp [spell_ne_nil]

theorem keep_of_mem_escape {text : List α} {c : α} (h : c ∈ E.escape text) : E.keep c = true := by
  obtain ⟨a, -, hc⟩ := List.mem_flatMap.1 h
  cases ha : E.keep a with
  | true =>
    rw [spell_of_keep ha, List.mem_singleton] at hc
    rw [hc, ha]
  | false =>
    rw [spell_of_not_keep ha, List.mem_cons] at hc
    rcases hc with rfl | hc
    · exact E.keep_mark
    · exact E.keep_of_mem_code a c hc

/-- A text that is kept as it is. -/
theorem escape_append_of_keep {text : List α} (h : ∀ c ∈ text, E.keep c = true) (more : List α) :
    E.escape (text ++ more) = text ++ E.escape more := by
  induction text with
  | nil => rfl
  | cons c text ih =>
    rw [List.forall_mem_cons] at h
    rw [List.cons_append, escape_cons, spell_of_keep h.1, ih h.2]
    rfl

theorem escape_of_keep {text : List α} (h : ∀ c ∈ text, E.keep c = true) :
    E.escape text = text := by
  have happend := escape_append_of_keep h []
  simpa using happend

/-- What a spelled text starts with stands in the text itself, as long as no mark is in it. -/
theorem eq_append_of_escape {text code rest : List α} (hmark : E.mark ∉ code)
    (h : E.escape text = code ++ rest) : ∃ more, text = code ++ more ∧ E.escape more = rest := by
  induction code generalizing text with
  | nil => exact ⟨text, rfl, h⟩
  | cons c code ih =>
    rw [List.mem_cons, not_or] at hmark
    cases text with
    | nil => cases h
    | cons a text =>
      cases ha : E.keep a with
      | false =>
        rw [escape_cons, spell_of_not_keep ha] at h
        exact absurd (List.cons.inj h).1 hmark.1
      | true =>
        rw [escape_cons, spell_of_keep ha] at h
        obtain ⟨rfl, htail⟩ := List.cons.inj h
        obtain ⟨more, rfl, hmore⟩ := ih hmark.2 htail
        exact ⟨more, rfl, hmore⟩

/-- A symbol that is spelled, against a text that may hold the spelling already. -/
theorem escape_eq_spelled {a : α} {rest text : List α}
    (h : E.escape text = E.mark :: (E.code a ++ rest)) :
    (∃ more, text = a :: more ∧ E.escape more = rest) ∨
      ∃ more, text = E.mark :: (E.code a ++ more) ∧ E.escape more = rest := by
  cases text with
  | nil => cases h
  | cons b text =>
    cases hb : E.keep b with
    | true =>
      rw [escape_cons, spell_of_keep hb] at h
      obtain ⟨rfl, htail⟩ := List.cons.inj h
      obtain ⟨more, rfl, hmore⟩ := eq_append_of_escape (E.mark_notMem_code a) htail
      exact .inr ⟨more, rfl, hmore⟩
    | false =>
      rw [escape_cons, spell_of_not_keep hb] at h
      obtain ⟨-, htail⟩ := List.cons.inj h
      obtain ⟨hcode, hrest⟩ := List.append_inj htail (E.length_code b a)
      rw [E.code_injective hcode]
      exact .inl ⟨text, rfl, hrest⟩

theorem Respelled.escape_eq {a b : List α} (h : E.Respelled a b) : E.escape a = E.escape b := by
  induction h with
  | nil => rfl
  | same c _ ih => rw [escape_cons, escape_cons, ih]
  | @left c a b hc _ ih =>
    rw [escape_cons, escape_cons, spell_of_not_keep hc, spell_of_keep E.keep_mark,
      escape_append_of_keep (E.keep_of_mem_code c), ih]
    rfl
  | @right c a b hc _ ih =>
    rw [escape_cons, escape_cons, spell_of_not_keep hc, spell_of_keep E.keep_mark,
      escape_append_of_keep (E.keep_of_mem_code c), ih]
    rfl

theorem respelled_of_escape_eq {a b : List α} (h : E.escape a = E.escape b) : E.Respelled a b := by
  -- The length of both texts goes down in each of the four ways in which their starts can agree.
  induction hn : a.length + b.length using Nat.strong_induction_on generalizing a b with
  | _ n ih =>
    subst hn
    cases a with
    | nil =>
      rw [escape_nil, eq_comm, escape_eq_nil] at h
      rw [h]
      exact .nil
    | cons c a =>
      cases hc : E.keep c with
      | false =>
        rw [escape_cons, spell_of_not_keep hc] at h
        rcases escape_eq_spelled h.symm with ⟨more, rfl, hmore⟩ | ⟨more, rfl, hmore⟩
        · exact .same c (ih _ (by simp only [List.length_cons]; omega) hmore.symm rfl)
        · refine .left hc (ih _ ?_ hmore.symm rfl)
          simp only [List.length_cons, List.length_append]
          omega
      | true =>
        cases b with
        | nil => exact absurd h (by simp [spell_ne_nil])
        | cons d b =>
          cases hd : E.keep d with
          | true =>
            rw [escape_cons, escape_cons, spell_of_keep hc, spell_of_keep hd] at h
            obtain ⟨rfl, htail⟩ := List.cons.inj h
            exact .same c (ih _ (by simp only [List.length_cons]; omega) htail rfl)
          | false =>
            rw [escape_cons (a := d), spell_of_not_keep hd] at h
            rcases escape_eq_spelled h with ⟨more, hmore, htail⟩ | ⟨more, hmore, htail⟩
            · rw [(List.cons.inj hmore).1, hd] at hc
              cases hc
            · rw [hmore]
              refine .right hd (ih _ ?_ htail rfl)
              have hlength := congrArg List.length hmore
              simp only [List.length_cons, List.length_append] at hlength ⊢
              omega

/-- **The texts that are confused.** -/
theorem escape_eq_iff {a b : List α} : E.escape a = E.escape b ↔ E.Respelled a b :=
  ⟨respelled_of_escape_eq, Respelled.escape_eq⟩

/-- A spelled text without a spelling in it is the text itself. -/
theorem eq_of_escape_eq {text word : List α} (h : E.escape text = word)
    (hword : ∀ a, E.keep a = false → ¬ (E.mark :: E.code a) <:+: word) : text = word := by
  induction text generalizing word with
  | nil => exact h
  | cons a text ih =>
    cases ha : E.keep a with
    | false =>
      rw [escape_cons, spell_of_not_keep ha] at h
      exact absurd ⟨[], E.escape text, by simpa using h⟩ (hword a ha)
    | true =>
      rw [escape_cons, spell_of_keep ha] at h
      subst h
      have htail : text = E.escape text :=
        ih rfl fun b hb hinside => hword b hb (hinside.trans (List.suffix_append _ _).isInfix)
      exact congrArg (a :: ·) htail

end Escaping

end TraceDB
