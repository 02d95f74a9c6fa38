import Mathlib.Data.List.Basic
import Mathlib.Data.String.Basic
import Mathlib.Tactic.Common

/-!
# Bytes from a stream

Where a short list first occurs in a longer one, of which more and more is known; and the text of
bytes that need not be UTF-8, with U+FFFD for every part of a character that is broken off.

* `windowPosition_append` : what has been found stays where it is.
* `windowPosition_of_append` : it is found as soon as it is there.
* `windowPosition_endLines` : the first empty line is found where the lines before it end.
* `Utf8.lossyFrom_encode` : the decoder is inverse to the encoding, whatever comes after.
-/

namespace TraceDB

/-! ### Searching in what has been read -/

section Search

variable {α : Type*} {needle list more : List α} {i : ℕ}

theorem prefix_drop_append {j : ℕ} (h : needle <+: (list ++ more).drop j)
    (hj : j + needle.length ≤ list.length) :
    needle <+: list.drop j := by
  rw [List.drop_append_of_le_length (by omega)] at h
  refine List.prefix_of_prefix_length_le h (List.prefix_append _ _) ?_
  rw [List.length_drop]
  omega

variable [DecidableEq α]

/-- `list.windows(needle.len()).position(|window| window == needle)`, of a needle that is not
empty. -/
def windowPosition (needle : List α) : List α → Option ℕ
  | [] => none
  | a :: list => if needle.isPrefixOf (a :: list) = true
      then some 0 else (windowPosition needle list).map (· + 1)

theorem windowPosition_eq_some_iff :
    windowPosition needle list = some i ↔
      i < list.length ∧ needle <+: list.drop i ∧ ∀ j < i, ¬ needle <+: list.drop j := by
  induction list generalizing i with
  | nil => simp [windowPosition]
  | cons a list ih =>
    rw [windowPosition]
    by_cases hprefix : needle <+: a :: list
    · rw [if_pos (List.isPrefixOf_iff_prefix.2 hprefix), Option.some.injEq]
      constructor
      · rintro rfl
        exact ⟨Nat.zero_lt_succ _, hprefix, nofun⟩
      · rintro ⟨-, -, hfirst⟩
        by_contra hne
        exact hfirst 0 (Nat.pos_of_ne_zero (Ne.symm hne)) hprefix
    · rw [if_neg (mt List.isPrefixOf_iff_prefix.1 hprefix), Option.map_eq_some_iff]
      constructor
      · rintro ⟨j, hj, rfl⟩
        obtain ⟨hlt, hj, hfirst⟩ := ih.1 hj
        refine ⟨Nat.succ_lt_succ hlt, hj, fun k hk => ?_⟩
        cases k with
        | zero => exact hprefix
        | succ k => exact hfirst k (Nat.lt_of_succ_lt_succ hk)
      · rintro ⟨hlt, hi, hfirst⟩
        cases i with
        | zero => exact absurd hi hprefix
        | succ i =>
          refine ⟨i, ih.2 ⟨Nat.lt_of_succ_lt_succ hlt, hi, fun j hj => ?_⟩, rfl⟩
          exact hfirst (j + 1) (Nat.succ_lt_succ hj)

/-- What is found is there. -/
theorem windowPosition_le (h : windowPosition needle list = some i) :
    i + needle.length ≤ list.length := by
  obtain ⟨hlt, hprefix, -⟩ := windowPosition_eq_some_iff.1 h
  have hle := hprefix.length_le
  rw [List.length_drop] at hle
  omega

/-- **What has been found stays** where it is. -/
theorem windowPosition_append (h : windowPosition needle list = some i) (more : List α) :
    windowPosition needle (list ++ more) = some i := by
  have hle := windowPosition_le h
  obtain ⟨hlt, hprefix, hfirst⟩ := windowPosition_eq_some_iff.1 h
  refine windowPosition_eq_some_iff.2 ⟨?_, ?_, fun j hj hearlier => ?_⟩
  · rw [List.length_append]
    omega
  · rw [List.drop_append_of_le_length (by omega)]
    exact hprefix.trans (List.prefix_append _ _)
  · exact hfirst j hj (prefix_drop_append hearlier (by omega))

/-- **It is found** as soon as it is there. -/
theorem windowPosition_of_append (h : windowPosition needle (list ++ more) = some i)
    (hle : i + needle.length ≤ list.length) (hne : needle ≠ []) :
      windowPosition needle list = some i := by
  have hpos := List.length_pos_iff.2 hne
  obtain ⟨-, hprefix, hfirst⟩ := windowPosition_eq_some_iff.1 h
  refine windowPosition_eq_some_iff.2
    ⟨by omega, prefix_drop_append hprefix hle, fun j hj hearlier => ?_⟩
  refine hfirst j hj ?_
  rw [List.drop_append_of_le_length (by omega)]
  exact hearlier.trans (List.prefix_append _ _)

/-- Nothing begins with another element than the first one. -/
theorem windowPosition_skip {skipped : List α} {a : α} {rest : List α} (h : a ∉ skipped) :
    windowPosition (a :: rest) (skipped ++ list) =
      (windowPosition (a :: rest) list).map (skipped.length + ·) := by
  induction skipped with
  | nil =>
    rw [List.nil_append, List.length_nil]
    simp
  | cons b skipped ih =>
    rw [List.mem_cons, not_or] at h
    have hprefix : ¬ (a :: rest).isPrefixOf (b :: (skipped ++ list)) = true := by
      rw [List.isPrefixOf_iff_prefix, List.cons_prefix_cons]
      exact fun hsame => h.1 hsame.1
    rw [List.cons_append, windowPosition, if_neg hprefix, ih h.2, Option.map_map]
    refine congrArg (Option.map · _) (funext fun i => ?_)
    simp only [Function.comp_apply, List.length_cons]
    omega

/-! Lines that end in `cr` and `lf`. -/

section Lines

variable {cr lf b : α} {line rest : List α}

/-- A line that is followed by another one is passed over. -/
theorem windowPosition_line (hne : cr ≠ lf) (hline : lf ∉ line ∧ cr ∉ line) (hb : b ≠ lf ∧ b ≠ cr)
    (hneedle : needle = [cr, lf, cr, lf] ∨ needle = [lf, lf]) :
    windowPosition needle (line ++ cr :: lf :: b :: rest) =
      (windowPosition needle (b :: rest)).map (line.length + 2 + ·) := by
  have hends : windowPosition needle (cr :: lf :: b :: rest) =
      (windowPosition needle (b :: rest)).map (2 + ·) := by
    have hcr : ¬ needle.isPrefixOf (cr :: lf :: b :: rest) = true := by
      rcases hneedle with rfl | rfl
      · simp [List.isPrefixOf, hb.2.symm]
      · simp [List.isPrefixOf, hne.symm]
    have hlf : ¬ needle.isPrefixOf (lf :: b :: rest) = true := by
      rcases hneedle with rfl | rfl
      · simp [List.isPrefixOf, hne]
      · simp [List.isPrefixOf, hb.1.symm]
    rw [windowPosition, if_neg hcr, windowPosition, if_neg hlf, Option.map_map]
    refine congrArg (Option.map · _) (funext fun i => ?_)
    simp only [Function.comp_apply]
    omega
  have hskip : windowPosition needle (line ++ cr :: lf :: b :: rest) =
      (windowPosition needle (cr :: lf :: b :: rest)).map (line.length + ·) := by
    rcases hneedle with rfl | rfl
    · exact windowPosition_skip hline.2
    · exact windowPosition_skip hline.1
  rw [hskip, hends, Option.map_map]
  refine congrArg (Option.map · _) (funext fun i => ?_)
  simp only [Function.comp_apply]
  omega

/-- The line before an empty one. -/
theorem windowPosition_lastLine (hne : cr ≠ lf) (hline : lf ∉ line ∧ cr ∉ line) :
    windowPosition [cr, lf, cr, lf] (line ++ cr :: lf :: cr :: lf :: rest) = some line.length ∧
      ∀ j, windowPosition [lf, lf] (line ++ cr :: lf :: cr :: lf :: rest) = some j →
      line.length + 2 ≤ j := by
  constructor
  · rw [windowPosition_skip hline.2, windowPosition, if_pos (by simp [List.isPrefixOf])]
    rfl
  · intro j hj
    rw [windowPosition_skip hline.1] at hj
    obtain ⟨k, hk, rfl⟩ := Option.map_eq_some_iff.1 hj
    rw [windowPosition, if_neg (by simp [List.isPrefixOf, hne.symm]), windowPosition,
      if_neg (by simp [List.isPrefixOf, hne.symm]), Option.map_map] at hk
    obtain ⟨i, -, rfl⟩ := Option.map_eq_some_iff.1 hk
    simp only [Function.comp_apply]
    omega

/-- Lines with their ends. -/
def endLines (cr lf : α) (lines : List (List α)) : List α := lines.flatMap (· ++ [cr, lf])

/-- **The first empty line** is found where the lines before it end. -/
theorem windowPosition_endLines (hne : cr ≠ lf) {lines : List (List α)} {last : List α}
    (hlines : ∀ line ∈ lines, line ≠ [] ∧ lf ∉ line ∧ cr ∉ line)
    (hlast : last ≠ [] ∧ lf ∉ last ∧ cr ∉ last) :
    windowPosition [cr, lf, cr, lf] (endLines cr lf lines ++ last ++ cr :: lf :: cr :: lf :: rest) =
        some (endLines cr lf lines ++ last).length ∧
      ∀ j, windowPosition [lf, lf] (endLines cr lf lines ++ last ++ cr :: lf :: cr :: lf :: rest) =
        some j →
        (endLines cr lf lines ++ last).length + 2 ≤ j := by
  induction lines with
  | nil => exact windowPosition_lastLine hne hlast.2
  | cons line lines ih =>
    rw [List.forall_mem_cons] at hlines
    -- What follows the line begins with a character of its own.
    obtain ⟨b, after, hafter, hb⟩ : ∃ b after,
        endLines cr lf lines ++ last ++ cr :: lf :: cr :: lf :: rest = b :: after ∧
        b ≠ lf ∧ b ≠ cr := by
      have hfirst : ∀ next : List α, next ≠ [] ∧ lf ∉ next ∧ cr ∉ next → ∀ more,
          ∃ b after, next ++ more = b :: after ∧ b ≠ lf ∧ b ≠ cr := by
        rintro next ⟨hnil, hlf, hcr⟩ more
        obtain ⟨b, after, rfl⟩ := List.exists_cons_of_ne_nil hnil
        rw [List.mem_cons, not_or] at hlf hcr
        exact ⟨b, after ++ more, rfl, Ne.symm hlf.1, Ne.symm hcr.1⟩
      cases lines with
      | nil => exact hfirst last hlast _
      | cons next lines =>
        rw [endLines, List.flatMap_cons, List.append_assoc, List.append_assoc, List.append_assoc]
        exact hfirst next (hlines.2 next List.mem_cons_self) _
    have htext : endLines cr lf (line :: lines) ++ last = line ++ cr :: lf ::
        (endLines cr lf lines ++ last) := by
      simp [endLines]
    have hlength : (endLines cr lf (line :: lines) ++ last).length =
        line.length + 2 + (endLines cr lf lines ++ last).length := by
      rw [htext, List.length_append, List.length_cons, List.length_cons]
      omega
    obtain ⟨hfound, hlater⟩ := ih hlines.2
    rw [hafter] at hfound hlater
    rw [hlength, htext, List.append_assoc, List.cons_append, List.cons_append, hafter,
      windowPosition_line hne hlines.1.2 hb (.inl rfl),
      windowPosition_line hne hlines.1.2 hb (.inr rfl), hfound]
    refine ⟨rfl, fun j hj => ?_⟩
    obtain ⟨k, hk, rfl⟩ := Option.map_eq_some_iff.1 hj
    have hle := hlater k hk
    omega

end Lines

end Search

/-! ### Texts -/

namespace Utf8

/-- The bytes of a character after its first one. -/
def isContinuation (b : UInt8) : Bool := 0x80 ≤ b && b ≤ 0xBF

/-- The second bytes of the characters with three and four bytes. -/
def isSecond (first b : UInt8) : Bool :=
  if first = 0xE0 then 0xA0 ≤ b && b ≤ 0xBF
  else if first = 0xED then 0x80 ≤ b && b ≤ 0x9F
  else if first = 0xF0 then 0x90 ≤ b && b ≤ 0xBF
  else if first = 0xF4 then 0x80 ≤ b && b ≤ 0x8F
  else isContinuation b

/-- How many bytes make one U+FFFD where no character begins: those that could begin one, or the
first. -/
def broken : List UInt8 → ℕ
  | first :: second :: rest =>
    if 0xE0 ≤ first && first ≤ 0xF4 && isSecond first second then
      if 0xF0 ≤ first && rest.head?.any isContinuation then 3 else 2
    else 1
  | _ => 1

/-- The characters after some bytes that are skipped. -/
def lossyFrom : ℕ → List UInt8 → List Char
  | _, [] => []
  | skipped + 1, _ :: bytes => lossyFrom skipped bytes
  | 0, b :: bytes =>
    match ByteArray.utf8DecodeChar? ⟨(b :: bytes).toArray⟩ 0 with
    | some c => c :: lossyFrom (c.utf8Size - 1) bytes
    | none => '\uFFFD' :: lossyFrom (broken (b :: bytes) - 1) bytes

theorem lossyFrom_append {n : ℕ} {skipped : List UInt8} (h : skipped.length = n)
    (bytes : List UInt8) :
    lossyFrom n (skipped ++ bytes) = lossyFrom 0 bytes := by
  induction skipped generalizing n with
  | nil =>
    obtain rfl : 0 = n := h
    rfl
  | cons b skipped ih =>
    obtain rfl : skipped.length + 1 = n := h
    rw [List.cons_append, lossyFrom, ih rfl]

/-- A character is decoded to itself. -/
theorem lossyFrom_char (c : Char) (bytes : List UInt8) :
    lossyFrom 0 (String.utf8EncodeChar c ++ bytes) = c :: lossyFrom 0 bytes := by
  have hdecode : ByteArray.utf8DecodeChar?
      ⟨(String.utf8EncodeChar c ++ bytes).toArray⟩ 0 = some c := by
    have happend : (⟨(String.utf8EncodeChar c ++ bytes).toArray⟩ : ByteArray) =
        (String.utf8EncodeChar c).toByteArray ++ ⟨bytes.toArray⟩ := by
      apply ByteArray.ext
      simp
    rw [happend]
    exact ByteArray.utf8DecodeChar?_utf8EncodeChar_append
  have hlength : (String.utf8EncodeChar c).length = c.utf8Size := String.length_utf8EncodeChar c
  cases hbytes : String.utf8EncodeChar c with
  | nil =>
    rw [hbytes] at hlength
    exact absurd hlength (Nat.ne_of_lt c.utf8Size_pos)
  | cons b rest =>
    rw [hbytes] at hdecode hlength
    rw [List.cons_append] at hdecode ⊢
    rw [lossyFrom, hdecode]
    have hrest : rest.length = c.utf8Size - 1 := by
      rw [← hlength, List.length_cons, Nat.add_sub_cancel]
    simp only [lossyFrom_append hrest]

/-- **The decoder is inverse to the encoding.** -/
theorem lossyFrom_encode (text : List Char) (bytes : List UInt8) :
    lossyFrom 0 (text.flatMap String.utf8EncodeChar ++ bytes) = text ++ lossyFrom 0 bytes := by
  induction text with
  | nil => rfl
  | cons c text ih => rw [List.flatMap_cons, List.append_assoc, lossyFrom_char, ih,
      List.cons_append]

/-! ### Small bytes -/

/-- The bytes below `0x80` are characters. -/
theorem toNat_eq_of_mem {c : Char} {b : UInt8} (h : b ∈ String.utf8EncodeChar c) (hb : b < 0x80) :
    c.toNat = b.toNat := by
  have hsmall : b.toNat < 128 := hb
  -- The other bytes have their first bit set.
  have hlarge : ∀ {n : ℕ}, 128 ≤ n → n < 256 → b = UInt8.ofNat n → c.toNat = b.toNat := by
    intro n hmin hmax heq
    rw [heq, UInt8.toNat_ofNat_of_lt' hmax] at hsmall
    omega
  rw [String.utf8EncodeChar] at h
  split_ifs at h with hone htwo hthree
  · rw [List.mem_singleton] at h
    rw [h, UInt8.toNat_ofNat_of_lt' (lt_of_le_of_lt hone (by decide))]
    rfl
  · simp only [List.mem_cons, List.not_mem_nil, or_false] at h
    rcases h with h | h <;> exact hlarge (by omega) (by omega) h
  · simp only [List.mem_cons, List.not_mem_nil, or_false] at h
    rcases h with h | h | h <;> exact hlarge (by omega) (by omega) h
  · simp only [List.mem_cons, List.not_mem_nil, or_false] at h
    rcases h with h | h | h | h <;> exact hlarge (by omega) (by omega) h

end Utf8

end TraceDB
