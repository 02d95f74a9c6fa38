import Mathlib.Algebra.BigOperators.Group.List.Basic
import Mathlib.Algebra.GroupWithZero.Nat
import Mathlib.Data.String.Basic

/-!
# Texts cut at bytes

A text in UTF-8 can be cut at a byte only where a character starts.  `splitBytes` cuts it there, and
is `none` at every other byte and past the end: where the slice of a program would panic.  Searches
give the bytes at which characters start, so what they find can be cut (`splitBytes_append`).
-/

namespace TraceDB

/-- The number of bytes of a text. -/
def byteLength (text : List Char) : ℕ := (text.map Char.utf8Size).sum

@[simp] theorem byteLength_nil : byteLength [] = 0 := rfl

@[simp] theorem byteLength_cons (c : Char) (text : List Char) :
    byteLength (c :: text) = c.utf8Size + byteLength text := by
  simp [byteLength]

@[simp] theorem byteLength_append (a b : List Char) :
    byteLength (a ++ b) = byteLength a + byteLength b := by
  simp [byteLength]

@[simp] theorem byteLength_reverse (text : List Char) :
    byteLength text.reverse = byteLength text := by
  simp [byteLength]

theorem utf8ByteSize_ofList (text : List Char) :
    (String.ofList text).utf8ByteSize = byteLength text := by
  induction text with
  | nil => rfl
  | cons c text ih =>
    rw [String.ofList_cons, String.utf8ByteSize_append, String.utf8ByteSize_singleton, ih,
      byteLength_cons]

theorem utf8ByteSize_eq (s : String) : s.utf8ByteSize = byteLength s.toList := by
  rw [← utf8ByteSize_ofList, String.ofList_toList]

/-- The two parts of a text at a byte; `none` when no character starts there. -/
def splitBytes : List Char → ℕ → Option (List Char × List Char)
  | chars, 0 => some ([], chars)
  | [], _ + 1 => none
  | c :: chars, n + 1 =>
    if n + 1 < c.utf8Size then none
    else (splitBytes chars (n + 1 - c.utf8Size)).map fun (before, after) => (c :: before, after)

@[simp] theorem splitBytes_zero (text : List Char) : splitBytes text 0 = some ([], text) := by
  cases text <;> rfl

theorem splitBytes_cons (c : Char) (text : List Char) {n : ℕ} (h : 0 < n) :
    splitBytes (c :: text) n =
      if n < c.utf8Size then none
      else (splitBytes text (n - c.utf8Size)).map fun (before, after) => (c :: before, after) := by
  obtain ⟨n, rfl⟩ := Nat.exists_eq_add_of_lt h
  rw [Nat.zero_add]
  rfl

/-- A text is cut where one of its parts ends. -/
theorem splitBytes_append (before after : List Char) :
    splitBytes (before ++ after) (byteLength before) = some (before, after) := by
  induction before with
  | nil => exact splitBytes_zero after
  | cons c before ih =>
    have hpos := c.utf8Size_pos
    rw [List.cons_append, splitBytes_cons _ _ (by simp only [byteLength_cons]; omega),
      byteLength_cons, if_neg (by omega), Nat.add_sub_cancel_left, ih]
    rfl

theorem splitBytes_eq_some_iff {text before after : List Char} {n : ℕ} :
    splitBytes text n = some (before, after) ↔ text = before ++ after ∧ byteLength before = n := by
  constructor
  · intro h
    induction text generalizing n before with
    | nil =>
      cases n with
      | zero =>
        obtain ⟨rfl, rfl⟩ := Prod.mk.inj (Option.some.inj h)
        exact ⟨rfl, rfl⟩
      | succ n => cases h
    | cons c text ih =>
      cases n with
      | zero =>
        obtain ⟨rfl, rfl⟩ := Prod.mk.inj (Option.some.inj h)
        exact ⟨rfl, rfl⟩
      | succ n =>
        rw [splitBytes] at h
        split_ifs at h with hlt
        obtain ⟨⟨first, rest⟩, hsplit, heq⟩ := Option.map_eq_some_iff.1 h
        obtain ⟨rfl, rfl⟩ := Prod.mk.inj heq
        obtain ⟨rfl, hbytes⟩ := ih hsplit
        refine ⟨rfl, ?_⟩
        rw [byteLength_cons, hbytes]
        omega
  · rintro ⟨rfl, rfl⟩
    exact splitBytes_append before after

/-- A byte lies inside a character of the text. -/
def CutsCharacter (text : List Char) (n : ℕ) : Prop :=
  ∃ before c after, text = before ++ c :: after ∧ byteLength before < n ∧
    n < byteLength before + c.utf8Size

/-- A text of characters of one byte can be cut anywhere. -/
theorem not_cutsCharacter {text : List Char} (h : ∀ c ∈ text, c.utf8Size = 1) (n : ℕ) :
    ¬ CutsCharacter text n := by
  rintro ⟨before, c, after, rfl, hlow, hhigh⟩
  have hc := h c (by simp)
  omega

/-- A byte at which a text cannot be cut is past its end or inside a character. -/
theorem splitBytes_eq_none_iff {text : List Char} {n : ℕ} :
    splitBytes text n = none ↔ byteLength text < n ∨ CutsCharacter text n := by
  constructor
  · intro h
    induction text generalizing n with
    | nil =>
      cases n with
      | zero => cases h
      | succ n => exact .inl n.succ_pos
    | cons c text ih =>
      cases n with
      | zero => cases h
      | succ n =>
        rw [splitBytes] at h
        split_ifs at h with hlt
        · exact .inr ⟨[], c, text, rfl, n.succ_pos, by rwa [byteLength_nil, Nat.zero_add]⟩
        · rw [Option.map_eq_none_iff] at h
          rcases ih h with hlong | ⟨before, d, after, rfl, hlow, hhigh⟩
          · left
            rw [byteLength_cons]
            omega
          · refine .inr ⟨c :: before, d, after, rfl, ?_, ?_⟩ <;> rw [byteLength_cons] <;> omega
  · intro h
    cases hsplit : splitBytes text n with
    | none => rfl
    | some parts =>
      obtain ⟨before, after⟩ := parts
      obtain ⟨rfl, rfl⟩ := splitBytes_eq_some_iff.1 hsplit
      exfalso
      rcases h with h | ⟨first, c, rest, htext, hlow, hhigh⟩
      · rw [byteLength_append] at h
        omega
      · -- The character begins before the byte and ends after it, so it is in neither part.
        rcases List.append_eq_append_iff.1 htext with ⟨more, rfl, hafter⟩ | ⟨more, rfl, hmore⟩
        · rw [byteLength_append] at hlow
          omega
        · cases more with
          | nil =>
            rw [List.append_nil] at hlow
            omega
          | cons d more =>
            obtain ⟨rfl, -⟩ := List.cons.inj hmore
            rw [byteLength_append, byteLength_cons] at hhigh
            omega

/-- `&text[start..]`. -/
def sliceFrom (text : List Char) (start : ℕ) :
    Option (List Char) := (splitBytes text start).map Prod.snd

/-- `&text[..stop]`. -/
def sliceTo (text : List Char) (stop : ℕ) :
    Option (List Char) := (splitBytes text stop).map Prod.fst

/-- `&text[start..stop]`. -/
def slice (text : List Char) (start stop : ℕ) : Option (List Char) :=
  if stop < start then none
  else (sliceFrom text start).bind fun rest => sliceTo rest (stop - start)

theorem sliceFrom_append (before after : List Char) :
    sliceFrom (before ++ after) (byteLength before) = some after := by
  rw [sliceFrom, splitBytes_append]
  rfl

theorem sliceTo_append (before after : List Char) :
    sliceTo (before ++ after) (byteLength before) = some before := by
  rw [sliceTo, splitBytes_append]
  rfl

theorem slice_append (before part after : List Char) :
    slice (before ++ (part ++ after)) (byteLength before) (byteLength before + byteLength part) =
      some part := by
  rw [slice, if_neg (by omega), sliceFrom_append, Nat.add_sub_cancel_left]
  exact sliceTo_append part after

/-- `str::find`, of the first character with a property. -/
def findByte (p : Char → Bool) : List Char → Option ℕ
  | [] => none
  | c :: text => if p c then some 0 else (findByte p text).map (c.utf8Size + ·)

theorem findByte_eq (p : Char → Bool) (text : List Char) :
    findByte p text =
      if text.dropWhile (!p ·) = [] then none else some (byteLength (text.takeWhile (!p ·))) := by
  induction text with
  | nil => rfl
  | cons c text ih =>
    by_cases hp : p c = true
    · simp [findByte, hp]
    · rw [findByte, if_neg hp, ih, List.dropWhile_cons_of_pos (by simpa using hp),
        List.takeWhile_cons_of_pos (by simpa using hp)]
      split_ifs <;> simp

/-- Where a character of one byte is found, the text can be cut before it and after it. -/
theorem findByte_char {d : Char} (hd : d.utf8Size = 1) (text : List Char) :
    (findByte (· = d) text = none ∧ text.dropWhile (· ≠ d) = []) ∨
      ∃ i after, findByte (· = d) text = some i ∧ text.dropWhile (· ≠ d) = d :: after ∧
        sliceTo text i = some (text.takeWhile (· ≠ d)) ∧ sliceFrom text i = some (d :: after) ∧
        sliceFrom text (i + 1) = some after := by
  have hfun : (fun c => !decide (c = d)) = fun c => decide (c ≠ d) := by
    funext c
    exact (decide_not ..).symm
  rw [findByte_eq, hfun]
  cases hdrop : text.dropWhile (· ≠ d) with
  | nil => exact .inl ⟨if_pos rfl, rfl⟩
  | cons c after =>
    have hc : c = d := by
      have hhead := List.head?_dropWhile_not (fun c => decide (c ≠ d)) text
      rw [hdrop] at hhead
      simpa using hhead
    subst hc
    have htext : text = text.takeWhile (· ≠ c) ++ c :: after := by
      rw [← hdrop, List.takeWhile_append_dropWhile]
    generalize text.takeWhile (· ≠ c) = before at htext
    subst htext
    refine .inr ⟨byteLength before, after, if_neg (List.cons_ne_nil _ _), rfl, sliceTo_append _ _,
      sliceFrom_append _ _, ?_⟩
    have hnext : byteLength before + 1 = byteLength (before ++ [c]) := by
      rw [byteLength_append, byteLength_cons, byteLength_nil, hd]
    rw [hnext, List.append_cons]
    exact sliceFrom_append _ _

/-- The text after the first occurrence of another. -/
def afterFirst (needle : List Char) : List Char → Option (List Char)
  | [] => if needle.isEmpty then some [] else none
  | c :: chars =>
    if needle.isPrefixOf (c :: chars) then some ((c :: chars).drop needle.length)
    else afterFirst needle chars

/-- `str::find`, of a text. -/
def findTextByte (needle : List Char) : List Char → Option ℕ
  | [] => if needle.isEmpty then some 0 else none
  | c :: text =>
    if needle.isPrefixOf (c :: text) then some 0
    else (findTextByte needle text).map (c.utf8Size + ·)

/-- Where a text is found, it can be cut, before it and after it. -/
theorem findTextByte_eq (needle text : List Char) :
    match afterFirst needle text with
    | none => findTextByte needle text = none
    | some after => ∃ before, text = before ++ (needle ++ after) ∧
        findTextByte needle text = some (byteLength before) := by
  induction text with
  | nil =>
    rw [afterFirst, findTextByte]
    split_ifs with h
    · rw [List.isEmpty_iff] at h
      exact ⟨[], by rw [h]; rfl, rfl⟩
    · rfl
  | cons c text ih =>
    rw [afterFirst, findTextByte]
    by_cases hprefix : needle.isPrefixOf (c :: text) = true
    · obtain ⟨after, hafter⟩ := List.isPrefixOf_iff_prefix.1 hprefix
      rw [if_pos hprefix, if_pos hprefix]
      refine ⟨[], ?_, rfl⟩
      rw [← hafter, List.drop_left, List.nil_append]
    · rw [if_neg hprefix, if_neg hprefix]
      revert ih
      cases afterFirst needle text with
      | none => exact fun hnone => by rw [hnone]; rfl
      | some after =>
        rintro ⟨before, rfl, hfind⟩
        exact ⟨c :: before, rfl, by rw [hfind, byteLength_cons]; rfl⟩

end TraceDB
