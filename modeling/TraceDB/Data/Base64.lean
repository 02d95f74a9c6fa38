import Mathlib.Data.List.DropRight
import TraceDB.Data.Bytes

/-!
# Base 64

The URL-safe alphabet without padding, and the standard one with padding.  Three bytes are four
digits; a rest of one or two bytes is two or three digits, whose unused low bits are zero, and are
refused otherwise.
-/

namespace TraceDB.Base64

/-- The digit of a number below 64. -/
def digit (n : ℕ) : Char :=
  if n < 26 then Char.ofNat (65 + n)
  else if n < 52 then Char.ofNat (97 + (n - 26))
  else if n < 62 then Char.ofNat (48 + (n - 52))
  else if n = 62 then '-'
  else '_'

/-- The number of a digit. -/
def value (c : Char) : Option ℕ :=
  if 65 ≤ c.toNat ∧ c.toNat ≤ 90 then some (c.toNat - 65)
  else if 97 ≤ c.toNat ∧ c.toNat ≤ 122 then some (c.toNat - 97 + 26)
  else if 48 ≤ c.toNat ∧ c.toNat ≤ 57 then some (c.toNat - 48 + 52)
  else if c = '-' then some 62
  else if c = '_' then some 63
  else none

theorem value_digit : ∀ n < 64, value (digit n) = some n ∧ digit n ≠ '.' := by decide

/-- The digits of a byte string, as numbers. -/
def sextets : Bytes → List ℕ
  | [] => []
  | [a] => [a.toNat / 4, a.toNat % 4 * 16]
  | [a, b] => [a.toNat / 4, a.toNat % 4 * 16 + b.toNat / 16, b.toNat % 16 * 4]
  | a :: b :: c :: rest =>
    a.toNat / 4 :: (a.toNat % 4 * 16 + b.toNat / 16) :: (b.toNat % 16 * 4 + c.toNat / 64) ::
      c.toNat % 64 :: sextets rest

/-- The byte string of digits. -/
def ofSextets : List ℕ → Option Bytes
  | [] => some []
  | [_] => none
  | [i, j] => if j % 16 = 0 then some [UInt8.ofNat (i * 4 + j / 16)] else none
  | [i, j, k] =>
    if k % 4 = 0 then some [UInt8.ofNat (i * 4 + j / 16),
      UInt8.ofNat (j % 16 * 16 + k / 4)] else none
  | i :: j :: k :: l :: rest =>
    (ofSextets rest).map fun bytes => UInt8.ofNat (i * 4 + j / 16) ::
      UInt8.ofNat (j % 16 * 16 + k / 4) :: UInt8.ofNat (k % 4 * 64 + l) :: bytes

def encode (bytes : Bytes) : String := String.ofList ((sextets bytes).map digit)

def decode (text : String) : Option Bytes := (text.toList.mapM value).bind ofSextets

theorem sextets_lt (bytes : Bytes) : ∀ n ∈ sextets bytes, n < 64 := by
  fun_induction sextets bytes with
  | case1 => simp
  | case2 a =>
    have := a.toNat_lt
    simp only [List.forall_mem_cons, List.not_mem_nil, false_implies, implies_true, and_true]
    omega
  | case3 a b =>
    have := a.toNat_lt
    have := b.toNat_lt
    simp only [List.forall_mem_cons, List.not_mem_nil, false_implies, implies_true, and_true]
    omega
  | case4 a b c rest ih =>
    have := a.toNat_lt
    have := b.toNat_lt
    have := c.toNat_lt
    simp only [List.forall_mem_cons]
    exact ⟨by omega, by omega, by omega, by omega, ih⟩

theorem ofSextets_sextets (bytes : Bytes) : ofSextets (sextets bytes) = some bytes := by
  have hbyte : ∀ (b : UInt8) (n : ℕ), n = b.toNat → UInt8.ofNat n = b := by
    rintro b _ rfl
    exact UInt8.ofNat_toNat
  fun_induction sextets bytes with
  | case1 => rfl
  | case2 a =>
    rw [ofSextets, if_pos (by omega), hbyte a _ (by omega)]
  | case3 a b =>
    have := b.toNat_lt
    rw [ofSextets, if_pos (by omega), hbyte a _ (by omega), hbyte b _ (by omega)]
  | case4 a b c rest ih =>
    have := b.toNat_lt
    have := c.toNat_lt
    rw [ofSextets, ih, Option.map_some, hbyte a _ (by omega), hbyte b _ (by omega),
      hbyte c _ (by omega)]

theorem mapM_value_digit {ns : List ℕ} (h : ∀ n ∈ ns, n < 64) :
    (ns.map digit).mapM value = some ns := by
  induction ns with
  | nil => rfl
  | cons n ns ih =>
    obtain ⟨hn, hns⟩ := List.forall_mem_cons.1 h
    rw [List.map_cons, List.mapM_cons, (value_digit n hn).1, ih hns]
    rfl

/-- **Decoding gives back the bytes.** -/
theorem decode_encode (bytes : Bytes) : decode (encode bytes) = some bytes := by
  rw [decode, encode, String.toList_ofList, mapM_value_digit (sextets_lt bytes), Option.bind_some,
    ofSextets_sextets]

theorem dot_not_mem_encode (bytes : Bytes) : '.' ∉ (encode bytes).toList := by
  rw [encode, String.toList_ofList]
  intro hmem
  obtain ⟨n, hn, hdot⟩ := List.mem_map.1 hmem
  exact (value_digit n (sextets_lt bytes n hn)).2 hdot

/-! ### The standard alphabet -/

/-- The digit of a number below 64. -/
def standardDigit (n : ℕ) : Char := if n = 62 then '+' else if n = 63 then '/' else digit n

/-- The number of a digit. -/
def standardValue (c : Char) : Option ℕ :=
  if c = '+' then some 62 else if c = '/' then some 63 else if c = '-' ∨
    c = '_' then none else value c

theorem standardValue_digit : ∀ n < 64, standardValue (standardDigit n) = some n ∧
    standardDigit n ≠ '=' := by decide

/-- The padding after some digits. -/
def padding (digits : List Char) : List Char := List.replicate ((4 - digits.length % 4) % 4) '='

/-- `BASE64_STANDARD.encode`. -/
def encodeStandard (bytes : Bytes) : String :=
  let digits := (sextets bytes).map standardDigit
  String.ofList (digits ++ padding digits)

/-- `BASE64_STANDARD.decode`: the padding has to be there. -/
def decodeStandard (text : String) : Option Bytes :=
  let digits := text.toList.rdropWhile (· = '=')
  if digits ++ padding digits = text.toList
    then (digits.mapM standardValue).bind ofSextets else none

theorem mapM_standardValue_digit {ns : List ℕ} (h : ∀ n ∈ ns, n < 64) :
    (ns.map standardDigit).mapM standardValue = some ns := by
  induction ns with
  | nil => rfl
  | cons n ns ih =>
    obtain ⟨hn, hns⟩ := List.forall_mem_cons.1 h
    rw [List.map_cons, List.mapM_cons, (standardValue_digit n hn).1, ih hns]
    rfl

/-- **Decoding gives back the bytes.** -/
theorem decodeStandard_encodeStandard (bytes : Bytes) :
    decodeStandard (encodeStandard bytes) = some bytes := by
  have hlt := sextets_lt bytes
  have hdigits : ∀ c ∈ (sextets bytes).map standardDigit, c ≠ '=' := by
    rintro c hc
    obtain ⟨n, hn, rfl⟩ := List.mem_map.1 hc
    exact (standardValue_digit n (hlt n hn)).2
  have hcore : ((sextets bytes).map standardDigit ++ padding
      ((sextets bytes).map standardDigit)).rdropWhile (· = '=') =
      (sextets bytes).map standardDigit := by
    rw [List.rdropWhile, List.reverse_append, List.dropWhile_append_of_pos,
      List.dropWhile_eq_self_iff.2, List.reverse_reverse]
    · intro hpos hfirst
      exact hdigits _ (List.mem_reverse.1 (List.getElem_mem hpos)) (of_decide_eq_true hfirst)
    · intro c hc
      exact decide_eq_true (List.eq_of_mem_replicate (List.mem_reverse.1 hc))
  rw [decodeStandard, encodeStandard, String.toList_ofList, hcore, if_pos rfl,
    mapM_standardValue_digit hlt]
  exact ofSextets_sextets bytes

end TraceDB.Base64
