import Mathlib.Data.List.Basic
import Mathlib.Tactic.Ring

/-!
# Byte strings

Byte strings are lists of bytes.  This file has what a binary record format needs of them:

* `Bytes.toLe w n` and `Bytes.ofLe`: fixed-width little-endian integers, inverse to each other
  below `256 ^ w` (`Bytes.ofLe_toLe`);
* `Bytes.slice bs i j`: the bytes with index `i ≤ k < j`, with the rules that compute a slice of
  a concatenation;
* `Digest`: a byte string of length 32.
-/

namespace TraceDB

/-- A byte string. -/
abbrev Bytes := List UInt8

/-- A property of all bytes of a string is decided along the string. -/
instance (priority := 1100) decidableForallMemBytes (bytes : Bytes) (p : UInt8 → Prop)
    [DecidablePred p] :
    Decidable (∀ byte ∈ bytes, p byte) :=
  bytes.decidableBAll p

namespace Bytes

/-- The `w` low bytes of `n`, least significant first. -/
def toLe : ℕ → ℕ → Bytes
  | 0, _ => []
  | w + 1, n => UInt8.ofNat n :: toLe w (n / 256)

/-- The number with the given little-endian digits. -/
def ofLe : Bytes → ℕ
  | [] => 0
  | b :: bs => b.toNat + 256 * ofLe bs

@[simp] theorem length_toLe (w n : ℕ) : (toLe w n).length = w := by
  induction w generalizing n with
  | zero => rfl
  | succ w ih => simp [toLe, ih]

theorem ofLe_toLe_mod (w n : ℕ) : ofLe (toLe w n) = n % 256 ^ w := by
  induction w generalizing n with
  | zero => simp [toLe, ofLe, Nat.mod_one]
  | succ w ih =>
    simp only [toLe, ofLe, ih, UInt8.toNat_ofNat']
    rw [show 256 ^ (w + 1) = 256 * 256 ^ w from Nat.pow_succ', Nat.mod_mul]

theorem ofLe_toLe {w n : ℕ} (h : n < 256 ^ w) : ofLe (toLe w n) = n := by
  rw [ofLe_toLe_mod, Nat.mod_eq_of_lt h]

theorem ofLe_lt (bs : Bytes) : ofLe bs < 256 ^ bs.length := by
  induction bs with
  | nil => simp [ofLe]
  | cons b bs ih =>
    have hb : b.toNat < 256 := b.toNat_lt
    rw [ofLe, List.length_cons, Nat.pow_succ']
    omega

theorem toLe_ofLe (bs : Bytes) : toLe bs.length (ofLe bs) = bs := by
  induction bs with
  | nil => rfl
  | cons b bs ih =>
    have hb : b.toNat < 256 := b.toNat_lt
    have hbyte : UInt8.ofNat (b.toNat + 256 * ofLe bs) = b := by
      refine UInt8.toNat_inj.1 ?_
      rw [UInt8.toNat_ofNat']
      omega
    have hrest : (b.toNat + 256 * ofLe bs) / 256 = ofLe bs := by omega
    rw [List.length_cons, ofLe, toLe, hbyte, hrest, ih]

/-- The bytes `bs[i..j]`. -/
def slice (bs : Bytes) (i j : ℕ) : Bytes := (bs.drop i).take (j - i)

theorem slice_append_left {a b : Bytes} {i j : ℕ} (h : j ≤ a.length) :
    slice (a ++ b) i j = slice a i j := by
  simp only [slice, List.drop_append, List.take_append, List.length_drop]
  rw [show j - i - (a.length - i) = 0 by omega, List.take_zero, List.append_nil]

theorem slice_append_right {a b : Bytes} {i j : ℕ} (h : a.length ≤ i) :
    slice (a ++ b) i j = slice b (i - a.length) (j - a.length) := by
  simp only [slice, List.drop_append, List.drop_eq_nil_of_le h, List.nil_append]
  congr 1
  omega

theorem slice_self (a : Bytes) {n : ℕ} (h : n = a.length) : slice a 0 n = a := by
  subst h; simp [slice]

theorem slice_append_slice (bs : Bytes) {i j k : ℕ} (hij : i ≤ j) (hjk : j ≤ k) :
    slice bs i j ++ slice bs j k = slice bs i k := by
  have hsplit : k - i = (j - i) + (k - j) := by omega
  have hdrop : bs.drop j = (bs.drop i).drop (j - i) := by
    rw [List.drop_drop]
    congr 1
    omega
  rw [slice, slice, slice, hsplit, hdrop, List.take_add]

theorem length_slice {bs : Bytes} {i j : ℕ} (h : j ≤ bs.length) :
    (slice bs i j).length = j - i := by
  rw [slice, List.length_take, List.length_drop]
  omega

theorem toLe_ofLe_slice {bs : Bytes} {i j w : ℕ} (h : j ≤ bs.length) (hw : w = j - i) :
    toLe w (ofLe (slice bs i j)) = slice bs i j := by
  have hlength : (slice bs i j).length = j - i := length_slice h
  rw [hw, ← hlength, toLe_ofLe]

end Bytes

/-- The bytes of a text. -/
def utf8 (s : String) : Bytes := s.toUTF8.toList

/-- Two lower-case hexadecimal digits, as `{:02x}` prints a byte. -/
def hexByte (b : UInt8) : String :=
  String.ofList [Nat.digitChar (b.toNat / 16), Nat.digitChar (b.toNat % 16)]

/-- The bytes of letters, digits, `.`, `_` and `-`, which are kept in the components of paths. -/
def isPlainByte (byte : UInt8) : Bool :=
  let c := Char.ofNat byte.toNat
  ('a' ≤ c && c ≤ 'z') || ('A' ≤ c && c ≤ 'Z') || ('0' ≤ c && c ≤ '9') ||
    c = '.' || c = '_' || c = '-'

/-- A 32-byte digest. -/
structure Digest where
  /-- The bytes of the digest. -/
  bytes : Bytes
  length_bytes : bytes.length = 32
  deriving DecidableEq

namespace Digest

attribute [simp] length_bytes

/-- The digest `[0u8; 32]`. -/
def zero : Digest := ⟨List.replicate 32 0, List.length_replicate⟩

instance : Inhabited Digest := ⟨zero⟩

/-- The digest read from a slice of 32 bytes (zero-padded when the slice is shorter, which no
caller lets happen). -/
def ofSlice (bs : Bytes) : Digest :=
  ⟨(bs ++ List.replicate 32 0).take 32, by simp⟩

@[simp] theorem ofSlice_bytes (d : Digest) : ofSlice d.bytes = d := by
  obtain ⟨bs, h⟩ := d
  simp only [ofSlice, mk.injEq]
  rw [List.take_append_of_le_length (by omega), List.take_of_length_le (by omega)]

theorem bytes_ofSlice {bs : Bytes} (h : bs.length = 32) : (ofSlice bs).bytes = bs := by
  have htake : (bs ++ List.replicate 32 0).take 32 = bs := by
    rw [List.take_append_of_le_length h.ge, List.take_of_length_le h.le]
  exact htake

end Digest

end TraceDB
