import Mathlib.Data.Fintype.Basic
import TraceDB.Core.Value
import TraceDB.Data.Bytes
import TraceDB.Data.Escape

/-!
# Names in paths

Shard directories and object keys are made of names that come from outside.  Both spell a name byte
by byte: letters, digits, `.`, `_` and `-` stand for themselves, any other byte is an underscore and
two hexadecimal digits.  This is an `Escaping` (`byteEscaping`), with the underscore as its mark.

`SameName` says which names get one spelling, by their bytes.
-/

namespace TraceDB

/-! ### The bytes of a text -/

theorem ByteArray.toList_loop (bytes : ByteArray) (i : ℕ) (acc : List UInt8) :
    ByteArray.toList.loop bytes i acc = acc.reverse ++ bytes.data.toList.drop i := by
  fun_induction ByteArray.toList.loop bytes i acc with
  | case1 i acc hi ih =>
    have hlt : i < bytes.data.toList.length := by simpa using hi
    rw [ih, List.drop_eq_getElem_cons hlt]
    simp [ByteArray.get!, getElem!_pos, hi]
  | case2 i acc hi =>
    have hle : bytes.data.toList.length ≤ i := by simpa using hi
    rw [List.drop_eq_nil_of_le hle, List.append_nil]

theorem utf8_eq (s : String) : utf8 s = s.toByteArray.data.toList := by
  have hloop := ByteArray.toList_loop s.toUTF8 0 []
  rwa [List.reverse_nil, List.nil_append, List.drop_zero] at hloop

theorem utf8_injective : Function.Injective utf8 := by
  intro a b h
  rw [utf8_eq, utf8_eq] at h
  exact String.toByteArray_inj.1 (ByteArray.ext (Array.toList_inj.1 h))

@[simp] theorem utf8_inj {a b : String} : utf8 a = utf8 b ↔ a = b := utf8_injective.eq_iff

/-! ### The spelling of a byte -/

/-- `byte as char`. -/
def byteAsChar (byte : UInt8) : Char := Char.ofNat byte.toNat

/-- The digits of `{:02x}`, as bytes. -/
def hexBytes (byte : UInt8) : Bytes := (hexByte byte).toList.map fun c => UInt8.ofNat c.toNat

/-- The digits of `{:02x}`. -/
def isHexByte (byte : UInt8) : Bool := (0x30 ≤ byte && byte ≤ 0x39) || (0x61 ≤ byte && byte ≤ 0x66)

/-- What holds of the first 256 numbers holds of the bytes. -/
theorem UInt8.forall_of_fin {p : UInt8 → Prop} (h : ∀ n : Fin 256, p (UInt8.ofNat n))
    (byte : UInt8) :
    p byte := by
  have hbyte := h ⟨byte.toNat, byte.toNat_lt⟩
  rwa [UInt8.ofNat_toNat] at hbyte

theorem byteAsChar_injective : Function.Injective byteAsChar := by
  have hback : Function.LeftInverse (fun c : Char => UInt8.ofNat c.toNat) byteAsChar :=
    UInt8.forall_of_fin (by decide +kernel)
  exact hback.injective

theorem hexBytes_eq (byte : UInt8) :
    hexBytes byte = [UInt8.ofNat (Nat.digitChar (byte.toNat / 16)).toNat,
      UInt8.ofNat (Nat.digitChar (byte.toNat % 16)).toNat] := by
  simp [hexBytes, hexByte]

/-- One digit, by its value. -/
theorem hexDigit_spec (value : ℕ) (h : value < 16) :
    isHexByte (UInt8.ofNat (Nat.digitChar value).toNat) = true ∧
      byteAsChar (UInt8.ofNat (Nat.digitChar value).toNat) = Nat.digitChar value ∧
      (if Nat.digitChar value ≤ '9' then (Nat.digitChar value).toNat - 48
        else (Nat.digitChar value).toNat - 87) = value := by
  have hdigit : ∀ digit : Fin 16, isHexByte (UInt8.ofNat (Nat.digitChar digit).toNat) = true ∧
      byteAsChar (UInt8.ofNat (Nat.digitChar digit).toNat) = Nat.digitChar digit ∧
      (if Nat.digitChar digit ≤ '9' then (Nat.digitChar digit).toNat - 48
        else (Nat.digitChar digit).toNat - 87) = digit := by
    decide +kernel
  exact hdigit ⟨value, h⟩

theorem isHexByte_of_mem {byte digit : UInt8} (h : digit ∈ hexBytes byte) :
    isHexByte digit = true := by
  have hlt := byte.toNat_lt
  rw [hexBytes_eq, List.mem_pair] at h
  rcases h with rfl | rfl
  · exact (hexDigit_spec _ (by omega)).1
  · exact (hexDigit_spec _ (by omega)).1

theorem map_hexBytes (byte : UInt8) : (hexBytes byte).map byteAsChar = (hexByte byte).toList := by
  have hlt := byte.toNat_lt
  rw [hexBytes_eq, hexByte, String.toList_ofList, List.map_cons, List.map_cons, List.map_nil,
    (hexDigit_spec (byte.toNat / 16) (by omega)).2.1,
    (hexDigit_spec (byte.toNat % 16) (by omega)).2.1]

theorem hexBytes_injective : Function.Injective hexBytes := by
  intro a b h
  -- The digits are characters again, and their values give back the byte.
  have hchars := congrArg (List.map byteAsChar) h
  rw [map_hexBytes, map_hexBytes, hexByte, hexByte, String.toList_ofList,
    String.toList_ofList] at hchars
  simp only [List.cons.injEq, and_true] at hchars
  have halt := a.toNat_lt
  have hblt := b.toNat_lt
  have hhigh : a.toNat / 16 = b.toNat / 16 := by
    rw [← (hexDigit_spec (a.toNat / 16) (by omega)).2.2, hchars.1,
      (hexDigit_spec (b.toNat / 16) (by omega)).2.2]
  have hlow : a.toNat % 16 = b.toNat % 16 := by
    rw [← (hexDigit_spec (a.toNat % 16) (by omega)).2.2, hchars.2,
      (hexDigit_spec (b.toNat % 16) (by omega)).2.2]
  apply UInt8.toNat_inj.1
  omega

theorem isPlainByte_of_isHexByte {byte : UInt8} (h : isHexByte byte = true) :
    isPlainByte byte = true := by
  have hall : ∀ byte, isHexByte byte = true → isPlainByte byte = true :=
    UInt8.forall_of_fin (by decide +kernel)
  exact hall byte h

/-- The bytes of a name, with an underscore before the digits of those that are not plain. -/
def byteEscaping : Escaping UInt8 where
  keep := isPlainByte
  mark := 0x5f
  code := hexBytes
  keep_mark := by decide +kernel
  keep_of_mem_code _ _ hmem := isPlainByte_of_isHexByte (isHexByte_of_mem hmem)
  mark_notMem_code _ hmem := absurd (isHexByte_of_mem hmem) (by decide)
  length_code a b := by simp [hexBytes, hexByte]
  code_injective := hexBytes_injective

/-! ### The spelling of a name -/

/-- The loop of `safe_component` and `safe_shard_component`. -/
def spelledName (value : String) : String :=
  String.join ((utf8 value).map fun byte =>
    if isPlainByte byte then String.singleton (Char.ofNat byte.toNat) else "_" ++ hexByte byte)

/-- The names that differ by some bytes, each written out in one and spelled in the other. -/
def SameName (a b : String) : Prop := byteEscaping.Respelled (utf8 a) (utf8 b)

theorem SameName.refl (a : String) : SameName a a := Escaping.Respelled.refl _

theorem toList_spelledName (value : String) :
    (spelledName value).toList = (byteEscaping.escape (utf8 value)).map byteAsChar := by
  rw [spelledName, String.toList_join, List.flatMap_map, Escaping.escape, List.map_flatMap]
  congr 1
  funext byte
  cases hplain : isPlainByte byte with
  | true =>
    rw [Escaping.spell_of_keep (E := byteEscaping) hplain]
    simp [byteAsChar]
  | false =>
    rw [Escaping.spell_of_not_keep (E := byteEscaping) hplain, List.map_cons]
    have hcode : (byteEscaping.code byte).map byteAsChar = (hexByte byte).toList :=
      map_hexBytes byte
    rw [hcode]
    simp [byteEscaping, byteAsChar]

/-- **Two names get one spelling** exactly when they are the same but for spelled bytes. -/
theorem spelledName_eq_iff {a b : String} : spelledName a = spelledName b ↔ SameName a b := by
  rw [← String.toList_inj, toList_spelledName, toList_spelledName,
    (List.map_injective_iff.2 byteAsChar_injective).eq_iff, Escaping.escape_eq_iff, SameName]

theorem spelledName_eq_empty {value : String} : spelledName value = "" ↔ value = "" := by
  have hnil : utf8 "" = [] := by decide +kernel
  rw [← String.toList_inj, toList_spelledName, String.toList_empty, List.map_eq_nil_iff,
    Escaping.escape_eq_nil, ← hnil, utf8_inj]

/-- A spelling has no slash in it. -/
theorem slash_notMem_spelledName (value : String) : '/' ∉ (spelledName value).toList := by
  rw [toList_spelledName, List.mem_map]
  rintro ⟨byte, hmem, hslash⟩
  have hplain : isPlainByte byte = true := Escaping.keep_of_mem_escape hmem
  have hbyte : byte = 0x2f := byteAsChar_injective (hslash.trans (by decide +kernel))
  rw [hbyte] at hplain
  exact absurd hplain (by decide +kernel)

/-- Is there an underscore with two digits after it? -/
def holdsSpelling : Bytes → Bool
  | mark :: high :: low :: rest =>
    (mark = 0x5f && isHexByte high && isHexByte low) || holdsSpelling (high :: low :: rest)
  | _ => false

theorem holdsSpelling_cons {bytes : Bytes} (h : holdsSpelling bytes = true) (byte : UInt8) :
    holdsSpelling (byte :: bytes) = true := by
  match bytes, h with
  | [], h => cases h
  | [_], h => cases h
  | high :: low :: rest, h =>
    rw [holdsSpelling, h, Bool.or_true]

theorem holdsSpelling_of_infix {bytes : Bytes} {byte : UInt8}
    (h : (0x5f :: hexBytes byte) <:+: bytes) : holdsSpelling bytes = true := by
  obtain ⟨before, after, rfl⟩ := h
  induction before with
  | nil =>
    have hdigits : ∀ digit ∈ hexBytes byte, isHexByte digit = true := fun _ => isHexByte_of_mem
    rw [hexBytes_eq] at hdigits ⊢
    simp only [List.forall_mem_cons] at hdigits
    simp [holdsSpelling, hdigits.1, hdigits.2.1]
  | cons c before ih => exact holdsSpelling_cons ih c

/-- A name of plain bytes, with nothing in it that looks like a spelling. -/
def Unmarked (word : String) : Prop :=
  word.toList = (utf8 word).map byteAsChar ∧ (∀ byte ∈ utf8 word, isPlainByte byte = true) ∧
    holdsSpelling (utf8 word) = false

instance (word : String) : Decidable (Unmarked word) :=
  inferInstanceAs (Decidable (word.toList = (utf8 word).map byteAsChar ∧
    (∀ byte ∈ utf8 word, isPlainByte byte = true) ∧ holdsSpelling (utf8 word) = false))

theorem Unmarked.spelledName_self {word : String} (h : Unmarked word) :
    spelledName word = word := by
  rw [← String.toList_inj, toList_spelledName, Escaping.escape_of_keep h.2.1, ← h.1]

/-- Only the name itself is spelled so. -/
theorem Unmarked.spelledName_iff {word : String} (h : Unmarked word) {value : String} :
    spelledName value = word ↔ value = word := by
  refine ⟨fun heq => ?_, fun heq => heq ▸ h.spelledName_self⟩
  rw [← String.toList_inj, toList_spelledName, h.1,
    (List.map_injective_iff.2 byteAsChar_injective).eq_iff] at heq
  refine utf8_injective (Escaping.eq_of_escape_eq heq fun byte _ hinside => ?_)
  have hholds := h.2.2
  rw [ holdsSpelling_of_infix hinside] at hholds
  cases hholds

theorem SameName.symm {a b : String} (h : SameName a b) : SameName b a :=
  spelledName_eq_iff.1 (spelledName_eq_iff.2 h).symm

theorem Unmarked.eq_of_sameName {word : String} (h : Unmarked word) {value : String}
    (hsame : SameName word value) : value = word := by
  have hspelled := (spelledName_eq_iff.2 hsame).symm
  rwa [h.spelledName_self, h.spelledName_iff] at hspelled

/-- Unmarked words have the spelling of no other name. -/
theorem SameName.mem_iff {words : List String} (hwords : ∀ word ∈ words, Unmarked word)
    {a b : String} (h : SameName a b) : a ∈ words ↔ b ∈ words := by
  constructor
  · intro ha
    rwa [(hwords a ha).eq_of_sameName h]
  · intro hb
    rwa [(hwords b hb).eq_of_sameName h.symm]

/-! ### Paths -/

/-- The components of a path. -/
def pathComponents (path : String) : List String := (path.toList.splitOn '/').map String.ofList

/-- A component that names an entry of the directory before it. -/
def ProperName (component : String) : Prop := component ≠ "" ∧ component ≠ "." ∧ component ≠ ".."

instance : DecidablePred ProperName := fun _ => inferInstanceAs (Decidable (_ ∧ _ ∧ _))

theorem pathComponents_append (a b : String) :
    pathComponents (a ++ "/" ++ b) = pathComponents a ++ pathComponents b := by
  have htext : (a ++ "/" ++ b).toList = a.toList ++ '/' :: b.toList := by simp
  rw [pathComponents, htext, List.splitOn_append_cons_self, List.map_append]
  rfl

theorem pathComponents_of_notMem {component : String} (h : '/' ∉ component.toList) :
    pathComponents component = [component] := by
  rw [pathComponents, List.splitOn_eq_singleton h, List.map_singleton, String.ofList_toList]

end TraceDB
