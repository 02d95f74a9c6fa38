import Mathlib.Data.String.Basic
import TraceDB.Data.Bytes

/-!
# Serializers

Two notions of serializer:

* `JsonCodec α` is what a program can rely on when it hands a record to a JSON library: the text of
  a record starts with an opening brace, and some records, not always all, are read back
  (`JsonCodec.ReadsBack`);
* `StreamCodec α` is a lossless self-delimiting format, which reads its value off the front of a
  byte string.  It is closed under products, lists, options, sums and recoding, so a stream codec
  for a record is assembled from those of its fields; `StreamCodec.toJson` makes it a `JsonCodec`.
-/

namespace TraceDB

/-- A serializer of records: `to_vec` and `from_slice` of a JSON library. -/
structure JsonCodec (α : Type) where
  /-- The bytes of a record. -/
  encode : α → Bytes
  /-- The record with the given bytes, if they are one. -/
  decode : Bytes → Option α
  head?_encode : ∀ a, (encode a).head? = some 0x7b

/-- A record is read back as it was written. -/
def JsonCodec.ReadsBack {α : Type} (c : JsonCodec α) (a : α) :
    Prop := c.decode (c.encode a) = some a

theorem JsonCodec.encode_ne_nil {α : Type} (c : JsonCodec α) (a : α) : c.encode a ≠ [] := by
  intro h
  have := c.head?_encode a
  simp [h] at this

/-- The same texts, of which only those of some values are read. -/
def JsonCodec.within {α : Type} (c : JsonCodec α) (p : α → Bool) : JsonCodec α where
  encode := c.encode
  decode bs := (c.decode bs).filter p
  head?_encode := c.head?_encode

theorem JsonCodec.readsBack_within {α : Type} {c : JsonCodec α} {p : α → Bool} {a : α}
    (h : c.ReadsBack a) (hp : p a = true) : (c.within p).ReadsBack a := by
  rw [ReadsBack] at h
  simp [ReadsBack, within, h, hp]

theorem JsonCodec.decode_within_of_not {α : Type} {c : JsonCodec α} {p : α → Bool} {a : α}
    (h : c.ReadsBack a) (hp : p a = false) : (c.within p).decode (c.encode a) = none := by
  rw [ReadsBack] at h
  simp [within, h, hp]

/-- A self-delimiting serializer. -/
structure StreamCodec (α : Type) where
  /-- The bytes of a value. -/
  enc : α → Bytes
  /-- The value at the front of a byte string, with the bytes after it. -/
  dec : Bytes → Option (α × Bytes)
  dec_enc : ∀ a rest, dec (enc a ++ rest) = some (a, rest)

namespace StreamCodec

variable {α β : Type}

attribute [simp] dec_enc

/-- Recoding through a partial inverse. -/
def xmap (c : StreamCodec β) (f : α → β) (g : β → Option α) (h : ∀ a, g (f a) = some a) :
    StreamCodec α where
  enc a := c.enc (f a)
  dec bs :=
    match c.dec bs with
    | none => none
    | some (b, rest) => (g b).map fun a => (a, rest)
  dec_enc a rest := by simp [h]

/-- The unit type takes no bytes. -/
def unit : StreamCodec Unit where
  enc _ := []
  dec bs := some ((), bs)
  dec_enc _ _ := rfl

/-- One after the other. -/
def prod (c : StreamCodec α) (d : StreamCodec β) : StreamCodec (α × β) where
  enc p := c.enc p.1 ++ d.enc p.2
  dec bs :=
    match c.dec bs with
    | none => none
    | some (a, rest) =>
      match d.dec rest with
      | none => none
      | some (b, rest) => some ((a, b), rest)
  dec_enc p rest := by simp [List.append_assoc]

/-- A tag byte and one of two formats. -/
def sum (c : StreamCodec α) (d : StreamCodec β) : StreamCodec (α ⊕ β) where
  enc
    | .inl a => 0 :: c.enc a
    | .inr b => 1 :: d.enc b
  dec
    | [] => none
    | tag :: bs =>
      if tag = 0 then (c.dec bs).map fun p => (.inl p.1, p.2)
      else (d.dec bs).map fun p => (.inr p.1, p.2)
  dec_enc x rest := by cases x <;> simp

/-- An optional value. -/
def option (c : StreamCodec α) : StreamCodec (Option α) :=
  (sum unit c).xmap (fun o => o.elim (.inl ()) .inr)
    (fun s => some (s.elim (fun _ => none) some)) (fun o => by cases o <;> rfl)

/-! ### Numbers -/

/-- The binary digits of a number (tags 1 and 2), ended by tag 0.  The first argument bounds the
number of digits. -/
def encNat : ℕ → ℕ → Bytes
  | 0, _ => [0]
  | fuel + 1, n => if n = 0 then [0] else (if n % 2 = 0 then 1 else 2) :: encNat fuel (n / 2)

/-- Reads `encNat`. -/
def decNat : Bytes → Option (ℕ × Bytes)
  | [] => none
  | b :: bs =>
    if b = 0 then some (0, bs)
    else (decNat bs).map fun p => (2 * p.1 + (if b = 1 then 0 else 1), p.2)

theorem decNat_encNat {fuel n : ℕ} (h : n < 2 ^ fuel) (rest : Bytes) :
    decNat (encNat fuel n ++ rest) = some (n, rest) := by
  induction fuel generalizing n with
  | zero =>
    obtain rfl : n = 0 := by simpa using h
    rfl
  | succ fuel ih =>
    by_cases hn : n = 0
    · subst hn; rfl
    · have hhalf : n / 2 < 2 ^ fuel := by rw [Nat.pow_succ] at h; omega
      rcases Nat.mod_two_eq_zero_or_one n with hm | hm
      · have hval : 2 * (n / 2) = n := by omega
        simp [encNat, decNat, hn, hm, ih hhalf, hval]
      · have hval : 2 * (n / 2) + 1 = n := by omega
        simp [encNat, decNat, hn, hm, ih hhalf, hval]

/-- Natural numbers. -/
def nat : StreamCodec ℕ where
  enc n := encNat (n.log2 + 1) n
  dec := decNat
  dec_enc _ rest := decNat_encNat Nat.lt_log2_self rest

/-! ### Lists and texts -/

/-- The elements, each after tag 1, ended by tag 0. -/
def encList (c : StreamCodec α) : List α → Bytes
  | [] => [0]
  | a :: as => 1 :: (c.enc a ++ encList c as)

/-- Reads `encList`; the first argument bounds the number of elements. -/
def decList (c : StreamCodec α) : ℕ → Bytes → Option (List α × Bytes)
  | 0, _ => none
  | _ + 1, [] => none
  | fuel + 1, tag :: bs =>
    if tag = 0 then some ([], bs)
    else
      match c.dec bs with
      | none => none
      | some (a, rest) => (decList c fuel rest).map fun p => (a :: p.1, p.2)

theorem length_lt_length_encList (c : StreamCodec α) (as : List α) :
    as.length < (encList c as).length := by
  induction as with
  | nil => simp [encList]
  | cons a as ih => simp only [encList, List.length_cons, List.length_append]; omega

theorem decList_encList (c : StreamCodec α) {fuel : ℕ} {as : List α} (h : as.length < fuel)
    (rest : Bytes) : decList c fuel (encList c as ++ rest) = some (as, rest) := by
  induction as generalizing fuel with
  | nil =>
    obtain ⟨fuel, rfl⟩ : ∃ k, fuel = k + 1 := ⟨fuel - 1, by omega⟩
    rfl
  | cons a as ih =>
    obtain ⟨fuel, rfl⟩ : ∃ k, fuel = k + 1 := ⟨fuel - 1, by omega⟩
    have ih : decList c fuel (encList c as ++ rest) = some (as, rest) := ih (by simpa using h)
    simp [encList, decList, List.append_assoc, ih]

/-- Lists. -/
def list (c : StreamCodec α) : StreamCodec (List α) where
  enc := encList c
  dec bs := decList c bs.length bs
  dec_enc as rest := by
    apply decList_encList
    have := length_lt_length_encList c as
    rw [List.length_append]
    omega

/-- Texts. -/
def string : StreamCodec String :=
  (list nat).xmap (fun s => s.toList.map Char.toNat)
    (fun ns => some (String.ofList (ns.map Char.ofNat)))
    (fun s => by simp [List.map_map, Function.comp_def])

/-- Booleans. -/
def bool : StreamCodec Bool :=
  nat.xmap (fun b => if b then 1 else 0) (fun n => some (n == 1)) (fun b => by cases b <;> rfl)

/-- Machine words, by their value. -/
def uint64 : StreamCodec UInt64 :=
  nat.xmap UInt64.toNat (fun n => some (UInt64.ofNat n)) (fun _ => by simp)

/-- 32-bit machine words. -/
def uint32 : StreamCodec UInt32 :=
  nat.xmap UInt32.toNat (fun n => some (UInt32.ofNat n)) (fun _ => by simp)

/-- Digests. -/
def digest : StreamCodec Digest :=
  (list nat).xmap (fun d => d.bytes.map UInt8.toNat)
    (fun ns => some (Digest.ofSlice (ns.map UInt8.ofNat)))
    (fun d => by simp [List.map_map, Function.comp_def])

theorem length_encNat_le (fuel n : ℕ) : (encNat fuel n).length ≤ fuel + 1 := by
  induction fuel generalizing n with
  | zero => simp [encNat]
  | succ fuel ih =>
    have hhalf := ih (n / 2)
    unfold encNat
    split_ifs
    · simp
    · rw [List.length_cons]
      omega
    · rw [List.length_cons]
      omega

theorem length_encList_le {c : StreamCodec α} {k : ℕ} {as : List α}
    (h : ∀ a ∈ as, (c.enc a).length ≤ k) : (encList c as).length ≤ as.length * (k + 1) + 1 := by
  induction as with
  | nil => simp [encList]
  | cons a as ih =>
    have hhead := h a List.mem_cons_self
    have htail := ih fun b hb => h b (List.mem_cons_of_mem a hb)
    rw [encList, List.length_cons, List.length_append, List.length_cons, Nat.succ_mul]
    omega

/-- However it is spelled, a digest takes few bytes. -/
theorem length_digest_le (d : Digest) : (digest.enc d).length ≤ 321 := by
  have hbyte : ∀ n ∈ d.bytes.map UInt8.toNat, (nat.enc n).length ≤ 9 := by
    intro n hn
    obtain ⟨byte, -, rfl⟩ := List.mem_map.1 hn
    have hlog : byte.toNat.log2 < 8 := by
      by_cases hzero : byte.toNat = 0
      · rw [hzero]
        decide
      · exact (Nat.log2_lt hzero).2 byte.toNat_lt
    have hlength := length_encNat_le (byte.toNat.log2 + 1) byte.toNat
    show (encNat (byte.toNat.log2 + 1) byte.toNat).length ≤ 9
    omega
  have hlength := length_encList_le hbyte
  rw [List.length_map, d.length_bytes] at hlength
  exact hlength

/-- Sorted maps, by their entries. -/
def map (k : StreamCodec String) (c : StreamCodec α) :
    StreamCodec (Std.ExtTreeMap String α compare) :=
  (list (prod k c)).xmap (·.toList) (fun entries => some (Std.ExtTreeMap.ofList entries compare))
    (fun t => by
      rw [Option.some.injEq]
      refine Std.ExtTreeMap.ext_getElem? fun key => ?_
      cases hkey : t[key]? with
      | none =>
        refine Std.ExtTreeMap.getElem?_ofList_of_contains_eq_false ?_
        simpa using hkey
      | some a =>
        exact Std.ExtTreeMap.getElem?_ofList_of_mem Std.ReflCmp.compare_self
          Std.ExtTreeMap.distinct_keys_toList
          (Std.ExtTreeMap.mem_toList_iff_getElem?_eq_some.2 hkey))

/-- A stream format between braces. -/
def toJson (c : StreamCodec α) : JsonCodec α where
  encode a := 0x7b :: (c.enc a ++ [0x7d])
  decode
    | [] => none
    | _ :: bs => (c.dec bs).map (·.1)
  head?_encode _ := rfl

theorem readsBack_toJson (c : StreamCodec α) (a : α) : c.toJson.ReadsBack a := by
  simp [toJson, JsonCodec.ReadsBack]

end StreamCodec

end TraceDB
