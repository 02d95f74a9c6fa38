import TraceDB.Data.Bytes

/-!
# Authenticated encryption

A cipher with associated data, over byte strings.

* `Aead.Authentic` : what decrypts is what was encrypted, and a ciphertext shows the key, the nonce
  and the associated data that it was made with.
* `Aead.labelled` : a cipher of this kind to compute with.
-/

namespace TraceDB

/-- A cipher with associated data. -/
structure Aead where
  encrypt : (key nonce aad message : Bytes) → Bytes
  decrypt : (key nonce aad ciphertext : Bytes) → Option Bytes

namespace Aead

/-- What is documented of an authenticated cipher. -/
structure Authentic (C : Aead) : Prop where
  decrypt_eq_some_iff : ∀ {key nonce aad ciphertext message},
    C.decrypt key nonce aad ciphertext = some message ↔ ciphertext = C.encrypt key nonce aad message
  encrypt_inj : ∀ {key nonce aad message key' nonce' aad' message'},
    C.encrypt key nonce aad message = C.encrypt key' nonce' aad' message' → key = key' ∧
    nonce = nonce' ∧ aad = aad'
  encrypt_ne_nil : ∀ {key nonce aad message}, C.encrypt key nonce aad message ≠ []

namespace Authentic

variable {C : Aead} (h : C.Authentic) {key nonce aad message key' nonce' aad' message' : Bytes}

include h

theorem decrypt_encrypt :
    C.decrypt key nonce aad (C.encrypt key nonce aad message) = some message :=
  h.decrypt_eq_some_iff.2 rfl

/-- A ciphertext shows all that it was made from. -/
theorem encrypt_eq_iff : C.encrypt key nonce aad message = C.encrypt key' nonce' aad' message' ↔
    key = key' ∧ nonce = nonce' ∧ aad = aad' ∧ message = message' := by
  constructor
  · intro heq
    obtain ⟨rfl, rfl, rfl⟩ := h.encrypt_inj heq
    have hdecrypt : C.decrypt key nonce aad (C.encrypt key nonce aad message) = some message' :=
      h.decrypt_eq_some_iff.2 heq
    rw [h.decrypt_encrypt] at hdecrypt
    exact ⟨rfl, rfl, rfl, Option.some.inj hdecrypt⟩
  · rintro ⟨rfl, rfl, rfl, rfl⟩
    rfl

end Authentic

/-! ### A cipher to compute with -/

/-- A byte string that shows its end. -/
def closed : Bytes → Bytes
  | [] => [0]
  | b :: bs => 1 :: b :: closed bs

theorem closed_ne_nil (a : Bytes) : closed a ≠ [] := by
  cases a with
  | nil => exact List.cons_ne_nil _ _
  | cons b bs => exact List.cons_ne_nil _ _

theorem closed_append_inj {a a' rest rest' : Bytes} (h : closed a ++ rest = closed a' ++ rest') :
    a = a' ∧ rest = rest' := by
  induction a generalizing a' with
  | nil =>
    cases a' with
    | nil => exact ⟨rfl, (List.cons.inj h).2⟩
    | cons b' bs' => exact absurd (List.cons.inj h).1 (by decide)
  | cons b bs ih =>
    cases a' with
    | nil => exact absurd (List.cons.inj h).1 (by decide)
    | cons b' bs' =>
      obtain ⟨rfl, htail⟩ := List.cons.inj (List.cons.inj h).2
      obtain ⟨rfl, hrest⟩ := ih htail
      exact ⟨rfl, hrest⟩

/-- What a message is encrypted under. -/
def label (key nonce aad : Bytes) : Bytes := closed key ++ (closed nonce ++ closed aad)

/-- A cipher that shows what its messages are encrypted under. -/
def labelled : Aead where
  encrypt key nonce aad message := label key nonce aad ++ message
  decrypt key nonce aad ciphertext :=
    if label key nonce aad <+: ciphertext
      then some (ciphertext.drop (label key nonce aad).length) else none

theorem authentic_labelled : labelled.Authentic where
  decrypt_eq_some_iff {key nonce aad ciphertext message} := by
    show (if label key nonce aad <+: ciphertext
      then some (ciphertext.drop (label key nonce aad).length) else none) =
      some message ↔ ciphertext = label key nonce aad ++ message
    constructor
    · intro hdecrypt
      split_ifs at hdecrypt with hprefix
      obtain ⟨rest, rfl⟩ := hprefix
      rw [List.drop_left, Option.some.injEq] at hdecrypt
      rw [hdecrypt]
    · rintro rfl
      rw [if_pos (List.prefix_append _ _), List.drop_left]
  encrypt_inj {key nonce aad message key' nonce' aad' message'} h := by
    have hlabel : label key nonce aad ++ message = label key' nonce' aad' ++ message' := h
    simp only [label, List.append_assoc] at hlabel
    obtain ⟨hkey, hrest⟩ := closed_append_inj hlabel
    obtain ⟨hnonce, hrest⟩ := closed_append_inj hrest
    exact ⟨hkey, hnonce, (closed_append_inj hrest).1⟩
  encrypt_ne_nil {key nonce aad message} h := by
    have hlabel : label key nonce aad ++ message = [] := h
    exact closed_ne_nil key (List.append_eq_nil_iff.1 (List.append_eq_nil_iff.1 hlabel).1).1

end Aead

end TraceDB
