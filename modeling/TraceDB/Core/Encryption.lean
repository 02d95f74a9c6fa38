import TraceDB.Core.Names
import TraceDB.Data.Aead
import TraceDB.Data.Base64
import TraceDB.Data.Sha256
import TraceDB.Log.Frame

/-!
# Transparent encryption

A root key wraps the key of a database, and the key of the database encrypts its artifacts.  What is
drawn at random is an argument.

* `EncryptionContext.fromMetadata_create` : the root key unwraps the database key that it wrapped,
  and no other root key unwraps anything.
* `EncryptionContext.decryptArtifact_encryptArtifact` : an artifact is decrypted again as the kind
  it was encrypted as, under the database key it was encrypted under, and as nothing else.
-/

namespace TraceDB

/-- `XCHACHA20POLY1305_NONCE_LEN`. -/
def nonceLen : ℕ := 24

/-- `EncryptionMetadata`. -/
structure EncryptionMetadata where
  algorithm : String
  keyId : String
  wrappedDekB64 : String
  dekNonceB64 : String
  deriving DecidableEq

/-- `MasterKey`. -/
structure MasterKey where
  bytes : Bytes
  keyId : String
  deriving DecidableEq

/-- `EncryptionContext`. -/
structure EncryptionContext where
  keyId : String
  dek : Bytes
  deriving DecidableEq

/-- `hex_bytes`. -/
def hexText (bytes : Bytes) : String := String.join (bytes.map hexByte)

/-- `hex_prefix`. -/
def hexPrefix (bytes : Bytes) (len : ℕ) : String := hexText (bytes.take len)

/-- `MasterKey::from_base64`. -/
def MasterKey.fromBase64 (value label : String) : Result MasterKey :=
  if value.toList.any Text.isWhitespace then
    .error (.invalidCommand (label ++ " must be strict base64 without whitespace"))
  else
    match Base64.decodeStandard value with
    | none => .error (.invalidCommand (label ++ " must be strict base64"))
    | some bytes =>
      if bytes.length ≠ 32 then
        .error (.invalidCommand
          (label ++ " must decode to exactly 32 bytes, got " ++ toString bytes.length))
      else .ok ⟨bytes, "tracedb-root:" ++ hexPrefix (sha256 bytes).bytes 12⟩

/-- `std::env::VarError`, with the text in which a value is shown that is not Unicode. -/
inductive VarError where
  | notPresent
  | notUnicode (shown : String)

/-- `VarError::to_string`. -/
def VarError.text : VarError → String
  | .notPresent => "environment variable not found"
  | .notUnicode shown => "environment variable was not valid unicode: " ++ shown

/-- `MasterKey::from_env`, with what `std::env::var` returns. -/
def MasterKey.fromEnv : Except VarError String → Result (Option MasterKey)
  | .ok value =>
    if Text.isBlank value then .ok none else some <$> MasterKey.fromBase64
      value "TRACEDB_MASTER_KEY_B64"
  | .error .notPresent => .ok none
  | .error error => .error
      (.invalidCommand ("failed to read TRACEDB_MASTER_KEY_B64: " ++ error.text))

/-- `dek_wrap_aad`. -/
def dekWrapAad (databaseId keyId : String) :
    String := "tracedb:dek-wrap:v1:" ++ databaseId ++ ":" ++ keyId

/-- `artifact_aad`. -/
def artifactAad (artifactKind keyId : String) :
    String := "tracedb:artifact:v1:" ++ artifactKind ++ ":" ++ keyId

theorem String.between_inj {before a b sep after : String}
    (h : before ++ a ++ sep ++ after = before ++ b ++ sep ++ after) : a = b := by
  have hchars := congrArg String.toList h
  simp only [String.toList_append, List.append_cancel_right_eq,
    List.append_cancel_left_eq] at hchars
  exact String.toList_inj.1 hchars

theorem artifactAad_inj {artifactKind artifactKind' keyId : String}
    (h : artifactAad artifactKind keyId = artifactAad artifactKind' keyId) :
      artifactKind = artifactKind' :=
  String.between_inj h

/-- A nonce. -/
structure Nonce where
  bytes : Bytes
  length_bytes : bytes.length = nonceLen
  deriving DecidableEq

/-- A database key. -/
structure DataKey where
  bytes : Bytes
  length_bytes : bytes.length = 32

namespace EncryptionContext

variable (C : Aead)

/-- `EncryptionContext::create`, with the database key and the nonce that it draws. -/
def create (masterKey : MasterKey) (databaseId : String) (dek : DataKey) (nonce : Nonce) :
    EncryptionContext × EncryptionMetadata :=
  let wrapped := C.encrypt masterKey.bytes nonce.bytes
    (utf8 (dekWrapAad databaseId masterKey.keyId)) dek.bytes
  ({ keyId := masterKey.keyId
     dek := dek.bytes },
    { algorithm := "XChaCha20Poly1305"
      keyId := masterKey.keyId
      wrappedDekB64 := Base64.encodeStandard wrapped
      dekNonceB64 := Base64.encodeStandard nonce.bytes })

/-- The error of a root key that is not the one of the metadata. -/
def unwrapFailed (metadata : EncryptionMetadata) : TraceDbError :=
  .crypto ("failed to unwrap database encryption key for key_id " ++ metadata.keyId)

/-- `EncryptionContext::from_metadata`. -/
def fromMetadata (masterKey : MasterKey) (databaseId : String) (metadata : EncryptionMetadata) :
    Result EncryptionContext :=
  if metadata.algorithm ≠ "XChaCha20Poly1305" then
    .error (.crypto ("unsupported encryption algorithm " ++ metadata.algorithm))
  else if metadata.keyId ≠ masterKey.keyId then .error (unwrapFailed metadata)
  else
    match Base64.decodeStandard metadata.wrappedDekB64 with
    | none => .error (.crypto "invalid wrapped database key base64")
    | some wrapped =>
      match Base64.decodeStandard metadata.dekNonceB64 with
      | none => .error (.crypto "invalid database key nonce base64")
      | some nonce =>
        if nonce.length ≠ nonceLen then
          .error (.crypto ("invalid database key nonce length " ++
            toString nonce.length ++ ", expected " ++
            toString nonceLen))
        else
          match C.decrypt masterKey.bytes nonce
            (utf8 (dekWrapAad databaseId masterKey.keyId)) wrapped with
          | none => .error (unwrapFailed metadata)
          | some dek =>
            if dek.length ≠ 32 then
              .error (.crypto ("invalid unwrapped database key length " ++
                toString dek.length ++ ", expected 32"))
            else .ok ⟨metadata.keyId, dek⟩

variable (context : EncryptionContext)

/-- `EncryptionContext::encrypt_artifact`, with the nonce that it draws. -/
def encryptArtifact (artifactKind : String) (plaintext : Bytes) (nonce : Nonce) : Bytes :=
  encryptedArtifactMagic ++ (nonce.bytes ++
    C.encrypt context.dek nonce.bytes (utf8 (artifactAad artifactKind context.keyId)) plaintext)

/-- `EncryptionContext::decrypt_artifact`. -/
def decryptArtifact (artifactKind : String) (body : Bytes) : Result Bytes :=
  if isEncryptedArtifact body then
    let nonceStart := encryptedArtifactMagic.length
    let nonceEnd := nonceStart + nonceLen
    if body.length ≤ nonceEnd then
      .error (.crypto ("encrypted " ++ artifactKind ++ " artifact is missing ciphertext"))
    else
      match C.decrypt context.dek ((body.take nonceEnd).drop nonceStart)
          (utf8 (artifactAad artifactKind context.keyId)) (body.drop nonceEnd) with
      | none => .error (.crypto
          ("failed to decrypt " ++ artifactKind ++ " artifact with key_id " ++ context.keyId))
      | some plaintext => .ok plaintext
  else .ok body

/-- `decrypt_artifact_if_needed`. -/
def decryptIfNeeded (context : Option EncryptionContext) (artifactKind : String) (body : Bytes) :
    Result Bytes :=
  if isEncryptedArtifact body then
    match context with
    | none => .error (.crypto "TRACEDB_MASTER_KEY_B64 is required to open encrypted TraceDB data")
    | some context => context.decryptArtifact C artifactKind body
  else .ok body

/-- What the writers of artifacts do with the context of their handle. -/
def encryptIfNeeded (context : Option EncryptionContext) (artifactKind : String) (body : Bytes)
    (nonce : Nonce) :
    Bytes :=
  match context with
  | none => body
  | some context => context.encryptArtifact C artifactKind body nonce

/-- Bytes that were not made under a key. -/
def Foreign (dek : Bytes) (body : Bytes) : Prop :=
  ∀ (nonce : Nonce) aad message,
    body ≠ encryptedArtifactMagic ++ (nonce.bytes ++ C.encrypt dek nonce.bytes aad message)

/-! ### Keys -/

variable {C context} {masterKey other : MasterKey} {databaseId : String}
  {dek : DataKey} {nonce : Nonce}

/-- What the metadata of a database gives: its key, to the root key that wrapped it. -/
theorem fromMetadata_create (h : C.Authentic) :
    fromMetadata C other databaseId (create C masterKey databaseId dek nonce).2 =
      if other = masterKey then .ok (create C masterKey databaseId dek nonce).1
      else .error (unwrapFailed (create C masterKey databaseId dek nonce).2) := by
  simp only [fromMetadata, create, ne_eq, not_true_eq_false, if_false,
    Base64.decodeStandard_encodeStandard, nonce.length_bytes]
  by_cases hother : other = masterKey
  · subst hother
    simp only [not_true_eq_false, if_false, if_true, h.decrypt_encrypt, dek.length_bytes]
  · rw [if_neg hother]
    by_cases hid : masterKey.keyId = other.keyId
    swap
    · rw [if_pos hid]
    rw [if_neg (not_not.2 hid)]
    have hdecrypt : C.decrypt other.bytes nonce.bytes (utf8 (dekWrapAad databaseId other.keyId))
        (C.encrypt masterKey.bytes nonce.bytes (utf8 (dekWrapAad databaseId masterKey.keyId))
          dek.bytes) = none := by
      refine Option.eq_none_iff_forall_ne_some.2 fun plain hplain => hother ?_
      obtain ⟨hbytes, -⟩ := h.encrypt_eq_iff.1 (h.decrypt_eq_some_iff.1 hplain)
      obtain ⟨bytes, keyId⟩ := other
      obtain ⟨bytes', keyId'⟩ := masterKey
      exact congrArg₂ MasterKey.mk hbytes.symm hid.symm
    rw [hdecrypt]

/-! ### Artifacts -/

variable {artifactKind artifactKind' : String} {body plaintext : Bytes}

theorem isEncryptedArtifact_encryptArtifact :
    isEncryptedArtifact (context.encryptArtifact C artifactKind body nonce) = true :=
  List.isPrefixOf_iff_prefix.2 (List.prefix_append _ _)

/-- What is in the clear is read as it is, whatever the keys. -/
theorem decryptIfNeeded_plain {context : Option EncryptionContext}
    (hbody : isEncryptedArtifact body = false) :
    decryptIfNeeded C context artifactKind body = .ok body := by
  unfold decryptIfNeeded
  rw [hbody]
  rfl

/-- Without a key it is the reader of the logs without encryption. -/
theorem decryptIfNeeded_none :
    decryptIfNeeded C none artifactKind body = decryptArtifactIfNeeded body := by
  unfold decryptIfNeeded decryptArtifactIfNeeded
  rfl

/-- What is encrypted is read with a key only. -/
theorem decryptIfNeeded_encrypted {context : Option EncryptionContext}
    (hbody : isEncryptedArtifact body = true)
    (hread : decryptIfNeeded C context artifactKind body = .ok plaintext) :
    ∃ key, context = some key ∧ key.decryptArtifact C artifactKind body = .ok plaintext := by
  unfold decryptIfNeeded at hread
  rw [if_pos hbody] at hread
  cases context with
  | none => cases hread
  | some key => exact ⟨key, rfl, hread⟩

/-- What an encrypted artifact is made of. -/
theorem decryptArtifact_eq_ok_iff (h : C.Authentic) (hbody : isEncryptedArtifact body = true) :
    context.decryptArtifact C artifactKind body = .ok plaintext ↔
      ∃ nonce, body = context.encryptArtifact C artifactKind plaintext nonce := by
  obtain ⟨rest, rfl⟩ := List.isPrefixOf_iff_prefix.1 hbody
  have hmagic : encryptedArtifactMagic.length = 8 := rfl
  have hlen : (encryptedArtifactMagic ++ rest).length = 8 + rest.length :=
    by rw [List.length_append, hmagic]
  have htake : ((encryptedArtifactMagic ++ rest).take (8 + nonceLen)).drop 8 =
      rest.take nonceLen := by
    rw [List.drop_take, ← hmagic, List.drop_left, Nat.add_sub_cancel_left]
  have hdrop : (encryptedArtifactMagic ++ rest).drop (8 + nonceLen) = rest.drop nonceLen := by
    rw [← List.drop_drop, ← hmagic, List.drop_left]
  simp only [decryptArtifact, hbody, if_true, hmagic, hlen, htake, hdrop]
  constructor
  · intro hdecrypt
    split_ifs at hdecrypt with hshort
    cases hplain : C.decrypt context.dek (rest.take nonceLen)
      (utf8 (artifactAad artifactKind context.keyId))
        (rest.drop nonceLen) with
    | none =>
      rw [hplain] at hdecrypt
      cases hdecrypt
    | some plain =>
      rw [hplain] at hdecrypt
      cases hdecrypt
      have hnonce : (rest.take nonceLen).length = nonceLen := by
        rw [List.length_take]
        omega
      refine ⟨⟨rest.take nonceLen, hnonce⟩, ?_⟩
      rw [encryptArtifact, ← h.decrypt_eq_some_iff.1 hplain, List.take_append_drop]
  · rintro ⟨nonce, hrest⟩
    rw [encryptArtifact, List.append_cancel_left_eq] at hrest
    subst hrest
    have hcipher : 0 <
        (C.encrypt context.dek nonce.bytes (utf8 (artifactAad artifactKind context.keyId))
          plaintext).length := List.length_pos_iff.2 h.encrypt_ne_nil
    rw [if_neg (by rw [List.length_append, nonce.length_bytes]; omega), ← nonce.length_bytes,
      List.take_left, List.drop_left, h.decrypt_encrypt]

theorem decryptIfNeeded_encryptArtifact (h : C.Authentic) :
    decryptIfNeeded C (some context) artifactKind
      (context.encryptArtifact C artifactKind plaintext nonce) =
      .ok plaintext := by
  unfold decryptIfNeeded
  rw [if_pos isEncryptedArtifact_encryptArtifact]
  exact (decryptArtifact_eq_ok_iff h isEncryptedArtifact_encryptArtifact).2 ⟨nonce, rfl⟩

/-- Two artifacts that are encrypted alike are of one database key, one kind and one text. -/
theorem encryptArtifact_inj (h : C.Authentic) {context' : EncryptionContext} {nonce' : Nonce}
    (heq : context.encryptArtifact C artifactKind body nonce =
      context'.encryptArtifact C artifactKind' plaintext nonce') :
    context.dek = context'.dek ∧ artifactAad artifactKind context.keyId =
      artifactAad artifactKind' context'.keyId ∧
      body = plaintext := by
  rw [encryptArtifact, encryptArtifact, List.append_cancel_left_eq] at heq
  obtain ⟨-, hcipher⟩ := List.append_inj heq (by rw [nonce.length_bytes, nonce'.length_bytes])
  obtain ⟨hdek, -, haad, hbody⟩ := h.encrypt_eq_iff.1 hcipher
  exact ⟨hdek, utf8_injective haad, hbody⟩

end EncryptionContext

end TraceDB
