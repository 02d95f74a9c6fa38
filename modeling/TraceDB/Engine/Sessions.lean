import TraceDB.Core.Encryption
import TraceDB.Data.PartialMap
import TraceDB.Data.Runs

/-!
# Sessions on an encrypted directory

A directory is opened with a root key or without one, artifacts are written and read, and between
the sessions and during them the files may be exchanged by others.

* `openContext` is the part of `TraceDb::open_with_options` that gets the keys.
* `SessionState` is a directory with the session that has it open, and what was written so far.
* `Guarded` is the invariant: one root key and one database key for all sessions that have keys.
-/

namespace TraceDB

/-- `TraceDbOpenOptions`. -/
structure TraceDbOpenOptions where
  masterKey : Option MasterKey
  encryptionContext : Option EncryptionContext
  useEnvMasterKey : Bool

namespace TraceDbOpenOptions

/-- `TraceDbOpenOptions::from_env`. -/
def fromEnv : TraceDbOpenOptions := ⟨none, none, true⟩

/-- `TraceDbOpenOptions::with_master_key_b64`, which panics at an error. -/
def withMasterKeyB64 (value : String) : Result TraceDbOpenOptions := do
  let key ← MasterKey.fromBase64 value "TRACEDB_MASTER_KEY_B64"
  .ok ⟨some key, none, false⟩

/-- `TraceDbOpenOptions::without_tde`. -/
def withoutTde : TraceDbOpenOptions := ⟨none, none, false⟩

/-- `TraceDbOpenOptions::with_existing_encryption_context`, which is private. -/
def withExistingEncryptionContext (context : Option EncryptionContext) :
    TraceDbOpenOptions := ⟨none, context, false⟩

/-- `TraceDbOpenOptions::master_key`, with what reading the environment variable returns. -/
def resolveMasterKey (options : TraceDbOpenOptions) (env : Except VarError String) :
    Result (Option MasterKey) :=
  match options.masterKey with
  | some key => .ok (some key)
  | none => if options.useEnvMasterKey then MasterKey.fromEnv env else .ok none

end TraceDbOpenOptions

/-- The options that a caller of the library can make. -/
structure PublicOptions extends TraceDbOpenOptions where
  encryptionContext_eq : encryptionContext = none

/-- What the keys of a directory are read from in its manifest. -/
structure KeyManifest where
  databaseId : String
  encryption : Option EncryptionMetadata
  deriving DecidableEq

/-- The keys of `TraceDb::open_with_options`: the manifest it leaves, and the context of the
handle. -/
def openContext (C : Aead) (pathId : String) (options : TraceDbOpenOptions)
    (env : Except VarError String) (dek : DataKey) (nonce : Nonce) (manifest : Option KeyManifest) :
    Option KeyManifest × Result (Option EncryptionContext) :=
  match options.resolveMasterKey env with
  | .error error => (manifest, .error error)
  | .ok masterKey =>
    let manifest := manifest.getD
      { databaseId := pathId
        encryption := masterKey.map fun key => (EncryptionContext.create C key pathId dek nonce).2 }
    match manifest.encryption with
    | some metadata =>
      (some manifest,
        match options.encryptionContext with
        | some context =>
          if context.keyId = metadata.keyId then .ok (some context)
          else .error (EncryptionContext.unwrapFailed metadata)
        | none =>
          match masterKey with
          | none => .error (.crypto
              "TRACEDB_MASTER_KEY_B64 is required to open encrypted TraceDB data")
          | some key => some <$> EncryptionContext.fromMetadata C key manifest.databaseId metadata)
    | none =>
      match masterKey with
      | none => (some manifest, .ok none)
      | some key =>
        let created := EncryptionContext.create C key manifest.databaseId dek nonce
        (some { manifest with encryption := some created.2 }, .ok (some created.1))

/-- What is written is not taken for encrypted before it is: texts of JSON, and envelopes. -/
structure PlainBody where
  bytes : Bytes
  plain : isEncryptedArtifact bytes = false
  deriving DecidableEq

/-- A write of an artifact. -/
structure ArtifactWrite where
  context : Option EncryptionContext
  kind : String
  body : PlainBody
  nonce : Nonce
  deriving DecidableEq

/-- The bytes on the disk. -/
def ArtifactWrite.bytes (C : Aead) (w : ArtifactWrite) : Bytes :=
  EncryptionContext.encryptIfNeeded C w.context w.kind w.body.bytes w.nonce

/-- A directory and the session that has it open.  A place is a file, or the payload of a frame of
one. -/
structure SessionState where
  pathId : String
  manifest : Option KeyManifest
  session : Option (Option EncryptionContext)
  artifacts : String → Option Bytes
  /-- History: the root keys of the sessions so far. -/
  roots : List MasterKey
  /-- History: what the sessions wrote. -/
  writes : List ArtifactWrite
  /-- History: the writes that are still in place. -/
  kept : String → Option ArtifactWrite

inductive SessionEvent where
  | opens (options : PublicOptions) (env : Except VarError String) (dek : DataKey) (nonce : Nonce)
  | closes
  | writes (place kind : String) (body : PlainBody) (nonce : Nonce)
  /-- Somebody else puts bytes in a place. -/
  | tampers (place : String) (bytes : Bytes)

namespace SessionState

/-- A directory that nobody has opened. -/
def fresh (pathId : String) : SessionState where
  pathId := pathId
  manifest := none
  session := none
  artifacts := fun _ => none
  roots := []
  writes := []
  kept := fun _ => none

variable (C : Aead) (s : SessionState)

/-- The keys a directory is opened with now. -/
def openKeys (options : PublicOptions) (env : Except VarError String) (dek : DataKey)
    (nonce : Nonce) :
    Option KeyManifest × Result (Option EncryptionContext) :=
  openContext C s.pathId options.toTraceDbOpenOptions env dek nonce s.manifest

/-- What a session does; a directory that is open is not opened again. -/
def next : SessionEvent → SessionState
  | .opens options env dek nonce =>
    match s.session with
    | some _ => s
    | none =>
      match s.openKeys C options env dek nonce with
      | (manifest, .error _) => { s with manifest := manifest }
      | (manifest, .ok context) =>
        { s with
          manifest := manifest
          session := some context
          roots := ((options.resolveMasterKey env).toOption.join).toList ++ s.roots }
  | .closes => { s with session := none }
  | .writes place kind body nonce =>
    match s.session with
    | none => s
    | some context =>
      let w : ArtifactWrite := ⟨context, kind, body, nonce⟩
      { s with
        artifacts := Function.update s.artifacts place (some (w.bytes C))
        writes := w :: s.writes
        kept := Function.update s.kept place (some w) }
  | .tampers place bytes =>
    { s with
      artifacts := Function.update s.artifacts place (some bytes)
      kept := Function.update s.kept place none }

/-- What the session reads in a place, as a kind of artifact. -/
def read (place kind : String) : Option (Result Bytes) :=
  s.session.bind fun context => (s.artifacts place).map
    (EncryptionContext.decryptIfNeeded C context kind)

/-- The database keys are drawn among secrets.  Who tampers puts in place what was written
somewhere, or bytes that were made without the secrets. -/
def Fair (secrets : DataKey → Prop) : SessionEvent → Prop
  | .opens _ _ dek _ => secrets dek
  | .tampers _ bytes => (∃ w ∈ s.writes, w.bytes C = bytes) ∨
      ∀ dek, secrets dek → EncryptionContext.Foreign C dek.bytes bytes
  | _ => True

end SessionState

/-- The keys of a directory: the root key, and what was drawn when it was first used. -/
structure KeyRing where
  masterKey : MasterKey
  dek : DataKey
  nonce : Nonce

namespace KeyRing

variable (C : Aead) (ring : KeyRing)

def metadata (databaseId : String) : EncryptionMetadata :=
  (EncryptionContext.create C ring.masterKey databaseId ring.dek ring.nonce).2

/-- The context of the sessions that have keys. -/
def context : EncryptionContext := ⟨ring.masterKey.keyId, ring.dek.bytes⟩

/-- The ring is the one of a manifest. -/
def Fits (ring : Option KeyRing) (manifest : Option KeyManifest) : Prop :=
  match manifest with
  | none => ring = none
  | some manifest => manifest.encryption = ring.map (·.metadata C manifest.databaseId)

end KeyRing

namespace SessionState

variable {C : Aead} {s : SessionState} {ring : Option KeyRing} {secrets : DataKey → Prop}

/-! ### Opening -/

/-- An open is refused and changes nothing, or has the keys of the directory, or is the first one
with keys. -/
theorem openKeys_cases (h : C.Authentic) (hfits : KeyRing.Fits C ring s.manifest)
    (options : PublicOptions) (env : Except VarError String) (dek : DataKey) (nonce : Nonce) :
    (∃ error, s.openKeys C options env dek nonce = (s.manifest, .error error) ∧
      ∀ key, options.resolveMasterKey env = .ok key → ∃ r, ring = some r ∧ key ≠ some r.masterKey) ∨
    ∃ ring' manifest', s.openKeys C options env dek nonce =
      (some manifest', .ok (ring'.map KeyRing.context)) ∧
      options.resolveMasterKey env = .ok (ring'.map KeyRing.masterKey) ∧
      KeyRing.Fits C ring' (some manifest') ∧
      (ring' = ring ∧ (ring.isSome = true → some manifest' = s.manifest) ∨
        ring = none ∧ ∃ r, ring' = some r ∧ r.dek = dek) := by
  have hpublic := options.encryptionContext_eq
  cases hkey : options.resolveMasterKey env with
  | error error =>
    refine .inl ⟨error, ?_, fun key hother => by cases hother⟩
    rw [openKeys, openContext, hkey]
  | ok key =>
    rw [openKeys, openContext, hkey]
    cases hmanifest : s.manifest with
    | none =>
      rw [hmanifest] at hfits
      have hring : ring = none := hfits
      subst hring
      cases key with
      | none => exact .inr ⟨none, ⟨s.pathId, none⟩, rfl, rfl, rfl, .inl ⟨rfl, nofun⟩⟩
      | some key =>
        -- the manifest was just created with this root key
        let r : KeyRing := ⟨key, dek, nonce⟩
        refine .inr ⟨some r, ⟨s.pathId, some (r.metadata C s.pathId)⟩, ?_, rfl, rfl,
          .inr ⟨rfl, r, rfl, rfl⟩⟩
        simp only [Option.getD_none, Option.map_some, hpublic,
          EncryptionContext.fromMetadata_create h, if_true]
        rfl
    | some manifest =>
      rw [hmanifest] at hfits
      have hencryption : manifest.encryption = ring.map (·.metadata C manifest.databaseId) := hfits
      simp only [Option.getD_some, hencryption, hpublic]
      cases ring with
      | none =>
        cases key with
        | none => exact .inr ⟨none, manifest, rfl, rfl, hencryption, .inl ⟨rfl, fun _ => rfl⟩⟩
        | some key => exact .inr ⟨some ⟨key, dek, nonce⟩, _, rfl, rfl, rfl, .inr ⟨rfl, _, rfl, rfl⟩⟩
      | some r =>
        cases key with
        | none =>
          refine .inl ⟨_, rfl, fun key hkey => ⟨r, rfl, ?_⟩⟩
          cases hkey
          exact nofun
        | some key =>
          simp only [Option.map_some, KeyRing.metadata, EncryptionContext.fromMetadata_create h]
          by_cases hroot : key = r.masterKey
          · rw [if_pos hroot, hroot]
            exact .inr ⟨some r, manifest, rfl, rfl, hencryption, .inl ⟨rfl, fun _ => rfl⟩⟩
          · rw [if_neg hroot]
            refine .inl ⟨_, rfl, fun other hother => ⟨r, rfl, ?_⟩⟩
            cases hother
            exact fun hsome => hroot (Option.some.inj hsome)

/-! ### The invariant -/

/-- The keys of the sessions so far are the ones of the ring, and what is in place was written by
one of them, or was made without the secrets. -/
structure Guarded (C : Aead) (secrets : DataKey → Prop) (ring : Option KeyRing) (s : SessionState) :
    Prop where
  fits : KeyRing.Fits C ring s.manifest
  secret : ∀ r, ring = some r → secrets r.dek
  roots : ∀ key, key ∈ s.roots ↔ ring.map KeyRing.masterKey = some key
  session : ∀ context, s.session = some context → context = ring.map KeyRing.context
  writes : ∀ w ∈ s.writes, ∀ context, w.context = some context →
    ring.map KeyRing.context = some context
  placed : ∀ place bytes, s.artifacts place = some bytes → (∃ w ∈ s.writes, w.bytes C = bytes) ∨
    ∀ dek, secrets dek → EncryptionContext.Foreign C dek.bytes bytes
  kept : ∀ place w, s.kept place = some w → w ∈ s.writes ∧ s.artifacts place = some (w.bytes C)

theorem guarded_fresh (pathId : String) : Guarded C secrets none (fresh pathId) where
  fits := rfl
  secret := nofun
  roots _ := ⟨fun hmem => absurd hmem List.not_mem_nil, nofun⟩
  session := nofun
  writes := fun _ hw => absurd hw List.not_mem_nil
  placed := nofun
  kept := nofun

/-- A session that opens has the keys of the ring, which may be new. -/
theorem Guarded.opens (h : C.Authentic) (hs : s.Guarded C secrets ring) {options : PublicOptions}
    {env : Except VarError String} {dek : DataKey} {nonce : Nonce} (hdek : secrets dek) :
    ∃ ring', (s.next C (.opens options env dek nonce)).Guarded C secrets ring' := by
  cases hsession : s.session with
  | some context =>
    refine ⟨ring, ?_⟩
    rw [next, hsession]
    exact hs
  | none =>
    obtain ⟨error, hopen, -⟩ | ⟨ring', manifest', hopen, hkey, hfits, hring⟩ :=
      openKeys_cases h hs.fits options env dek nonce
    · refine ⟨ring, ?_⟩
      simp only [next, hsession, hopen]
      exact { hs with session := nofun }
    · refine ⟨ring', ?_⟩
      simp only [next, hsession, hopen, hkey, Except.toOption, Option.join_some]
      obtain ⟨rfl, -⟩ | ⟨rfl, r, rfl, rfl⟩ := hring
      · exact
          { hs with
            fits := hfits
            roots := fun key => by
              rw [List.mem_append, hs.roots]
              simp
            session := fun context hcontext => (Option.some.inj hcontext).symm }
      · have hroots : s.roots = [] := List.eq_nil_iff_forall_not_mem.2 fun key hmem => by
          cases (hs.roots key).1 hmem
        exact
          { hs with
            fits := hfits
            secret := fun r' hr' => by
              cases hr'
              exact hdek
            roots := fun key => by
              rw [hroots]
              simp [eq_comm]
            session := fun context hcontext => (Option.some.inj hcontext).symm
            writes := fun w hw context hcontext => by cases hs.writes w hw context hcontext }

/-- What is written is there, under the keys of the session. -/
theorem Guarded.written (hs : s.Guarded C secrets ring) {place kind : String} {body : PlainBody}
    {nonce : Nonce} :
    (s.next C (.writes place kind body nonce)).Guarded C secrets ring := by
  cases hsession : s.session with
  | none =>
    rw [next, hsession]
    exact hs
  | some context =>
    simp only [next, hsession]
    exact
      { hs with
        session := fun context' hcontext => hs.session context' (hsession.trans hcontext)
        writes := fun w hw context' hcontext => by
          obtain rfl | hw := List.mem_cons.1 hw
          · rw [← hs.session context hsession]
            exact hcontext
          · exact hs.writes w hw context' hcontext
        placed := fun place' bytes hplace => by
          obtain ⟨-, rfl⟩ | ⟨-, hplace⟩ := eq_or_of_update_some hplace
          · exact .inl ⟨_, List.mem_cons_self, rfl⟩
          · obtain ⟨w, hw, hbytes⟩ | hforeign := hs.placed place' bytes hplace
            · exact .inl ⟨w, List.mem_cons_of_mem _ hw, hbytes⟩
            · exact .inr hforeign
        kept := fun place' w hplace => by
          obtain ⟨rfl, rfl⟩ | ⟨hne, hplace⟩ := eq_or_of_update_some hplace
          · exact ⟨List.mem_cons_self, Function.update_self ..⟩
          · obtain ⟨hw, hbytes⟩ := hs.kept place' w hplace
            exact ⟨List.mem_cons_of_mem _ hw, (Function.update_of_ne hne ..).trans hbytes⟩ }

/-- Bytes that others put in place are copies, or made without the secrets. -/
theorem Guarded.tampered (hs : s.Guarded C secrets ring) {place : String} {bytes : Bytes}
    (hfair : s.Fair C secrets (.tampers place bytes)) :
    (s.next C (.tampers place bytes)).Guarded C secrets ring :=
  { hs with
    placed := fun place' bytes' hplace => by
      obtain ⟨-, rfl⟩ | ⟨-, hplace⟩ := eq_or_of_update_some hplace
      · exact hfair
      · exact hs.placed place' bytes' hplace
    kept := fun place' w hplace => by
      obtain ⟨hne, hplace⟩ := of_update_none hplace
      obtain ⟨hw, hbytes⟩ := hs.kept place' w hplace
      exact ⟨hw, (Function.update_of_ne hne ..).trans hbytes⟩ }

/-- What every step keeps. -/
theorem Guarded.next (h : C.Authentic) (hs : s.Guarded C secrets ring) {event : SessionEvent}
    (hfair : s.Fair C secrets event) : ∃ ring', (s.next C event).Guarded C secrets ring' := by
  cases event with
  | opens options env dek nonce => exact hs.opens h hfair
  | closes => exact ⟨ring, { hs with session := nofun }⟩
  | writes place kind body nonce => exact ⟨ring, hs.written⟩
  | tampers place bytes => exact ⟨ring, hs.tampered hfair⟩

/-- The runs from a directory that nobody has opened. -/
abbrev SessionRuns (C : Aead) (secrets : DataKey → Prop) (pathId : String) :=
  Runs (fun s event s' => s' = s.next C event) (fun s event => s.Fair C secrets event)
    (fresh pathId)

theorem guarded_of_runs (h : C.Authentic) {pathId : String} {trace : List SessionEvent}
    (hrun : SessionRuns C secrets pathId trace s) : ∃ ring, s.Guarded C secrets ring :=
  hrun.invariant (I := fun _ s => ∃ ring, s.Guarded C secrets ring) ⟨none, guarded_fresh pathId⟩
    fun _ _ _ _ hfair hnext hinv => by
      obtain ⟨ring, hs⟩ := hinv
      rw [hnext]
      exact hs.next h hfair

/-! ### Reading -/

/-- A write is read back by the sessions that have its keys. -/
theorem decryptIfNeeded_bytes (h : C.Authentic) {context : Option EncryptionContext}
    {w : ArtifactWrite} (hkeys : ∀ key, w.context = some key → context = some key) :
    EncryptionContext.decryptIfNeeded C context w.kind (w.bytes C) = .ok w.body.bytes := by
  obtain ⟨written, kind, body, nonce⟩ := w
  cases written with
  | none =>
    exact EncryptionContext.decryptIfNeeded_plain body.plain
  | some key =>
    rw [hkeys key rfl]
    exact EncryptionContext.decryptIfNeeded_encryptArtifact h

/-- What is read in an encrypted artifact was written as this kind of artifact. -/
theorem Guarded.of_read (h : C.Authentic) (hs : s.Guarded C secrets ring) {place kind : String}
    {body bytes : Bytes} (hbytes : s.artifacts place = some bytes)
    (hencrypted : isEncryptedArtifact bytes = true)
    (hread : s.read C place kind = some (.ok body)) :
    ∃ w ∈ s.writes, w.context.isSome = true ∧ w.kind = kind ∧ w.body.bytes = body := by
  cases hsession : s.session with
  | none =>
    rw [read, hsession] at hread
    cases hread
  | some context =>
    rw [read, hsession, hbytes, Option.bind_some, Option.map_some, Option.some.injEq] at hread
    obtain ⟨key, rfl, hdecrypt⟩ := EncryptionContext.decryptIfNeeded_encrypted hencrypted hread
    obtain ⟨nonce, rfl⟩ := (EncryptionContext.decryptArtifact_eq_ok_iff h hencrypted).1 hdecrypt
    have hring := hs.session _ hsession
    obtain ⟨w, hw, hwritten⟩ | hforeign := hs.placed place _ hbytes
    · cases hcontext : w.context with
      | none =>
        -- a text in the clear is not taken for an encrypted one
        rw [ArtifactWrite.bytes, hcontext] at hwritten
        have hclear : w.body.bytes = key.encryptArtifact C kind body nonce := hwritten
        have hplain := w.body.plain
        rw [hclear, hencrypted] at hplain
        cases hplain
      | some key' =>
        have hkey : some key' = some key := (hs.writes w hw key' hcontext).symm.trans hring.symm
        cases hkey
        rw [ArtifactWrite.bytes, hcontext] at hwritten
        obtain ⟨-, haad, hbody⟩ := EncryptionContext.encryptArtifact_inj h hwritten
        exact ⟨w, hw, by rw [hcontext]; rfl, artifactAad_inj haad, hbody⟩
    · obtain ⟨r, rfl, hr⟩ := Option.map_eq_some_iff.1 hring.symm
      subst hr
      exact absurd rfl (hforeign r.dek (hs.secret r rfl) nonce _ _)

/-- What the root key has to be, and what an open leaves. -/
theorem Guarded.openKeys (h : C.Authentic) (hs : s.Guarded C secrets ring) (options : PublicOptions)
    (env : Except VarError String) (dek : DataKey) (nonce : Nonce) :
    ((s.openKeys C options env dek nonce).2.toOption.isSome = true ↔
      ∃ key, options.resolveMasterKey env = .ok key ∧ ∀ root ∈ s.roots, key = some root) ∧
    (s.roots ≠ [] → (s.openKeys C options env dek nonce).1 = s.manifest) := by
  have hroot : ∀ r, ring = some r → ∀ root ∈ s.roots, root = r.masterKey := by
    rintro r rfl root hmem
    exact (Option.some.inj ((hs.roots root).1 hmem)).symm
  obtain ⟨error, hopen, hrefused⟩ | ⟨ring', manifest', hopen, hkey, -, hring⟩ :=
    openKeys_cases h hs.fits options env dek nonce
  · rw [hopen]
    refine ⟨⟨nofun, ?_⟩, fun _ => rfl⟩
    rintro ⟨key, hkey, hroots⟩
    obtain ⟨r, rfl, hne⟩ := hrefused key hkey
    exact absurd (hroots r.masterKey ((hs.roots r.masterKey).2 rfl)) hne
  · rw [hopen]
    obtain ⟨rfl, hmanifest⟩ | ⟨rfl, -⟩ := hring
    · refine ⟨⟨fun _ => ⟨_, hkey, fun root hmem => (hs.roots root).1 hmem⟩, fun _ => rfl⟩,
        fun hne => ?_⟩
      obtain ⟨root, hmem⟩ := List.exists_mem_of_ne_nil _ hne
      obtain ⟨r, rfl, -⟩ := Option.map_eq_some_iff.1 ((hs.roots root).1 hmem)
      exact hmanifest rfl
    · refine ⟨⟨fun _ => ⟨_, hkey, fun root hmem => ?_⟩, fun _ => rfl⟩, fun hne => ?_⟩
      · cases (hs.roots root).1 hmem
      · obtain ⟨root, hmem⟩ := List.exists_mem_of_ne_nil _ hne
        cases (hs.roots root).1 hmem

/-- **Sessions read what sessions wrote, under one root key.**  However sessions with keys and
without follow each other, and whatever copies or foreign bytes others put in place: what a session
decrypts was written encrypted, as the kind of artifact it is read as; a write that is in place is
read back by every session; and once there was a root key, exactly the opens with it succeed, as far
as their keys go (`openContext`), they find the manifest as it is, and no session is without
keys. -/
theorem encrypted_sessions (h : C.Authentic) {pathId : String} {trace : List SessionEvent}
    (hrun : SessionRuns C secrets pathId trace s) :
    (∀ place kind body bytes, s.artifacts place = some bytes → isEncryptedArtifact bytes = true →
      s.read C place kind = some (.ok body) →
        ∃ w ∈ s.writes, w.context.isSome = true ∧ w.kind = kind ∧ w.body.bytes = body) ∧
    (∀ place w, s.kept place = some w → s.session.isSome = true →
      s.read C place w.kind = some (.ok w.body.bytes)) ∧
    (∀ options env dek nonce,
      ((s.openKeys C options env dek nonce).2.toOption.isSome = true ↔
        ∃ key, options.resolveMasterKey env = .ok key ∧ ∀ root ∈ s.roots, key = some root) ∧
      (s.roots ≠ [] → (s.openKeys C options env dek nonce).1 = s.manifest)) ∧
    (s.roots ≠ [] → s.session ≠ some none) := by
  obtain ⟨ring, hs⟩ := guarded_of_runs h hrun
  refine ⟨fun place kind body bytes hbytes hencrypted hread => hs.of_read h hbytes hencrypted hread,
    fun place w hkept hopen => ?_, fun options env dek nonce => hs.openKeys h options env dek nonce,
      fun hne => ?_⟩
  · obtain ⟨hw, hbytes⟩ := hs.kept place w hkept
    obtain ⟨context, hsession⟩ := Option.isSome_iff_exists.1 hopen
    rw [read, hsession, hbytes, Option.bind_some, Option.map_some]
    refine congrArg some (decryptIfNeeded_bytes h fun key hkey => ?_)
    exact (hs.session context hsession).trans (hs.writes w hw key hkey)
  · intro hsession
    obtain ⟨root, hmem⟩ := List.exists_mem_of_ne_nil _ hne
    have hroot := (hs.roots root).1 hmem
    cases ring with
    | none => cases hroot
    | some r => cases hs.session none hsession

/-! ### A directory that gets keys -/

/-- Options with a root key. -/
def sampleOptions : PublicOptions :=
  ⟨⟨some ⟨List.replicate 32 7, "tracedb-root:07"⟩, none, false⟩, rfl⟩

def sampleBody (byte : UInt8) : PlainBody where
  bytes := [0x5b, byte, 0x5d]
  plain := by
    rw [isEncryptedArtifact, encryptedArtifactMagic, List.isPrefixOf]
    rfl

def sampleKey : DataKey := ⟨List.replicate 32 3, rfl⟩

def sampleNonce : Nonce := ⟨List.replicate 24 5, rfl⟩

/-- An open where the environment has no root key. -/
def sampleOpen (options : PublicOptions) : SessionEvent :=
  .opens options (.error .notPresent) sampleKey sampleNonce

/-- A session in the clear, one with keys, foreign bytes, and another one with keys. -/
def sampleTrace : List SessionEvent :=
  [sampleOpen ⟨.withoutTde, rfl⟩, .writes "jobs" "jobs" (sampleBody 0x30) sampleNonce, .closes,
    sampleOpen sampleOptions, .writes "wal" "wal" (sampleBody 0x31) sampleNonce, .closes,
    .tampers "segment" [0], sampleOpen sampleOptions]

def sampleState : SessionState := sampleTrace.foldl (next Aead.labelled) (fresh "cases")

theorem sampleTrace_runs :
    SessionRuns Aead.labelled (fun _ => True) "cases" sampleTrace sampleState := by
  have hforeign : ∀ dek : DataKey, True → EncryptionContext.Foreign Aead.labelled dek.bytes [0] :=
    fun _ _ _ _ _ heq => absurd (List.cons.inj heq).1 (by decide)
  exact (((((((Runs.start.step trivial rfl).step trivial rfl).step trivial rfl).step trivial
    rfl).step trivial
    rfl).step trivial rfl).step (.inr hforeign) rfl).step trivial rfl

/-- The last session reads what was written in the clear, and what was written with keys. -/
theorem sample_read : sampleState.read Aead.labelled "jobs" "jobs" = some (.ok [0x5b, 0x30, 0x5d]) ∧
    sampleState.read Aead.labelled "wal" "wal" = some (.ok [0x5b, 0x31, 0x5d]) := by
  obtain ⟨hsession, hjobs, hwal⟩ : sampleState.session.isSome = true ∧
      sampleState.kept "jobs" = some ⟨none, "jobs", sampleBody 0x30, sampleNonce⟩ ∧
      sampleState.kept "wal" =
        some ⟨some ⟨"tracedb-root:07", sampleKey.bytes⟩, "wal", sampleBody 0x31, sampleNonce⟩ := by
    decide +kernel
  have hall := encrypted_sessions Aead.authentic_labelled sampleTrace_runs
  exact ⟨hall.2.1 "jobs" ⟨none, "jobs", sampleBody 0x30, sampleNonce⟩ hjobs hsession,
    hall.2.1 "wal" ⟨some ⟨"tracedb-root:07", sampleKey.bytes⟩, "wal", sampleBody 0x31,
      sampleNonce⟩ hwal hsession⟩

end SessionState

end TraceDB
