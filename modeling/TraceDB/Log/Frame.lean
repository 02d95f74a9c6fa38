import TraceDB.Data.Codec
import TraceDB.Data.Except
import TraceDB.Log.Commit

/-!
# Frames of the write-ahead log

The binary frame `tracedb-log` puts around a serialized commit, and the reader of one frame.

* `assembleCommitFrame` builds an 88-byte header, the payload and a footer.
* `readFrame` is one round of the loop of `scan_file`: at a frame start it finds the end of the
  file, a torn tail, a whole frame or corruption.
* `IsFrame F prev frame entry` : after an entry with checksum `prev` the bytes `frame` are read as
  `entry` whatever follows them, and every proper non-empty prefix of them is a torn tail.
* `exists_isFrame` : what the reader takes for a frame is one.
* `isFrame_frameOf` : what the log builds is one.

Everything is stated for a log without encryption key.  `WalFormat` has the two library functions
the log calls: SHA-256 and the JSON serializer of commits, which need not read back every commit.
-/

namespace TraceDB

/-- The library functions the log depends on. -/
structure WalFormat where
  /-- `checksum_bytes`: SHA-256. -/
  checksumBytes : Bytes → Digest
  /-- `serde_json` at `CommitRecord`. -/
  commitCodec : JsonCodec CommitRecord

/-- Every commit is read back. -/
class WalFormat.Lossless (F : WalFormat) : Prop where
  commit : ∀ commit, F.commitCodec.ReadsBack commit

/-- `Lsn`. -/
abbrev Lsn := UInt64

/-- `WAL_MAGIC`. -/
def walMagic : ℕ := 0x5444574c

/-- `WAL_FORMAT_VERSION`. -/
def walFormatVersion : ℕ := 2

/-- `HEADER_LEN`. -/
def headerLen : ℕ := 88

/-- `MAX_PAYLOAD_LEN`. -/
def maxPayloadLen : ℕ := 16 * 1024 * 1024

/-- `COMMIT_FOOTER`. -/
def commitFooter : ℕ := 0x5444434d

/-- `ENCRYPTED_ARTIFACT_MAGIC`: `TDBENC01`. -/
def encryptedArtifactMagic : Bytes := [0x54, 0x44, 0x42, 0x45, 0x4e, 0x43, 0x30, 0x31]

/-- `is_encrypted_artifact`. -/
def isEncryptedArtifact (body : Bytes) : Bool := encryptedArtifactMagic.isPrefixOf body

/-- `decrypt_artifact_if_needed` without an encryption context. -/
def decryptArtifactIfNeeded (body : Bytes) : Result Bytes :=
  if isEncryptedArtifact body then
    .error (.crypto "TRACEDB_MASTER_KEY_B64 is required to open encrypted TraceDB data")
  else .ok body

/-- `WalEntry`. -/
structure WalEntry where
  lsn : Lsn
  checksum : Digest
  commit : CommitRecord
  deriving DecidableEq

/-- `TornWalTail`. -/
structure TornWalTail where
  offset : ℕ
  lsn : Option Lsn
  reason : String
  expectedLen : ℕ
  actualLen : ℕ
  deriving DecidableEq

/-- The header of a frame, in front of the payload. -/
def frameHeader (lsn : Lsn) (previousChecksum payloadChecksum : Digest) (payloadLen : ℕ) : Bytes :=
  Bytes.toLe 4 walMagic ++ Bytes.toLe 4 walFormatVersion ++ Bytes.toLe 8 lsn.toNat ++
    previousChecksum.bytes ++ Bytes.toLe 4 1 ++ Bytes.toLe 4 payloadLen ++ payloadChecksum.bytes

/-- `assemble_commit_frame`. -/
def assembleCommitFrame (lsn : Lsn) (previousChecksum payloadChecksum : Digest) (payload : Bytes) :
    Bytes :=
  frameHeader lsn previousChecksum payloadChecksum payload.length ++ payload ++
    Bytes.toLe 4 commitFooter

/-- What `scan_file` finds at the start of a frame. -/
inductive FrameRead where
  | eof
  | torn (tail : TornWalTail)
  | frame (entry : WalEntry) (rest : Bytes)
  deriving DecidableEq

variable (F : WalFormat)

/-- The checks on a decoded commit at the end of the loop of `scan_file`. -/
def checkCommit (lsn : Lsn) (prevChecksum : Digest) (commit : CommitRecord) : Result Unit :=
  if commit.commitMarker ≠ "COMMITTED" then
    .error (.walCorruption s!"missing commit marker at lsn {lsn.toNat}")
  else if commit.epoch = 0 ∨ commit.parentEpoch ≥ commit.epoch then
    .error (.walCorruption
      s!"invalid parent epoch {commit.parentEpoch} for epoch {commit.epoch} at lsn {lsn.toNat}")
  else if commit.previousCommitHash ≠ prevChecksum then
    .error (.walCorruption s!"previous commit hash mismatch at lsn {lsn.toNat}")
  else .ok ()

/-- The part of `scan_file` after a whole frame has been read. -/
def decodePayload (lsn : Lsn) (prevChecksum payloadChecksum : Digest) (payload : Bytes) :
    Result WalEntry := do
  let plaintext ← decryptArtifactIfNeeded payload
  match F.commitCodec.decode plaintext with
  | none => .error .json
  | some commit => do
    checkCommit lsn prevChecksum commit
    .ok ⟨lsn, payloadChecksum, commit⟩

/-- The fields of a frame header. -/
structure FrameHeader where
  lsn : Lsn
  prevChecksum : Digest
  payloadLen : ℕ
  payloadChecksum : Digest
  deriving DecidableEq

/-- The part of `scan_file` that reads and checks the 88 bytes of a header. -/
def readHeader (expectedPrev : Digest) (header : Bytes) : Result FrameHeader :=
  let magic := Bytes.ofLe (Bytes.slice header 0 4)
  let version := Bytes.ofLe (Bytes.slice header 4 8)
  let lsn := UInt64.ofNat (Bytes.ofLe (Bytes.slice header 8 16))
  let prevChecksum := Digest.ofSlice (Bytes.slice header 16 48)
  let kind := Bytes.ofLe (Bytes.slice header 48 52)
  let payloadLen := Bytes.ofLe (Bytes.slice header 52 56)
  let payloadChecksum := Digest.ofSlice (Bytes.slice header 56 88)
  if magic ≠ walMagic then .error (.walCorruption "invalid magic")
  else if version ≠ walFormatVersion then
    .error (.walCorruption s!"unsupported wal version {version}")
  else if kind ≠ 1 then .error (.walCorruption s!"unsupported frame kind {kind}")
  else if prevChecksum ≠ expectedPrev then
    .error (.walCorruption s!"prev checksum mismatch at lsn {lsn.toNat}")
  else if payloadLen > maxPayloadLen then
    .error (.walCorruption
      s!"payload length {payloadLen} exceeds max {maxPayloadLen} at lsn {lsn.toNat}")
  else .ok ⟨lsn, prevChecksum, payloadLen, payloadChecksum⟩

/-- The part of `scan_file` after the header: `body` is what follows it in the file. -/
def readBody (frameStart : ℕ) (header : FrameHeader) (body : Bytes) : Result FrameRead :=
  let lsn := header.lsn
  let payloadLen := header.payloadLen
  let payload := body.take payloadLen
  if payload.length < payloadLen then
    .ok (.torn ⟨frameStart, some lsn, "short_payload", payloadLen + 4, payload.length⟩)
  else if F.checksumBytes payload ≠ header.payloadChecksum then
    .error (.walCorruption s!"payload checksum mismatch at lsn {lsn.toNat}")
  else
    let footer := (body.drop payloadLen).take 4
    if footer.length < 4 then
      .ok (.torn ⟨frameStart, some lsn, "missing_commit_footer", 4, footer.length⟩)
    else if Bytes.ofLe footer ≠ commitFooter then
      .error (.walCorruption s!"commit footer mismatch at lsn {lsn.toNat}")
    else do
      let entry ← decodePayload F lsn header.prevChecksum header.payloadChecksum payload
      .ok (.frame entry ((body.drop payloadLen).drop 4))

/-- One round of the loop of `scan_file`, on the bytes of the file from `frameStart` on.
`expectedPrev` is the checksum of the last entry so far. -/
def readFrame (expectedPrev : Digest) (frameStart : ℕ) (file : Bytes) : Result FrameRead :=
  let header := file.take headerLen
  if header.length = 0 then .ok .eof
  else if header.length < headerLen then
    .ok (.torn ⟨frameStart, none, "short_header", headerLen, header.length⟩)
  else do
    let header ← readHeader expectedPrev header
    readBody F frameStart header (file.drop headerLen)

/-- The payload of a commit's frame. -/
def framePayload (commit : CommitRecord) (previousChecksum : Digest) : Bytes :=
  F.commitCodec.encode (commit.prepareForFrame previousChecksum)

/-- The bytes of the frame that holds a commit. -/
def frameOf (commit : CommitRecord) (lsn : Lsn) (previousChecksum : Digest) : Bytes :=
  let payload := framePayload F commit previousChecksum
  assembleCommitFrame lsn previousChecksum (F.checksumBytes payload) payload

/-- The entry the scanner makes of the frame of a commit. -/
def entryOf (commit : CommitRecord) (lsn : Lsn) (previousChecksum : Digest) : WalEntry :=
  ⟨lsn, F.checksumBytes (framePayload F commit previousChecksum),
    commit.prepareForFrame previousChecksum⟩

variable {F}

/-! ### The header -/

theorem length_frameHeader (lsn : Lsn) (p c : Digest) (n : ℕ) :
    (frameHeader lsn p c n).length = headerLen := by
  simp [frameHeader, headerLen]

theorem length_assembleCommitFrame (lsn : Lsn) (p c : Digest) (payload : Bytes) :
    (assembleCommitFrame lsn p c payload).length = headerLen + payload.length + 4 := by
  simp only [assembleCommitFrame, List.length_append, length_frameHeader, Bytes.length_toLe]

/-- The fields of a header are read back where they were put. -/
theorem frameHeader_fields (lsn : Lsn) (p c : Digest) {n : ℕ} (hn : n < 2 ^ 32) :
    let header := frameHeader lsn p c n
    Bytes.ofLe (Bytes.slice header 0 4) = walMagic ∧
      Bytes.ofLe (Bytes.slice header 4 8) = walFormatVersion ∧
      UInt64.ofNat (Bytes.ofLe (Bytes.slice header 8 16)) = lsn ∧
      Digest.ofSlice (Bytes.slice header 16 48) = p ∧
      Bytes.ofLe (Bytes.slice header 48 52) = 1 ∧
      Bytes.ofLe (Bytes.slice header 52 56) = n ∧
      Digest.ofSlice (Bytes.slice header 56 88) = c := by
  have hlsn : lsn.toNat < 256 ^ 8 := lsn.toNat_lt
  have hn : n < 256 ^ 4 := hn
  simp (disch := simp) only [frameHeader, Bytes.slice_append_left, Bytes.slice_append_right,
    List.length_append, Bytes.length_toLe, Digest.length_bytes, Nat.reduceAdd, Nat.reduceSub,
    Bytes.slice_self, Bytes.ofLe_toLe hlsn, Bytes.ofLe_toLe hn, Digest.ofSlice_bytes]
  exact ⟨by decide, by decide, UInt64.ofNat_toNat, trivial, by decide, trivial, trivial⟩

theorem readHeader_frameHeader (prev : Digest) (lsn : Lsn) (c : Digest) {n : ℕ}
    (hn : n ≤ maxPayloadLen) :
    readHeader prev (frameHeader lsn prev c n) = .ok ⟨lsn, prev, n, c⟩ := by
  have hlt : n < 2 ^ 32 := lt_of_le_of_lt hn (by decide)
  obtain ⟨hmagic, hversion, hl, hp, hkind, hlen, hc⟩ := frameHeader_fields lsn prev c hlt
  have hmax : ¬ n > maxPayloadLen := by omega
  simp only [readHeader, hmagic, hversion, hl, hp, hkind, hlen, hc, hmax, ne_eq,
    not_true_eq_false, if_false]

theorem readFrame_header {header : Bytes} (h : header.length = headerLen) (prev : Digest)
    (start : ℕ) (body : Bytes) :
    readFrame F prev start (header ++ body) =
      (readHeader prev header >>= fun fields => readBody F start fields body) := by
  have hnonzero : headerLen ≠ 0 := by decide
  simp only [readFrame, List.take_left' h, List.drop_left' h, h, hnonzero, lt_self_iff_false,
    if_false]

@[simp] theorem readFrame_nil (prev : Digest) (start : ℕ) :
    readFrame F prev start [] = .ok .eof := by
  simp [readFrame]

/-! ### The body -/

/-- What `readBody` has checked when it reads a frame. -/
structure BodyOk (F : WalFormat) (header : FrameHeader) (payload footer : Bytes)
    (entry : WalEntry) : Prop where
  payloadLen : payload.length = header.payloadLen
  checksum : F.checksumBytes payload = header.payloadChecksum
  footerLen : footer.length = 4
  footer : Bytes.ofLe footer = commitFooter
  decode : decodePayload F header.lsn header.prevChecksum header.payloadChecksum payload =
    .ok entry

theorem exists_bodyOk {start : ℕ} {header : FrameHeader} {body rest : Bytes} {entry : WalEntry}
    (h : readBody F start header body = .ok (.frame entry rest)) :
    ∃ payload footer, body = payload ++ (footer ++ rest) ∧
    BodyOk F header payload footer entry := by
  unfold readBody at h
  dsimp only at h
  split at h
  · cases h
  rename_i hpayload
  rw [Except.guard_eq_ok_iff] at h
  obtain ⟨hsum, h⟩ := h
  split at h
  · cases h
  rename_i hfooter
  rw [Except.guard_eq_ok_iff, Except.bind_eq_ok_iff] at h
  obtain ⟨hval, e, he, h⟩ := h
  obtain ⟨rfl, rfl⟩ := FrameRead.frame.inj (Except.ok.inj h)
  refine ⟨body.take header.payloadLen, (body.drop header.payloadLen).take 4, ?_, ?_⟩
  · rw [List.take_append_drop, List.take_append_drop]
  · refine ⟨?_, not_not.1 hsum, ?_, not_not.1 hval, he⟩
    · rw [List.length_take] at hpayload ⊢
      omega
    · rw [List.length_take] at hfooter ⊢
      omega

theorem BodyOk.readBody {header : FrameHeader} {payload footer : Bytes} {entry : WalEntry}
    (h : BodyOk F header payload footer entry) (start : ℕ) (rest : Bytes) :
    readBody F start header (payload ++ (footer ++ rest)) = .ok (.frame entry rest) := by
  simp only [TraceDB.readBody, ← h.payloadLen, List.take_left, List.drop_left, lt_self_iff_false,
    ne_eq, h.checksum, not_true_eq_false, if_false, List.take_left' h.footerLen, h.footerLen,
    h.footer, h.decode, Except.ok_bind, List.drop_left' h.footerLen]

/-- A proper prefix of payload and footer is a torn tail. -/
theorem BodyOk.torn {header : FrameHeader} {payload footer : Bytes} {entry : WalEntry}
    (h : BodyOk F header payload footer entry) (start : ℕ) {cut : Bytes}
    (hpre : cut <+: payload ++ footer) (hlt : cut.length < (payload ++ footer).length) :
    ∃ t, TraceDB.readBody F start header cut = .ok (.torn t) ∧ t.offset = start := by
  by_cases hshort : cut.length < payload.length
  · refine ⟨⟨start, some header.lsn, "short_payload", payload.length + 4, cut.length⟩, ?_, rfl⟩
    have htake : cut.take payload.length = cut := List.take_of_length_le hshort.le
    simp only [TraceDB.readBody, ← h.payloadLen, htake, hshort, if_true]
  · have hpayload : payload <+: cut :=
      List.prefix_of_prefix_length_le (List.prefix_append _ _) hpre (not_lt.1 hshort)
    obtain ⟨rest, rfl⟩ := hpayload
    have hlen : rest.length < 4 := by
      rw [List.length_append, List.length_append, h.footerLen] at hlt
      omega
    have htake : rest.take 4 = rest := List.take_of_length_le hlen.le
    refine ⟨⟨start, some header.lsn, "missing_commit_footer", 4, rest.length⟩, ?_, rfl⟩
    simp only [TraceDB.readBody, ← h.payloadLen, List.take_left, List.drop_left,
      lt_self_iff_false, ne_eq, h.checksum, not_true_eq_false, if_false, htake, hlen, if_true]

/-! ### Frames -/

/-- After an entry with checksum `prev`, the bytes `frame` hold `entry`: they are read so whatever
follows, and cut short anywhere they are a torn tail, never corruption. -/
structure IsFrame (F : WalFormat) (prev : Digest) (frame : Bytes) (entry : WalEntry) : Prop where
  ne_nil : frame ≠ []
  read : ∀ start rest, readFrame F prev start (frame ++ rest) = .ok (.frame entry rest)
  torn : ∀ start cut, cut <+: frame → cut ≠ [] → cut.length < frame.length →
    ∃ t, readFrame F prev start cut = .ok (.torn t) ∧ t.offset = start

/-- A header followed by a good body is a frame. -/
theorem isFrame_of_bodyOk {prev : Digest} {header payload footer : Bytes} {fields : FrameHeader}
    {entry : WalEntry} (hlen : header.length = headerLen)
    (hheader : readHeader prev header = .ok fields) (hbody : BodyOk F fields payload footer entry) :
    IsFrame F prev (header ++ (payload ++ footer)) entry where
  ne_nil h := by
    have := congrArg List.length h
    simp [hlen, headerLen] at this
  read start rest := by
    rw [List.append_assoc, List.append_assoc, readFrame_header hlen, hheader, Except.ok_bind,
      hbody.readBody]
  torn start cut hpre hne hlt := by
    by_cases hshort : cut.length < headerLen
    · refine ⟨⟨start, none, "short_header", headerLen, cut.length⟩, ?_, rfl⟩
      have htake : cut.take headerLen = cut := List.take_of_length_le hshort.le
      have hpos : cut.length ≠ 0 := by simpa using hne
      simp only [readFrame, htake, hshort, hpos, if_true, if_false]
    · have hheaderPre : header <+: cut :=
        List.prefix_of_prefix_length_le (List.prefix_append _ _) hpre
          (by rw [hlen]; exact not_lt.1 hshort)
      obtain ⟨body, rfl⟩ := hheaderPre
      rw [List.prefix_append_right_inj] at hpre
      rw [readFrame_header hlen, hheader, Except.ok_bind]
      refine hbody.torn start hpre ?_
      simpa using hlt

/-- **What is read as a frame is one**: the bytes the reader consumed are a frame for the entry it
returned. -/
theorem exists_isFrame {prev : Digest} {start : ℕ} {file rest : Bytes} {entry : WalEntry}
    (h : readFrame F prev start file = .ok (.frame entry rest)) :
    ∃ frame, file = frame ++ rest ∧ IsFrame F prev frame entry := by
  unfold readFrame at h
  dsimp only at h
  split at h
  · cases h
  split at h
  · cases h
  rename_i hlong
  rw [Except.bind_eq_ok_iff] at h
  obtain ⟨fields, hheader, h⟩ := h
  obtain ⟨payload, footer, hbody, hok⟩ := exists_bodyOk h
  have hlen : (file.take headerLen).length = headerLen := by
    rw [List.length_take] at hlong ⊢
    omega
  refine ⟨file.take headerLen ++ (payload ++ footer), ?_, isFrame_of_bodyOk hlen hheader hok⟩
  rw [List.append_assoc, List.append_assoc, ← hbody, List.take_append_drop]

/-- A frame that was read leaves less of the file to read. -/
theorem length_lt_of_readFrame {prev : Digest} {start : ℕ} {file rest : Bytes} {entry : WalEntry}
    (h : readFrame F prev start file = .ok (.frame entry rest)) : rest.length < file.length := by
  obtain ⟨frame, rfl, hf⟩ := exists_isFrame h
  have := List.length_pos_iff.2 hf.ne_nil
  rw [List.length_append]
  omega

/-! ### The frames of the log -/

theorem isEncryptedArtifact_encode {α : Type} (c : JsonCodec α) (a : α) :
    isEncryptedArtifact (c.encode a) = false := by
  have h := c.head?_encode a
  cases he : c.encode a with
  | nil => simp [he] at h
  | cons b bs =>
    obtain rfl : b = 0x7b := by simpa [he] using h
    simp [isEncryptedArtifact, encryptedArtifactMagic, List.isPrefixOf]

theorem checkCommit_engine {commit : CommitRecord} (hc : commit.Engine) (lsn : Lsn)
    (prev : Digest) : checkCommit lsn prev (commit.prepareForFrame prev) = .ok () := by
  have hm := (hc.prepareForFrame prev).marker
  have hpos : commit.epoch ≠ 0 := hc.epoch_pos.ne'
  have hlt : ¬ commit.parentEpoch ≥ commit.epoch := not_le.2 hc.parent_lt
  have hparent : (commit.prepareForFrame prev).parentEpoch = commit.parentEpoch := rfl
  simp [checkCommit, hm, hparent, hpos, hlt]

theorem decodePayload_framePayload {commit : CommitRecord} (hc : commit.Engine) (lsn : Lsn)
    {prev : Digest} (c : Digest) (hback : F.commitCodec.ReadsBack (commit.prepareForFrame prev)) :
    decodePayload F lsn prev c (framePayload F commit prev) =
      .ok ⟨lsn, c, commit.prepareForFrame prev⟩ := by
  have hdecode : F.commitCodec.decode (framePayload F commit prev) =
      some (commit.prepareForFrame prev) := hback
  simp only [decodePayload, decryptArtifactIfNeeded, framePayload, isEncryptedArtifact_encode,
    Bool.false_eq_true, if_false, Except.ok_bind] at hdecode ⊢
  simp only [hdecode, checkCommit_engine hc, Except.ok_bind]

/-- **What the log builds is a frame**, for an engine commit whose payload fits and is read back. -/
theorem isFrame_frameOf {commit : CommitRecord} (hc : commit.Engine) (lsn : Lsn) {prev : Digest}
    (hlen : (framePayload F commit prev).length ≤ maxPayloadLen)
    (hback : F.commitCodec.ReadsBack (commit.prepareForFrame prev)) :
    IsFrame F prev (frameOf F commit lsn prev) (entryOf F commit lsn prev) := by
  rw [frameOf, assembleCommitFrame, List.append_assoc]
  refine isFrame_of_bodyOk (length_frameHeader _ _ _ _) (readHeader_frameHeader _ _ _ hlen) ?_
  exact ⟨rfl, rfl, Bytes.length_toLe _ _, Bytes.ofLe_toLe (by decide),
    decodePayload_framePayload hc lsn _ hback⟩

theorem length_frameOf (commit : CommitRecord) (lsn : Lsn) (prev : Digest) :
    (frameOf F commit lsn prev).length = headerLen + (framePayload F commit prev).length + 4 :=
  length_assembleCommitFrame _ _ _ _

end TraceDB
