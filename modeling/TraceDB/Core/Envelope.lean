import TraceDB.Core.Names
import TraceDB.Data.Codec
import TraceDB.Data.Except
import TraceDB.Data.Sha256

/-!
# The envelope of artifacts

`encode_artifact_envelope` and `decode_artifact_envelope` (`tracedb-core`): a magic number, a header
in a frame with a length, and the payload, with a checksum of the payload and one of both.

The checksum of the whole is taken over the header as it is written anew, not over the bytes of its
frame, and the library reads a header off the front of its frame.  So a frame may have bytes after
its header (`decodeArtifactEnvelope_slack`), and `envelope_codec` says that nothing else goes wrong,
apart from headers too long for the four bytes of their length.
-/

namespace TraceDB

/-- `ArtifactEnvelopeHeader`. -/
structure ArtifactEnvelopeHeader where
  version : UInt32
  kind : String
  codec : String
  segmentId : String
  generation : UInt64
  manifestGeneration : UInt64
  epochMin : UInt64
  epochMax : UInt64
  sourceSegmentChecksum : Digest
  payloadLen : UInt64
  payloadChecksum : Digest
  objectChecksum : Digest
  deriving DecidableEq

/-- `ArtifactEnvelope`. -/
structure ArtifactEnvelope where
  header : ArtifactEnvelopeHeader
  payload : Bytes
  deriving DecidableEq

/-- The libraries that the envelope rests on. -/
structure EnvelopeFormat where
  /-- `checksum_bytes`: SHA-256. -/
  checksumBytes : Bytes → Digest
  /-- `bincode::serialize`, with the text of the error. -/
  serialize : ArtifactEnvelopeHeader → Except String Bytes
  /-- `bincode::deserialize`, with the text of the error. -/
  deserialize : Bytes → Except String ArtifactEnvelopeHeader

/-- Headers are read back off the front of a byte string, and only from their own bytes. -/
structure EnvelopeFormat.Lossless (F : EnvelopeFormat) : Prop where
  deserialize_serialize : ∀ header, ∃ bytes, F.serialize header = .ok bytes ∧
    ∀ rest, F.deserialize (bytes ++ rest) = .ok header
  serialize_deserialize : ∀ bytes header, F.deserialize bytes = .ok header →
    ∃ front rest, F.serialize header = .ok front ∧ bytes = front ++ rest

/-- `ARTIFACT_ENVELOPE_MAGIC`: `TDBART01`. -/
def artifactEnvelopeMagic : Bytes := [0x54, 0x44, 0x42, 0x41, 0x52, 0x54, 0x30, 0x31]

/-- A digest as `{:?}` writes it. -/
def Digest.debugText (digest : Digest) : String :=
  "[" ++ ", ".intercalate (digest.bytes.map fun byte => toString byte.toNat) ++ "]"

section

variable (F : EnvelopeFormat)

/-- `ArtifactEnvelopeHeader::new`. -/
def ArtifactEnvelopeHeader.new (kind codec segmentId : String)
    (generation manifestGeneration epochMin epochMax : UInt64) (sourceSegmentChecksum : Digest)
    (payload : Bytes) : ArtifactEnvelopeHeader where
  version := 1
  kind := kind
  codec := codec
  segmentId := segmentId
  generation := generation
  manifestGeneration := manifestGeneration
  epochMin := epochMin
  epochMax := epochMax
  sourceSegmentChecksum := sourceSegmentChecksum
  payloadLen := .ofNat payload.length
  payloadChecksum := F.checksumBytes payload
  objectChecksum := Digest.zero

/-- `serialize_artifact_header`. -/
def serializeArtifactHeader (header : ArtifactEnvelopeHeader) : Result Bytes :=
  match F.serialize header with
  | .ok bytes => .ok bytes
  | .error error => .error (.artifactCorruption error)

/-- `encode_artifact_envelope`. -/
def encodeArtifactEnvelope (header : ArtifactEnvelopeHeader) (payload : Bytes) : Result Bytes :=
  let payloadChecksum := F.checksumBytes payload
  if header.payloadLen ≠ .ofNat payload.length then
    .error (.artifactCorruption
      (s!"artifact payload length mismatch: header {header.payloadLen.toNat}, " ++
        s!"actual {payload.length}"))
  else if header.payloadChecksum ≠ payloadChecksum then
    .error (.artifactCorruption
      (s!"artifact payload checksum mismatch: header {header.payloadChecksum.debugText}, " ++
        s!"actual {payloadChecksum.debugText}"))
  else do
    let header := { header with objectChecksum := Digest.zero }
    let headerWithoutChecksum ← serializeArtifactHeader F header
    let header := { header with
      objectChecksum := F.checksumBytes (headerWithoutChecksum ++ payload) }
    let headerBytes ← serializeArtifactHeader F header
    .ok (artifactEnvelopeMagic ++ (Bytes.toLe 4 headerBytes.length ++ (headerBytes ++ payload)))

/-- The checks of `decode_artifact_envelope` on a header and the payload after its frame. -/
def checkArtifactEnvelope (header : ArtifactEnvelopeHeader) (payload : Bytes) :
    Result ArtifactEnvelope :=
  let payloadChecksum := F.checksumBytes payload
  if header.payloadLen ≠ .ofNat payload.length then
    .error (.artifactCorruption
      (s!"artifact payload length mismatch: header {header.payloadLen.toNat}, " ++
        s!"actual {payload.length}"))
  else if header.payloadChecksum ≠ payloadChecksum then
    .error (.artifactCorruption
      (s!"artifact payload checksum mismatch: expected {header.payloadChecksum.debugText}, " ++
        s!"got {payloadChecksum.debugText}"))
  else do
    let headerBytes ← serializeArtifactHeader F { header with objectChecksum := Digest.zero }
    let objectChecksum := F.checksumBytes (headerBytes ++ payload)
    if header.objectChecksum ≠ objectChecksum then
      .error (.artifactCorruption
        (s!"artifact object checksum mismatch: expected {header.objectChecksum.debugText}, " ++
          s!"got {objectChecksum.debugText}"))
    else .ok ⟨header, payload⟩

/-- The length that stands before the header. -/
def headerFrameLen (bytes : Bytes) : ℕ :=
  Bytes.ofLe (Bytes.slice bytes artifactEnvelopeMagic.length (artifactEnvelopeMagic.length + 4))

/-- The frame of the header. -/
def headerFrame (bytes : Bytes) : Bytes :=
  Bytes.slice bytes (artifactEnvelopeMagic.length + 4)
    (artifactEnvelopeMagic.length + 4 + headerFrameLen bytes)

/-- `decode_artifact_envelope`. -/
def decodeArtifactEnvelope (bytes : Bytes) : Result ArtifactEnvelope :=
  let headerLenEnd := artifactEnvelopeMagic.length + 4
  let headerEnd := headerLenEnd + headerFrameLen bytes
  if ¬ artifactEnvelopeMagic.isPrefixOf bytes then
    .error (.artifactCorruption "artifact envelope magic mismatch")
  else if bytes.length < headerLenEnd then
    .error (.artifactCorruption "artifact envelope truncated before header length")
  else if bytes.length < headerEnd then
    .error (.artifactCorruption "artifact envelope truncated before header")
  else
    match F.deserialize (headerFrame bytes) with
    | .error error => .error (.artifactCorruption error)
    | .ok header => checkArtifactEnvelope F header (bytes.drop headerEnd)

/-! ### Headers for a payload -/

/-- The header has the length and the checksum of the payload. -/
def ArtifactEnvelopeHeader.Fits (header : ArtifactEnvelopeHeader) (payload : Bytes) : Prop :=
  header.payloadLen = .ofNat payload.length ∧ header.payloadChecksum = F.checksumBytes payload

/-- The header with the checksum of the whole. -/
def ArtifactEnvelopeHeader.sealed (header : ArtifactEnvelopeHeader) (payload : Bytes) :
    ArtifactEnvelopeHeader :=
  { header with
    objectChecksum := F.checksumBytes
      ((F.serialize { header with objectChecksum := Digest.zero }).toOption.getD [] ++ payload) }

/-- The header frame holds a header and nothing after it. -/
def NoSlack (bytes : Bytes) : Prop :=
  ∀ header, F.deserialize (headerFrame bytes) = .ok header →
    F.serialize header = .ok (headerFrame bytes)

end

section

variable {F : EnvelopeFormat} {header : ArtifactEnvelopeHeader} {payload : Bytes}

theorem ArtifactEnvelopeHeader.fits_new (kind codec segmentId : String)
    (generation manifestGeneration epochMin epochMax : UInt64) (sourceSegmentChecksum : Digest)
    (payload : Bytes) :
    (ArtifactEnvelopeHeader.new F kind codec segmentId generation
      manifestGeneration epochMin epochMax
      sourceSegmentChecksum payload).Fits F payload := ⟨rfl, rfl⟩

theorem EnvelopeFormat.Lossless.exists_serialize (h : F.Lossless)
    (header : ArtifactEnvelopeHeader) :
    ∃ bytes, F.serialize header = .ok bytes := by
  obtain ⟨bytes, hbytes, -⟩ := h.deserialize_serialize header
  exact ⟨bytes, hbytes⟩

/-- What is written for a header that fits. -/
theorem encodeArtifactEnvelope_eq (h : F.Lossless) (hfits : header.Fits F payload)
    {headerBytes : Bytes} (hbytes : F.serialize (header.sealed F payload) = .ok headerBytes) :
    encodeArtifactEnvelope F header payload =
      .ok (artifactEnvelopeMagic ++
        (Bytes.toLe 4 headerBytes.length ++ (headerBytes ++ payload))) := by
  obtain ⟨zeroed, hzeroed⟩ := h.exists_serialize { header with objectChecksum := Digest.zero }
  have hsealed : header.sealed F payload =
      { header with objectChecksum := F.checksumBytes (zeroed ++ payload) } := by
    rw [ArtifactEnvelopeHeader.sealed, hzeroed]
    rfl
  rw [hsealed] at hbytes
  rw [encodeArtifactEnvelope]
  dsimp only
  rw [if_neg (not_not.2 hfits.1), if_neg (not_not.2 hfits.2), serializeArtifactHeader, hzeroed]
  dsimp only
  rw [Except.ok_bind, serializeArtifactHeader, hbytes]
  rfl

/-- The checks pass for a sealed header and its payload, and for no other header. -/
theorem checkArtifactEnvelope_iff (h : F.Lossless) {envelope : ArtifactEnvelope} :
    checkArtifactEnvelope F header payload = .ok envelope ↔
      envelope = ⟨header, payload⟩ ∧ header.Fits F payload ∧ header = header.sealed F payload := by
  obtain ⟨zeroed, hzeroed⟩ := h.exists_serialize { header with objectChecksum := Digest.zero }
  have hsealed : header.sealed F payload =
      { header with objectChecksum := F.checksumBytes (zeroed ++ payload) } := by
    rw [ArtifactEnvelopeHeader.sealed, hzeroed]
    rfl
  have hsame : header = header.sealed F payload ↔
      header.objectChecksum = F.checksumBytes (zeroed ++ payload) := by
    rw [hsealed]
    constructor
    · exact fun heq => congrArg ArtifactEnvelopeHeader.objectChecksum heq
    · intro heq
      rw [← heq]
  rw [checkArtifactEnvelope]
  dsimp only
  rw [Except.guard_eq_ok_iff, Except.guard_eq_ok_iff, serializeArtifactHeader, hzeroed]
  dsimp only
  rw [Except.ok_bind, Except.guard_eq_ok_iff, not_not, not_not, not_not, hsame]
  constructor
  · rintro ⟨hlen, hsum, hobject, henvelope⟩
    exact ⟨(Except.ok.inj henvelope).symm, ⟨hlen, hsum⟩, hobject⟩
  · rintro ⟨rfl, ⟨hlen, hsum⟩, hobject⟩
    exact ⟨hlen, hsum, hobject, rfl⟩

/-! ### The layout -/

theorem headerFrameLen_layout (len : ℕ) (body : Bytes) :
    headerFrameLen (artifactEnvelopeMagic ++ (Bytes.toLe 4 len ++ body)) = len % 2 ^ 32 := by
  rw [headerFrameLen, Bytes.slice_append_right le_rfl, Nat.sub_self, Nat.add_sub_cancel_left,
    Bytes.slice_append_left (by simp), Bytes.slice_self _ (by simp), Bytes.ofLe_toLe_mod]
  rfl

theorem drop_layout (len n : ℕ) (body : Bytes) :
    (artifactEnvelopeMagic ++ (Bytes.toLe 4 len ++ body)).drop
      (artifactEnvelopeMagic.length + 4 + n) =
      body.drop n := by
  have hassoc : artifactEnvelopeMagic ++ (Bytes.toLe 4 len ++ body) =
      (artifactEnvelopeMagic ++ Bytes.toLe 4 len) ++ body := by rw [List.append_assoc]
  have hlen : (artifactEnvelopeMagic ++ Bytes.toLe 4 len).length =
      artifactEnvelopeMagic.length + 4 := by
    rw [List.length_append, Bytes.length_toLe]
  rw [hassoc, ← hlen, List.drop_append]
  simp

theorem headerFrame_layout (len : ℕ) (body : Bytes) :
    headerFrame (artifactEnvelopeMagic ++ (Bytes.toLe 4 len ++ body)) = body.take
      (len % 2 ^ 32) := by
  have hassoc : artifactEnvelopeMagic ++ (Bytes.toLe 4 len ++ body) =
      (artifactEnvelopeMagic ++ Bytes.toLe 4 len) ++ body := by rw [List.append_assoc]
  have hlen : (artifactEnvelopeMagic ++ Bytes.toLe 4 len).length =
      artifactEnvelopeMagic.length + 4 := by
    rw [List.length_append, Bytes.length_toLe]
  rw [headerFrame, headerFrameLen_layout, hassoc, Bytes.slice_append_right hlen.le,
    hlen, Nat.sub_self, Nat.add_sub_cancel_left, Bytes.slice, List.drop_zero, Nat.sub_zero]

/-- What is read from a magic number, a length and what follows them. -/
theorem decodeArtifactEnvelope_layout {len : ℕ} {body : Bytes}
    (hlong : len % 2 ^ 32 ≤ body.length) :
    decodeArtifactEnvelope F (artifactEnvelopeMagic ++ (Bytes.toLe 4 len ++ body)) =
      match F.deserialize (body.take (len % 2 ^ 32)) with
      | .error error => .error (.artifactCorruption error)
      | .ok header => checkArtifactEnvelope F header (body.drop (len % 2 ^ 32)) := by
  have hmagic : artifactEnvelopeMagic.isPrefixOf
      (artifactEnvelopeMagic ++ (Bytes.toLe 4 len ++ body)) = true :=
    List.isPrefixOf_iff_prefix.2 (List.prefix_append _ _)
  have htotal : (artifactEnvelopeMagic ++ (Bytes.toLe 4 len ++ body)).length =
      artifactEnvelopeMagic.length + 4 + body.length := by
    rw [List.length_append, List.length_append, Bytes.length_toLe, Nat.add_assoc]
  rw [decodeArtifactEnvelope, headerFrameLen_layout, headerFrame_layout, drop_layout,
    if_neg (not_not.2 hmagic), if_neg (by omega), if_neg (by omega)]

/-- Accepted bytes are laid out so. -/
theorem exists_layout {bytes : Bytes} {envelope : ArtifactEnvelope}
    (h : decodeArtifactEnvelope F bytes = .ok envelope) :
    ∃ header payload, bytes = artifactEnvelopeMagic ++ (Bytes.toLe 4 (headerFrame bytes).length ++
        (headerFrame bytes ++ payload)) ∧ (headerFrame bytes).length < 2 ^ 32 ∧
      F.deserialize (headerFrame bytes) = .ok header ∧
      checkArtifactEnvelope F header payload = .ok envelope := by
  rw [decodeArtifactEnvelope, Except.guard_eq_ok_iff, Except.guard_eq_ok_iff,
    Except.guard_eq_ok_iff, not_not, not_lt, not_lt] at h
  obtain ⟨hmagic, hlong, hend, h⟩ := h
  obtain ⟨rest, rfl⟩ := List.isPrefixOf_iff_prefix.1 hmagic
  rw [List.length_append] at hlong hend
  have hrest : rest.take 4 ++ rest.drop 4 = rest := List.take_append_drop 4 rest
  have hfour : (rest.take 4).length = 4 := by
    rw [List.length_take]
    omega
  have hword := Bytes.toLe_ofLe (rest.take 4)
  have hsmall := Bytes.ofLe_lt (rest.take 4)
  rw [hfour] at hword hsmall
  set len := Bytes.ofLe (rest.take 4) with hlen
  set body := rest.drop 4 with hbody
  have hlayout : artifactEnvelopeMagic ++ rest = artifactEnvelopeMagic ++
      (Bytes.toLe 4 len ++ body) := by
    rw [hword, hrest]
  have hmod : len % 2 ^ 32 = len := Nat.mod_eq_of_lt hsmall
  rw [hlayout, headerFrameLen_layout, hmod] at hend
  rw [hlayout, headerFrameLen_layout, headerFrame_layout, hmod] at h
  have hbodyLen : body.length = rest.length - 4 := List.length_drop
  have hframeLen : (body.take len).length = len := by
    rw [List.length_take]
    omega
  cases hheader : F.deserialize (body.take len) with
  | error error =>
    rw [hheader] at h
    cases h
  | ok header =>
    rw [hheader] at h
    refine ⟨header, body.drop len, ?_, ?_, ?_, ?_⟩
    · rw [hlayout, headerFrame_layout, hmod, hframeLen, List.take_append_drop]
    · rw [hlayout, headerFrame_layout, hmod, hframeLen]
      exact hsmall
    · rw [hlayout, headerFrame_layout, hmod, hheader]
    · rwa [drop_layout] at h

/-! ### The two directions -/

theorem ArtifactEnvelopeHeader.Fits.sealed (hfits : header.Fits F payload) :
    (header.sealed F payload).Fits F payload := hfits

/-- A frame may have bytes after its header. -/
theorem decodeArtifactEnvelope_slack (h : F.Lossless) (hfits : header.Fits F payload)
    {headerBytes : Bytes} (hbytes : F.serialize (header.sealed F payload) = .ok headerBytes)
    {slack : Bytes} (hshort : (headerBytes ++ slack).length < 2 ^ 32) :
    decodeArtifactEnvelope F (artifactEnvelopeMagic ++
        (Bytes.toLe 4 (headerBytes ++ slack).length ++ ((headerBytes ++ slack) ++ payload))) =
      .ok ⟨header.sealed F payload, payload⟩ := by
  obtain ⟨found, hfound, hread⟩ := h.deserialize_serialize (header.sealed F payload)
  obtain rfl : found = headerBytes := Except.ok.inj (hfound.symm.trans hbytes)
  have hmod : (found ++ slack).length % 2 ^ 32 = (found ++ slack).length := Nat.mod_eq_of_lt hshort
  have hlong : (found ++ slack).length % 2 ^ 32 ≤ ((found ++ slack) ++ payload).length := by
    rw [hmod]
    exact (List.prefix_append _ _).length_le
  rw [decodeArtifactEnvelope_layout hlong, hmod, List.take_left, List.drop_left, hread]
  exact (checkArtifactEnvelope_iff h).2 ⟨rfl, hfits.sealed, rfl⟩

/-- An artifact is read back exactly when the length of its header has room in four bytes. -/
theorem decode_encode_iff (h : F.Lossless) (hfits : header.Fits F payload) :
    (∃ bytes, encodeArtifactEnvelope F header payload = .ok bytes ∧
        decodeArtifactEnvelope F bytes = .ok ⟨header.sealed F payload, payload⟩) ↔
      ∀ headerBytes, F.serialize (header.sealed F payload) = .ok headerBytes →
      headerBytes.length < 2 ^ 32 := by
  obtain ⟨headerBytes, hbytes⟩ := h.exists_serialize (header.sealed F payload)
  have hencode := encodeArtifactEnvelope_eq h hfits hbytes
  constructor
  · rintro ⟨bytes, hencoded, hdecode⟩ found hfound
    obtain rfl : found = headerBytes := Except.ok.inj (hfound.symm.trans hbytes)
    obtain rfl := Except.ok.inj (hencode.symm.trans hencoded)
    by_contra hlong
    rw [not_lt] at hlong
    -- The frame is cut short, and what is cut off counts as payload.
    have hless : found.length % 2 ^ 32 < found.length :=
      lt_of_lt_of_le (Nat.mod_lt _ (by decide)) hlong
    have hroom : found.length % 2 ^ 32 ≤ (found ++ payload).length := by
      rw [List.length_append]
      omega
    rw [decodeArtifactEnvelope_layout hroom] at hdecode
    cases hread : F.deserialize ((found ++ payload).take (found.length % 2 ^ 32)) with
    | error error =>
      rw [hread] at hdecode
      cases hdecode
    | ok other =>
      rw [hread] at hdecode
      obtain ⟨heq, -⟩ := (checkArtifactEnvelope_iff h).1 hdecode
      have hpayload : payload = (found ++ payload).drop (found.length % 2 ^ 32) :=
        congrArg ArtifactEnvelope.payload heq
      have hlength := congrArg List.length hpayload
      rw [List.length_drop, List.length_append] at hlength
      omega
  · intro hshort
    have hroom : (headerBytes ++ []).length < 2 ^ 32 := by
      rw [List.append_nil]
      exact hshort headerBytes hbytes
    have hdecode := decodeArtifactEnvelope_slack h hfits hbytes hroom
    rw [List.append_nil] at hdecode
    exact ⟨_, hencode, hdecode⟩

/-- Accepted bytes are those of their header and payload exactly when the frame has nothing after
the header. -/
theorem encode_decode_iff (h : F.Lossless) {bytes : Bytes} {envelope : ArtifactEnvelope}
    (hdecode : decodeArtifactEnvelope F bytes = .ok envelope) :
    encodeArtifactEnvelope F envelope.header envelope.payload = .ok bytes ↔ NoSlack F bytes := by
  obtain ⟨header, payload, hlayout, hshort, hread, hcheck⟩ := exists_layout hdecode
  obtain ⟨rfl, hfits, hsealed⟩ := (checkArtifactEnvelope_iff h).1 hcheck
  obtain ⟨headerBytes, hbytes⟩ := h.exists_serialize (header.sealed F payload)
  have hencode := encodeArtifactEnvelope_eq h hfits hbytes
  rw [← hsealed] at hbytes
  dsimp only
  rw [hencode]
  constructor
  · intro heq other hother
    obtain rfl : other = header := Except.ok.inj (hother.symm.trans hread)
    -- The same bytes have the same length field, so the same frame.
    have hlengths := congrArg List.length (Except.ok.inj heq)
    rw [hlayout] at hlengths
    simp only [List.length_append, Bytes.length_toLe] at hlengths
    have hsame : headerBytes.length = (headerFrame bytes).length := by omega
    have hframe : headerFrame bytes = headerBytes := by
      have hboth := (Except.ok.inj heq).trans hlayout
      rw [hsame] at hboth
      exact List.append_cancel_right (List.append_cancel_left (List.append_cancel_left hboth.symm))
    rw [hframe]
    exact hbytes
  · intro hnoslack
    have hframe : headerBytes = headerFrame bytes :=
      Except.ok.inj (hbytes.symm.trans (hnoslack header hread))
    rw [hframe, ← hlayout]

/-- **The codec of artifacts.**  Headers that fit their payload come back sealed, if their length
has room in four bytes; accepted bytes are those of their header and payload, if the frame has
nothing after the header. -/
theorem envelope_codec (h : F.Lossless) :
    (∀ (header : ArtifactEnvelopeHeader) (payload : Bytes), header.Fits F payload →
      ((∃ bytes, encodeArtifactEnvelope F header payload = .ok bytes ∧
          decodeArtifactEnvelope F bytes = .ok ⟨header.sealed F payload, payload⟩) ↔
        ∀ headerBytes, F.serialize (header.sealed F payload) = .ok headerBytes →
        headerBytes.length < 2 ^ 32)) ∧
    ∀ (bytes : Bytes) (envelope : ArtifactEnvelope), decodeArtifactEnvelope F bytes = .ok envelope →
      (encodeArtifactEnvelope F envelope.header envelope.payload = .ok bytes ↔ NoSlack F bytes) :=
  ⟨fun _ _ hfits => decode_encode_iff h hfits, fun _ _ hdecode => encode_decode_iff h hdecode⟩

end

/-! ### A reference format -/

namespace Bincode

/-- A `u32`. -/
def word32 : StreamCodec UInt32 where
  enc x := Bytes.toLe 4 x.toNat
  dec bytes := if bytes.length < 4
    then none else some (.ofNat (Bytes.ofLe (bytes.take 4)), bytes.drop 4)
  dec_enc x rest := by
    have hx : x.toNat < 256 ^ 4 := x.toNat_lt
    simp [List.take_left', List.drop_left', Bytes.ofLe_toLe hx]

/-- A `u64`. -/
def word64 : StreamCodec UInt64 where
  enc x := Bytes.toLe 8 x.toNat
  dec bytes := if bytes.length < 8
    then none else some (.ofNat (Bytes.ofLe (bytes.take 8)), bytes.drop 8)
  dec_enc x rest := by
    have hx : x.toNat < 256 ^ 8 := x.toNat_lt
    simp [List.take_left', List.drop_left', Bytes.ofLe_toLe hx]

/-- A `[u8; 32]`. -/
def array32 : StreamCodec Digest where
  enc digest := digest.bytes
  dec bytes := if bytes.length < 32 then none else some (.ofSlice (bytes.take 32), bytes.drop 32)
  dec_enc digest rest := by
    simp [List.take_left', List.drop_left']

/-- The text with the given bytes. -/
def textOfBytes (bytes : Bytes) : Option String := String.fromUTF8? ⟨bytes.toArray⟩

theorem textOfBytes_utf8 (s : String) : textOfBytes (utf8 s) = some s := by
  have harray : (⟨(utf8 s).toArray⟩ : ByteArray) = s.toByteArray := by
    rw [utf8_eq]
  have hvalid : s.toByteArray.IsValidUTF8 := s.isValidUTF8
  rw [textOfBytes, harray, String.fromUTF8?, dif_pos hvalid]
  rfl

/-- A `String`.  The lengths that no machine has are marked by the greatest one. -/
def text : StreamCodec String where
  enc s := if (utf8 s).length < 2 ^ 64 - 1 then Bytes.toLe 8 (utf8 s).length ++ utf8 s
    else Bytes.toLe 8 (2 ^ 64 - 1) ++ StreamCodec.string.enc s
  dec bytes :=
    let len := Bytes.ofLe (bytes.take 8)
    let rest := bytes.drop 8
    if len < 2 ^ 64 - 1 then
      if rest.length < len then none else (textOfBytes (rest.take len)).map fun s => (s,
        rest.drop len)
    else StreamCodec.string.dec rest
  dec_enc s rest := by
    split_ifs with hshort
    · have hlen : (utf8 s).length < 256 ^ 8 := lt_of_lt_of_le hshort (by decide)
      simp only [List.append_assoc, List.take_left' (Bytes.length_toLe _ _),
        List.drop_left' (Bytes.length_toLe _ _), Bytes.ofLe_toLe hlen, hshort, if_true,
        List.take_left, List.drop_left, textOfBytes_utf8, Option.map_some, List.length_append]
      exact if_neg (by omega)
    · have hmark : Bytes.ofLe (Bytes.toLe 8 (2 ^ 64 - 1)) = 2 ^ 64 - 1 :=
        Bytes.ofLe_toLe (by decide)
      simp only [List.append_assoc, List.take_left' (Bytes.length_toLe _ _),
        List.drop_left' (Bytes.length_toLe _ _), hmark, lt_self_iff_false, if_false,
        StreamCodec.dec_enc]

open StreamCodec in
/-- The fields of a header in their order. -/
def envelopeHeader : StreamCodec ArtifactEnvelopeHeader :=
  (prod word32 (prod text (prod text (prod text (prod word64 (prod word64 (prod word64 (prod word64
    (prod array32 (prod word64 (prod array32 array32))))))))))).xmap
    (fun h => (h.version, h.kind, h.codec, h.segmentId, h.generation, h.manifestGeneration,
      h.epochMin, h.epochMax, h.sourceSegmentChecksum, h.payloadLen, h.payloadChecksum,
      h.objectChecksum))
    (fun p => match p with
      | (version, kind, codec, segmentId, generation, manifestGeneration, epochMin, epochMax,
          source, payloadLen, payload, object) =>
        some ⟨version, kind, codec, segmentId, generation, manifestGeneration, epochMin, epochMax,
          source, payloadLen, payload, object⟩)
    (fun _ => rfl)

end Bincode

/-- The reference format. -/
def EnvelopeFormat.reference : EnvelopeFormat where
  checksumBytes := sha256
  serialize header := .ok (Bincode.envelopeHeader.enc header)
  deserialize bytes :=
    match Bincode.envelopeHeader.dec bytes with
    | none => .error "unexpected end of file"
    | some (header, rest) =>
      -- The fields have one spelling only.
      if Bincode.envelopeHeader.enc header ++ rest = bytes
        then .ok header else .error "invalid header"

theorem EnvelopeFormat.lossless_reference : EnvelopeFormat.reference.Lossless where
  deserialize_serialize header := by
    refine ⟨_, rfl, fun rest => ?_⟩
    simp [EnvelopeFormat.reference]
  serialize_deserialize bytes header h := by
    simp only [EnvelopeFormat.reference] at h ⊢
    cases hdec : Bincode.envelopeHeader.dec bytes with
    | none =>
      rw [hdec] at h
      cases h
    | some p =>
      obtain ⟨found, rest⟩ := p
      rw [hdec] at h
      dsimp only at h
      split_ifs at h with hsame
      obtain rfl := Except.ok.inj h
      exact ⟨_, rest, rfl, hsame.symm⟩

/-- A header for a payload of two bytes. -/
def smallHeader : ArtifactEnvelopeHeader :=
  .new .reference "segment" "json" "s1" 1 1 1 1 Digest.zero [0x7b, 0x7d]

/-- The header of a small artifact, sealed, as bytes. -/
def smallHeaderBytes :
    Bytes := Bincode.envelopeHeader.enc (smallHeader.sealed .reference [0x7b, 0x7d])

theorem length_smallHeaderBytes : smallHeaderBytes.length = 177 := by
  have hkind : (Bincode.text.enc "segment").length = 15 := by decide +kernel
  have hcodec : (Bincode.text.enc "json").length = 12 := by decide +kernel
  have hsegment : (Bincode.text.enc "s1").length = 10 := by decide +kernel
  show (Bincode.word32.enc _ ++
    (Bincode.text.enc "segment" ++ (Bincode.text.enc "json" ++ (Bincode.text.enc "s1" ++
    (Bincode.word64.enc _ ++
      (Bincode.word64.enc _ ++ (Bincode.word64.enc _ ++ (Bincode.word64.enc _ ++
    (Bincode.array32.enc _ ++ (Bincode.word64.enc _ ++ (Bincode.array32.enc _ ++
      Bincode.array32.enc _))))))))))).length = _
  simp only [List.length_append, hkind, hcodec, hsegment, Bincode.word32, Bincode.word64,
    Bincode.array32, Bytes.length_toLe, Digest.length_bytes]

/-- The artifact with a byte after its header. -/
def slackArtifact : Bytes :=
  artifactEnvelopeMagic ++
    (Bytes.toLe 4 (smallHeaderBytes ++ [0]).length ++ ((smallHeaderBytes ++ [0]) ++ [0x7b, 0x7d]))

theorem serialize_smallHeader :
    EnvelopeFormat.reference.serialize (smallHeader.sealed .reference [0x7b, 0x7d]) =
      .ok smallHeaderBytes := rfl

theorem smallHeader_fits : smallHeader.Fits .reference [0x7b, 0x7d] :=
  ArtifactEnvelopeHeader.fits_new ..

theorem decode_slackArtifact : decodeArtifactEnvelope .reference slackArtifact =
    .ok ⟨smallHeader.sealed .reference [0x7b, 0x7d], [0x7b, 0x7d]⟩ := by
  refine decodeArtifactEnvelope_slack EnvelopeFormat.lossless_reference smallHeader_fits
    serialize_smallHeader ?_
  rw [List.length_append, length_smallHeaderBytes]
  decide

theorem encode_ne_slackArtifact :
    encodeArtifactEnvelope .reference (smallHeader.sealed .reference [0x7b, 0x7d]) [0x7b, 0x7d] ≠
      .ok slackArtifact := by
  intro hencode
  rw [encodeArtifactEnvelope_eq EnvelopeFormat.lossless_reference smallHeader_fits.sealed
    serialize_smallHeader] at hencode
  have hlength := congrArg List.length (Except.ok.inj hencode)
  rw [slackArtifact] at hlength
  simp only [List.length_append, Bytes.length_toLe, List.length_singleton] at hlength
  omega

/-- A byte after the header is accepted. -/
theorem slackArtifact_accepted :
    ∃ envelope, decodeArtifactEnvelope .reference slackArtifact = .ok envelope ∧
      encodeArtifactEnvelope .reference envelope.header envelope.payload ≠ .ok slackArtifact :=
  ⟨_, decode_slackArtifact, encode_ne_slackArtifact⟩

theorem envelope_codec_small :
    (∃ bytes, encodeArtifactEnvelope .reference smallHeader [0x7b, 0x7d] = .ok bytes ∧
        decodeArtifactEnvelope .reference bytes =
          .ok ⟨smallHeader.sealed .reference [0x7b, 0x7d], [0x7b, 0x7d]⟩) ∧
      ¬ NoSlack .reference slackArtifact := by
  obtain ⟨hback, hbytes⟩ := envelope_codec EnvelopeFormat.lossless_reference
  constructor
  · refine (hback _ _ smallHeader_fits).2 fun headerBytes hheader => ?_
    obtain rfl : smallHeaderBytes = headerBytes := Except.ok.inj hheader
    rw [length_smallHeaderBytes]
    decide
  · exact fun hnoslack => encode_ne_slackArtifact ((hbytes _ _ decode_slackArtifact).2 hnoslack)

end TraceDB
