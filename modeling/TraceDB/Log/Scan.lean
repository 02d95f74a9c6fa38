import Mathlib.Data.List.Forall2
import TraceDB.Log.Recovery

/-!
# What the scanner accepts

`scan_file` checks each frame on its own and that it names the checksum of the frame before it.

* `scanFile_eq_ok_iff` : a file that is scanned to its end is frames with payloads, laid out by
  `layFrames`, from which `Reads` makes the entries.
* `appended_eq_iff` : which entries are made again when their commits are appended to an empty log.
* `scan_accepts` : the frames are chained; whether they are those of a log that only appends have
  written depends on their numbers, their epochs and the spelling of their payloads, which the
  scanner does not check.
-/

namespace TraceDB

variable {F : WalFormat}

/-! ### Frames as bytes -/


/-- A header that is read is the header of its fields. -/
theorem readHeader_ok {prev : Digest} {header : Bytes} {fields : FrameHeader}
    (hlength : header.length = headerLen) (h : readHeader prev header = .ok fields) :
    header = frameHeader fields.lsn prev fields.payloadChecksum fields.payloadLen ∧
      fields.prevChecksum = prev ∧ fields.payloadLen ≤ maxPayloadLen := by
  simp only [readHeader, Except.guard_eq_ok_iff, not_not, not_lt] at h
  obtain ⟨hmagic, hversion, hkind, hprev, hlen, h⟩ := h
  obtain rfl := Except.ok.inj h
  refine ⟨?_, hprev, hlen⟩
  have hend : header.length = 88 := hlength
  have hslice : ∀ {i j}, j ≤ 88 → (Bytes.slice header i j).length = j - i :=
    fun hj => Bytes.length_slice (hend.symm ▸ hj)
  have hint : ∀ w i j, j ≤ 88 → w = j - i →
      Bytes.toLe w (Bytes.ofLe (Bytes.slice header i j)) = Bytes.slice header i j :=
    fun w i j hj hw => Bytes.toLe_ofLe_slice (hend.symm ▸ hj) hw
  have hlsn : Bytes.ofLe (Bytes.slice header 8 16) < 2 ^ 64 := by
    have hlt := Bytes.ofLe_lt (Bytes.slice header 8 16)
    rw [hslice (by decide)] at hlt
    exact hlt
  dsimp only
  rw [frameHeader, ← hmagic, ← hversion, ← hkind, ← hprev, UInt64.toNat_ofNat_of_lt' hlsn,
    Digest.bytes_ofSlice (hslice (by decide)), Digest.bytes_ofSlice (hslice (by decide)),
    hint 4 0 4 (by decide) rfl, hint 4 4 8 (by decide) rfl, hint 8 8 16 (by decide) rfl,
    hint 4 48 52 (by decide) rfl, hint 4 52 56 (by decide) rfl]
  rw [Bytes.slice_append_slice _ (by decide) (by decide),
    Bytes.slice_append_slice _ (by decide) (by decide), Bytes.slice_append_slice _ (by decide)
    (by decide), Bytes.slice_append_slice _ (by decide) (by decide), Bytes.slice_append_slice _
      (by decide) (by decide), Bytes.slice_append_slice _ (by decide) (by decide),
    Bytes.slice_self _ hend.symm]

/-- What a frame holds for the scanner. -/
structure HoldsEntry (F : WalFormat) (prev : Digest) (payload : Bytes) (entry : WalEntry) :
    Prop where
  checksum : entry.checksum = F.checksumBytes payload
  plain : isEncryptedArtifact payload = false
  decode : F.commitCodec.decode payload = some entry.commit
  check : checkCommit entry.lsn prev entry.commit = .ok ()

theorem decodePayload_eq_ok_iff {lsn : Lsn} {prev : Digest} {payload : Bytes} {entry : WalEntry} :
    decodePayload F lsn prev (F.checksumBytes payload) payload = .ok entry ↔
      entry.lsn = lsn ∧ HoldsEntry F prev payload entry := by
  rw [decodePayload, decryptArtifactIfNeeded]
  constructor
  · intro h
    cases hplain : isEncryptedArtifact payload with
    | true =>
      rw [hplain] at h
      cases h
    | false =>
      rw [hplain, if_neg Bool.false_ne_true, Except.ok_bind] at h
      cases hdecode : F.commitCodec.decode payload with
      | none =>
        rw [hdecode] at h
        cases h
      | some commit =>
        simp only [hdecode, Except.bind_eq_ok_iff] at h
        obtain ⟨_, hcheck, hentry⟩ := h
        obtain rfl := Except.ok.inj hentry
        exact ⟨rfl, rfl, hplain, hdecode, hcheck⟩
  · rintro ⟨rfl, hchecksum, hplain, hdecode, hcheck⟩
    simp only [hplain, Bool.false_eq_true, if_false, Except.ok_bind, hdecode, hcheck, ← hchecksum]

/-- A frame is read when its payload is. -/
theorem readFrame_assemble {lsn : Lsn} {prev : Digest} {payload : Bytes}
    (hlen : payload.length ≤ maxPayloadLen) (start : ℕ) (rest : Bytes) :
    readFrame F prev start
      (assembleCommitFrame lsn prev (F.checksumBytes payload) payload ++ rest) =
      (decodePayload F lsn prev (F.checksumBytes payload) payload >>= fun entry =>
        .ok (.frame entry rest)) := by
  have hfooter : (Bytes.toLe 4 commitFooter).length = 4 := Bytes.length_toLe _ _
  have hvalue : Bytes.ofLe (Bytes.toLe 4 commitFooter) = commitFooter := Bytes.ofLe_toLe (by decide)
  rw [assembleCommitFrame, List.append_assoc, List.append_assoc,
    readFrame_header (length_frameHeader _ _ _ _), readHeader_frameHeader _ _ _ hlen,
    Except.ok_bind]
  simp only [readBody, List.take_left, List.drop_left, lt_self_iff_false, if_false, ne_eq,
    not_true_eq_false, List.take_left' hfooter, List.drop_left' hfooter, hfooter, hvalue]

/-- What is read as a frame is the frame of a payload. -/
theorem exists_payload {prev : Digest} {start : ℕ} {file rest : Bytes} {entry : WalEntry}
    (h : readFrame F prev start file = .ok (.frame entry rest)) :
    ∃ payload, payload.length ≤ maxPayloadLen ∧ HoldsEntry F prev payload entry ∧
      file = assembleCommitFrame entry.lsn prev (F.checksumBytes payload) payload ++ rest := by
  rw [readFrame] at h
  split at h
  · cases h
  split at h
  · cases h
  rename_i hlong
  rw [Except.bind_eq_ok_iff] at h
  obtain ⟨fields, hheader, h⟩ := h
  obtain ⟨payload, footer, hbody, hok⟩ := exists_bodyOk h
  have hlength : (file.take headerLen).length = headerLen := by
    rw [List.length_take] at hlong ⊢
    omega
  obtain ⟨hlayout, hprev, hmax⟩ := readHeader_ok hlength hheader
  have hdecode := hok.decode
  rw [← hok.checksum, decodePayload_eq_ok_iff] at hdecode
  obtain ⟨hlsn, hholds⟩ := hdecode
  refine ⟨payload, hok.payloadLen ▸ hmax, hprev ▸ hholds, ?_⟩
  have hfooter : footer = Bytes.toLe 4 commitFooter := by
    rw [← hok.footer, ← hok.footerLen, Bytes.toLe_ofLe]
  rw [assembleCommitFrame, hlsn, hok.payloadLen, hok.checksum, ← hfooter, List.append_assoc,
    List.append_assoc, ← hbody, ← hlayout, List.take_append_drop]

/-! ### Files as frames -/

variable (F)

/-- The frames with these numbers and payloads, each with the checksum of the payload before it. -/
def layFrames : Digest → List (Lsn × Bytes) → Bytes
  | _, [] => []
  | prev, (lsn, payload) :: frames =>
    assembleCommitFrame lsn prev (F.checksumBytes payload) payload ++
      layFrames (F.checksumBytes payload) frames

/-- The entries that the scanner makes of frames. -/
inductive Reads : Digest → List (Lsn × Bytes) → List WalEntry → Prop
  | nil {prev : Digest} : Reads prev [] []
  | cons {prev : Digest} {payload : Bytes} {entry : WalEntry} {frames : List (Lsn × Bytes)}
    {entries : List WalEntry} : HoldsEntry F prev payload entry →
    Reads (F.checksumBytes payload) frames entries →
    Reads prev ((entry.lsn, payload) :: frames) (entry :: entries)

variable {F}

theorem scanLoop_of_read {before : List WalEntry} {start : ℕ} {file rest : Bytes} {entry : WalEntry}
    (h : readFrame F (lastChecksum before) start file = .ok (.frame entry rest)) :
    scanLoop F before start file =
      scanLoop F (before ++ [entry]) (start + (file.length - rest.length)) rest := by
  rw [scanLoop]
  split
  · rename_i hr
    rw [h] at hr
    cases hr
  · rename_i hr
    rw [h] at hr
    cases hr
  · rename_i hr
    rw [h] at hr
    cases hr
  · rename_i hr
    rw [h] at hr
    obtain ⟨rfl, rfl⟩ := FrameRead.frame.inj (Except.ok.inj hr)
    rfl

/-- Scanning frames makes their entries. -/
theorem scanLoop_layFrames {frames : List (Lsn × Bytes)}
    (hsmall : ∀ frame ∈ frames, frame.2.length ≤ maxPayloadLen) (before entries : List WalEntry)
    (start : ℕ) :
    scanLoop F before start (layFrames F (lastChecksum before) frames) = .ok ⟨entries, none⟩ ↔
      ∃ new, entries = before ++ new ∧ Reads F (lastChecksum before) frames new := by
  induction frames generalizing before start with
  | nil =>
    rw [layFrames, scanLoop_nil]
    constructor
    · intro h
      obtain ⟨rfl, -⟩ := WalScan.mk.inj (Except.ok.inj h)
      exact ⟨[], by rw [List.append_nil], .nil⟩
    · rintro ⟨_, rfl, ⟨⟩⟩
      rw [List.append_nil]
  | cons frame frames ih =>
    obtain ⟨lsn, payload⟩ := frame
    obtain ⟨hlen, hrest⟩ := List.forall_mem_cons.1 hsmall
    have hread : readFrame F (lastChecksum before) start
        (layFrames F (lastChecksum before) ((lsn, payload) :: frames)) = _ :=
          readFrame_assemble hlen start _
    constructor
    · intro h
      rw [scanLoop] at h
      split at h
      · cases h
      · rename_i hr
        rw [hread, Except.bind_eq_ok_iff] at hr
        obtain ⟨_, -, hframe⟩ := hr
        cases hframe
      · rename_i hr
        rw [hread, Except.bind_eq_ok_iff] at hr
        obtain ⟨_, -, hframe⟩ := hr
        cases hframe
      · rename_i entry rest hr
        rw [hread, Except.bind_eq_ok_iff] at hr
        obtain ⟨_, hdecode, hframe⟩ := hr
        obtain ⟨rfl, rfl⟩ := FrameRead.frame.inj (Except.ok.inj hframe)
        obtain ⟨rfl, hholds⟩ := decodePayload_eq_ok_iff.1 hdecode
        rw [← hholds.checksum, ← lastChecksum_append_singleton before] at h
        obtain ⟨new, rfl, hnew⟩ := (ih hrest _ _).1 h
        rw [lastChecksum_append_singleton, hholds.checksum] at hnew
        exact ⟨_, by rw [List.append_assoc]; rfl, .cons hholds hnew⟩
    · rintro ⟨_, rfl, _ | ⟨hholds, hnew⟩⟩
      rename_i entry new
      rw [decodePayload_eq_ok_iff.2 ⟨rfl, hholds⟩, Except.ok_bind] at hread
      rw [scanLoop_of_read hread, ← hholds.checksum, ← lastChecksum_append_singleton before]
      refine (ih hrest _ _).2 ⟨new, by rw [List.append_assoc]; rfl, ?_⟩
      rwa [lastChecksum_append_singleton, hholds.checksum]

/-- A file that is scanned to its end consists of frames. -/
theorem exists_layFrames {before entries : List WalEntry} {start : ℕ} {file : Bytes}
    (h : scanLoop F before start file = .ok ⟨entries, none⟩) :
    ∃ frames, (∀ frame ∈ frames, frame.2.length ≤ maxPayloadLen) ∧
      file = layFrames F (lastChecksum before) frames := by
  -- Induction on what is left of the file, as the loop goes.
  induction hn : file.length using Nat.strong_induction_on generalizing before start file with
  | _ n ih =>
    rw [scanLoop] at h
    split at h
    · cases h
    · rename_i hr
      exact ⟨[], List.forall_mem_nil _, eq_nil_of_readFrame hr⟩
    · cases h
    · rename_i entry rest hr
      have hlt := length_lt_of_readFrame hr
      obtain ⟨payload, hlen, hholds, rfl⟩ := exists_payload hr
      obtain ⟨frames, hsmall, rfl⟩ := ih _ (hn ▸ hlt) h rfl
      rw [lastChecksum_append_singleton, hholds.checksum]
      exact ⟨(entry.lsn, payload) :: frames, List.forall_mem_cons.2 ⟨hlen, hsmall⟩, rfl⟩

/-- **The files that are scanned to their end** are frames, each with the checksum of the payload
before it, that hold entries. -/
theorem scanFile_eq_ok_iff {file : Bytes} {entries : List WalEntry} :
    scanFile F file = .ok ⟨entries, none⟩ ↔
      ∃ frames, (∀ frame ∈ frames, frame.2.length ≤ maxPayloadLen) ∧
      file = layFrames F Digest.zero frames ∧ Reads F Digest.zero frames entries := by
  constructor
  · intro h
    obtain ⟨frames, hsmall, rfl⟩ := exists_layFrames h
    obtain ⟨_, rfl, hreads⟩ := (scanLoop_layFrames hsmall [] entries 0).1 h
    exact ⟨frames, hsmall, rfl, hreads⟩
  · rintro ⟨frames, hsmall, rfl, hreads⟩
    exact (scanLoop_layFrames hsmall [] entries 0).2 ⟨entries, rfl, hreads⟩

/-! ### Appending the entries again -/

variable (F)

/-- The entries after commits have been appended to a log that works. -/
def appended (entries : List WalEntry) (commits : List CommitRecord) : List WalEntry :=
  commits.foldl (fun entries commit =>
    if Fits F entries commit then entries ++ [nextEntry F entries commit] else entries) entries

variable {F}

/-- Appending keeps the invariant and adds the commits that fit. -/
theorem Log.Inv.append_all [F.Lossless] {log : Log} {entries : List WalEntry}
    (h : Log.Inv F log entries log.file []) {commits : List CommitRecord}
    (hc : ∀ commit ∈ commits, commit.Engine) :
    ∃ final, (log.runCalls F (commits.map (·, .ok))).1 = final ∧
      Log.Inv F final (appended F entries commits) final.file [] := by
  induction commits generalizing log entries with
  | nil => exact ⟨log, rfl, h⟩
  | cons commit commits ih =>
    obtain ⟨hcommit, hc⟩ := List.forall_mem_cons.1 hc
    rw [List.map_cons, appended, List.foldl_cons]
    by_cases hfit : Fits F entries commit
    · have happend := h.appendCommit_ok hfit
      rw [if_pos hfit]
      rw [Log.runCalls_ok happend]
      refine ih ⟨?_, .inl rfl, (List.append_nil _).symm, fun _ => rfl⟩ hc
      exact h.chain.snoc (isFrame_nextFrame hcommit hfit (readBack entries commit))
    · obtain ⟨e, log', happend, hfile, hinv⟩ := h.appendCommit_large hfit .ok
      rw [if_neg hfit, Log.runCalls_error happend]
      rw [← hfile] at hinv
      exact ih hinv hc

theorem length_appended_le (entries : List WalEntry) (commits : List CommitRecord) :
    (appended F entries commits).length ≤ entries.length + commits.length := by
  induction commits generalizing entries with
  | nil => exact le_rfl
  | cons commit commits ih =>
    rw [appended, List.foldl_cons, List.length_cons]
    refine (ih _).trans ?_
    split_ifs with hfit
    · rw [List.length_append, List.length_singleton]
      omega
    · omega

theorem prefix_appended (entries : List WalEntry) (commits : List CommitRecord) :
    entries <+: appended F entries commits := by
  induction commits generalizing entries with
  | nil => exact List.prefix_refl _
  | cons commit commits ih =>
    rw [appended, List.foldl_cons]
    refine List.IsPrefix.trans ?_ (ih _)
    split_ifs with hfit
    · exact List.prefix_append _ _
    · exact List.prefix_refl _

/-- Commits that are all appended give an entry each, the next one. -/
theorem appended_cons_eq_iff {entries rest : List WalEntry} {entry : WalEntry} :
    appended F entries ((entry :: rest).map (·.commit)) = entries ++ entry :: rest ↔
      (Fits F entries entry.commit ∧ nextEntry F entries entry.commit = entry) ∧
        appended F (entries ++ [entry]) (rest.map (·.commit)) = (entries ++ [entry]) ++ rest := by
  rw [List.map_cons, appended, List.foldl_cons, ← appended]
  constructor
  · intro h
    have hlength := congrArg List.length h
    by_cases hfit : Fits F entries entry.commit
    · rw [if_pos hfit] at h
      obtain ⟨new, hnew⟩ := prefix_appended (F := F) (entries ++ [nextEntry F entries entry.commit])
        (rest.map (·.commit))
      have hnext : nextEntry F entries entry.commit = entry := by
        rw [← hnew, List.append_assoc] at h
        exact (List.cons.inj (List.append_cancel_left h)).1
      rw [hnext] at h
      refine ⟨⟨hfit, hnext⟩, ?_⟩
      rw [h, List.append_assoc]
      rfl
    · have hle := length_appended_le (F := F) entries (rest.map (·.commit))
      rw [if_neg hfit] at hlength
      rw [hlength, List.length_append, List.length_cons, List.length_map] at hle
      omega
  · rintro ⟨⟨hfit, hnext⟩, hrest⟩
    rw [if_pos hfit, hnext, hrest, List.append_assoc]
    rfl

/-! ### What a scan tells -/

variable (F)

/-- The payloads, numbered from 1. -/
def numbered (payloads : List Bytes) : List (Lsn × Bytes) :=
  payloads.mapIdx fun i payload => (UInt64.ofNat (i + 1), payload)

/-- The payload is a text of the commit, with the checksum of the text that the serializer
writes. -/
structure Spells (payload : Bytes) (commit : CommitRecord) : Prop where
  decode : F.commitCodec.decode payload = some commit
  fits : (F.commitCodec.encode commit).length ≤ maxPayloadLen
  checksum : F.checksumBytes (F.commitCodec.encode commit) = F.checksumBytes payload

/-- The file is laid out as appends lay out commits with increasing epochs. -/
def LaidByAppends (file : Bytes) : Prop :=
  ∃ payloads commits, payloads.length < 2 ^ 64 ∧
    (∀ payload ∈ payloads, payload.length ≤ maxPayloadLen) ∧
    file = layFrames F Digest.zero (numbered payloads) ∧ List.Forall₂ (Spells F) payloads commits ∧
    commits.Pairwise fun before after => before.epoch < after.epoch

/-- The file is the frames of the entries, and each frame and each commit names the checksum of the
frame before it. -/
def Framed (file : Bytes) (entries : List WalEntry) : Prop :=
  ∃ frames, file = layFrames F Digest.zero frames ∧ Reads F Digest.zero frames entries

/-- The entries are those of a log that only appends have written. -/
structure AppendLaw (entries : List WalEntry) : Prop where
  numbered : ∀ i entry, entries[i]? = some entry → entry.lsn.toNat = i + 1
  epochs : entries.Pairwise fun before after => before.commit.epoch < after.commit.epoch
  again : ∃ log, Log.open F none = .ok log ∧
    scanFile F (log.runCalls F (entries.map fun entry => (entry.commit, .ok))).1.file =
      .ok ⟨entries, none⟩

variable {F}

theorem HoldsEntry.engine {prev : Digest} {payload : Bytes} {entry : WalEntry}
    (h : HoldsEntry F prev payload entry) :
    entry.commit.Engine ∧ entry.commit.previousCommitHash = prev := by
  have hcheck := h.check
  simp only [checkCommit, Except.guard_eq_ok_iff, not_or, not_not, not_le, ge_iff_le] at hcheck
  obtain ⟨hmarker, ⟨hepoch, hparent⟩, hprev, -⟩ := hcheck
  exact ⟨⟨hmarker, Nat.pos_of_ne_zero hepoch, hparent⟩, hprev⟩

theorem Reads.forall₂ {prev : Digest} {frames : List (Lsn × Bytes)} {entries : List WalEntry}
    (h : Reads F prev frames entries) :
    List.Forall₂ (fun frame entry => frame.1 = entry.lsn ∧
      F.commitCodec.decode frame.2 = some entry.commit) frames entries := by
  induction h with
  | nil => exact .nil
  | cons hholds _ ih => exact .cons ⟨rfl, hholds.decode⟩ ih

theorem Reads.engine {prev : Digest} {frames : List (Lsn × Bytes)} {entries : List WalEntry}
    (h : Reads F prev frames entries) : ∀ commit ∈ entries.map (·.commit), commit.Engine := by
  induction h with
  | nil => exact List.forall_mem_nil _
  | cons hholds _ ih => exact List.forall_mem_cons.2 ⟨hholds.engine.1, ih⟩

theorem framePayload_self {commit : CommitRecord} {prev : Digest}
    (h : commit.previousCommitHash = prev) :
    framePayload F commit prev = F.commitCodec.encode commit := by
  rw [framePayload, CommitRecord.prepareForFrame, ← h]

/-- The number of the next frame. -/
theorem nextLsn_of_numbered {before : List WalEntry} {entry : WalEntry}
    (hnumbered : ∀ i e, (before ++ [entry])[i]? = some e → e.lsn.toNat = i + 1) :
    nextLsn (before.getLast?.map (·.lsn)) = entry.lsn := by
  have hentry : entry.lsn.toNat = before.length + 1 := hnumbered _ _ (by simp)
  have hbound := entry.lsn.toNat_lt
  refine UInt64.toNat_inj.1 ?_
  rcases List.eq_nil_or_concat before with rfl | ⟨before, last, rfl⟩
  · rw [hentry]
    rfl
  · rw [List.concat_eq_append] at hentry hnumbered ⊢
    have hlast : last.lsn.toNat = before.length + 1 := hnumbered _ _ (by simp)
    rw [List.length_append, List.length_singleton] at hentry
    have hnext : nextLsn ((before ++ [last]).getLast?.map (·.lsn)) = last.lsn + 1 := by
      simp [nextLsn]
    rw [hnext, UInt64.toNat_add, hlast, hentry]
    have hone : (1 : UInt64).toNat = 1 := rfl
    omega

/-- Entries with consecutive numbers are all appended again when their payloads spell them. -/
theorem appended_eq_iff (before : List WalEntry) {entries : List WalEntry}
    {frames : List (Lsn × Bytes)} (hreads : Reads F (lastChecksum before) frames entries)
    (hnumbered : ∀ i entry, (before ++ entries)[i]? = some entry → entry.lsn.toNat = i + 1) :
    appended F before (entries.map (·.commit)) = before ++ entries ↔
      List.Forall₂ (fun frame entry => Spells F frame.2 entry.commit) frames entries := by
  induction entries generalizing before frames with
  | nil =>
    cases hreads
    exact iff_of_true (List.append_nil _).symm .nil
  | cons entry entries ih =>
    obtain _ | ⟨hholds, hrest⟩ := hreads
    rename_i payload frames
    have hpayload := framePayload_self (F := F) hholds.engine.2
    have hlsn : nextLsn (before.getLast?.map (·.lsn)) = entry.lsn := by
      refine nextLsn_of_numbered fun i e he => hnumbered i e ?_
      have hlt := (List.getElem?_eq_some_iff.1 he).1
      rw [List.append_cons, List.getElem?_append_left hlt, he]
    have hnext : nextEntry F before entry.commit = entry ↔
        F.checksumBytes (F.commitCodec.encode entry.commit) = F.checksumBytes payload := by
      have hentry : nextEntry F before entry.commit =
          ⟨entry.lsn, F.checksumBytes (F.commitCodec.encode entry.commit), entry.commit⟩ := by
        rw [nextEntry, entryOf, hpayload, hlsn, CommitRecord.prepareForFrame, ← hholds.engine.2]
      rw [hentry, ← hholds.checksum]
      constructor
      · exact fun heq => congrArg WalEntry.checksum heq
      · exact fun heq => by rw [heq]
    rw [← hholds.checksum, ← lastChecksum_append_singleton before] at hrest
    have htail := ih (before ++ [entry]) hrest (by rwa [List.append_assoc])
    rw [appended_cons_eq_iff, List.forall₂_cons, Fits, hpayload, hnext, htail]
    refine and_congr_left fun _ => ⟨?_, fun hspells => ⟨hspells.fits, hspells.checksum⟩⟩
    exact fun ⟨hfits, hchecksum⟩ => ⟨hholds.decode, hfits, hchecksum⟩

theorem getElem?_numbered (payloads : List Bytes) (i : ℕ) :
    (numbered payloads)[i]? = payloads[i]?.map fun payload => (UInt64.ofNat (i + 1), payload) := by
  rw [numbered, List.getElem?_mapIdx]

theorem Reads.getElem?_lsn {prev : Digest} {frames : List (Lsn × Bytes)} {entries : List WalEntry}
    (h : Reads F prev frames entries) (i : ℕ) :
      frames[i]?.map Prod.fst = entries[i]?.map (·.lsn) := by
  induction h generalizing i with
  | nil => rfl
  | cons _ _ ih =>
    cases i with
    | zero => rfl
    | succ i => exact ih i

/-- The frames of entries with consecutive numbers. -/
theorem Reads.eq_numbered_iff {frames : List (Lsn × Bytes)} {entries : List WalEntry}
    {prev : Digest} (h : Reads F prev frames entries) :
    (∀ i entry, entries[i]? = some entry → entry.lsn.toNat = i + 1) ↔
      frames.length < 2 ^ 64 ∧ frames = numbered (frames.map Prod.snd) := by
  have hframe : ∀ (i : ℕ) (frame : Lsn × Bytes), frames[i]? = some frame →
      ∃ entry, entries[i]? = some entry ∧ entry.lsn = frame.1 := by
    intro i frame hget
    have hlsn := h.getElem?_lsn i
    rw [hget, Option.map_some, eq_comm, Option.map_eq_some_iff] at hlsn
    exact hlsn
  constructor
  · intro hnumbered
    constructor
    · rcases List.eq_nil_or_concat frames with rfl | ⟨frames, last, rfl⟩
      · decide
      · rw [List.concat_eq_append] at hframe ⊢
        obtain ⟨entry, hget, -⟩ := hframe frames.length last (by simp)
        have hlsn := hnumbered _ _ hget
        have hbound := entry.lsn.toNat_lt
        rw [List.length_append, List.length_singleton]
        omega
    · refine List.ext_getElem? fun i => ?_
      rw [getElem?_numbered, List.getElem?_map]
      cases hget : frames[i]? with
      | none => rfl
      | some frame =>
        obtain ⟨entry, hentry, hlsn⟩ := hframe i frame hget
        have hnumber : frame.1 = UInt64.ofNat (i + 1) := by
          rw [← hnumbered i entry hentry, hlsn, UInt64.ofNat_toNat]
        exact congrArg some (Prod.ext hnumber rfl)
  · rintro ⟨hlength, hframes⟩ i entry hentry
    have hlsn := h.getElem?_lsn i
    rw [hframes, getElem?_numbered, hentry, List.getElem?_map] at hlsn
    cases hget : frames[i]? with
    | none =>
      rw [hget] at hlsn
      cases hlsn
    | some frame =>
      rw [hget] at hlsn
      have hlt := (List.getElem?_eq_some_iff.1 hget).1
      have hnumber : UInt64.ofNat (i + 1) = entry.lsn := Option.some.inj hlsn
      have hsize : i + 1 < 2 ^ 64 := by omega
      rw [← hnumber, UInt64.toNat_ofNat_of_lt' hsize]

theorem map_snd_numbered (payloads : List Bytes) : (numbered payloads).map Prod.snd = payloads := by
  refine List.ext_getElem? fun i => ?_
  rw [List.getElem?_map, getElem?_numbered]
  cases payloads[i]? <;> rfl

/-- The commits that are appended to an empty log. -/
theorem again_iff [F.Lossless] {frames : List (Lsn × Bytes)} {entries : List WalEntry}
    (hreads : Reads F Digest.zero frames entries) :
    (∃ log, Log.open F none = .ok log ∧
      scanFile F (log.runCalls F (entries.map fun entry => (entry.commit, .ok))).1.file =
        .ok ⟨entries, none⟩) ↔ appended F [] (entries.map (·.commit)) = entries := by
  have hstart : Log.Inv F ⟨tailFromScan 0 [], none, []⟩ [] [] [] := inv_of_chain .nil none
  obtain ⟨final, hfinal, hinv⟩ := hstart.append_all hreads.engine
  have hscan := hinv.chain.scanFile
  rw [← hfinal, List.map_map] at hscan
  constructor
  · rintro ⟨log, hlog, hagain⟩
    rw [open_none] at hlog
    obtain rfl := Except.ok.inj hlog
    exact congrArg WalScan.entries (Except.ok.inj (hscan.symm.trans hagain))
  · intro hall
    rw [hall] at hscan
    exact ⟨_, open_none, hscan⟩

theorem mem_numbered {payloads : List Bytes} {frame : Lsn × Bytes} (h : frame ∈ numbered payloads) :
    frame.2 ∈ payloads := by
  rw [← map_snd_numbered payloads]
  exact List.mem_map_of_mem h

/-- **What the scanner accepts**: frames that are chained by their checksums.  They are those of a
log that appends have written just when they are numbered from 1, their commits have increasing
epochs, and their payloads have the checksums of the commits as the serializer writes them. -/
theorem scan_accepts [F.Lossless] {file : Bytes} {entries : List WalEntry}
    (h : scanFile F file = .ok ⟨entries, none⟩) :
    Framed F file entries ∧ (AppendLaw F entries ↔ LaidByAppends F file) := by
  obtain ⟨frames, hsmall, hfile, hreads⟩ := scanFile_eq_ok_iff.1 h
  refine ⟨⟨frames, hfile, hreads⟩, ?_⟩
  constructor
  · rintro ⟨hnumbered, hepochs, hagain⟩
    obtain ⟨hlength, hframes⟩ := hreads.eq_numbered_iff.1 hnumbered
    rw [again_iff hreads] at hagain
    have hspells := (appended_eq_iff [] hreads hnumbered).1 hagain
    refine ⟨frames.map Prod.snd, entries.map (·.commit),
      by rwa [List.length_map], ?_, by rwa [← hframes], ?_, List.pairwise_map.2 hepochs⟩
    · exact List.forall_mem_map.2 hsmall
    · rwa [List.forall₂_map_left_iff, List.forall₂_map_right_iff]
  · rintro ⟨payloads, commits, hlength, hsmall, rfl, hspells, hepochs⟩
    have hsmallFrames : ∀ frame ∈ numbered payloads, frame.2.length ≤ maxPayloadLen :=
      fun frame hframe => hsmall frame.2 (mem_numbered hframe)
    obtain ⟨new, hnew, hreads⟩ := (scanLoop_layFrames hsmallFrames [] entries 0).1 h
    obtain rfl : entries = new := hnew
    have hnumbered : ∀ i entry, entries[i]? = some entry → entry.lsn.toNat = i + 1 := by
      refine hreads.eq_numbered_iff.2 ⟨?_, ?_⟩
      · rw [← map_snd_numbered payloads, List.length_map] at hlength
        exact hlength
      · rw [map_snd_numbered]
    have hcommits : entries.map (·.commit) = commits := by
      have hread : payloads.map F.commitCodec.decode = (entries.map (·.commit)).map some := by
        rw [← map_snd_numbered payloads, List.map_map, List.map_map, ← List.forall₂_eq_eq_eq,
          List.forall₂_map_left_iff, List.forall₂_map_right_iff]
        exact hreads.forall₂.imp fun _ _ h => h.2
      have hspelled : payloads.map F.commitCodec.decode = commits.map some := by
        rw [← List.forall₂_eq_eq_eq, List.forall₂_map_left_iff, List.forall₂_map_right_iff]
        exact hspells.imp fun _ _ h => h.decode
      exact List.map_injective_iff.2 (Option.some_injective _) (hread.symm.trans hspelled)
    refine ⟨hnumbered, ?_, ?_⟩
    · rw [← hcommits, List.pairwise_map] at hepochs
      exact hepochs
    · refine (again_iff hreads).2 ((appended_eq_iff [] hreads hnumbered).2 ?_)
      rw [← hcommits, ← map_snd_numbered payloads, List.forall₂_map_left_iff,
        List.forall₂_map_right_iff] at hspells
      exact hspells

/-- The file of one frame with the smallest commit. -/
theorem scanFile_smallest (lsn : Lsn) :
    scanFile .reference (frameOf .reference (.empty 1 1) lsn Digest.zero) =
      .ok ⟨[entryOf .reference (.empty 1 1) lsn Digest.zero], none⟩ :=
  (Chain.nil.snoc (isFrame_frameOf (engine_empty Nat.one_pos) lsn fits_empty_one
    (readBack [] _))).scanFile

/-- A log with one commit. -/
theorem scan_accepts_smallest :
    AppendLaw .reference [entryOf .reference (.empty 1 1) 1 Digest.zero] := by
  refine (scan_accepts (scanFile_smallest 1)).2.2 ?_
  refine ⟨[framePayload .reference (.empty 1 1) Digest.zero], [.empty 1 1], by decide,
    List.forall_mem_singleton.2 fits_empty_one, ?_, .cons ⟨?_, fits_empty_one, rfl⟩ .nil,
    List.pairwise_singleton _ _⟩
  · exact (List.append_nil _).symm
  · exact StreamCodec.readsBack_toJson _ _

/-- **A frame with any number is accepted**: the only frame of the file is numbered 7. -/
theorem misnumbered_frame :
    ¬ ∀ file entries, scanFile .reference file = .ok ⟨entries, none⟩ →
      Framed .reference file entries ∧ AppendLaw .reference entries := by
  intro hlaw
  obtain ⟨-, hlaw⟩ := hlaw _ _ (scanFile_smallest 7)
  have hlsn := hlaw.numbered 0 _ rfl
  exact absurd hlsn (by decide)

end TraceDB
