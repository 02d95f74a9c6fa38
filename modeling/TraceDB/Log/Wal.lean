import TraceDB.Log.Frame

/-!
# The write-ahead log

`tracedb-log`: scanning a log file, opening it, and appending commits through a handle that caches
the tail of the file.

* `scanFile` is the loop of `scan_file`; `Log.open` truncates a torn tail; `Log.appendCommit`
  rescans when the file length is not the cached one and appends one frame.  How the I/O of a call
  went is an input, `AppendIo`.
* `Chain F entries file` : `file` is the concatenation of the frames of `entries`.  Scanning a chain
  followed by anything continues after the chain (`Chain.scanLoop_append`), and every scan that
  succeeds has found a chain (`exists_chain`).
-/

namespace TraceDB

/-- `WalScan`. -/
structure WalScan where
  entries : List WalEntry
  tornTail : Option TornWalTail
  deriving DecidableEq

/-- `WalTail`. -/
structure WalTail where
  lastLsn : Option Lsn
  lastEpoch : Option Epoch
  lastChecksum : Digest
  fileLen : ℕ
  deriving DecidableEq

/-- The checksum the next frame has to name: that of the last entry, or zero. -/
def lastChecksum (entries : List WalEntry) : Digest :=
  (entries.getLast?.map (·.checksum)).getD Digest.zero

/-- The sequence number of the next frame. -/
def nextLsn (lastLsn : Option Lsn) : Lsn :=
  match lastLsn with
  | some lsn => lsn + 1
  | none => 1

variable (F : WalFormat)

/-- The loop of `scan_file`, with the entries found so far. -/
def scanLoop (entries : List WalEntry) (offset : ℕ) (file : Bytes) : Result WalScan :=
  match _h : readFrame F (lastChecksum entries) offset file with
  | .error e => .error e
  | .ok .eof => .ok ⟨entries, none⟩
  | .ok (.torn tail) => .ok ⟨entries, some tail⟩
  | .ok (.frame entry rest) =>
    scanLoop (entries ++ [entry]) (offset + (file.length - rest.length)) rest
termination_by file.length
decreasing_by exact length_lt_of_readFrame _h

/-- `scan_file`. -/
def scanFile (file : Bytes) : Result WalScan := scanLoop F [] 0 file

/-- `tail_from_scan`. -/
def tailFromScan (fileLen : ℕ) (entries : List WalEntry) : WalTail where
  lastLsn := entries.getLast?.map (·.lsn)
  lastEpoch := entries.getLast?.map (·.commit.epoch)
  lastChecksum := lastChecksum entries
  fileLen := fileLen

/-- `truncate_torn_tail_if_present`: the file afterwards. -/
def truncateTornTail (file : Bytes) (scan : WalScan) : Bytes :=
  match scan.tornTail with
  | none => file
  | some torn => file.take torn.offset

/-- `Wal`, together with the file it was opened on. -/
structure Log where
  tail : WalTail
  recoveryTornTail : Option TornWalTail
  file : Bytes
  deriving DecidableEq

/-- How the I/O of one `append_commit` goes: everything works; the lock or the metadata cannot be
had; or the write fails after `n` bytes of the frame reached the file (`sync_data` failing after the
whole frame is the case of a large `n`). -/
inductive AppendIo where
  | ok
  | blocked
  | failed (n : ℕ)
  deriving DecidableEq

/-- The call lets at least one byte through. -/
def AppendIo.writes : AppendIo → Bool
  | .ok => true
  | .blocked => false
  | .failed n => decide (0 < n)

namespace Log

/-- `Wal::open`; a missing file is created empty. -/
def «open» (file : Option Bytes) : Result Log := do
  let file := file.getD []
  let scan ← scanFile F file
  let file := truncateTornTail file scan
  .ok ⟨tailFromScan file.length scan.entries, scan.tornTail, file⟩

/-- `Wal::scan_with_metadata`. -/
def scanWithMetadata (log : Log) : Result WalScan := do
  let scan ← scanFile F log.file
  .ok { scan with tornTail := scan.tornTail.or log.recoveryTornTail }

/-- The refresh of the cached tail when the file length is not the cached one. -/
def refreshTail (log : Log) : Result Log :=
  if log.file.length ≠ log.tail.fileLen then do
    let scan ← scanFile F log.file
    .ok { log with tail := tailFromScan log.file.length scan.entries }
  else .ok log

/-- `Wal::last_commit_epoch`. -/
def lastCommitEpoch (log : Log) : Result (Option Epoch × Log) := do
  let log ← log.refreshTail F
  .ok (log.tail.lastEpoch, log)

/-- `build_commit_frame_with_encryption` without encryption: the frame, after
`check_payload_len`. -/
def buildCommitFrame (commit : CommitRecord) (lsn : Lsn) (previousChecksum : Digest) :
    Result Bytes :=
  let payload := framePayload F commit previousChecksum
  if payload.length > maxPayloadLen then
    .error (.walCorruption
      s!"payload length {payload.length} exceeds max {maxPayloadLen} at lsn {lsn.toNat}")
  else .ok (frameOf F commit lsn previousChecksum)

/-- The part of `Wal::append_commit` after the tail has been refreshed. -/
def appendFrame (log : Log) (io : AppendIo) (commit : CommitRecord) : Result Lsn × Log :=
  let lsn := nextLsn log.tail.lastLsn
  let prevChecksum := log.tail.lastChecksum
  match buildCommitFrame F commit lsn prevChecksum with
  | .error e => (.error e, log)
  | .ok frame =>
    match io with
    | .failed n => (.error (.io .other "write failed"),
        { log with file := log.file ++ frame.take n })
    | _ =>
      (.ok lsn,
        { log with
          tail :=
            { lastLsn := some lsn
              lastEpoch := some commit.epoch
              lastChecksum := F.checksumBytes (framePayload F commit prevChecksum)
              fileLen := log.tail.fileLen + frame.length }
          file := log.file ++ frame })

/-- `Wal::append_commit`. -/
def appendCommit (log : Log) (io : AppendIo) (commit : CommitRecord) : Result Lsn × Log :=
  match io with
  | .blocked => (.error (.io .other "WAL lock contention"), log)
  | _ =>
    match log.refreshTail F with
    | .error e => (.error e, log)
    | .ok log => log.appendFrame F io commit

/-- A sequence of `append_commit` calls on one handle: the handle at the end, and the commits whose
call returned `Ok`, each with the length of the file at its return. -/
def runCalls (log : Log) : List (CommitRecord × AppendIo) → Log × List (CommitRecord × ℕ)
  | [] => (log, [])
  | (commit, io) :: calls =>
    match log.appendCommit F io commit with
    | (.ok _, log') =>
      let (final, acked) := log'.runCalls calls
      (final, (commit, log'.file.length) :: acked)
    | (.error _, log') => log'.runCalls calls

end Log

variable {F}

/-! ### Chains -/

/-- `file` is the concatenation of the frames of `entries`. -/
inductive Chain (F : WalFormat) : List WalEntry → Bytes → Prop
  | nil : Chain F [] []
  | snoc {entries : List WalEntry} {file frame : Bytes} {entry : WalEntry} :
    Chain F entries file → IsFrame F (lastChecksum entries) frame entry →
      Chain F (entries ++ [entry]) (file ++ frame)

@[simp] theorem lastChecksum_nil : lastChecksum [] = Digest.zero := rfl

@[simp] theorem lastChecksum_append_singleton (entries : List WalEntry) (e : WalEntry) :
    lastChecksum (entries ++ [e]) = e.checksum := by
  simp [lastChecksum]

/-- One round of the loop at a frame. -/
theorem scanLoop_frame {entries : List WalEntry} {frame : Bytes} {entry : WalEntry}
    (h : IsFrame F (lastChecksum entries) frame entry) (offset : ℕ) (rest : Bytes) :
    scanLoop F entries offset (frame ++ rest) =
      scanLoop F (entries ++ [entry]) (offset + frame.length) rest := by
  rw [scanLoop]
  split
  · rename_i hr; rw [h.read] at hr; cases hr
  · rename_i hr; rw [h.read] at hr; cases hr
  · rename_i hr; rw [h.read] at hr; cases hr
  · rename_i hr
    rw [h.read] at hr
    obtain ⟨rfl, rfl⟩ := FrameRead.frame.inj (Except.ok.inj hr)
    rw [List.length_append, Nat.add_sub_cancel]

theorem scanLoop_nil (entries : List WalEntry) (offset : ℕ) :
    scanLoop F entries offset [] = .ok ⟨entries, none⟩ := by
  rw [scanLoop]
  split <;> rename_i hr <;> rw [readFrame_nil] at hr <;> cases hr

theorem scanLoop_torn {entries : List WalEntry} {offset : ℕ} {file : Bytes} {t : TornWalTail}
    (h : readFrame F (lastChecksum entries) offset file = .ok (.torn t)) :
    scanLoop F entries offset file = .ok ⟨entries, some t⟩ := by
  rw [scanLoop]
  split <;> rename_i hr <;> rw [h] at hr <;> cases hr
  rfl

theorem Chain.scanLoop_append {entries : List WalEntry} {file : Bytes} (h : Chain F entries file)
    (rest : Bytes) : scanFile F (file ++ rest) = scanLoop F entries file.length rest := by
  induction h generalizing rest with
  | nil => rfl
  | @snoc entries file frame entry hchain hframe ih =>
    rw [List.append_assoc, ih, scanLoop_frame hframe, List.length_append]

/-- A chain scans to its entries. -/
theorem Chain.scanFile {entries : List WalEntry} {file : Bytes} (h : Chain F entries file) :
    scanFile F file = .ok ⟨entries, none⟩ := by
  have := h.scanLoop_append []
  rwa [List.append_nil, scanLoop_nil] at this

/-- What may stand after the frames of a chain: nothing, or a proper part of a frame. -/
def IsCut (F : WalFormat) (entries : List WalEntry) (cut : Bytes) : Prop :=
  cut = [] ∨ ∃ frame entry, IsFrame F (lastChecksum entries) frame entry ∧ cut <+: frame ∧
    cut ≠ [] ∧ cut.length < frame.length

/-- A prefix of a frame is a cut, or the frame. -/
theorem IsFrame.isCut_or_eq {entries : List WalEntry} {frame cut : Bytes} {entry : WalEntry}
    (h : IsFrame F (lastChecksum entries) frame entry) (hpre : cut <+: frame) :
    IsCut F entries cut ∨ cut = frame := by
  by_cases hnil : cut = []
  · exact .inl (.inl hnil)
  · by_cases hlt : cut.length < frame.length
    · exact .inl (.inr ⟨frame, entry, h, hpre, hnil, hlt⟩)
    · exact .inr (hpre.eq_of_length_le (not_lt.1 hlt))

/-- A chain with a cut after it scans to the entries of the chain; the torn tail starts where the
chain ends. -/
theorem Chain.scanFile_cut {entries : List WalEntry} {file cut : Bytes} (h : Chain F entries file)
    (hcut : IsCut F entries cut) :
    ∃ torn, TraceDB.scanFile F (file ++ cut) = .ok ⟨entries, torn⟩ ∧
      (torn = none ↔ cut = []) ∧ ∀ t ∈ torn, t.offset = file.length := by
  rcases hcut with rfl | ⟨frame, entry, hframe, hpre, hne, hlt⟩
  · refine ⟨none, ?_, by simp, by simp⟩
    rw [List.append_nil, h.scanFile]
  · obtain ⟨t, ht, hoffset⟩ := hframe.torn file.length cut hpre hne hlt
    refine ⟨some t, ?_, by simp [hne], by simpa using hoffset⟩
    rw [h.scanLoop_append, scanLoop_torn ht]

theorem offset_of_readFrame {prev : Digest} {start : ℕ} {file : Bytes} {t : TornWalTail}
    (h : readFrame F prev start file = .ok (.torn t)) : t.offset = start := by
  unfold readFrame at h
  dsimp only at h
  split at h
  · cases h
  split at h
  · obtain rfl := FrameRead.torn.inj (Except.ok.inj h)
    rfl
  rw [Except.bind_eq_ok_iff] at h
  obtain ⟨fields, -, h⟩ := h
  unfold readBody at h
  dsimp only at h
  split at h
  · obtain rfl := FrameRead.torn.inj (Except.ok.inj h)
    rfl
  replace h := (Except.guard_eq_ok_iff.1 h).2
  split at h
  · obtain rfl := FrameRead.torn.inj (Except.ok.inj h)
    rfl
  rw [Except.guard_eq_ok_iff, Except.bind_eq_ok_iff] at h
  obtain ⟨-, _, -, h⟩ := h
  cases h

theorem eq_nil_of_readFrame {prev : Digest} {start : ℕ} {file : Bytes}
    (h : readFrame F prev start file = .ok .eof) : file = [] := by
  unfold readFrame at h
  dsimp only at h
  split at h
  · rename_i h0
    rcases file with _ | ⟨b, bs⟩
    · rfl
    · simp [headerLen] at h0
  split at h
  · cases h
  rw [Except.bind_eq_ok_iff] at h
  obtain ⟨fields, -, h⟩ := h
  unfold readBody at h
  dsimp only at h
  split at h
  · cases h
  replace h := (Except.guard_eq_ok_iff.1 h).2
  split at h
  · cases h
  rw [Except.guard_eq_ok_iff, Except.bind_eq_ok_iff] at h
  obtain ⟨-, _, -, h⟩ := h
  cases h

/-- **Every scan has found a chain**: the part of the file before the torn tail is the chain of the
entries the scan returned. -/
theorem exists_chain_of_scanLoop {entries : List WalEntry} {before file : Bytes} {scan : WalScan}
    (hb : Chain F entries before) (h : scanLoop F entries before.length file = .ok scan) :
    ∃ whole cut, before ++ file = whole ++ cut ∧ Chain F scan.entries whole ∧
      (scan.tornTail = none → cut = []) ∧ ∀ t ∈ scan.tornTail, t.offset = whole.length := by
  -- Induction on what is left of the file: the loop consumes at least one byte per round.
  induction hn : file.length using Nat.strong_induction_on generalizing entries before file with
  | _ n ih =>
    rw [scanLoop] at h
    split at h
    · cases h
    · rename_i hr
      obtain rfl := Except.ok.inj h
      exact ⟨before, [], by rw [eq_nil_of_readFrame hr], hb, by simp, by simp⟩
    · rename_i t hr
      obtain rfl := Except.ok.inj h
      refine ⟨before, file, rfl, hb, by simp, ?_⟩
      intro t' ht'
      obtain rfl := Option.some.inj ht'
      exact offset_of_readFrame hr
    · rename_i entry rest hr
      have hlt := length_lt_of_readFrame hr
      obtain ⟨frame, rfl, hframe⟩ := exists_isFrame hr
      rw [List.length_append, Nat.add_sub_cancel, ← List.length_append] at h
      obtain ⟨whole, cut, heq, hrest⟩ := ih _ (hn ▸ hlt) (hb.snoc hframe) h rfl
      exact ⟨whole, cut, by rw [← heq, List.append_assoc], hrest⟩

theorem exists_chain {file : Bytes} {scan : WalScan} (h : scanFile F file = .ok scan) :
    ∃ whole cut, file = whole ++ cut ∧ Chain F scan.entries whole ∧
      (scan.tornTail = none → cut = []) ∧ ∀ t ∈ scan.tornTail, t.offset = whole.length :=
  exists_chain_of_scanLoop .nil h

end TraceDB
