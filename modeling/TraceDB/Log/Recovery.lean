import TraceDB.Log.Reference
import TraceDB.Log.Wal

/-!
# Recovery of the write-ahead log

What a log file holds after a run of `append_commit` calls, some of which may have failed, and what
opening it, or any prefix of it, recovers.

* `Log.Inv` is the invariant of a log handle: the file is a chain of whole frames followed by at
  most one cut frame, and the cached tail describes the chain whenever its length is current.
* `Log.Inv.step` : a call keeps the invariant unless it writes after a cut frame; `Log.Inv.run` is
  the same for whole runs.
* `open_prefix_recovers` : torn-tail recovery, for every byte prefix of a file the log wrote.
* `open_after_calls` : no acknowledged commit is lost, in the runs in which no call writes after a
  cut frame.
-/

namespace TraceDB

variable (F : WalFormat)

/-- The frame a handle appends for `commit` after `entries`. -/
def nextFrame (entries : List WalEntry) (commit : CommitRecord) : Bytes :=
  frameOf F commit (nextLsn (entries.getLast?.map (·.lsn))) (lastChecksum entries)

/-- The entry that frame holds. -/
def nextEntry (entries : List WalEntry) (commit : CommitRecord) : WalEntry :=
  entryOf F commit (nextLsn (entries.getLast?.map (·.lsn))) (lastChecksum entries)

/-- The commit fits into a frame after `entries`. -/
def Fits (entries : List WalEntry) (commit : CommitRecord) : Prop :=
  (framePayload F commit (lastChecksum entries)).length ≤ maxPayloadLen

instance (entries : List WalEntry) (commit : CommitRecord) : Decidable (Fits F entries commit) :=
  inferInstanceAs (Decidable (_ ≤ _))

/-- The frame of the commit after `entries` is read back. -/
def ReadBack (entries : List WalEntry) (commit : CommitRecord) : Prop :=
  F.commitCodec.ReadsBack (commit.prepareForFrame (lastChecksum entries))

variable {F} in
theorem readBack [F.Lossless] (entries : List WalEntry) (commit : CommitRecord) :
    ReadBack F entries commit :=
  WalFormat.Lossless.commit _

/-- Sequence numbers start at 1 and are consecutive, and every commit carries the checksum of the
entry before it. -/
inductive Linked : List WalEntry → Prop
  | nil : Linked []
  | snoc {entries : List WalEntry} {entry : WalEntry} : Linked entries →
    entry.lsn = nextLsn (entries.getLast?.map (·.lsn)) →
    entry.commit.previousCommitHash = lastChecksum entries → Linked (entries ++ [entry])

/-- The invariant of a log handle: `whole` is the chain of `entries` and `cut` what a failed call
left of a frame. -/
structure Log.Inv (log : Log) (entries : List WalEntry) (whole cut : Bytes) : Prop where
  chain : Chain F entries whole
  isCut : IsCut F entries cut
  file : log.file = whole ++ cut
  tail : log.file.length = log.tail.fileLen → log.tail = tailFromScan log.file.length entries

/-- No call of the run writes while the file ends in a cut frame: whenever the scan of the file at
the call reports a torn tail, the call lets no byte through or its commit does not fit a frame. -/
def Log.SafeCalls (log : Log) : List (CommitRecord × AppendIo) → Prop
  | [] => True
  | (commit, io) :: calls =>
    (∀ entries torn, scanFile F log.file = .ok ⟨entries, some torn⟩ →
      io.writes = false ∨ ¬ Fits F entries commit) ∧
    SafeCalls (log.appendCommit F io commit).2 calls

variable {F}

theorem Linked.nextEntry {entries : List WalEntry} (h : Linked entries) (commit : CommitRecord) :
    Linked (entries ++ [nextEntry F entries commit]) :=
  h.snoc rfl rfl

theorem isFrame_nextFrame {entries : List WalEntry} {commit : CommitRecord} (hc : commit.Engine)
    (hfit : Fits F entries commit) (hback : ReadBack F entries commit) :
    IsFrame F (lastChecksum entries) (nextFrame F entries commit) (nextEntry F entries commit) :=
  isFrame_frameOf hc _ hfit hback

@[simp] theorem nextEntry_content (entries : List WalEntry) (commit : CommitRecord) :
    (nextEntry F entries commit).commit.content = commit.content := rfl

/-! ### Opening -/

theorem open_none : Log.open F none = .ok ⟨tailFromScan 0 [], none, []⟩ := by
  simp [Log.open, scanFile, scanLoop_nil, truncateTornTail]

theorem open_of_chain_cut {entries : List WalEntry} {whole cut : Bytes} (h : Chain F entries whole)
    (hcut : IsCut F entries cut) :
    ∃ torn, Log.open F (some (whole ++ cut)) =
        .ok ⟨tailFromScan whole.length entries, torn, whole⟩ ∧ (torn = none ↔ cut = []) := by
  obtain ⟨torn, hscan, hnone, hoffset⟩ := h.scanFile_cut hcut
  refine ⟨torn, ?_, hnone⟩
  have htrunc : truncateTornTail (whole ++ cut) ⟨entries, torn⟩ = whole := by
    cases torn with
    | none => simp [truncateTornTail, hnone.1 rfl]
    | some t => simp [truncateTornTail, hoffset t rfl]
  simp only [Log.open, Option.getD_some, hscan, Except.ok_bind, htrunc]

theorem inv_of_chain {entries : List WalEntry} {whole : Bytes} (h : Chain F entries whole)
    (torn : Option TornWalTail) :
    Log.Inv F ⟨tailFromScan whole.length entries, torn, whole⟩ entries whole [] :=
  ⟨h, .inl rfl, by simp, fun _ => rfl⟩

/-- Every handle that `open` returns satisfies the invariant, with no cut frame. -/
theorem inv_of_open {file : Option Bytes} {log : Log} (h : Log.open F file = .ok log) :
    ∃ entries, Log.Inv F log entries log.file [] := by
  simp only [Log.open, Except.bind_eq_ok_iff] at h
  obtain ⟨scan, hscan, h⟩ := h
  obtain rfl := Except.ok.inj h
  obtain ⟨whole, cut, hfile, hchain, hnone, hoffset⟩ := exists_chain hscan
  have htrunc : truncateTornTail (file.getD []) scan = whole := by
    rw [hfile]
    cases ht : scan.tornTail with
    | none => simp [truncateTornTail, ht, hnone ht]
    | some t => simp [truncateTornTail, ht, hoffset t ht]
  refine ⟨scan.entries, ?_⟩
  simp only [htrunc]
  exact inv_of_chain hchain _

/-- Opening the file of a handle recovers the entries of its whole frames. -/
theorem Log.Inv.open_file {log : Log} {entries : List WalEntry} {whole cut : Bytes}
    (h : Log.Inv F log entries whole cut) :
    ∃ torn, Log.open F (some log.file) = .ok ⟨tailFromScan whole.length entries, torn, whole⟩ := by
  obtain ⟨torn, hopen, -⟩ := open_of_chain_cut h.chain h.isCut
  exact ⟨torn, by rw [h.file, hopen]⟩

/-! ### One call -/

theorem Log.Inv.refreshTail {log : Log} {entries : List WalEntry} {whole cut : Bytes}
    (h : Log.Inv F log entries whole cut) :
    log.refreshTail F = .ok { log with tail := tailFromScan log.file.length entries } := by
  unfold Log.refreshTail
  by_cases hlen : log.file.length = log.tail.fileLen
  · rw [if_neg (not_not.2 hlen), ← h.tail hlen]
  · obtain ⟨torn, hscan, -, -⟩ := h.chain.scanFile_cut h.isCut
    rw [if_pos hlen, h.file, hscan]
    rfl

theorem Log.Inv.appendCommit_large {log : Log} {entries : List WalEntry} {whole cut : Bytes}
    (h : Log.Inv F log entries whole cut) {commit : CommitRecord} (hbig : ¬ Fits F entries commit)
    (io : AppendIo) :
    ∃ e log', log.appendCommit F io commit = (.error e, log') ∧ log'.file = log.file ∧
      Log.Inv F log' entries whole cut := by
  have hbuild : ∀ lsn, ∃ e, Log.buildCommitFrame F commit lsn
      (lastChecksum entries) = .error e := by
    intro lsn
    exact ⟨_, if_pos (not_le.1 hbig)⟩
  cases io with
  | blocked => exact ⟨_, log, rfl, rfl, h⟩
  | ok | failed n =>
    obtain ⟨e, he⟩ := hbuild (nextLsn (entries.getLast?.map (·.lsn)))
    refine ⟨e, { log with tail := tailFromScan log.file.length entries }, ?_, rfl, ?_⟩
    · simp only [Log.appendCommit, h.refreshTail, Log.appendFrame, tailFromScan, he]
    · exact ⟨h.chain, h.isCut, h.file, fun _ => rfl⟩

theorem buildCommitFrame_fits {entries : List WalEntry} {commit : CommitRecord}
    (hfit : Fits F entries commit) :
    Log.buildCommitFrame F commit (nextLsn (entries.getLast?.map (·.lsn))) (lastChecksum entries) =
      .ok (nextFrame F entries commit) :=
  if_neg (not_lt.2 hfit)

theorem Log.Inv.appendCommit_failed {log : Log} {entries : List WalEntry} {whole cut : Bytes}
    (h : Log.Inv F log entries whole cut) {commit : CommitRecord} (hfit : Fits F entries commit)
    (n : ℕ) :
    log.appendCommit F (.failed n) commit =
      (.error (.io .other "write failed"),
        ⟨tailFromScan log.file.length entries, log.recoveryTornTail,
          log.file ++ (nextFrame F entries commit).take n⟩) := by
  simp only [Log.appendCommit, h.refreshTail, Log.appendFrame, tailFromScan,
    buildCommitFrame_fits hfit]

theorem Log.Inv.appendCommit_ok {log : Log} {entries : List WalEntry} {whole cut : Bytes}
    (h : Log.Inv F log entries whole cut) {commit : CommitRecord} (hfit : Fits F entries commit) :
    log.appendCommit F .ok commit =
      (.ok (nextEntry F entries commit).lsn,
        ⟨tailFromScan (log.file ++ nextFrame F entries commit).length
            (entries ++ [nextEntry F entries commit]), log.recoveryTornTail,
          log.file ++ nextFrame F entries commit⟩) := by
  simp only [Log.appendCommit, h.refreshTail, Log.appendFrame, tailFromScan,
    buildCommitFrame_fits hfit, List.getLast?_append, List.getLast?_singleton, Option.some_or,
    Option.map_some, lastChecksum_append_singleton, List.length_append]
  rfl

/-- A call that writes nothing keeps the invariant as it is and does not succeed. -/
theorem Log.Inv.step_silent {log : Log} {entries : List WalEntry} {whole cut : Bytes}
    (h : Log.Inv F log entries whole cut) {commit : CommitRecord} {io : AppendIo}
    (hsilent : io.writes = false ∨ ¬ Fits F entries commit) :
    Log.Inv F (log.appendCommit F io commit).2 entries whole cut ∧
      (log.appendCommit F io commit).1.isOk = false := by
  by_cases hfit : Fits F entries commit
  · have hio : io.writes = false := hsilent.resolve_right (not_not.2 hfit)
    cases io with
    | ok => cases hio
    | blocked => exact ⟨h, rfl⟩
    | failed n =>
      obtain rfl : n = 0 := by simpa [AppendIo.writes] using hio
      rw [h.appendCommit_failed hfit]
      refine ⟨⟨h.chain, h.isCut, ?_, ?_⟩, rfl⟩
      · simp [h.file]
      · intro _
        simp
  · obtain ⟨e, log', heq, -, hinv⟩ := h.appendCommit_large hfit io
    rw [heq]
    exact ⟨hinv, rfl⟩

theorem Log.runCalls_error {log log' : Log} {commit : CommitRecord} {io : AppendIo}
    {e : TraceDbError} (h : log.appendCommit F io commit = (.error e, log'))
    (calls : List (CommitRecord × AppendIo)) :
    log.runCalls F ((commit, io) :: calls) = log'.runCalls F calls := by
  simp only [Log.runCalls, h]

theorem Log.runCalls_ok {log log' : Log} {commit : CommitRecord} {io : AppendIo} {lsn : Lsn}
    (h : log.appendCommit F io commit = (.ok lsn, log')) (calls : List (CommitRecord × AppendIo)) :
    log.runCalls F ((commit, io) :: calls) =
      ((log'.runCalls F calls).1, (commit, log'.file.length) :: (log'.runCalls F calls).2) := by
  simp only [Log.runCalls, h]

variable [F.Lossless]

/-- A call made while the file ends in a whole frame: appended in full, the frame extends the chain
by its entry; cut short, it leaves the chain as it is. -/
theorem Log.Inv.step_whole {log : Log} {entries : List WalEntry} {whole : Bytes}
    (h : Log.Inv F log entries whole []) {commit : CommitRecord} (hc : commit.Engine)
    (io : AppendIo) :
    ∃ entries' whole' cut', Log.Inv F (log.appendCommit F io commit).2 entries' whole' cut' ∧
      (entries' = entries ∨ entries' = entries ++ [nextEntry F entries commit]) ∧
      ((log.appendCommit F io commit).1.isOk = true →
        entries' = entries ++ [nextEntry F entries commit]) := by
  by_cases hfit : Fits F entries commit
  · have hframe := isFrame_nextFrame hc hfit (readBack entries commit)
    have hfile : log.file = whole := by simpa using h.file
    cases io with
    | blocked => exact ⟨entries, whole, [], h, .inl rfl, fun hok => by cases hok⟩
    | ok =>
      rw [h.appendCommit_ok hfit]
      refine ⟨_, _, [], ⟨h.chain.snoc hframe, .inl rfl, ?_, fun _ => rfl⟩, .inr rfl, fun _ => rfl⟩
      simp [hfile]
    | failed n =>
      rw [h.appendCommit_failed hfit]
      -- The length of the cached tail is current only when no byte was written.
      have htail : (log.file ++ (nextFrame F entries commit).take n).length = log.file.length →
          tailFromScan log.file.length entries =
            tailFromScan (log.file ++ (nextFrame F entries commit).take n).length entries := by
        intro hlen
        rw [hlen]
      rcases hframe.isCut_or_eq (List.take_prefix n _) with hcut | hall
      · exact ⟨entries, whole, _, ⟨h.chain, hcut, by simp [hfile], htail⟩, .inl rfl,
          fun hok => by cases hok⟩
      · refine ⟨_, _, [], ⟨h.chain.snoc hframe, .inl rfl, ?_, ?_⟩, .inr rfl,
          fun hok => by cases hok⟩
        · simp [hfile, hall]
        · intro hlen
          have hpos := List.length_pos_iff.2 hframe.ne_nil
          simp only [hall, List.length_append, tailFromScan] at hlen
          omega
  · obtain ⟨e, log', heq, -, hinv⟩ := h.appendCommit_large hfit io
    rw [heq]
    exact ⟨entries, whole, [], hinv, .inl rfl, fun hok => by cases hok⟩

/-- A call keeps the invariant unless it writes after a cut frame, and a call that succeeds has
extended the chain by its commit. -/
theorem Log.Inv.step {log : Log} {entries : List WalEntry} {whole cut : Bytes}
    (h : Log.Inv F log entries whole cut) {commit : CommitRecord} (hc : commit.Engine)
    {io : AppendIo} (hsafe : cut ≠ [] → io.writes = false ∨ ¬ Fits F entries commit) :
    ∃ entries' whole' cut', Log.Inv F (log.appendCommit F io commit).2 entries' whole' cut' ∧
      (entries' = entries ∨ entries' = entries ++ [nextEntry F entries commit]) ∧
      ((log.appendCommit F io commit).1.isOk = true →
        entries' = entries ++ [nextEntry F entries commit]) := by
  by_cases hnil : cut = []
  · subst hnil
    exact h.step_whole hc io
  · obtain ⟨hinv, herr⟩ := h.step_silent (hsafe hnil)
    exact ⟨entries, whole, cut, hinv, .inl rfl, fun hok => by simp [herr] at hok⟩

/-! ### Runs with failing calls -/

/-- In a run without writes after a cut frame the invariant holds at the end, and the entries the
run added hold every acknowledged commit, in order. -/
theorem Log.Inv.run {log : Log} {entries : List WalEntry} {whole cut : Bytes}
    (h : Log.Inv F log entries whole cut) {calls : List (CommitRecord × AppendIo)}
    (hc : ∀ call ∈ calls, call.1.Engine) (hsafe : log.SafeCalls F calls) :
    ∃ new whole' cut', Log.Inv F (log.runCalls F calls).1 (entries ++ new) whole' cut' ∧
      ((log.runCalls F calls).2.map fun a => a.1.content).Sublist
        (new.map fun e => e.commit.content) := by
  induction calls generalizing log entries whole cut with
  | nil => exact ⟨[], whole, cut, by simpa [Log.runCalls] using h, by simp [Log.runCalls]⟩
  | cons call calls ih =>
    obtain ⟨commit, io⟩ := call
    obtain ⟨hnow, hlater⟩ := hsafe
    have hsafe : cut ≠ [] → io.writes = false ∨ ¬ Fits F entries commit := by
      intro hne
      obtain ⟨torn, hscan, hnone, -⟩ := h.chain.scanFile_cut h.isCut
      obtain ⟨t, rfl⟩ := Option.ne_none_iff_exists'.1 (mt hnone.1 hne)
      exact hnow entries t (by rw [h.file, hscan])
    obtain ⟨entries₁, whole₁, cut₁, hinv, hentries, hok⟩ := h.step (hc _ List.mem_cons_self) hsafe
    obtain ⟨new, whole', cut', hfinal, hsub⟩ :=
      ih hinv (fun call hcall => hc call (List.mem_cons_of_mem _ hcall)) hlater
    rcases hcall : log.appendCommit F io commit with ⟨_ | lsn, log'⟩
    · rw [Log.runCalls_error hcall]
      rw [hcall] at hfinal hsub
      rcases hentries with rfl | rfl
      · exact ⟨new, whole', cut', hfinal, hsub⟩
      · refine ⟨nextEntry F entries commit :: new, whole', cut', by simpa using hfinal, ?_⟩
        rw [List.map_cons]
        exact hsub.cons _
    · rw [Log.runCalls_ok hcall]
      rw [hcall] at hfinal hsub hok
      obtain rfl := hok rfl
      refine ⟨nextEntry F entries commit :: new, whole', cut', by simpa using hfinal, ?_⟩
      rw [List.map_cons, List.map_cons, nextEntry_content]
      exact hsub.cons_cons _

theorem engine_empty {transactionId : ℕ} {epoch : Epoch} (h : 0 < epoch) :
    (CommitRecord.empty transactionId epoch).Engine :=
  ⟨rfl, h, Nat.sub_one_lt h.ne'⟩

/-- The smallest commit fits the reference format. -/
theorem fits_empty_one : Fits WalFormat.reference [] (.empty 1 1) := by
  decide +kernel

/-- **No acknowledged commit is lost**: after any run of `append_commit` calls on a handle, failing
in any way, in which no call writes while the file ends in a cut frame, the file opens, and the
commits it scans to include every commit whose call returned `Ok`, in order. -/
theorem open_after_calls {file : Option Bytes} {log : Log} (hopen : Log.open F file = .ok log)
    {calls : List (CommitRecord × AppendIo)} (hc : ∀ call ∈ calls, call.1.Engine)
    (hsafe : log.SafeCalls F calls) :
    ∃ log' scan, Log.open F (some (log.runCalls F calls).1.file) = .ok log' ∧
      log'.scanWithMetadata F = .ok scan ∧
      ((log.runCalls F calls).2.map fun a => a.1.content).Sublist
        (scan.entries.map fun e => e.commit.content) := by
  obtain ⟨entries, hinv⟩ := inv_of_open hopen
  obtain ⟨new, whole, cut, hfinal, hsub⟩ := hinv.run hc hsafe
  obtain ⟨torn, hreopen⟩ := hfinal.open_file
  refine ⟨_, ⟨entries ++ new, torn⟩, hreopen, ?_, ?_⟩
  · simp only [Log.scanWithMetadata, hfinal.chain.scanFile, Except.ok_bind, Option.none_or]
  · rw [List.map_append]
    exact hsub.trans (List.sublist_append_right _ _)

/-- A run that `open_after_calls` covers: one commit is appended, and the next call fails after one
byte of its frame. -/
theorem open_after_calls_cut_last :
    let fresh : Log := ⟨tailFromScan 0 [], none, []⟩
    let calls := [(CommitRecord.empty 1 1, AppendIo.ok), (CommitRecord.empty 2 2, .failed 1)]
    fresh.SafeCalls WalFormat.reference calls ∧
      ∃ log' scan, Log.open WalFormat.reference
          (some (fresh.runCalls WalFormat.reference calls).1.file) = .ok log' ∧
        log'.scanWithMetadata WalFormat.reference = .ok scan ∧
        ((fresh.runCalls WalFormat.reference calls).2.map fun a => a.1.content).Sublist
          (scan.entries.map fun e => e.commit.content) := by
  intro fresh calls
  have hengine : ∀ call ∈ calls, call.1.Engine := by
    intro call hcall
    simp only [calls, List.mem_cons, List.not_mem_nil, or_false] at hcall
    rcases hcall with rfl | rfl <;> exact engine_empty (by decide)
  have hinv : Log.Inv WalFormat.reference fresh [] [] [] := inv_of_chain .nil none
  have hfirst := hinv.appendCommit_ok fits_empty_one
  have hchain := hinv.chain.snoc (isFrame_nextFrame (engine_empty (by decide)) fits_empty_one
    (readBack [] _))
  have hsafe : fresh.SafeCalls WalFormat.reference calls := by
    refine ⟨fun entries torn h => ?_, fun entries torn h => ?_, trivial⟩
    · rw [show fresh.file = [] from rfl, hinv.chain.scanFile] at h
      cases h
    · rw [hfirst] at h
      exact absurd (h.symm.trans hchain.scanFile) (by simp)
  have hopen : Log.open WalFormat.reference none = .ok fresh := open_none
  exact ⟨hsafe, open_after_calls hopen hengine hsafe⟩

omit [F.Lossless] in
/-- A frame with one byte of another frame in front of it is corruption. -/
theorem open_byte_frame (commit : CommitRecord) (lsn : Lsn) (prev : Digest) :
    Log.open F (some ([0x4c] ++ frameOf F commit lsn prev)) =
      .error (.walCorruption "invalid magic") := by
  obtain ⟨rest, hframe⟩ : ∃ rest, frameOf F commit lsn prev = [0x4c, 0x57, 0x44, 0x54] ++ rest := by
    refine ⟨Bytes.toLe 4 walFormatVersion ++ Bytes.toLe 8 lsn.toNat ++ prev.bytes ++
      Bytes.toLe 4 1 ++ Bytes.toLe 4 (framePayload F commit prev).length ++
      (F.checksumBytes (framePayload F commit prev)).bytes ++ framePayload F commit prev ++
      Bytes.toLe 4 commitFooter, ?_⟩
    have hmagic : Bytes.toLe 4 walMagic = [0x4c, 0x57, 0x44, 0x54] := by decide
    simp only [frameOf, assembleCommitFrame, frameHeader, hmagic, List.append_assoc]
  have hlen := length_frameOf (F := F) commit lsn prev
  rw [hframe] at hlen ⊢
  have hheader : ([0x4c] ++ ([0x4c, 0x57, 0x44, 0x54] ++ rest)).take headerLen =
      [0x4c, 0x4c, 0x57, 0x44, 0x54] ++ rest.take 83 := rfl
  have hlong : ([0x4c, 0x4c, 0x57, 0x44, 0x54] ++ rest.take 83 : Bytes).length = headerLen := by
    simp only [headerLen, List.length_append, List.length_cons, List.length_nil,
      List.length_take] at hlen ⊢
    omega
  have hmagic : Bytes.ofLe (Bytes.slice ([0x4c, 0x4c, 0x57, 0x44, 0x54] ++ rest.take 83) 0 4) ≠
      walMagic := by
    rw [Bytes.slice_append_left (by decide)]
    decide
  have hread : readFrame F (lastChecksum []) 0 ([0x4c] ++ ([0x4c, 0x57, 0x44, 0x54] ++ rest)) =
      .error (.walCorruption "invalid magic") := by
    have hnonzero : headerLen ≠ 0 := by decide
    simp only [readFrame, hheader, hlong, hnonzero, lt_self_iff_false, if_false, readHeader,
      if_pos hmagic, Except.error_bind]
  have hscan : scanFile F ([0x4c] ++ ([0x4c, 0x57, 0x44, 0x54] ++ rest)) =
      .error (.walCorruption "invalid magic") := by
    rw [scanFile, scanLoop]
    split <;> rename_i hr <;> rw [hread] at hr <;> cases hr
    rfl
  simp only [Log.open, Option.getD_some, hscan, Except.error_bind]

/-- The runs excluded in `open_after_calls` do lose commits: when the first call fails after one
byte, the second one is acknowledged and lands behind that byte, and the file does not open. -/
theorem open_after_cut_append_fails :
    let fresh : Log := ⟨tailFromScan 0 [], none, []⟩
    let calls := [(CommitRecord.empty 1 1, AppendIo.failed 1), (CommitRecord.empty 1 1, .ok)]
    Log.open WalFormat.reference none = .ok fresh ∧ (∀ call ∈ calls, call.1.Engine) ∧
      (fresh.runCalls WalFormat.reference calls).2.map (·.1) = [.empty 1 1] ∧
      Log.open WalFormat.reference (some (fresh.runCalls WalFormat.reference calls).1.file) =
        .error (.walCorruption "invalid magic") := by
  intro fresh calls
  have hengine : (CommitRecord.empty 1 1).Engine := engine_empty (by decide)
  have hinv : Log.Inv WalFormat.reference fresh [] [] [] := inv_of_chain .nil none
  have hcut : (nextFrame WalFormat.reference [] (.empty 1 1)).take 1 = [0x4c] := by
    simp [nextFrame, frameOf, assembleCommitFrame, frameHeader, Bytes.toLe, walMagic]
  have hframe := isFrame_nextFrame hengine fits_empty_one (readBack [] _)
  have hfirst := hinv.appendCommit_failed fits_empty_one 1
  rw [hcut] at hfirst
  have hinv' : Log.Inv WalFormat.reference ⟨tailFromScan 0 [], none, [0x4c]⟩ [] [] [0x4c] := by
    refine ⟨.nil, .inr ⟨_, _, hframe, ?_, by simp, ?_⟩, rfl, ?_⟩
    · rw [← hcut]
      exact List.take_prefix _ _
    · have := length_frameOf (F := WalFormat.reference) (.empty 1 1) 1 Digest.zero
      have hlen : (nextFrame WalFormat.reference [] (.empty 1 1)).length = _ := this
      rw [hlen, headerLen, List.length_singleton]
      omega
    · intro h
      cases h
  have hsecond := hinv'.appendCommit_ok fits_empty_one
  have hrun : fresh.runCalls WalFormat.reference calls = _ :=
    (Log.runCalls_error hfirst _).trans (Log.runCalls_ok hsecond _)
  refine ⟨open_none, by simpa [calls] using hengine, by rw [hrun]; rfl, ?_⟩
  rw [hrun]
  exact open_byte_frame _ _ _

/-! ### Torn-tail recovery -/

/-- The calls that append `commits` with all their I/O working. -/
def okCalls (commits : List CommitRecord) : List (CommitRecord × AppendIo) :=
  commits.map fun commit => (commit, .ok)

/-- One append with working I/O on a file of whole frames: refused, or one more frame. -/
theorem Log.Inv.append_cases {log : Log} {entries : List WalEntry}
    (h : Log.Inv F log entries log.file []) {commit : CommitRecord} (hc : commit.Engine) :
    (∃ e log', log.appendCommit F .ok commit = (.error e, log') ∧ ¬ Fits F entries commit ∧
      log'.file = log.file ∧ Log.Inv F log' entries log'.file []) ∨
    (∃ lsn log', log.appendCommit F .ok commit = (.ok lsn, log') ∧
      IsFrame F (lastChecksum entries) (nextFrame F entries commit) (nextEntry F entries commit) ∧
      log'.file = log.file ++ nextFrame F entries commit ∧
      Log.Inv F log' (entries ++ [nextEntry F entries commit]) log'.file []) := by
  by_cases hfit : Fits F entries commit
  · have hframe := isFrame_nextFrame hc hfit (readBack entries commit)
    exact .inr ⟨_, _, h.appendCommit_ok hfit, hframe, rfl,
      ⟨h.chain.snoc hframe, .inl rfl, by simp, fun _ => rfl⟩⟩
  · obtain ⟨e, log', heq, hfile, hinv⟩ := h.appendCommit_large hfit .ok
    exact .inl ⟨e, log', heq, hfit, hfile, by rwa [hfile]⟩

/-- A run of working appends extends the chain by its acknowledged commits and keeps it linked. -/
theorem Log.Inv.run_ok {log : Log} {entries : List WalEntry} (h : Log.Inv F log entries log.file [])
    {commits : List CommitRecord} (hc : ∀ commit ∈ commits, commit.Engine) (hl : Linked entries) :
    ∃ new, Log.Inv F (log.runCalls F (okCalls commits)).1 (entries ++ new)
        (log.runCalls F (okCalls commits)).1.file [] ∧
      new.map (fun e => e.commit.content) =
        (log.runCalls F (okCalls commits)).2.map (fun a => a.1.content) ∧
      Linked (entries ++ new) ∧ log.file <+: (log.runCalls F (okCalls commits)).1.file ∧
      ∀ a ∈ (log.runCalls F (okCalls commits)).2, log.file.length ≤ a.2 := by
  induction commits generalizing log entries with
  | nil => exact ⟨[], by simpa [okCalls, Log.runCalls] using h, rfl, by simpa using hl,
      List.prefix_rfl, by simp [okCalls, Log.runCalls]⟩
  | cons commit commits ih =>
    have hrun : okCalls (commit :: commits) = (commit, .ok) :: okCalls commits := rfl
    have hc' : ∀ commit ∈ commits, commit.Engine :=
      fun c hmem => hc c (List.mem_cons_of_mem _ hmem)
    rw [hrun]
    rcases h.append_cases (hc _ List.mem_cons_self) with
      ⟨e, log', heq, -, hfile, hinv⟩ | ⟨lsn, log', heq, -, hfile, hinv⟩
    · rw [Log.runCalls_error heq, ← hfile]
      exact ih hinv hc' hl
    · obtain ⟨new, hfinal, hnew, hlinked, hpre, hends⟩ := ih hinv hc' (hl.nextEntry commit)
      have hlen : log.file.length ≤ log'.file.length := by rw [hfile, List.length_append]; omega
      rw [Log.runCalls_ok heq]
      refine ⟨nextEntry F entries commit :: new, by simpa using hfinal, ?_, by simpa using hlinked,
        ?_, ?_⟩
      · simpa using hnew
      · exact (hfile ▸ List.prefix_append _ _ : log.file <+: log'.file).trans hpre
      · intro a ha
        rcases List.mem_cons.1 ha with rfl | ha
        · exact hlen
        · exact hlen.trans (hends a ha)

/-- A prefix of the file of a run of working appends, not shorter than the file the run began with,
is the chain of the commits acknowledged up to there followed by a cut frame. -/
theorem Log.Inv.prefix_run_ok {log : Log} {entries : List WalEntry}
    (h : Log.Inv F log entries log.file []) {commits : List CommitRecord}
    (hc : ∀ commit ∈ commits, commit.Engine) (hl : Linked entries) {image : Bytes}
    (hlow : log.file <+: image) (hhigh : image <+: (log.runCalls F (okCalls commits)).1.file) :
    let inside := (log.runCalls F (okCalls commits)).2.filter fun a => a.2 ≤ image.length
    ∃ new whole cut, image = whole ++ cut ∧ Chain F (entries ++ new) whole ∧
      IsCut F (entries ++ new) cut ∧ Linked (entries ++ new) ∧
      new.map (fun e => e.commit.content) = inside.map (fun a => a.1.content) ∧
      whole.length = (inside.getLast?.map (·.2)).getD log.file.length := by
  induction commits generalizing log entries with
  | nil =>
    have himage : image = log.file := hhigh.eq_of_length_le hlow.length_le
    exact ⟨[], log.file, [], by simp [himage], by simpa using h.chain, .inl rfl, by simpa using hl,
      rfl, rfl⟩
  | cons commit commits ih =>
    have hrun : okCalls (commit :: commits) = (commit, .ok) :: okCalls commits := rfl
    have hc' : ∀ commit ∈ commits, commit.Engine :=
      fun c hmem => hc c (List.mem_cons_of_mem _ hmem)
    rw [hrun] at hhigh ⊢
    rcases h.append_cases (hc _ List.mem_cons_self) with
      ⟨e, log', heq, -, hfile, hinv⟩ | ⟨lsn, log', heq, hframe, hfile, hinv⟩
    · rw [Log.runCalls_error heq] at hhigh ⊢
      rw [← hfile] at hlow ⊢
      exact ih hinv hc' hl hlow hhigh
    · rw [Log.runCalls_ok heq] at hhigh ⊢
      obtain ⟨-, -, -, -, hgrow, hends⟩ := hinv.run_ok hc' (hl.nextEntry commit)
      by_cases hlong : log'.file.length ≤ image.length
      · -- The frame of the first commit lies inside the prefix.
        have hlow' : log'.file <+: image := List.prefix_of_prefix_length_le hgrow hhigh hlong
        obtain ⟨new, whole, cut, himage, hchain, hcut, hlinked, hnew, hwhole⟩ :=
          ih hinv hc' (hl.nextEntry commit) hlow' hhigh
        refine ⟨nextEntry F entries commit :: new, whole, cut, himage, by simpa using hchain,
          by simpa using hcut, by simpa using hlinked, ?_, ?_⟩
        · simp only [List.filter_cons, hlong, decide_true, if_true, List.map_cons,
            nextEntry_content, hnew]
        · simp only [List.filter_cons, hlong, decide_true, if_true, hwhole, List.getLast?_cons]
          cases ((log'.runCalls F (okCalls commits)).2.filter
            fun a => a.2 ≤ image.length).getLast? <;> rfl
      · -- The cut falls into the frame of the first commit, and no later frame lies inside.
        have himage' : image <+: log'.file :=
          List.prefix_of_prefix_length_le hhigh hgrow (le_of_not_ge hlong)
        obtain ⟨cut, rfl⟩ := hlow
        rw [hfile, List.prefix_append_right_inj] at himage'
        have hcut : IsCut F entries cut := by
          refine (hframe.isCut_or_eq himage').resolve_right fun hall => hlong ?_
          rw [hfile, hall]
        have hnone : (log'.runCalls F (okCalls commits)).2.filter
            (fun a => a.2 ≤ (log.file ++ cut).length) = [] := by
          refine List.filter_eq_nil_iff.2 fun a ha => ?_
          have := hends a ha
          simp only [decide_eq_true_eq]
          omega
        refine ⟨[], log.file, cut, rfl, by simpa using h.chain, by simpa using hcut,
          by simpa using hl, ?_, ?_⟩ <;>
        simp only [List.filter_cons, hlong, decide_false, hnone] <;> rfl

/-- Commits that fit after every entry are all acknowledged. -/
theorem Log.Inv.acked_of_fits {log : Log} {entries : List WalEntry}
    (h : Log.Inv F log entries log.file []) {commits : List CommitRecord}
    (hc : ∀ commit ∈ commits, commit.Engine)
    (hfits : ∀ commit ∈ commits, ∀ entries, Fits F entries commit) :
    (log.runCalls F (okCalls commits)).2.map (·.1) = commits := by
  induction commits generalizing log entries with
  | nil => rfl
  | cons commit commits ih =>
    have hrun : okCalls (commit :: commits) = (commit, .ok) :: okCalls commits := rfl
    rw [hrun]
    rcases h.append_cases (hc _ List.mem_cons_self) with
      ⟨e, log', heq, hbig, -, -⟩ | ⟨lsn, log', heq, -, -, hinv⟩
    · exact absurd (hfits _ List.mem_cons_self entries) hbig
    · rw [Log.runCalls_ok heq, List.map_cons, List.cons.injEq]
      refine ⟨rfl, ?_⟩
      exact ih hinv (fun c hmem => hc c (List.mem_cons_of_mem _ hmem))
        fun c hmem => hfits c (List.mem_cons_of_mem _ hmem)

/-- **Torn-tail recovery**: let a fresh log append engine commits, and cut its file anywhere.
Opening the cut file succeeds, yields exactly the commits whose frames lie inside the cut, and
truncates the file to the end of the last of them.  Appends go on from there: the next open yields
the recovered commits followed by the new ones, in one linked chain. -/
theorem open_prefix_recovers {fresh : Log} (hfresh : Log.open F none = .ok fresh)
    {commits more : List CommitRecord} (hc : ∀ commit ∈ commits, commit.Engine)
    (hmore : ∀ commit ∈ more, commit.Engine) {image : Bytes}
    (himage : image <+: (fresh.runCalls F (okCalls commits)).1.file) :
    let appended := (fresh.runCalls F (okCalls commits)).2
    let inside := appended.filter fun a => a.2 ≤ image.length
    ((∀ commit ∈ commits, ∀ entries, Fits F entries commit) → appended.map (·.1) = commits) ∧
    ∃ log scan, Log.open F (some image) = .ok log ∧ log.scanWithMetadata F = .ok scan ∧
      scan.entries.map (fun e => e.commit.content) = inside.map (fun a => a.1.content) ∧
      log.file = image.take ((inside.getLast?.map (·.2)).getD 0) ∧
      ((∀ commit ∈ more, ∀ entries, Fits F entries commit) →
        (log.runCalls F (okCalls more)).2.map (·.1) = more) ∧
      ∃ log' scan', Log.open F (some (log.runCalls F (okCalls more)).1.file) = .ok log' ∧
        log'.scanWithMetadata F = .ok scan' ∧ Linked scan'.entries ∧
        scan'.entries.map (fun e => e.commit.content) =
          (inside ++ (log.runCalls F (okCalls more)).2).map (fun a => a.1.content) := by
  obtain rfl : fresh = ⟨tailFromScan 0 [], none, []⟩ := by
    rw [open_none] at hfresh
    exact (Except.ok.inj hfresh).symm
  have hinv : Log.Inv F ⟨tailFromScan 0 [], none, []⟩ [] [] [] := inv_of_chain .nil none
  refine ⟨fun hfits => hinv.acked_of_fits hc hfits, ?_⟩
  obtain ⟨new, whole, cut, rfl, hchain, hcut, hlinked, hnew, hlen⟩ :=
    hinv.prefix_run_ok hc .nil List.nil_prefix himage
  rw [List.nil_append] at hchain hcut hlinked
  obtain ⟨torn, hopen, -⟩ := open_of_chain_cut hchain hcut
  -- The handle on the truncated file satisfies the invariant again, so the next run extends it.
  have hinv' := inv_of_chain hchain torn
  obtain ⟨new', hfinal, hnew', hlinked', -, -⟩ := hinv'.run_ok hmore hlinked
  obtain ⟨torn', hopen'⟩ := hfinal.open_file
  refine ⟨_, ⟨new, torn⟩, hopen, ?_, hnew, ?_, fun hfits => hinv'.acked_of_fits hmore hfits, _,
    ⟨new ++ new', torn'⟩, hopen', ?_, hlinked', ?_⟩
  · simp only [Log.scanWithMetadata, hchain.scanFile, Except.ok_bind, Option.none_or]
  · rw [List.length_nil] at hlen
    rw [← hlen, List.take_left]
  · simp only [Log.scanWithMetadata, hfinal.chain.scanFile, Except.ok_bind, Option.none_or]
  · rw [List.map_append, List.map_append, hnew, hnew']

/-- Two commits, the file cut inside their frames, and one more commit after the recovery. -/
theorem open_prefix_recovers_two_commits :
    let fresh : Log := ⟨tailFromScan 0 [], none, []⟩
    let run := fresh.runCalls WalFormat.reference (okCalls [.empty 1 1, .empty 2 2])
    ∃ log scan, Log.open WalFormat.reference (some (run.1.file.take 100)) = .ok log ∧
      log.scanWithMetadata WalFormat.reference = .ok scan ∧
      scan.entries.map (fun e => e.commit.content) =
        (run.2.filter fun a => a.2 ≤ (run.1.file.take 100).length).map (fun a => a.1.content) := by
  intro fresh run
  have hengine : ∀ commit ∈ [CommitRecord.empty 1 1, .empty 2 2], commit.Engine := by
    intro commit hcommit
    simp only [List.mem_cons, List.not_mem_nil, or_false] at hcommit
    rcases hcommit with rfl | rfl <;> exact engine_empty (by decide)
  have hmore : ∀ commit ∈ [CommitRecord.empty 2 2], commit.Engine := by
    intro commit hcommit
    obtain rfl := List.mem_singleton.1 hcommit
    exact engine_empty (by decide)
  have hfresh : Log.open WalFormat.reference none = .ok fresh := open_none
  obtain ⟨-, log, scan, hopen, hscan, hentries, -⟩ :=
    open_prefix_recovers hfresh hengine hmore (List.take_prefix 100 run.1.file)
  exact ⟨log, scan, hopen, hscan, hentries⟩

end TraceDB
