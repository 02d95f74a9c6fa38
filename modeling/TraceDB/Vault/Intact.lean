import TraceDB.Vault.Faithful

/-!
# The artifacts of a manifest

A manifest refers to segment objects and to index artifacts, which queries read and verify.  No
later call replaces or removes one of these: a publication writes under ids that the manifest does
not have, and a vacuum keeps what the manifest refers to.

* `indexIdOf_inj` : index ids tell the segments, the kinds and the generations apart.
* `Vault.Intact` : the manifest refers to the artifacts of objects that can be read, and they are
  there as written.
* `artifacts_intact` : in every run, with crashes; the indexes of a segment are verified just when
  each of its artifacts is read back with the checksum of what was written.
-/

namespace TraceDB

variable {S : Type} {A : ArtifactFormat S}

/-! ### Index ids -/

/-- Index ids tell the segments, the kinds and the generations apart. -/
theorem indexIdOf_inj {segmentId segmentId' kind kind' : String} {generation generation' : ℕ}
    (hkind : ':' ∉ kind.toList) (hkind' : ':' ∉ kind'.toList)
    (h : indexIdOf segmentId kind generation = indexIdOf segmentId' kind' generation') :
    segmentId = segmentId' ∧ kind = kind' ∧ generation = generation' := by
  have hlist := congrArg (List.reverse ∘ String.toList) h
  -- From the end: the digits of the generation, the kind and the segment.
  simp only [indexIdOf, Function.comp_apply, String.toList_append, List.reverse_append,
    show (":" : String).toList.reverse = [':'] from rfl, List.append_assoc,
      List.singleton_append] at hlist
  obtain ⟨hgeneration, hrest⟩ := Text.append_sep_inj
    (fun hmem => Text.not_mem_toString rfl generation (List.mem_reverse.1 hmem))
    (fun hmem => Text.not_mem_toString rfl generation' (List.mem_reverse.1 hmem)) hlist
  obtain ⟨hkinds, hsegment⟩ :=
    Text.append_sep_inj (by simpa using hkind) (by simpa using hkind') hrest
  refine ⟨String.toList_inj.1 (List.reverse_inj.1 hsegment),
    String.toList_inj.1 (List.reverse_inj.1 hkinds), ?_⟩
  exact toString_nat_inj (String.toList_inj.1 (List.reverse_inj.1 hgeneration))

/-- The kinds of artifacts. -/
def artifactKinds : List String := ["primary", "policy", "text", "vector"]

namespace SealedObject

variable {object other : SealedObject S} {generation generation' : ℕ}
  {artifact artifact' : IndexArtifact S}

theorem kinds_artifacts : ((object.artifacts A generation).map (·.kind)).Sublist artifactKinds := by
  simp only [SealedObject.artifacts, buildSegmentIndexArtifacts, List.map_append, artifactKinds]
  have htwo : ["primary", "policy"].Sublist ["primary", "policy"] := List.Sublist.refl _
  split_ifs
  · exact List.Sublist.refl ["primary", "policy", "text", "vector"]
  · exact htwo.append (List.Sublist.cons_cons "text" (List.nil_sublist _))
  · exact htwo.append (List.Sublist.cons "text" (List.Sublist.refl ["vector"]))
  · exact htwo.append (List.nil_sublist _)

/-- What an artifact says of its object. -/
theorem of_mem_artifacts (h : artifact ∈ object.artifacts A generation) :
    artifact.indexId = indexIdOf object.segmentId artifact.kind object.generation ∧
      artifact.sourceSegmentChecksum = object.objectChecksum := by
  simp only [SealedObject.artifacts, buildSegmentIndexArtifacts, List.mem_append, List.mem_cons,
    List.not_mem_nil, or_false] at h
  rcases h with ((rfl | rfl) | h) | h
  · exact ⟨rfl, rfl⟩
  · exact ⟨rfl, rfl⟩
  · split_ifs at h
    · rw [List.mem_singleton.1 h]
      exact ⟨rfl, rfl⟩
    · cases h
  · split_ifs at h
    · rw [List.mem_singleton.1 h]
      exact ⟨rfl, rfl⟩
    · cases h

theorem colon_not_mem_kind (h : artifact ∈ object.artifacts A generation) :
    ':' ∉ artifact.kind.toList := by
  have hkinds : ∀ kind ∈ artifactKinds, ':' ∉ kind.toList := by decide
  exact hkinds artifact.kind (kinds_artifacts.subset (List.mem_map_of_mem h))

/-- Artifacts of different segments are different files. -/
theorem indexId_ne (h : artifact ∈ object.artifacts A generation)
    (h' : artifact' ∈ other.artifacts A generation') (hne : object.segmentId ≠ other.segmentId) :
      artifact.indexId ≠ artifact'.indexId := by
  rw [(of_mem_artifacts h).1, (of_mem_artifacts h').1]
  intro hsame
  exact hne (indexIdOf_inj (colon_not_mem_kind h) (colon_not_mem_kind h') hsame).1

/-- The artifacts of an object are different files. -/
theorem nodup_indexIds : ((object.artifacts A generation).map (·.indexId)).Nodup := by
  have hids : (object.artifacts A generation).map (·.indexId) =
      ((object.artifacts A generation).map (·.kind)).map
        fun kind => indexIdOf object.segmentId kind object.generation := by
    rw [List.map_map]
    exact List.map_congr_left fun artifact hmem => (of_mem_artifacts hmem).1
  rw [hids, List.Nodup, List.pairwise_map]
  have hkinds : ((object.artifacts A generation).map (·.kind)).Nodup :=
    kinds_artifacts.nodup (by decide)
  refine hkinds.imp_of_mem fun {first second} hfirst hsecond hne hsame => hne ?_
  obtain ⟨artifact, hartifact, rfl⟩ := List.mem_map.1 hfirst
  obtain ⟨artifact', hartifact', rfl⟩ := List.mem_map.1 hsecond
  exact (indexIdOf_inj (colon_not_mem_kind hartifact) (colon_not_mem_kind hartifact') hsame).2.1

end SealedObject

/-! ### Files -/

/-- The artifact is read back with the checksum of what was written. -/
def IndexArtifact.ReadsBack (A : ArtifactFormat S) (artifact : IndexArtifact S) : Prop :=
  ∃ again : IndexArtifact S, artifact.reread A = some again ∧
    (artifact.payloadChecksum A = Digest.zero ∨
      again.payloadChecksum A = artifact.payloadChecksum A)

theorem IndexArtifact.source_reread {artifact again : IndexArtifact S}
    (h : artifact.reread A = some again) :
    again.sourceSegmentChecksum = artifact.sourceSegmentChecksum := by
  rw [reread, Option.bind_eq_bind, Option.bind_eq_some_iff] at h
  obtain ⟨payload, -, h⟩ := h
  obtain rfl := Option.some.inj h
  rfl

/-- A write leaves the segments and indexes of the manifest and the segment objects. -/
theorem Synced.refers_run {F : EngineFormat} [F.Lossless] {db : Db} {entries : List WalEntry}
    (h : Synced F db entries) (op : Op) :
    (db.run F op).2.manifest.segments = db.manifest.segments ∧
    (db.run F op).2.manifest.indexes = db.manifest.indexes ∧
      (db.run F op).2.disk.segments = db.disk.segments := by
  rcases h.run_cases op with hsame | ⟨plan, -, -, hrun, -⟩
  · rw [hsame]
    exact ⟨rfl, rfl, rfl⟩
  · rw [hrun]
    exact ⟨rfl, rfl, rfl⟩

namespace Vault

variable {vault written : Vault S} {entry : SegmentManifest}
  {object : SealedObject S} {generation : ℕ} {segmentId : String} {keeps : String → Bool}

theorem readSegmentObject_congr {disk disk' : Disk} {id : String}
    (h : disk'.segments[id]? = disk.segments[id]?) :
    readSegmentObject A disk' id = readSegmentObject A disk id := by
  rw [readSegmentObject, readSegmentObject, h]

/-- The entry refers to an object that is read, and its indexes to the artifacts of this object, as
written. -/
structure Keeps (A : ArtifactFormat S) (vault : Vault S) (entry : SegmentManifest)
    (object : SealedObject S) (generation : ℕ) : Prop where
  read : readSegmentObject A vault.db.disk entry.segmentId = .ok object
  manifest : object.manifest = entry
  indexes : (vault.indexes.filter fun index => index.segmentId = entry.segmentId) =
    (object.artifacts A generation).map (object.indexEntry A generation)
  files : ∀ artifact ∈ object.artifacts A generation,
    vault.artifacts[artifact.indexId]? = some artifact

/-- Whatever the manifest refers to is there as written. -/
structure Intact (A : ArtifactFormat S) (vault : Vault S) : Prop where
  kept : ∀ entry ∈ vault.db.manifest.segments, ∃ object generation,
    vault.Keeps A entry object generation
  owned : ∀ index ∈ vault.indexes, ∃ entry ∈ vault.db.manifest.segments,
    entry.segmentId = index.segmentId
  recorded : vault.db.manifest.indexes = vault.indexes.map (·.toIndexManifest)

/-! ### Verification -/

theorem validateReadyIndex_iff {artifact : IndexArtifact S}
    (hfile : vault.artifacts[artifact.indexId]? = some artifact)
    (hsource : artifact.sourceSegmentChecksum = object.objectChecksum) :
    vault.validateReadyIndex A (object.indexEntry A generation artifact) = .ok () ↔
      artifact.ReadsBack A := by
  have hid : (object.indexEntry A generation artifact).indexId = artifact.indexId := rfl
  rw [validateReadyIndex, IndexArtifact.ReadsBack]
  cases hagain : artifact.reread A with
  | none =>
    have hread : vault.readIndexArtifact A (object.indexEntry A generation artifact).indexId =
        .error .json := by
      simp only [readIndexArtifact, hid, hfile, hagain]
    rw [hread]
    constructor
    · intro hok
      cases hok
    · rintro ⟨again, hsome, -⟩
      cases hsome
  | some again =>
    have hread : vault.readIndexArtifact A (object.indexEntry A generation artifact).indexId =
        .ok again := by
      simp only [readIndexArtifact, hid, hfile, hagain]
    rw [hread]
    have hsame : again.sourceSegmentChecksum =
        (object.indexEntry A generation artifact).sourceSegmentChecksum :=
      (IndexArtifact.source_reread hagain).trans hsource
    have hpayload : (object.indexEntry A generation artifact).payloadChecksum =
        artifact.payloadChecksum A := rfl
    dsimp only
    rw [hpayload]
    split_ifs with hbad hother
    · constructor
      · intro hok
        cases hok
      · rintro ⟨other, hother, hgood⟩
        obtain rfl := Option.some.inj hother
        exact absurd hgood (not_or.2 hbad)
    · exact absurd hsame hother.2
    · refine iff_of_true rfl ⟨again, rfl, ?_⟩
      by_contra hgood
      exact hbad (not_or.1 hgood)

/-- The indexes of a segment are verified just when its artifacts are read back. -/
theorem Keeps.validateReady_iff (h : vault.Keeps A entry object generation) :
    vault.validateReadyIndexesForSegment A entry.segmentId = .ok () ↔
      ∀ artifact ∈ object.artifacts A generation, artifact.ReadsBack A := by
  have hready : (vault.indexes.filter fun index => index.segmentId = entry.segmentId ∧
      index.state = .ready) =
      (object.artifacts A generation).map (object.indexEntry A generation) := by
    rw [← h.indexes]
    refine List.filter_congr fun index hindex => ?_
    by_cases hid : index.segmentId = entry.segmentId
    · have hmem : index ∈ (object.artifacts A generation).map (object.indexEntry A generation) := by
        rw [← h.indexes]
        exact List.mem_filter.2 ⟨hindex, decide_eq_true hid⟩
      obtain ⟨artifact, -, rfl⟩ := List.mem_map.1 hmem
      exact decide_eq_decide.2 (and_iff_left rfl)
    · exact decide_eq_decide.2 (and_iff_left_of_imp fun hsame => absurd hsame hid)
  rw [validateReadyIndexesForSegment, hready, Except.forM_eq_ok_iff, List.forall_mem_map]
  exact forall₂_congr fun artifact hmem =>
    validateReadyIndex_iff (h.files artifact hmem) (SealedObject.of_mem_artifacts hmem).2

/-! ### Steps -/

theorem intact_initial (dir : String) : (Vault.initial A dir).Intact A where
  kept entry hentry := by cases hentry
  owned index hindex := by cases hindex
  recorded := rfl

/-- The manifest refers to the same artifacts and the segment objects are the same. -/
theorem Intact.withDb (h : vault.Intact A) {db : Db}
    (hfiles : db.disk.segments = vault.db.disk.segments)
    (hsegments : db.manifest.segments = vault.db.manifest.segments)
    (hindexes : db.manifest.indexes = vault.db.manifest.indexes) :
      Intact A { vault with db := db } where
  kept entry hentry := by
    obtain ⟨object, generation, hkeeps⟩ := h.kept entry (hsegments ▸ hentry)
    refine ⟨object, generation, ?_, hkeeps.manifest, hkeeps.indexes, hkeeps.files⟩
    rw [← hkeeps.read]
    exact readSegmentObject_congr (congrArg (·[entry.segmentId]?) hfiles)
  owned index hindex := by
    obtain ⟨entry, hentry, hid⟩ := h.owned index hindex
    exact ⟨entry, hsegments ▸ hentry, hid⟩
  recorded := hindexes.trans h.recorded

/-- Artifacts of a segment that the manifest does not have are written. -/
theorem Keeps.writeArtifacts (h : vault.Keeps A entry object generation)
    {other : SealedObject S} {parent : ℕ} (hnew : entry.segmentId ≠ other.segmentId)
    {artifacts : List (IndexArtifact S)}
    (hartifacts : artifacts.Sublist (other.artifacts A parent)) :
    (vault.writeArtifacts artifacts).Keeps A entry object generation where
  read := h.read
  manifest := h.manifest
  indexes := h.indexes
  files artifact hmem := by
    have hids : (artifacts.map (·.indexId)).Nodup :=
      (hartifacts.map _).nodup SealedObject.nodup_indexIds
    have hid : object.segmentId = entry.segmentId := congrArg (·.segmentId) h.manifest
    refine ((getElem?_foldl_insert_key vault.artifacts hids).2 artifact.indexId
      fun written hwritten => ?_).trans
      (h.files artifact hmem)
    exact SealedObject.indexId_ne (hartifacts.subset hwritten) hmem fun hsame => hnew
      (hid.symm.trans hsame.symm)

/-- An object is written under an id that has none. -/
theorem Keeps.wrote (h : vault.Keeps A entry object generation) {fresh : ℕ}
    (hwrote : vault.Wrote segmentId fresh written) : written.Keeps A entry object generation := by
  rcases hwrote with rfl | ⟨hnone, rfl⟩
  · exact h
  · refine ⟨?_, h.manifest, h.indexes, h.files⟩
    rw [← h.read]
    refine readSegmentObject_congr
      ((Std.ExtTreeMap.getElem?_insert ..).trans (if_neg fun heq => ?_))
    have hid : segmentId = entry.segmentId := compare_eq_iff_eq.1 heq
    have hread := h.read
    rw [readSegmentObject, ← hid, hnone] at hread
    cases hread

theorem Intact.wrote (h : vault.Intact A) {fresh : ℕ}
    (hwrote : vault.Wrote segmentId fresh written) :
    written.Intact A where
  kept entry hentry := by
    have hsame : written.db.manifest.segments = vault.db.manifest.segments :=
      congrArg Manifest.segments hwrote.manifest
    obtain ⟨object, generation, hkeeps⟩ := h.kept entry (hsame ▸ hentry)
    exact ⟨object, generation, hkeeps.wrote hwrote⟩
  owned := by rcases hwrote with rfl | ⟨-, rfl⟩ <;> exact h.owned
  recorded := by rcases hwrote with rfl | ⟨-, rfl⟩ <;> exact h.recorded

/-- Some of the artifacts of an object that the manifest does not have are written. -/
theorem Intact.writeArtifacts (h : vault.Intact A) {other : SealedObject S} {parent : ℕ}
    (hnew : ∀ entry ∈ vault.db.manifest.segments, entry.segmentId ≠ other.segmentId)
    {artifacts : List (IndexArtifact S)}
    (hartifacts : artifacts.Sublist (other.artifacts A parent)) :
    (vault.writeArtifacts artifacts).Intact A where
  kept entry hentry := by
    obtain ⟨object, generation, hkeeps⟩ := h.kept entry hentry
    exact ⟨object, generation, hkeeps.writeArtifacts (hnew entry hentry) hartifacts⟩
  owned := h.owned
  recorded := h.recorded

/-- The manifest of a publication. -/
theorem Intact.withPublication (h : vault.Intact A)
    (hread : readSegmentObject A vault.db.disk object.segmentId = .ok object)
    (hnew : ∀ entry ∈ vault.db.manifest.segments, entry.segmentId ≠ object.segmentId) :
    (vault.withPublication A object keeps).Intact A where
  kept entry hentry := by
    have hnone : (vault.indexes.filter fun index => index.segmentId = object.segmentId) = [] := by
      refine List.filter_eq_nil_iff.2 fun index hindex hid => ?_
      obtain ⟨owner, howner, hsame⟩ := h.owned index hindex
      exact hnew owner howner (hsame.trans (of_decide_eq_true hid))
    have hentries : ∀ id, (((object.artifacts A vault.db.manifest.manifestGeneration).map
        (object.indexEntry A vault.db.manifest.manifestGeneration)).filter
          fun index => index.segmentId = id) =
          if object.segmentId = id
            then (object.artifacts A vault.db.manifest.manifestGeneration).map
            (object.indexEntry A vault.db.manifest.manifestGeneration) else [] := by
      intro id
      split_ifs with hid
      · exact List.filter_eq_self.2 (List.forall_mem_map.2 fun _ _ => decide_eq_true hid)
      · exact List.filter_eq_nil_iff.2
          (List.forall_mem_map.2 fun _ _ hsame => hid (of_decide_eq_true hsame))
    have hmem : entry ∈
        (vault.db.manifest.segments.filter fun segment => keeps segment.segmentId) ++
      [object.manifest] := hentry
    rcases List.mem_append.1 hmem with hold | hlast
    · obtain ⟨hold, hkept⟩ := List.mem_filter.1 hold
      obtain ⟨before, generation, hkeeps⟩ := h.kept entry hold
      refine ⟨before, generation, hkeeps.read, hkeeps.manifest, ?_,
        (hkeeps.writeArtifacts (hnew entry hold) (List.Sublist.refl _)).files⟩
      rw [← hkeeps.indexes]
      show ((vault.indexes.filter fun index => keeps index.segmentId) ++ _).filter _ = _
      rw [List.filter_append, hentries, if_neg fun hsame => hnew entry hold hsame.symm,
        List.append_nil, List.filter_filter]
      refine List.filter_congr fun index _ => ?_
      by_cases hid : index.segmentId = entry.segmentId
      · rw [hid, hkept, Bool.and_true]
      · rw [decide_eq_false hid, Bool.false_and]
    · obtain rfl := List.mem_singleton.1 hlast
      refine ⟨object, vault.db.manifest.manifestGeneration, hread, rfl, ?_,
        (getElem?_foldl_insert_key vault.artifacts SealedObject.nodup_indexIds).1⟩
      show ((vault.indexes.filter fun index => keeps index.segmentId) ++ _).filter _ = _
      rw [List.filter_append, show object.manifest.segmentId = object.segmentId from rfl,
        hentries, if_pos rfl, List.filter_comm, hnone]
      rfl
  owned index hindex := by
    have hmem : index ∈ (vault.indexes.filter fun index => keeps index.segmentId) ++ _ := hindex
    rcases List.mem_append.1 hmem with hold | hnew
    · obtain ⟨hold, hkept⟩ := List.mem_filter.1 hold
      obtain ⟨entry, hentry, hid⟩ := h.owned index hold
      exact ⟨entry, List.mem_append_left _ (List.mem_filter.2 ⟨hentry, hid ▸ hkept⟩), hid⟩
    · obtain ⟨artifact, -, rfl⟩ := List.mem_map.1 hnew
      exact ⟨object.manifest, List.mem_append_right _ List.mem_cons_self, rfl⟩
  recorded := by
    show (vault.db.manifest.indexes.filter fun index => keeps index.segmentId) ++ _ = _
    rw [h.recorded, List.filter_map]
    exact List.map_append.symm

/-- A publication of the visible records, whether it succeeds or not. -/
theorem Intact.publishObject (h : vault.Intact A) (hsound : vault.Sound A)
    (hnew : ∀ entry ∈ vault.db.manifest.segments, entry.segmentId ≠ segmentId) (generation : ℕ)
    (keeps : String → Bool) :
    (vault.publishObject A segmentId generation vault.db.manifest keeps).2.Intact A := by
  obtain ⟨entries, hsync⟩ := hsound.synced
  obtain ⟨written, hwrote, ⟨e, hout⟩ | ⟨object, hread, hout⟩⟩ :=
    publishObject_cases hsync segmentId generation keeps
  · rw [hout]
    exact h.wrote hwrote
  · rw [hout]
    have hname : object.segmentId = segmentId := (hsound.wrote hwrote).named.segmentId_of_read hread
    have hsegments : written.db.manifest.segments = vault.db.manifest.segments :=
      congrArg Manifest.segments hwrote.manifest
    refine (h.wrote hwrote).withPublication (hname.symm ▸ hread) ?_
    rw [hsegments, hname]
    exact hnew

/-- A publication under a new id that is broken off. -/
theorem Intact.abandoned (h : vault.Intact A) (hsound : vault.Sound A)
    (hnew : ∀ entry ∈ vault.db.manifest.segments, entry.segmentId ≠ segmentId) (generation n : ℕ) :
    (vault.abandoned A segmentId generation n).Intact A := by
  rw [Vault.abandoned]
  rcases hpublish : vault.publishSegmentRecords A segmentId generation
    vault.db.segmentRecordsForSnapshot with
    ⟨e | object, written⟩
  · exact h.wrote (publishSegmentRecords_cases hpublish).1
  · obtain ⟨hwrote, hread⟩ := publishSegmentRecords_cases hpublish
    have hname : object.segmentId = segmentId :=
      (hsound.wrote hwrote).named.segmentId_of_read (hread object rfl)
    have hsegments : written.db.manifest.segments = vault.db.manifest.segments :=
      congrArg Manifest.segments hwrote.manifest
    refine (h.wrote hwrote).writeArtifacts ?_ (List.take_sublist n _)
    rw [hsegments, hname]
    exact hnew

/-- Files are removed that the manifest does not refer to. -/
theorem Intact.filtered (h : vault.Intact A) {segment artifact : String → Bool}
    (hsegment : ∀ entry ∈ vault.db.manifest.segments, segment entry.segmentId = true)
    (hartifact : ∀ index ∈ vault.indexes, artifact index.indexId = true) : Intact A { vault with
      db := { vault.db with disk := { vault.db.disk with
        segments := vault.db.disk.segments.filter fun id _ => segment id } }
      artifacts := vault.artifacts.filter fun id _ => artifact id } where
  kept entry hentry := by
    obtain ⟨object, generation, hkeeps⟩ := h.kept entry hentry
    refine ⟨object, generation, ?_, hkeeps.manifest, hkeeps.indexes, fun file hfile => ?_⟩
    · rw [← hkeeps.read]
      refine readSegmentObject_congr (Std.ExtTreeMap.getElem?_filter'.trans ?_)
      rw [hsegment entry hentry]
      cases vault.db.disk.segments[entry.segmentId]? with
      | none => rfl
      | some file => rfl
    · refine Std.ExtTreeMap.getElem?_filter'.trans ?_
      have hindex : object.indexEntry A generation file ∈ vault.indexes := by
        refine List.mem_of_mem_filter (p := fun index => index.segmentId = entry.segmentId) ?_
        rw [hkeeps.indexes]
        exact List.mem_map_of_mem hfile
      rw [hkeeps.files file hfile, Option.filter_some]
      exact if_pos (hartifact _ hindex)
  owned := h.owned
  recorded := h.recorded

/-- A write. -/
theorem Intact.run (h : vault.Intact A) (hsound : vault.Sound A) (op : Op) :
    Intact A { vault with db := (vault.db.run A.toEngineFormat op).2 } := by
  obtain ⟨entries, hsync⟩ := hsound.synced
  obtain ⟨hsegments, hindexes, hfiles⟩ := hsync.refers_run op
  exact h.withDb hfiles hsegments hindexes

/-- A call. -/
theorem Intact.call (h : vault.Intact A) (hsound : vault.Sound A) (call : VaultCall) :
    (call.after A vault).Intact A := by
  obtain ⟨entries, hsync⟩ := hsound.synced
  cases call with
  | run op => exact h.run hsound op
  | publish segmentId =>
    show (vault.publishSegment A segmentId.id).2.Intact A
    by_cases hknown : ∃ segment ∈ vault.db.manifest.segments, segment.segmentId = segmentId.id
    · rw [publishSegment, publishSegment_known hsync hknown]
      exact h
    · push Not at hknown
      rw [publishSegment_new hsync hknown]
      exact h.publishObject hsound hknown _ _
  | compact =>
    show (vault.compact A).2.Intact A
    by_cases hknown : ∃ segment ∈ vault.db.manifest.segments, segment.segmentId = vault.compactId
    · obtain ⟨e, hout⟩ := compact_known hsync hknown
      rw [hout]
      exact h
    · push Not at hknown
      rw [compact_new hsync hknown]
      exact h.publishObject hsound hknown _ _
  | vacuum =>
    show (vault.vacuum A).2.Intact A
    rw [vacuum_eq hsync]
    exact h.filtered (fun entry hentry => decide_eq_true (List.mem_map_of_mem hentry))
      (fun index hindex => decide_eq_true (List.mem_map_of_mem hindex))

/-- A handle that is opened on a directory with these segment objects, whose manifest has these
segments. -/
theorem Intact.opened (h : vault.Intact A) {disk : Disk} {manifest : Manifest}
    {entries : List WalEntry} {whole cut : Bytes}
    (hrec : Recoverable A.toEngineFormat disk manifest entries whole cut)
    (hfiles : disk.segments = vault.db.disk.segments)
    (hsegments : manifest.segments = vault.db.manifest.segments)
    (hindexes : manifest.indexes = vault.db.manifest.indexes) {db : Db}
    (hopen : Db.open A.toEngineFormat disk = .ok db) : Intact A { vault with db := db } := by
  have hcaught : (caughtUp manifest
      (commitsAfterCheckpoint manifest (entries.map (·.commit)))).segments =
      manifest.segments ∧
        (caughtUp manifest (commitsAfterCheckpoint manifest (entries.map (·.commit)))).indexes =
        manifest.indexes := by
    unfold caughtUp
    split
    · exact ⟨rfl, rfl⟩
    · split_ifs <;> exact ⟨rfl, rfl⟩
  obtain ⟨recovered, -, -, -, -, -, ⟨-, hmanifest, -⟩ | ⟨hmanifest, -⟩⟩ := hrec.open_cases hopen
  · exact h.withDb ((segments_open hopen).trans hfiles)
      (hmanifest ▸ hsegments) (hmanifest ▸ hindexes)
  · refine h.withDb ((segments_open hopen).trans hfiles) ?_ ?_
    · rw [hmanifest]
      exact hcaught.1.trans hsegments
    · rw [hmanifest]
      exact hcaught.2.trans hindexes

end Vault

/-- **Every reachable vault is intact.** -/
theorem Vault.Reachable.intact {dir : String} {vault : Vault S} (h : Vault.Reachable A dir vault) :
    vault.Intact A := by
  induction h with
  | initial => exact Vault.intact_initial dir
  | call call hreach ih => exact ih.call hreach.sound call
  | checkpoint hreach hcheckpoint ih =>
    obtain ⟨entries, hsync⟩ := hreach.sound.synced
    rw [hsync.checkpoint_eq] at hcheckpoint
    obtain ⟨-, rfl⟩ := Prod.mk.inj hcheckpoint
    exact ih.withDb rfl rfl rfl
  | reopen hreach hopen ih =>
    obtain ⟨entries, hsync⟩ := hreach.sound.synced
    exact ih.opened hsync.recoverable rfl rfl rfl hopen
  | crash k n hreach hplan hrun hopen ih =>
    obtain ⟨entries, hsync⟩ := hreach.sound.synced
    obtain ⟨hfit, -⟩ := hsync.fits_of_run hplan hrun
    rcases hsync.crash_cases hplan hfit k n with ⟨cut, -, -, -, hrec⟩ |
      ⟨-, manifest, hmanifest, hrec⟩
    · exact ih.opened hrec (segments_crashAt _ _ k n) rfl rfl hopen
    · rcases hmanifest with rfl | ⟨rfl, -⟩
      · exact ih.opened hrec (segments_crashAt _ _ k n) rfl rfl hopen
      · exact ih.opened hrec (segments_crashAt _ _ k n) rfl rfl hopen
  | checkpointCrash k n hreach hopen ih =>
    obtain ⟨entries, hsync⟩ := hreach.sound.synced
    obtain ⟨hsegments, manifest, rfl | rfl, hrec⟩ := hsync.recoverable_checkpointCrash k n
    · exact ih.opened hrec hsegments rfl rfl hopen
    · exact ih.opened hrec hsegments rfl rfl hopen
  | publishCrash segmentId generation n hreach hnew hopen ih =>
    have hleft := ih.abandoned hreach.sound hnew generation n
    obtain ⟨entries, hsync⟩ := (hreach.sound.abandoned segmentId.id generation n).synced
    exact hleft.opened hsync.recoverable rfl rfl rfl hopen
  | @manifestCrash vault _ segmentId generation keeps k n hreach hnew hk hopen ih =>
    obtain ⟨m, bak, tmp, heq⟩ := vault.unpublished_eq (A := A) segmentId.id generation keeps hk n
    rw [heq] at hopen ⊢
    have hsound := (hreach.sound.abandoned segmentId.id generation m).withStaged bak tmp
    have hleft : ((vault.abandoned A segmentId.id generation m).withStaged bak tmp).Intact A :=
      (ih.abandoned hreach.sound hnew generation m).withDb rfl rfl rfl
    obtain ⟨entries, hsync⟩ := hsound.synced
    exact hleft.opened hsync.recoverable rfl rfl rfl hopen
  | @vacuumCrash vault _ segment artifact hreach hopen ih =>
    have hsound : (vault.halfVacuumed segment artifact).Sound A := hreach.sound.filtered _ _
    have hleft : (vault.halfVacuumed segment artifact).Intact A := ih.filtered
      (fun entry hentry => by rw [decide_eq_true (List.mem_map_of_mem hentry), Bool.true_or])
      (fun index hindex => by rw [decide_eq_true (List.mem_map_of_mem hindex), Bool.true_or])
    obtain ⟨entries, hsync⟩ := hsound.synced
    exact hleft.opened hsync.recoverable rfl rfl rfl hopen

/-- **The artifacts of a manifest**: in every run, with crashes and compactions, whatever the
manifest refers to is there: the object of every segment is read and is the one of its entry, the
indexes of the segment are those of this object, and they are verified just when each of its
artifacts is read back with the checksum of what was written. -/
theorem artifacts_intact {dir : String} {vault : Vault S} (h : Vault.Reachable A dir vault) :
    vault.db.manifest.indexes = vault.indexes.map (·.toIndexManifest) ∧
    (∀ index ∈ vault.indexes, ∃ entry ∈ vault.db.manifest.segments,
      entry.segmentId = index.segmentId) ∧
    ∀ entry ∈ vault.db.manifest.segments, ∃ (object : SealedObject S) (generation : ℕ),
      Vault.readSegmentObject A vault.db.disk entry.segmentId = .ok object ∧
      object.manifest = entry ∧
      (vault.indexes.filter fun index => index.segmentId = entry.segmentId) =
        (object.artifacts A generation).map (object.indexEntry A generation) ∧
      (vault.validateReadyIndexesForSegment A entry.segmentId = .ok () ↔
        ∀ artifact ∈ object.artifacts A generation, artifact.ReadsBack A) := by
  have hintact := h.intact
  refine ⟨hintact.recorded, hintact.owned, fun entry hentry => ?_⟩
  obtain ⟨object, generation, hkeeps⟩ := hintact.kept entry hentry
  exact ⟨object, generation, hkeeps.read, hkeeps.manifest, hkeeps.indexes, hkeeps.validateReady_iff⟩

/-- The indexes of the document, in its segment. -/
theorem document_intact :
    ∃ vault : Vault ℚ, vault.indexes ≠ [] ∧ ∃ entry ∈ vault.db.manifest.segments,
      ∃ object : SealedObject ℚ, Vault.readSegmentObject .reference vault.db.disk
        entry.segmentId = .ok object ∧
        object.manifest = entry := by
  obtain ⟨vault, hreach, ⟨entries, hsync⟩, hfresh, hplain, -⟩ := Vault.exists_plain
  obtain ⟨hfile, hnew⟩ := hfresh "s"
  obtain ⟨⟨after, hout⟩, -⟩ := Vault.publishSegment_plain (A := .reference) hsync
    (by decide) hfile hnew hplain
  have hafter : Vault.Reachable .reference "db" after := by
    have hcall := hreach.call (.publish ⟨"s", by decide⟩)
    rwa [VaultCall.after, hout] at hcall
  rw [Vault.publishSegment_new hsync hnew] at hout
  obtain ⟨entry, hadded, -⟩ := Vault.publishObject_faithful hreach.sound hout
  have hentry : entry ∈ after.db.manifest.segments := by
    rw [hadded]
    exact List.mem_append_right _ List.mem_cons_self
  obtain ⟨-, -, hsegments⟩ := artifacts_intact hafter
  obtain ⟨object, generation, hread, hmanifest, hindexes, -⟩ := hsegments entry hentry
  refine ⟨after, fun hempty => ?_, entry, hentry, object, hread, hmanifest⟩
  rw [hempty] at hindexes
  cases hindexes

end TraceDB
