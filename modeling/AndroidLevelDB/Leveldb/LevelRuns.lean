import AndroidLevelDB.Leveldb.LevelCompaction

/-!
# Leveldb/LevelRuns — runs of a database with levels

Every step keeps the invariant (`LeveledDB.Inv.step`), so that it holds behind every run
(`LeveledDB.Inv.run`): whatever was written out, moved and compacted, and in whichever order, the
levels are in order, and what an iterator reads is a store of the acknowledged writes
(`LeveledDB.Inv.store`).
-/

namespace Leveldb

namespace LeveledDB

variable {db : LeveledDB} {h : List Write}

/-! ## Snapshots -/

theorem Inv.getSnapshot (H : db.Inv h) : db.getSnapshot.Inv h := by
  refine H.reread le_rfl H.last_lt ?_ ?_ ?_
  · refine List.pairwise_append.mpr ⟨H.snapshots, List.pairwise_singleton _ _, fun s hs t ht => ?_⟩
    exact (List.mem_singleton.mp ht) ▸ H.snapshots_le s hs
  · exact List.forall_mem_append.mpr ⟨H.snapshots_le, List.forall_mem_singleton.mpr le_rfl⟩
  · rw [smallestSnapshot, List.head?_append]
    cases db.snapshots.head? <;> exact le_rfl

theorem Inv.releaseSnapshot (H : db.Inv h) (index : ℕ) : (db.releaseSnapshot index).Inv h := by
  have hsub : (db.snapshots.eraseIdx index).Sublist db.snapshots := List.eraseIdx_sublist ..
  refine H.reread le_rfl H.last_lt (H.snapshots.sublist hsub)
    (fun s hs => H.snapshots_le s (hsub.subset hs)) ?_
  cases hhead : (db.snapshots.eraseIdx index).head? with
  | none => exact smallestSnapshot_le H
  | some s =>
    -- the oldest of those held before is not newer
    exact H.smallestSnapshot_mem (hsub.subset (List.mem_of_mem_head? hhead))

/-! ## Steps -/

/-- What a step asks for: sequence numbers that are left, a level with one below it, and a compaction
that does not put the versions of a user key into two files, as none does that began without a
snapshot. -/
def Step.Fine (db : LeveledDB) : Step → Prop
  | .write _ batch => db.lastSequence.toNat + batch.ops.length < kMaxSequenceNumber
  | .background pick _ => pick.level + 1 < kNumLevels
  | .finishCompaction env _ => db.SplitsNoKey env ∨ ∀ r ∈ db.running, r.snapshots = []
  | _ => True

/-- **Every step keeps the invariant.** -/
theorem Inv.step (H : db.Inv h) {s : Step} (hs : s.Fine db) {ws : List Write} {db' : LeveledDB}
    (heq : db.step s = some (ws, db')) : db'.Inv (h ++ ws) := by
  have hsame (next : Option LeveledDB) (hnext : next.map (fun db => ([], db)) = some (ws, db'))
      (hinv : ∀ {db'}, next = some db' → Inv db' h) : db'.Inv (h ++ ws) := by
    obtain ⟨d, hd, hd'⟩ := Option.map_eq_some_iff.mp hnext
    cases hd'
    exact (List.append_nil h).symm ▸ hinv hd
  cases s with
  | write addRecord batch =>
    cases Option.some.inj heq
    exact (H.write addRecord batch hs).1
  | switchMemTable newFile => exact hsame _ heq fun hd => H.switchMemTable newFile hd
  | compactMemTable env =>
    exact hsame (db.compactMemTable env) heq fun hd => Option.some.inj hd ▸ H.compactMemTable env
  | background pick logAndApply => exact hsame _ heq fun hd => H.background hs logAndApply hd
  | finishCompaction env logAndApply =>
    exact hsame _ heq fun hd => H.finishCompaction env logAndApply hs hd
  | getSnapshot => exact hsame db.getSnapshot heq fun hd => Option.some.inj hd ▸ H.getSnapshot
  | releaseSnapshot index =>
    exact hsame (db.releaseSnapshot index) heq fun hd => Option.some.inj hd ▸ H.releaseSnapshot index

/-- Every step of a run has what it asks for. -/
def AllFine : List Step → LeveledDB → Prop
  | [], _ => True
  | s :: steps, db => s.Fine db ∧ ∀ next ∈ db.step s, AllFine steps next.2

instance (db : LeveledDB) (env : CompactionEnv) : Decidable (db.SplitsNoKey env) :=
  inferInstanceAs (Decidable (∀ r ∈ db.running, KeysApart _))

instance Step.decidableFine (db : LeveledDB) : DecidablePred (Step.Fine db)
  | .write _ batch =>
    inferInstanceAs (Decidable (db.lastSequence.toNat + batch.ops.length < kMaxSequenceNumber))
  | .background pick _ => inferInstanceAs (Decidable (pick.level + 1 < kNumLevels))
  | .finishCompaction env _ =>
    inferInstanceAs (Decidable (db.SplitsNoKey env ∨ ∀ r ∈ db.running, r.snapshots = []))
  | .switchMemTable _ | .compactMemTable _ | .getSnapshot | .releaseSnapshot _ =>
    inferInstanceAs (Decidable True)

instance decidableAllFine : ∀ (steps : List Step) (db : LeveledDB), Decidable (AllFine steps db)
  | [], _ => inferInstanceAs (Decidable True)
  | s :: steps, db =>
    have := fun next : List Write × LeveledDB => decidableAllFine steps next.2
    inferInstanceAs (Decidable (s.Fine db ∧ ∀ next ∈ db.step s, AllFine steps next.2))

/-- A run is a step and the run behind it. -/
theorem run_cons {s : Step} {steps : List Step} {ws : List Write} {db' : LeveledDB}
    (heq : run (s :: steps) db = some (ws, db')) :
    ∃ ws₁ db₁ ws₂, db.step s = some (ws₁, db₁) ∧ run steps db₁ = some (ws₂, db') ∧
      ws = ws₁ ++ ws₂ := by
  rw [run] at heq
  cases hstep : db.step s with
  | none =>
    rw [hstep] at heq
    cases heq
  | some next =>
    obtain ⟨ws₁, db₁⟩ := next
    rw [hstep] at heq
    dsimp only at heq
    cases hrun : run steps db₁ with
    | none =>
      rw [hrun] at heq
      cases heq
    | some last =>
      obtain ⟨ws₂, db₂⟩ := last
      rw [hrun] at heq
      cases heq
      exact ⟨ws₁, db₁, ws₂, rfl, hrun, rfl⟩

/-- **Every run keeps the invariant.** -/
theorem Inv.run : ∀ {steps : List Step} {db : LeveledDB} {h : List Write}, db.Inv h →
    AllFine steps db → ∀ {ws : List Write} {db' : LeveledDB},
    LeveledDB.run steps db = some (ws, db') → db'.Inv (h ++ ws)
  | [], _, h, H, _, _, _, heq => by
      cases heq
      exact (List.append_nil h).symm ▸ H
  | s :: steps, db, h, H, hfine, ws, db', heq => by
      obtain ⟨ws₁, db₁, ws₂, hstep, hrun, rfl⟩ := run_cons heq
      rw [← List.append_assoc]
      exact (H.step hfine.1 hstep).run (hfine.2 _ hstep) hrun

/-! ## Sequence numbers -/

theorem lastSequence_compactMemTable (env : FlushEnv) (db : LeveledDB) :
    (db.compactMemTable env).lastSequence = db.lastSequence := by
  rw [compactMemTable]
  split
  · rfl
  · dsimp only
    split_ifs <;> rfl

theorem lastSequence_background {pick : Pick} {logAndApply : Status} {db' : LeveledDB}
    (heq : db.background pick logAndApply = some db') : db'.lastSequence = db.lastSequence := by
  rw [background] at heq
  by_cases hbusy : (db.running.isSome || db.imm.isSome) = true
  · rw [if_pos hbusy] at heq
    cases heq
  rw [if_neg hbusy] at heq
  split at heq
  · exact Option.some.inj heq ▸ rfl
  · dsimp only at heq
    split_ifs at heq <;> exact Option.some.inj heq ▸ rfl

theorem lastSequence_finishCompaction {env : CompactionEnv} {logAndApply : Status} {db' : LeveledDB}
    (heq : db.finishCompaction env logAndApply = some db') :
    db'.lastSequence = db.lastSequence := by
  rw [finishCompaction] at heq
  obtain ⟨r, -, rfl⟩ := Option.map_eq_some_iff.mp heq
  dsimp only
  split_ifs <;> rfl

theorem lastSequence_switchMemTable {newFile : Status} {db' : LeveledDB}
    (heq : db.switchMemTable newFile = some db') : db'.lastSequence = db.lastSequence := by
  rw [switchMemTable] at heq
  split_ifs at heq <;> exact Option.some.inj heq ▸ rfl

/-- **A step takes a sequence number for each operation**, and what it writes is newer than all that
was there before. -/
theorem Inv.step_newer (H : db.Inv h) {s : Step} (hs : s.Fine db) {ws : List Write}
    {db' : LeveledDB} (heq : db.step s = some (ws, db')) :
    db'.lastSequence.toNat = db.lastSequence.toNat + s.size ∧
      ∀ w ∈ ws, db.lastSequence.toNat < w.1.toNat := by
  have hsame (next : Option LeveledDB) (hnext : next.map (fun db => ([], db)) = some (ws, db'))
      (hlast : ∀ {db'}, next = some db' → db'.lastSequence = db.lastSequence) :
      db'.lastSequence.toNat = db.lastSequence.toNat + 0 ∧
        ∀ w ∈ ws, db.lastSequence.toNat < w.1.toNat := by
    obtain ⟨d, hd, hd'⟩ := Option.map_eq_some_iff.mp hnext
    cases hd'
    exact ⟨congrArg UInt64.toNat (hlast hd), fun _ hw => (by cases hw)⟩
  cases s with
  | write addRecord batch =>
    obtain ⟨-, -, hnext, -⟩ := write_eq addRecord batch hs
    cases Option.some.inj heq
    refine ⟨(H.write addRecord batch hs).2, fun w hw => ?_⟩
    split_ifs at hw
    · rw [List.mem_singleton.mp hw]
      exact hnext ▸ Nat.lt_succ_self _
    · cases hw
  | switchMemTable newFile => exact hsame _ heq lastSequence_switchMemTable
  | compactMemTable env =>
    exact hsame (db.compactMemTable env) heq
      fun hd => Option.some.inj hd ▸ lastSequence_compactMemTable env db
  | background pick logAndApply => exact hsame _ heq lastSequence_background
  | finishCompaction env logAndApply => exact hsame _ heq lastSequence_finishCompaction
  | getSnapshot => exact hsame db.getSnapshot heq fun hd => Option.some.inj hd ▸ rfl
  | releaseSnapshot index =>
    exact hsame (db.releaseSnapshot index) heq fun hd => Option.some.inj hd ▸ rfl

/-- What a run writes is newer than all that was there before. -/
theorem Inv.run_newer : ∀ {steps : List Step} {db : LeveledDB} {h : List Write}, db.Inv h →
    AllFine steps db → ∀ {ws : List Write} {db' : LeveledDB},
    LeveledDB.run steps db = some (ws, db') → ∀ w ∈ ws, db.lastSequence.toNat < w.1.toNat
  | [], _, _, _, _, _, _, heq, w, hw => by
      cases heq
      cases hw
  | s :: steps, db, h, H, hfine, ws, db', heq, w, hw => by
      obtain ⟨ws₁, db₁, ws₂, hstep, hrun, rfl⟩ := run_cons heq
      obtain ⟨hlast, hnew⟩ := H.step_newer hfine.1 hstep
      have hle : db.lastSequence.toNat ≤ db₁.lastSequence.toNat := hlast ▸ Nat.le_add_right _ _
      rcases List.mem_append.mp hw with hw | hw
      · exact hnew w hw
      · exact hle.trans_lt ((H.step hfine.1 hstep).run_newer (hfine.2 _ hstep) hrun w hw)

/-! ## The store of a database with levels -/

/-- All files of a version. -/
def allFiles (v : VersionFiles) : List FileMetaData := (List.range' 0 kNumLevels).flatMap v

theorem mem_allFiles {v : VersionFiles} (hv : Levels v) {f : FileMetaData} :
    f ∈ allFiles v ↔ ∃ level, f ∈ v level := by
  rw [allFiles, List.mem_flatMap]
  refine ⟨fun ⟨level, _, hf⟩ => ⟨level, hf⟩, fun ⟨level, hf⟩ => ⟨level, ?_, hf⟩⟩
  rw [List.mem_range'_1]
  refine ⟨Nat.zero_le _, ?_⟩
  by_contra hge
  rw [hv.empty level (by omega)] at hf
  cases hf

theorem nodup_allFiles {v : VersionFiles} (hv : Levels v) : (allFiles v).Nodup := by
  refine List.pairwise_flatMap.mpr ⟨fun level _ => hv.nodup level, ?_⟩
  refine (List.nodup_range' (n := kNumLevels)).imp fun hne f hf g hg heq => hne ?_
  exact (hv.numbers _ _ f hf g hg (heq ▸ rfl)).1

/-- An iterator over a version goes through all files. -/
theorem stored_addIterators {v : VersionFiles} (hv : Levels v) :
    (addIterators v).flatMap (fun src => src.cells.flatMap Cell.stored)
      = (allFiles v).flatMap FileMetaData.stored := by
  have hlevels : ∀ levels : List ℕ,
      (((levels.map v).filter fun files => !files.isEmpty).map concatenating).flatMap
        (fun src => src.cells.flatMap Cell.stored)
        = (levels.flatMap v).flatMap FileMetaData.stored := by
    intro levels
    induction levels with
    | nil => rfl
    | cons level levels ih =>
      rw [List.map_cons, List.flatMap_cons, List.flatMap_append, ← ih, List.filter_cons]
      cases hnil : (v level).isEmpty with
      | true => simp [List.isEmpty_iff.mp hnil]
      | false =>
        rw [Bool.not_false, if_pos rfl, List.map_cons, List.flatMap_cons,
          concatenating_eq fun f hf => hv.built level f hf, DBImpl.stored_memSource]
  have hrange : List.range' 0 kNumLevels = 0 :: List.range' 1 (kNumLevels - 1) := rfl
  rw [addIterators, List.flatMap_append, hlevels, allFiles, hrange, List.flatMap_cons,
    List.flatMap_append, List.flatMap_map]
  rfl

/-- What an iterator reads is what the database holds. -/
theorem stored_toDBImpl (hv : Levels db.version) : db.toDBImpl.stored
    = db.mem ++ (db.imm.getD [] ++ (allFiles db.version).flatMap FileMetaData.stored) := by
  rw [DBImpl.stored_eq]
  exact congrArg _ (congrArg _ (stored_addIterators hv))

theorem mem_stored (hv : Levels db.version) {e : Entry} : e ∈ db.toDBImpl.stored ↔ db.Holds e := by
  rw [stored_toDBImpl hv, List.mem_append, List.mem_append, List.mem_flatMap]
  refine or_congr_right (or_congr_right ?_)
  simp only [mem_allFiles hv]
  exact ⟨fun ⟨f, ⟨level, hf⟩, he⟩ => ⟨level, f, hf, he⟩,
    fun ⟨level, f, hf, he⟩ => ⟨f, ⟨level, hf⟩, he⟩⟩

/-- No entry is there twice. -/
theorem Inv.nodup_stored (H : db.Inv h) : db.toDBImpl.stored.Nodup := by
  rw [stored_toDBImpl H.levels]
  have hfiles : ((allFiles db.version).flatMap FileMetaData.stored).Nodup := by
    refine List.pairwise_flatMap.mpr ⟨fun f hf => ?_, ?_⟩
    · obtain ⟨level, hf⟩ := (mem_allFiles H.levels).mp hf
      exact KeySorted.nodup (H.levels.built level f hf).sorted
    · refine (nodup_allFiles H.levels).imp_of_mem fun {f g} hf hg hne e he e' he' => ?_
      obtain ⟨i, hf⟩ := (mem_allFiles H.levels).mp hf
      obtain ⟨j, hg⟩ := (mem_allFiles H.levels).mp hg
      rcases H.levels.above_or hf hg hne with ha | ha
      · exact ha.disjoint e he e' he'
      · exact (ha.disjoint e' he' e he).symm
  have hbelow {es : List Entry} (hes : ∀ level, ∀ f ∈ db.version level, Above es f.stored) :
      ∀ e ∈ es, ∀ e' ∈ (allFiles db.version).flatMap FileMetaData.stored, e ≠ e' := by
    intro e he e' he'
    obtain ⟨f, hf, he'⟩ := List.mem_flatMap.mp he'
    obtain ⟨level, hf⟩ := (mem_allFiles H.levels).mp hf
    exact (hes level f hf).disjoint e he e' he'
  refine List.nodup_append.mpr ⟨KeySorted.nodup H.mem_sorted, List.nodup_append.mpr
    ⟨KeySorted.nodup H.imm_sorted, hfiles, hbelow H.imm_files⟩, fun e he e' he' => ?_⟩
  rcases List.mem_append.mp he' with he' | he'
  · exact H.mem_imm.disjoint e he e' he'
  · exact hbelow H.mem_files e he e' he'

/-- Every source is sorted, and can be read. -/
theorem Inv.source_eq (H : db.Inv h) {src : Source} (hs : src ∈ db.toDBImpl.sources) :
    ∃ es, src = DBImpl.memSource es ∧ KeySorted Entry.rank es := by
  rw [DBImpl.sources, List.cons_append, List.mem_cons, List.mem_append] at hs
  rcases hs with rfl | hs | hs
  · exact ⟨_, rfl, H.mem_sorted⟩
  · obtain ⟨imm, himm, rfl⟩ := Option.map_eq_some_iff.mp (Option.mem_toList.mp hs)
    have himm' : db.imm = some imm := himm
    have hsorted := H.imm_sorted
    rw [himm', Option.getD_some] at hsorted
    exact ⟨imm, rfl, hsorted⟩
  · rcases List.mem_append.mp hs with hs | hs
    · obtain ⟨f, hf, rfl⟩ := List.mem_map.mp hs
      exact ⟨_, (H.levels.built 0 f hf).source_eq, (H.levels.built 0 f hf).sorted⟩
    · obtain ⟨files, hfiles, rfl⟩ := List.mem_map.mp hs
      obtain ⟨level, hlevel, rfl⟩ := List.mem_map.mp (List.mem_filter.mp hfiles).1
      exact ⟨_, concatenating_eq fun f hf => H.levels.built level f hf,
        H.levels.stored_sorted (List.mem_range'_1.mp hlevel).1 (List.Sublist.refl _)⟩

/-- **What an iterator reads is a store.** -/
def Inv.store (H : db.Inv h) : Store where
  toDBImpl := db.toDBImpl
  sorted := fun src hs => by
    obtain ⟨es, rfl, hes⟩ := H.source_eq hs
    exact sorted_memSource hes
  wellFormed := fun e he =>
    (H.ordered.entries_spec H.last_lt.le).1 e (H.history e ((mem_stored H.levels).mp he))
  distinct := H.nodup_stored.imp_of_mem fun he he' hne hver => hne
    (eq_of_seq_eq H.ordered H.last_lt.le (H.history _ ((mem_stored H.levels).mp he))
      (H.history _ ((mem_stored H.levels).mp he')) hver.2)
  lastSequence_le := H.last_lt.le

theorem Inv.readable (H : db.Inv h) : H.store.Readable := by
  intro src hs
  obtain ⟨es, rfl, -⟩ := H.source_eq hs
  refine ⟨rfl, fun c hc => ?_⟩
  obtain ⟨e, -, rfl⟩ := List.mem_map.mp hc
  rfl

/-- **A reader finds the state behind the operations up to its sequence number.** -/
theorem Inv.reads_store (H : db.Inv h) {s : ℕ} (hs : db.smallestSnapshot ≤ s) (key : Bytes) :
    Version.Reads H.store.versions s key
      (Version.state ((h.flatMap Write.versions).filter (·.seq ≤ s)) key) := by
  have hversions : H.store.versions = db.versions :=
    Set.ext fun v => exists_congr fun e => and_congr_left fun _ => mem_stored H.levels
  rw [hversions, H.reads s hs]
  exact Version.reads_state H.ordered.versions_ascend s key

/-- **Behind every run the levels are in order**: above level 0 the files are sorted and do not
overlap, a user key's versions are newer the further up they are, and what a running compaction reads
is still there. -/
theorem levels_run {steps : List Step} (hfine : AllFine steps create) {ws : List Write}
    {db : LeveledDB} (hrun : run steps create = some (ws, db)) :
    Levels db.version ∧ (∀ level, 0 < level → LevelSorted (db.version level)) ∧
      ∀ r ∈ db.running, ∀ level, ∀ f ∈ r.compaction.inputVersion level, f ∈ db.version level := by
  have H := inv_create.run hfine hrun
  exact ⟨H.levels, fun _ hl => H.levels.sorted hl, fun r hr => (H.running r hr).kept⟩

/-! ## A run -/

/-- A put of a short key. -/
def putBatch (k : UInt8) : RecordedBatch where
  toWriteBatch := WriteBatch.new.put [k] [10]
  ops := [.put [k] [10]]
  encodes := WriteBatch.encodes_new.put (Nat.one_lt_two_pow (by decide)) (by decide) (by decide)
  count_lt := Nat.one_lt_two_pow (by decide)

/-- A deletion of a short key. -/
def deleteBatch (k : UInt8) : RecordedBatch where
  toWriteBatch := WriteBatch.new.delete [k]
  ops := [.delete [k]]
  encodes := WriteBatch.encodes_new.delete (Nat.one_lt_two_pow (by decide)) (by decide)
  count_lt := Nat.one_lt_two_pow (by decide)

/-- Batches are written, and the memtable with them is written out. -/
def writeOut (batches : List RecordedBatch) : List Step :=
  batches.map (.write .OK) ++
    [.switchMemTable .OK, .compactMemTable ⟨fun mem => mem.length, .OK, false, .OK⟩]

/-- Nothing fails; an output is closed behind a deletion if `closes` holds. -/
def exampleCompaction (closes : Bool) : CompactionEnv where
  fileSize es :=
    if closes && es.getLast?.any fun e => e.value.isEmpty then kTargetFileSize else es.length
  newWritableFile _ := .OK
  finish _ := .OK
  shuttingDown _ := false
  shuttingDown_mono _ h := h

/-- A put, a deletion, and a compaction of both while there are further writes. -/
def exampleRun : List Step :=
  writeOut [putBatch 2, putBatch 3] ++ writeOut [deleteBatch 2] ++
    [.background (.size 1) .OK, .write .OK (putBatch 4),
      .finishCompaction (exampleCompaction false) .OK]

theorem levels_run_example : ∃ ws db, run exampleRun create = some (ws, db) ∧
    Levels db.version ∧ (∀ level, 0 < level → LevelSorted (db.version level)) ∧
      ∀ r ∈ db.running, ∀ level, ∀ f ∈ r.compaction.inputVersion level, f ∈ db.version level := by
  obtain ⟨⟨ws, db⟩, hrun⟩ := Option.isSome_iff_exists.mp
    (show (run exampleRun create).isSome = true by decide +kernel)
  exact ⟨ws, db, hrun, levels_run (by decide +kernel) hrun⟩

end LeveledDB

end Leveldb
