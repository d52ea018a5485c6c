import AndroidLevelDB.Leveldb.Durability
import AndroidLevelDB.Leveldb.LeveledDb
import AndroidLevelDB.Leveldb.Levels

/-!
# Leveldb/LevelInvariant — what a database with levels keeps

`LeveledDB.Inv` says that the levels are in order below the memtables, and that a reader finds in
them what the history of writes holds, at every sequence number that is still read at.
-/

namespace Leveldb

namespace LeveledDB

@[simp] theorem stored_fileOf (tables : ℕ → List Entry) (f : FileRecord) :
    (fileOf tables f).stored = tables f.number := by
  rw [FileMetaData.stored, fileOf, List.flatMap_map]
  exact List.flatMap_singleton' _

theorem mem_version {db : LeveledDB} {level : ℕ} {f : FileMetaData} :
    f ∈ db.version level ↔ ∃ r ∈ db.current level, fileOf db.tables r = f := List.mem_map

/-- An entry that is in the memtables or in a file. -/
def Holds (db : LeveledDB) (e : Entry) : Prop :=
  e ∈ db.mem ∨ e ∈ db.imm.getD [] ∨ ∃ level, ∃ f ∈ db.version level, e ∈ f.stored

/-- The versions in the database. -/
def versions (db : LeveledDB) : Set (Version Bytes Bytes) := {v | ∃ e, db.Holds e ∧ e.version = v}

/-- **What a running compaction relies on**: its inputs are still there, and the files that came
since are newer than the inputs, and do not overlap them unless they are above them. -/
structure Runs (db : LeveledDB) (r : RunningCompaction) : Prop where
  smallestSnapshot : r.smallestSnapshot ≤ db.smallestSnapshot
  level_lt : r.compaction.level + 1 < kNumLevels
  levels : Levels r.compaction.inputVersion
  picked : Picked r.compaction.inputVersion r.compaction.level r.compaction.inputs0
    r.compaction.inputs1
  levelPtrs : r.compaction.levelPtrs = fun _ => 0
  kept : ∀ level, ∀ f ∈ r.compaction.inputVersion level, f ∈ db.version level
  newer : ∀ level, ∀ g ∈ db.version level, g ∉ r.compaction.inputVersion level →
    ∀ f ∈ r.compaction.inputs0 ++ r.compaction.inputs1, Above g.stored f.stored
  beside : ∀ level, 0 < level → ∀ g ∈ db.version level, g ∉ r.compaction.inputVersion level →
    ∀ i ≤ level, ∀ f ∈ r.compaction.inputVersion i, ¬ f.Overlaps g
  seq_le : ∀ f ∈ r.compaction.inputs0 ++ r.compaction.inputs1, ∀ e ∈ f.stored,
    e.version.seq ≤ r.lastSequence

/-- A compaction runs on as long as the files remain and no older sequence number is read at. -/
theorem Runs.congr {db db' : LeveledDB} {r : RunningCompaction} (R : db.Runs r)
    (hv : db'.version = db.version) (hs : db.smallestSnapshot ≤ db'.smallestSnapshot) :
    db'.Runs r where
  smallestSnapshot := R.smallestSnapshot.trans hs
  level_lt := R.level_lt
  levels := R.levels
  picked := R.picked
  levelPtrs := R.levelPtrs
  kept := hv ▸ R.kept
  newer := hv ▸ R.newer
  beside := hv ▸ R.beside
  seq_le := R.seq_le

/-- **The invariant of a database with levels** that has received the writes `h`. -/
structure Inv (db : LeveledDB) (h : List Write) : Prop where
  ordered : Ordered h db.lastSequence.toNat
  last_lt : db.lastSequence.toNat < kMaxSequenceNumber
  levels : Levels db.version
  numbers_lt : ∀ level, ∀ f ∈ db.version level, f.number < db.nextFileNumber
  mem_sorted : KeySorted Entry.rank db.mem
  imm_sorted : KeySorted Entry.rank (db.imm.getD [])
  mem_imm : Above db.mem (db.imm.getD [])
  mem_files : ∀ level, ∀ f ∈ db.version level, Above db.mem f.stored
  imm_files : ∀ level, ∀ f ∈ db.version level, Above (db.imm.getD []) f.stored
  history : ∀ e, db.Holds e → e ∈ h.flatMap Write.entries
  snapshots : db.snapshots.Pairwise (· ≤ ·)
  snapshots_le : ∀ s ∈ db.snapshots, s ≤ db.lastSequence.toNat
  reads : ∀ s, db.smallestSnapshot ≤ s → ∀ k r, Version.Reads db.versions s k r ↔
    Version.Reads {v | v ∈ h.flatMap Write.versions} s k r
  running : ∀ r ∈ db.running, db.Runs r

/-! ## Edits -/

/-- **What `LogAndApply` makes of the files**: those of the edit come to their level, and those it
deletes go. -/
theorem replaces_logAndApply {current : Files} {tables tables' : ℕ → List Entry}
    {edit : Manifest.VersionEdit} {p : ℕ} {new : List FileMetaData}
    (hsorted : ∀ level, KeySorted FileRecord.rank (current level))
    (hedit : edit.newFiles = new.map fun f => (p, f.toFileRecord))
    (hfresh : ∀ f ∈ new, ∀ g ∈ current p, g.number ≠ f.number)
    (hnumbers : new.Pairwise fun f g => f.number ≠ g.number)
    (hnew : ∀ f ∈ new, fileOf tables' f.toFileRecord = f)
    (hold : ∀ level, ∀ r ∈ current level, tables' r.number = tables r.number) :
    Replaces (fun level => (current level).map (fileOf tables))
      (fun level => (((Builder.new current).apply edit).saveTo level).map (fileOf tables'))
      (fun level f => (level, f.number) ∈ edit.deletedFiles.files) p new := by
  have hknown (level : ℕ) (r : FileRecord) : (Builder.new current).Known level r ↔
      r ∈ current level := by simp [Builder.Known, Builder.new]
  have hok : (Builder.new current).Ok := Builder.ok_new hsorted
  have hf : Builder.Fresh (Builder.new current).Known edit.newFiles := by
    rw [hedit]
    refine ⟨fun q hq g hg => ?_,
      List.pairwise_map.mpr (hnumbers.imp fun {f g} (hne : f.number ≠ g.number) _ => hne)⟩
    obtain ⟨f, hf, rfl⟩ := List.mem_map.mp hq
    exact hfresh f hf g ((hknown _ _).mp hg)
  obtain ⟨hok', -, hlevels⟩ := Builder.apply_spec hok hf
  have hfile (level : ℕ) {r : FileRecord} (hr : r ∈ current level) :
      fileOf tables' r = fileOf tables r := by rw [fileOf, hold level r hr, fileOf]
  have hmem (level : ℕ) (r : FileRecord) : (level, r) ∈ edit.newFiles ↔
      level = p ∧ ∃ f ∈ new, f.toFileRecord = r := by
    rw [hedit, List.mem_map]
    simp only [Prod.mk.injEq]
    constructor
    · rintro ⟨f, hf, rfl, hr⟩
      exact ⟨rfl, f, hf, hr⟩
    · rintro ⟨rfl, f, hf, hr⟩
      exact ⟨f, hf, rfl, hr⟩
  have hsave (level : ℕ) (r : FileRecord) : r ∈ ((Builder.new current).apply edit).saveTo level ↔
      r ∈ current level ∧ (level, r.number) ∉ edit.deletedFiles.files ∨
        level = p ∧ ∃ f ∈ new, f.toFileRecord = r := by
    rw [Builder.mem_saveTo, (hlevels level).1, (hlevels level).2, hknown, ← hmem]
    have hempty : r.number ∉ ((Builder.new current).levels level).deletedFiles := by
      simp [Builder.new]
    have hself : (level, r) ∈ edit.newFiles → ¬ ∀ g, (level, g) ∈ edit.newFiles →
        g.number ≠ r.number := fun hr hall => hall r hr rfl
    have hother : r ∈ current level → ∀ g, (level, g) ∈ edit.newFiles → g.number ≠ r.number := by
      intro hr g hg
      obtain ⟨rfl, f, hf, rfl⟩ := (hmem level g).mp hg
      exact (hfresh f hf r hr).symm
    tauto
  refine ⟨fun level f => ?_, fun level => List.pairwise_map.mpr (Builder.saveTo_sorted hok' level)⟩
  simp only [List.mem_map, hsave]
  constructor
  · rintro ⟨r, ⟨hr, hd⟩ | ⟨rfl, g, hg, rfl⟩, rfl⟩
    · exact .inl ⟨⟨r, hr, (hfile level hr).symm⟩, hd⟩
    · exact .inr ⟨rfl, by rw [hnew g hg]; exact hg⟩
  · rintro (⟨⟨r, hr, rfl⟩, hd⟩ | ⟨rfl, hf⟩)
    · exact ⟨r, .inl ⟨hr, hd⟩, hfile level hr⟩
    · exact ⟨f.toFileRecord, .inr ⟨rfl, f, hf, rfl⟩, hnew f hf⟩

/-- An edit that only adds files. -/
theorem replaces_newFiles {current : Files} {tables tables' : ℕ → List Entry}
    {newFiles : List (ℕ × FileRecord)} {p : ℕ} {new : List FileMetaData}
    (hsorted : ∀ level, KeySorted FileRecord.rank (current level))
    (hedit : newFiles = new.map fun f => (p, f.toFileRecord))
    (hfresh : ∀ f ∈ new, ∀ g ∈ current p, g.number ≠ f.number)
    (hnumbers : new.Pairwise fun f g => f.number ≠ g.number)
    (hnew : ∀ f ∈ new, fileOf tables' f.toFileRecord = f)
    (hold : ∀ level, ∀ r ∈ current level, tables' r.number = tables r.number) :
    Replaces (fun level => (current level).map (fileOf tables))
      (fun level => (((Builder.new current).apply
        { Manifest.VersionEdit.clear with newFiles := newFiles }).saveTo level).map (fileOf tables'))
      (fun _ _ => False) p new := by
  obtain ⟨hmem, hrank⟩ := @replaces_logAndApply current tables tables'
    { Manifest.VersionEdit.clear with newFiles := newFiles } p new hsorted hedit hfresh hnumbers
    hnew hold
  refine ⟨fun level f => (hmem level f).trans (or_congr_left ?_), hrank⟩
  exact and_congr_right fun _ => not_congr (iff_of_false List.not_mem_nil not_false)

/-! ## The history -/

section OfHistory

variable {h : List Write} {last : ℕ}

/-- Entries of a history are told apart by their sequence numbers. -/
theorem eq_of_seq_eq (ho : Ordered h last) (hl : last ≤ kMaxSequenceNumber) {e e' : Entry}
    (he : e ∈ h.flatMap Write.entries) (he' : e' ∈ h.flatMap Write.entries)
    (hseq : e.version.seq = e'.version.seq) : e = e' := by
  have hp := ho.versions_ascend
  rw [← (ho.entries_spec hl).2, List.pairwise_map] at hp
  have hsorted : KeySorted (fun e : Entry => e.version.seq) (h.flatMap Write.entries) := hp
  exact hsorted.eq_of_key_eq he he' hseq

theorem mem_history_seq (ho : Ordered h last) (hl : last ≤ kMaxSequenceNumber) {e : Entry}
    (he : e ∈ h.flatMap Write.entries) : e.version.seq ≤ last := by
  refine ho.seq_le ?_
  rw [← (ho.entries_spec hl).2]
  exact List.mem_map_of_mem he

/-- Entries of a history that ascend are strictly sorted, if none is there twice. -/
theorem keySorted_of_ascending (ho : Ordered h last) (hl : last ≤ kMaxSequenceNumber)
    {mem : MemTable} (hasc : mem.Ascending) (hnodup : mem.Nodup)
    (hmem : ∀ e ∈ mem, e ∈ h.flatMap Write.entries) : KeySorted Entry.rank mem := by
  have hwf := (ho.entries_spec hl).1
  refine (hasc.and hnodup).imp_of_mem fun {a b} ha hb ⟨hle, hne⟩ => lt_of_le_of_ne hle fun heq => ?_
  have hv := Entry.version_eq_of_rank_eq (hwf a (hmem a ha)) (hwf b (hmem b hb)) heq
  exact hne (eq_of_seq_eq ho hl (hmem a ha) (hmem b hb) hv.2)

/-- The versions of a history. -/
theorem versions_history (ho : Ordered h last) (hl : last ≤ kMaxSequenceNumber) :
    {v | v ∈ h.flatMap Write.versions} = versionsOf (h.flatMap Write.entries) := by
  rw [← (ho.entries_spec hl).2]
  exact Set.ext fun v => List.mem_map

end OfHistory

theorem KeySorted.nodup {mem : MemTable} (h : KeySorted Entry.rank mem) : mem.Nodup :=
  h.imp fun hlt heq => hlt.ne (congrArg Entry.rank heq)

/-! ## Writes -/

theorem inv_create : create.Inv [] := by
  have hnone (level : ℕ) (f : FileMetaData) : f ∉ create.version level := fun hf => (by cases hf)
  refine ⟨⟨List.Pairwise.nil, fun _ hw => (by cases hw), fun _ hw => (by cases hw)⟩, by decide,
    ⟨fun _ _ => rfl, fun _ f hf => absurd hf (hnone _ f), fun _ => List.Pairwise.nil,
      fun _ _ f hf => absurd hf (hnone _ f), fun _ _ f hf => absurd hf (hnone _ f),
      fun _ _ f hf => absurd hf (hnone _ f)⟩,
    fun _ f hf => absurd hf (hnone _ f), List.Pairwise.nil, List.Pairwise.nil,
    above_iff.mpr fun _ he => (by cases he), fun _ f hf => absurd hf (hnone _ f),
    fun _ f hf => absurd hf (hnone _ f), fun e he => ?_, List.Pairwise.nil,
    fun _ hs => (by cases hs), fun s _ k r => ?_, fun _ hr => (by cases hr)⟩
  · rcases he with he | he | ⟨level, f, hf, -⟩
    · cases he
    · cases he
    · exact absurd hf (hnone level f)
  · refine Version.reads_congr (fun e _ => iff_of_false ?_ (by simp)) k r
    rintro ⟨e, he | he | ⟨level, f, hf, -⟩, -⟩
    · cases he
    · cases he
    · exact absurd hf (hnone level f)

section Write

variable {db : LeveledDB} {h : List Write}

/-- The memtable behind a write. -/
theorem write_eq (addRecord : Status) (batch : RecordedBatch)
    (hmax : db.lastSequence.toNat + batch.ops.length < kMaxSequenceNumber) :
    ∃ last : UInt64, last.toNat = db.lastSequence.toNat + batch.ops.length ∧
      (db.lastSequence + 1).toNat = db.lastSequence.toNat + 1 ∧
      (db.write addRecord batch.toWriteBatch) = if addRecord.ok then
        (.OK, { db with
          mem := (batch.ops.foldl memTableInserter.apply (db.lastSequence + 1, db.mem)).2
          lastSequence := last })
      else (addRecord, { db with lastSequence := last }) := by
  have hbound : kMaxSequenceNumber + 2 < 2 ^ 64 := by decide
  have hn := batch.count_lt
  have hlog := LoggedDB.logged_setSequence batch.encodes hn (db.lastSequence + 1)
  have hiter : WriteBatch.insertInto (batch.setSequence (db.lastSequence + 1).toNat) db.mem
      = (.OK, (batch.ops.foldl memTableInserter.apply (db.lastSequence + 1, db.mem)).2) := by
    rw [WriteBatch.insertInto, hlog.encodes.iterate hn, hlog.sequence]
  have hcount : UInt64.ofInt (batch.setSequence (db.lastSequence + 1).toNat).count
      = .ofNat batch.ops.length := by
    rw [WriteBatch.Encodes.count_eq hlog.encodes hn, ofInt_natCast]
  have hlen : (UInt64.ofNat batch.ops.length).toNat = batch.ops.length :=
    UInt64.toNat_ofNat_of_lt' (lt_trans hn (by decide))
  refine ⟨db.lastSequence + .ofNat batch.ops.length, ?_, ?_, ?_⟩
  · rw [UInt64.toNat_add, hlen, Nat.mod_eq_of_lt (by omega)]
  · rw [UInt64.toNat_add, UInt64.toNat_one, Nat.mod_eq_of_lt (by omega)]
  · rw [write]
    simp only [hcount, hiter]
    split_ifs <;> rfl

/-- What is read at remains, if no older sequence number is to be read at. -/
theorem Inv.reread (H : db.Inv h) {last : UInt64} {snapshots : List ℕ}
    (hle : db.lastSequence.toNat ≤ last.toNat) (hlt : last.toNat < kMaxSequenceNumber)
    (hs : snapshots.Pairwise (· ≤ ·)) (hsle : ∀ s ∈ snapshots, s ≤ last.toNat)
    (hmono : db.smallestSnapshot ≤ snapshots.head?.getD last.toNat) :
    Inv { db with lastSequence := last, snapshots := snapshots } h where
  ordered := H.ordered.mono hle
  last_lt := hlt
  levels := H.levels
  numbers_lt := H.numbers_lt
  mem_sorted := H.mem_sorted
  imm_sorted := H.imm_sorted
  mem_imm := H.mem_imm
  mem_files := H.mem_files
  imm_files := H.imm_files
  history := H.history
  snapshots := hs
  snapshots_le := hsle
  reads := fun s hs => H.reads s (hmono.trans hs)
  running := fun r hr => (H.running r hr).congr rfl hmono

theorem smallestSnapshot_le (H : db.Inv h) : db.smallestSnapshot ≤ db.lastSequence.toNat := by
  rw [smallestSnapshot]
  cases hs : db.snapshots.head? with
  | none => exact le_rfl
  | some s => exact H.snapshots_le s (List.mem_of_mem_head? hs)

/-- No snapshot that is held is older than the oldest one. -/
theorem Inv.smallestSnapshot_mem (H : db.Inv h) {s : ℕ} (hs : s ∈ db.snapshots) :
    db.smallestSnapshot ≤ s := by
  have hsorted := H.snapshots
  rw [smallestSnapshot]
  cases hall : db.snapshots with
  | nil =>
    rw [hall] at hs
    cases hs
  | cons t rest =>
    rw [hall] at hs hsorted
    rcases List.mem_cons.mp hs with rfl | hs
    · exact le_rfl
    · exact (List.pairwise_cons.mp hsorted).1 s hs

/-- A larger last sequence number. -/
theorem smallestSnapshot_mono {last : UInt64} (hle : db.lastSequence.toNat ≤ last.toNat) :
    db.smallestSnapshot ≤ db.snapshots.head?.getD last.toNat := by
  rw [smallestSnapshot]
  cases db.snapshots.head? with
  | none => exact hle
  | some s => exact le_rfl

/-- The entries of a write are newer than all that was there. -/
theorem above_write (ho : Ordered h db.lastSequence.toNat)
    (hl : db.lastSequence.toNat ≤ kMaxSequenceNumber) {w : Write}
    (hw : w.1.toNat = db.lastSequence.toNat + 1)
    (hwl : w.1.toNat + w.2.length ≤ kMaxSequenceNumber + 1) {es : List Entry}
    (hes : ∀ e ∈ es, e ∈ h.flatMap Write.entries) :
    ∀ e ∈ w.entries, ∀ e' ∈ es, e'.version.seq < e.version.seq := by
  intro e he e' he'
  have hmem : e.version ∈ opVersions w.1.toNat w.2 := by
    rw [← (opEntries_spec w.2 w.1 hwl).2]
    exact List.mem_map_of_mem he
  have h1 := mem_opVersions_seq _ hmem
  have h2 := mem_history_seq ho hl (hes e' he')
  omega

/-- **A write is on top of everything.** -/
theorem Inv.add (H : db.Inv h) {w : Write} {mem : MemTable} {last : UInt64}
    (hw : w.1.toNat = db.lastSequence.toNat + 1)
    (hlast : last.toNat = db.lastSequence.toNat + w.2.length)
    (hmax : last.toNat < kMaxSequenceNumber) (hperm : mem.Perm (w.entries ++ db.mem))
    (hasc : mem.Ascending) : Inv { db with mem := mem, lastSequence := last } (h ++ [w]) := by
  have hl : db.lastSequence.toNat ≤ kMaxSequenceNumber := H.last_lt.le
  have hle : db.lastSequence.toNat ≤ last.toNat := hlast ▸ Nat.le_add_right _ _
  have hwl : w.1.toNat + w.2.length ≤ kMaxSequenceNumber + 1 := by omega
  have hnew {es : List Entry} (hes : ∀ e ∈ es, e ∈ h.flatMap Write.entries) :=
    above_write H.ordered hl hw hwl hes
  have habove {es : List Entry} (hes : ∀ e ∈ es, e ∈ h.flatMap Write.entries) :
      Above w.entries es := above_iff.mpr fun e he e' he' _ => hnew hes e he e' he'
  have hho : Ordered (h ++ [w]) last.toNat :=
    (H.ordered.append (w := w) (by omega)).mono (by omega)
  have hhl : last.toNat ≤ kMaxSequenceNumber := hmax.le
  have hentries : (h ++ [w]).flatMap Write.entries = h.flatMap Write.entries ++ w.entries := by
    rw [List.flatMap_append, List.flatMap_singleton]
  have hholds (e : Entry) : Holds { db with mem := mem, lastSequence := last } e ↔
      e ∈ w.entries ∨ db.Holds e :=
    (or_congr_left (hperm.mem_iff.trans List.mem_append)).trans or_assoc
  have hinh : ∀ e, e ∈ w.entries ∨ db.Holds e → e ∈ (h ++ [w]).flatMap Write.entries := by
    intro e he
    rw [hentries]
    exact he.elim (List.mem_append_right _) fun he => List.mem_append_left _ (H.history e he)
  have hversions : versions { db with mem := mem, lastSequence := last }
      = versionsOf w.entries ∪ db.versions := by
    refine Set.ext fun v => ⟨?_, ?_⟩
    · rintro ⟨e, he, rfl⟩
      exact ((hholds e).mp he).imp (fun he => ⟨e, he, rfl⟩) fun he => ⟨e, he, rfl⟩
    · rintro (⟨e, he, rfl⟩ | ⟨e, he, rfl⟩)
      · exact ⟨e, (hholds e).mpr (.inl he), rfl⟩
      · exact ⟨e, (hholds e).mpr (.inr he), rfl⟩
  have hhistory : {v | v ∈ (h ++ [w]).flatMap Write.versions}
      = versionsOf w.entries ∪ {v | v ∈ h.flatMap Write.versions} := by
    rw [versions_history hho hhl, versions_history H.ordered hl, hentries]
    exact Set.ext fun v => by simp [mem_versionsOf, or_and_right, exists_or, or_comm]
  have hnodup : mem.Nodup := by
    refine hperm.nodup_iff.mpr (List.nodup_append.mpr
      ⟨?_, KeySorted.nodup H.mem_sorted, fun a ha b hb heq => ?_⟩)
    · have hp := opVersions_ascend w.2 w.1.toNat
      rw [← (opEntries_spec w.2 w.1 hwl).2, List.pairwise_map] at hp
      exact hp.imp fun hlt heq => hlt.ne (congrArg (fun e => e.version.seq) heq)
    · exact absurd (hnew (fun e he => H.history e (.inl he)) a ha b hb) (heq ▸ lt_irrefl _)
  have hsorted : KeySorted Entry.rank mem := keySorted_of_ascending hho hhl hasc hnodup
    fun e he => hinh e ((hholds e).mp (.inl he))
  refine ⟨hho, hmax, H.levels, H.numbers_lt, hsorted, H.imm_sorted,
    .of_perm_append hperm (habove fun e he => H.history e (.inr (.inl he))) H.mem_imm,
    fun level f hf => .of_perm_append hperm
      (habove fun e he => H.history e (.inr (.inr ⟨level, f, hf, he⟩))) (H.mem_files level f hf),
    H.imm_files, fun e he => hinh e ((hholds e).mp he), H.snapshots,
    fun s hs => (H.snapshots_le s hs).trans hle, fun s hs k r => ?_, fun r hr => ?_⟩
  · rw [hversions, hhistory]
    refine Version.Above.reads_union_congr ?_ ?_
      (H.reads s ((smallestSnapshot_mono hle).trans hs) k r)
    · rintro _ ⟨e, he, rfl⟩ _ ⟨e', he', rfl⟩ -
      exact hnew (List.forall_mem_singleton.mpr (H.history e' he')) e he e' List.mem_cons_self
    · rw [versions_history H.ordered hl]
      exact habove fun e he => he
  · exact (H.running r hr).congr rfl (smallestSnapshot_mono hle)

/-- **A write is added to the history if it is acknowledged.** -/
theorem Inv.write (H : db.Inv h) (addRecord : Status) (batch : RecordedBatch)
    (hmax : db.lastSequence.toNat + batch.ops.length < kMaxSequenceNumber) :
    (db.write addRecord batch.toWriteBatch).2.Inv (h ++
        if (db.write addRecord batch.toWriteBatch).1.ok then [(db.lastSequence + 1, batch.ops)]
        else []) ∧
      (db.write addRecord batch.toWriteBatch).2.lastSequence.toNat
        = db.lastSequence.toNat + batch.ops.length := by
  obtain ⟨last, hlast, hnext, heq⟩ := write_eq addRecord batch hmax
  have hle : db.lastSequence.toNat ≤ last.toNat := hlast ▸ Nat.le_add_right _ _
  rw [heq]
  cases hok : addRecord.ok with
  | false =>
    rw [if_neg (by decide)]
    dsimp only
    rw [hok, if_neg (by decide), List.append_nil]
    exact ⟨H.reread hle (hlast ▸ hmax) H.snapshots
      (fun s hs => (H.snapshots_le s hs).trans hle) (smallestSnapshot_mono hle), hlast⟩
  | true =>
    rw [if_pos rfl]
    exact ⟨H.add hnext hlast (hlast ▸ hmax) (memTableInserter_foldl batch.ops _)
      (MemTable.Ascending.foldl (s := (db.lastSequence + 1, db.mem))
        (H.mem_sorted.imp le_of_lt) batch.ops), hlast⟩

/-- Databases that hold the same entries have the same versions. -/
theorem versions_congr {db' : LeveledDB} (hh : ∀ e, db'.Holds e ↔ db.Holds e) :
    db'.versions = db.versions :=
  Set.ext fun _ => exists_congr fun e => and_congr_left fun _ => hh e

/-- Nothing is above what there is not. -/
theorem above_nil (es : List Entry) : Above [] es := above_iff.mpr fun _ he => (by cases he)

/-- **The memtable is switched.** -/
theorem Inv.switchMemTable (H : db.Inv h) (newFile : Status) {db' : LeveledDB}
    (heq : db.switchMemTable newFile = some db') : db'.Inv h := by
  rw [LeveledDB.switchMemTable] at heq
  split_ifs at heq with himm hnew
  · obtain rfl := Option.some.inj heq
    have hnone : db.imm = none := Option.not_isSome_iff_eq_none.mp himm
    have hholds (e : Entry) : Holds { db with imm := some db.mem, mem := [] } e ↔ db.Holds e := by
      simp [Holds, hnone, version]
    refine ⟨H.ordered, H.last_lt, H.levels, H.numbers_lt, List.Pairwise.nil, H.mem_sorted,
      above_nil _, fun _ _ _ => above_nil _, H.mem_files, fun e he => H.history e ((hholds e).mp he),
      H.snapshots, H.snapshots_le, fun s hs => ?_, fun r hr => ?_⟩
    · rw [versions_congr hholds]
      exact H.reads s hs
    · exact (H.running r hr).congr rfl le_rfl
  · exact Option.some.inj heq ▸ H

end Write

/-! ## Flushing -/

section Flush

variable {db : LeveledDB} {h : List Write}

theorem Inv.sorted_current (H : db.Inv h) (level : ℕ) :
    KeySorted FileRecord.rank (db.current level) := by
  have hr := H.levels.rank level
  rw [version, List.pairwise_map] at hr
  exact hr

theorem Inv.current_lt (H : db.Inv h) {level : ℕ} {f : FileRecord} (hf : f ∈ db.current level) :
    f.number < db.nextFileNumber := H.numbers_lt level _ (List.mem_map_of_mem hf)

/-- A file number that was taken. -/
theorem Inv.skipNumbers (H : db.Inv h) {n : ℕ} (hn : db.nextFileNumber ≤ n) :
    Inv { db with nextFileNumber := n } h where
  ordered := H.ordered
  last_lt := H.last_lt
  levels := H.levels
  numbers_lt := fun level f hf => (H.numbers_lt level f hf).trans_le hn
  mem_sorted := H.mem_sorted
  imm_sorted := H.imm_sorted
  mem_imm := H.mem_imm
  mem_files := H.mem_files
  imm_files := H.imm_files
  history := H.history
  snapshots := H.snapshots
  snapshots_le := H.snapshots_le
  reads := H.reads
  running := fun r hr => (H.running r hr).congr rfl le_rfl

/-- The file of a memtable. -/
theorem built_tableOf {tables : ℕ → List Entry} {env : FlushEnv} {n : ℕ} {mem : MemTable}
    (hmem : tables n = mem) (hne : mem ≠ []) (hwf : ∀ e ∈ mem, e.WellFormed)
    (hs : KeySorted Entry.rank mem) : (fileOf tables (tableOf env n mem)).Built := by
  have hstored : (fileOf tables (tableOf env n mem)).stored = mem := (stored_fileOf _ _).trans hmem
  refine ⟨?_, rfl, ?_, ?_, ?_, ?_⟩
  · rw [hstored, fileOf]
    exact congrArg _ hmem
  · rw [hstored]
    exact hwf
  · rw [hstored]
    exact hs
  · rw [hstored]
    cases mem with
    | nil => exact absurd rfl hne
    | cons e mem => rfl
  · rw [hstored]
    obtain ⟨init, e, rfl⟩ := (List.eq_nil_or_concat' mem).resolve_left hne
    simp [fileOf, tableOf]

/-- The level that is picked for a file is free for it, and so are those above. -/
theorem Inv.not_overlaps (H : db.Inv h) (f : FileMetaData) :
    pickLevelForMemTableOutput db.version f.smallestUserKey f.largestUserKey < kNumLevels ∧
      (0 < pickLevelForMemTableOutput db.version f.smallestUserKey f.largestUserKey →
        ∀ i ≤ pickLevelForMemTableOutput db.version f.smallestUserKey f.largestUserKey,
          ∀ g ∈ db.version i, ¬ g.Overlaps f) := by
  obtain ⟨hle, hfree⟩ := pickLevel_spec (s := f.smallestUserKey) (l := f.largestUserKey)
    fun level hl _ => H.levels.sorted hl
  exact ⟨hle.trans_lt (by decide), fun hp i hi g hg ho => hfree hp i hi g hg
    ⟨fun k hk => Option.some.inj hk ▸ ho.2, fun k hk => Option.some.inj hk ▸ ho.1⟩⟩

/-- **A memtable can come to the level that is picked for it.** -/
theorem Inv.enters (H : db.Inv h) {f : FileMetaData} (hf : f.Built)
    (hstored : f.stored = db.imm.getD []) (hnumber : f.number = db.nextFileNumber) :
    Enters db.version (fun _ _ => False)
      (pickLevelForMemTableOutput db.version f.smallestUserKey f.largestUserKey) [f] := by
  obtain ⟨hlt, hfree⟩ := H.not_overlaps f
  have hfiles := H.imm_files
  rw [← hstored] at hfiles
  have hsingle {P : FileMetaData → Prop} (hP : P f) : ∀ g ∈ [f], P g :=
    List.forall_mem_singleton.mpr hP
  refine ⟨hlt, hsingle hf, hsingle (hsingle fun _ => rfl),
    fun hp => hsingle fun g hg _ ho => hfree hp _ le_rfl g hg ho.symm,
    fun hp => hsingle fun g hg _ => ⟨hnumber ▸ H.numbers_lt 0 g hg, hfiles 0 g hg⟩,
    hsingle fun i hi g hg _ => ?_, hsingle fun i _ g hg _ => hfiles i g hg,
    hsingle fun i g hg _ => hnumber ▸ (H.numbers_lt i g hg).ne⟩
  exact (H.levels.built i g hg).above_of_not_overlaps hf (hfree (Nat.zero_lt_of_lt hi) i hi.le g hg)

/-- **The memtable comes to the files.** -/
theorem Inv.flushed (H : db.Inv h) {imm : MemTable} (himm : db.imm = some imm) {current : Files}
    {tables : ℕ → List Entry} {n p : ℕ} {new : List FileMetaData}
    (hr : Replaces db.version (fun level => (current level).map (fileOf tables))
      (fun _ _ => False) p new)
    (he : Enters db.version (fun _ _ => False) p new)
    (hnew : ∀ f ∈ new, f.stored = imm) (hall : imm ≠ [] → new ≠ [])
    (hn : db.nextFileNumber ≤ n) (hnumbers : ∀ f ∈ new, f.number < n)
    (hbeside : 0 < p → ∀ f ∈ new, ∀ i ≤ p, ∀ g ∈ db.version i, ¬ g.Overlaps f) :
    Inv { db with imm := none, current := current, tables := tables, nextFileNumber := n } h := by
  set db' : LeveledDB :=
    { db with imm := none, current := current, tables := tables, nextFileNumber := n } with hdb
  have hget : db.imm.getD [] = imm := by rw [himm, Option.getD_some]
  have hmemimm := H.mem_imm
  have himmf := H.imm_files
  rw [hget] at hmemimm himmf
  have hmem (level : ℕ) (f : FileMetaData) :
      f ∈ db'.version level ↔ f ∈ db.version level ∨ level = p ∧ f ∈ new := by
    rw [← and_iff_left (a := f ∈ db.version level) not_false]
    exact hr.mem_iff level f
  have hholds (e : Entry) : db'.Holds e ↔ db.Holds e := by
    constructor
    · rintro (he | he | ⟨level, f, hf, he⟩)
      · exact .inl he
      · cases he
      · rcases (hmem level f).mp hf with hf | ⟨-, hf⟩
        · exact .inr (.inr ⟨level, f, hf, he⟩)
        · exact .inr (.inl (hget ▸ hnew f hf ▸ he))
    · rintro (he | he | ⟨level, f, hf, he⟩)
      · exact .inl he
      · rw [hget] at he
        obtain ⟨f, hf⟩ := List.exists_mem_of_ne_nil _ (hall (List.ne_nil_of_mem he))
        exact .inr (.inr ⟨p, f, (hmem p f).mpr (.inr ⟨rfl, hf⟩), (hnew f hf).symm ▸ he⟩)
      · exact .inr (.inr ⟨level, f, (hmem level f).mpr (.inl hf), he⟩)
  refine ⟨H.ordered, H.last_lt, H.levels.replace hr he, fun level f hf => ?_, H.mem_sorted,
    List.Pairwise.nil, above_iff.mpr fun _ _ _ he => (by cases he), fun level f hf => ?_,
    fun _ _ _ => above_nil _, fun e he => H.history e ((hholds e).mp he), H.snapshots,
    H.snapshots_le, fun s hs => ?_, fun r hr => ?_⟩
  · rcases (hmem level f).mp hf with hf | ⟨-, hf⟩
    · exact (H.numbers_lt level f hf).trans_le hn
    · exact hnumbers f hf
  · rcases (hmem level f).mp hf with hf | ⟨-, hf⟩
    · exact H.mem_files level f hf
    · exact hnew f hf ▸ hmemimm
  · rw [versions_congr hholds]
    exact H.reads s hs
  · have R := H.running r hr
    refine ⟨R.smallestSnapshot, R.level_lt, R.levels, R.picked, R.levelPtrs,
      fun level f hf => (hmem level f).mpr (.inl (R.kept level f hf)),
      fun level g hg hgr f hf => ?_, fun level hl g hg hgr i hi f hf => ?_, R.seq_le⟩
    · rcases (hmem level g).mp hg with hg | ⟨-, hg⟩
      · exact R.newer level g hg hgr f hf
      · obtain ⟨i, -, hi⟩ := R.picked.exists_level hf
        exact hnew g hg ▸ himmf i f (R.kept i f hi)
    · rcases (hmem level g).mp hg with hg | ⟨rfl, hg⟩
      · exact R.beside level hl g hg hgr i hi f hf
      · exact hbeside hl g hg i hi f (R.kept i f hf)

theorem enters_nil {v : VersionFiles} {removed : ℕ → FileMetaData → Prop} {p : ℕ}
    (hp : p < kNumLevels) : Enters v removed p [] where
  level_lt := hp
  built := fun _ hf => (by cases hf)
  distinct := fun _ hf => (by cases hf)
  apart := fun _ _ hf => (by cases hf)
  newest := fun _ _ hf => (by cases hf)
  above := fun _ hf => (by cases hf)
  below := fun _ hf => (by cases hf)
  numbers := fun _ hf => (by cases hf)

/-- **Writing out the memtable keeps the invariant**, also while a compaction is running. -/
theorem Inv.compactMemTable (H : db.Inv h) (env : FlushEnv) : (db.compactMemTable env).Inv h := by
  rw [LeveledDB.compactMemTable]
  cases himm : db.imm with
  | none => exact H
  | some imm =>
    have hold (level : ℕ) (r : FileRecord) (hr : r ∈ db.current level) :
        Function.update db.tables db.nextFileNumber imm r.number = db.tables r.number :=
      Function.update_of_ne (H.current_lt hr).ne _ _
    dsimp only
    split_ifs with hok hempty
    · obtain rfl : imm = [] := List.isEmpty_iff.mp hempty
      have hr := replaces_newFiles (p := 0) H.sorted_current List.map_nil.symm
        (fun _ hf => (by cases hf)) List.Pairwise.nil (fun _ hf => (by cases hf)) hold
      exact H.flushed himm hr (enters_nil (by decide)) (fun _ hf => (by cases hf))
        (fun h => absurd rfl h) (Nat.le_succ _) (fun _ hf => (by cases hf))
        fun _ _ hf => (by cases hf)
    · have hne : imm ≠ [] := fun h => hempty (List.isEmpty_iff.mpr h)
      have hget : db.imm.getD [] = imm := by rw [himm, Option.getD_some]
      have hself : Function.update db.tables db.nextFileNumber imm db.nextFileNumber = imm :=
        Function.update_self ..
      set tables := Function.update db.tables db.nextFileNumber imm
      set f := tableOf env db.nextFileNumber imm with hf
      have hbuilt : (fileOf tables f).Built := by
        have hwf := (H.ordered.entries_spec H.last_lt.le).1
        refine built_tableOf hself hne (fun e he => hwf e (H.history e (.inr (.inl ?_)))) ?_
        · rw [hget]
          exact he
        · rw [← hget]
          exact H.imm_sorted
      have hstored : (fileOf tables f).stored = imm := (stored_fileOf _ _).trans hself
      have he := H.enters hbuilt (hstored.trans hget.symm) rfl
      have hfree := (H.not_overlaps (fileOf tables f)).2
      have hr : Replaces db.version
          (fun level => (((Builder.new db.current).apply { Manifest.VersionEdit.clear with
            newFiles := [(pickLevelForMemTableOutput db.version (extractUserKey f.smallest)
              (extractUserKey f.largest), f)] }).saveTo level).map (fileOf tables))
          (fun _ _ => False) _ [fileOf tables f] :=
        replaces_newFiles H.sorted_current List.map_singleton.symm
          (List.forall_mem_singleton.mpr fun g hg => (H.current_lt hg).ne)
          (List.pairwise_singleton _ _) (List.forall_mem_singleton.mpr rfl) hold
      exact H.flushed himm hr he (List.forall_mem_singleton.mpr hstored)
        (fun _ => List.cons_ne_nil _ _) (Nat.le_succ _)
        (List.forall_mem_singleton.mpr (Nat.lt_succ_self _))
        fun hp => List.forall_mem_singleton.mpr fun i hi g hg => hfree hp i hi g hg
    · exact himm ▸ H.skipNumbers (Nat.le_succ _)

end Flush

end LeveledDB

end Leveldb
