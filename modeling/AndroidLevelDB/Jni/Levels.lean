import AndroidLevelDB.Jni.Durability
import AndroidLevelDB.Leveldb.LevelRuns

/-!
# Jni/Levels — lookups while tables are written out and compacted

A lookup in a database with levels finds the state behind the acknowledged writes (`lookup_levels`),
and with a snapshot that in which the snapshot was taken (`lookup_snapshot`); a scan reads all of it
in order (`scan_levels`).  This holds behind every run in which no compaction that began under a
snapshot puts the versions of a user key into two files.
-/

open Leveldb

open LeveledDB (putBatch deleteBatch writeOut exampleCompaction exampleRun)

namespace Jni

/-- What a lookup finds in a database with levels. -/
theorem lookup_inv {db : LeveledDB} {h : List Write} (H : db.Inv h) (key : Bytes) :
    lookup db.toDBImpl none key = stateOf h key ∧ ∀ s ∈ db.snapshots,
      lookup db.toDBImpl (some s) key
        = Version.state ((h.flatMap Write.versions).filter (·.seq ≤ s)) key := by
  constructor
  · have hall : (h.flatMap Write.versions).filter (·.seq ≤ db.lastSequence.toNat)
        = h.flatMap Write.versions :=
      List.filter_eq_self.mpr fun v hv => by simpa using H.ordered.seq_le hv
    have hlast : H.store.readAt none ≤ kMaxSequenceNumber := H.last_lt.le
    refine (lookup_eq_iff H.readable hlast key _).mpr ?_
    have hreads := H.reads_store (LeveledDB.smallestSnapshot_le H) key
    rwa [hall] at hreads
  · intro s hs
    have hlast : H.store.readAt (some s) ≤ kMaxSequenceNumber :=
      (H.snapshots_le s hs).trans H.last_lt.le
    exact (lookup_eq_iff H.readable hlast key _).mpr (H.reads_store (H.smallestSnapshot_mem hs) key)

/-! ## Scans -/

/-- The pairs of a map, in key order. -/
structure PairsOf (state : Bytes → Option Bytes) (pairs : List (Bytes × Bytes)) : Prop where
  sorted : pairs.Pairwise fun p q => p.1 < q.1
  mem_iff : ∀ k v, (k, v) ∈ pairs ↔ state k = some v

/-- What iterators read forwards, backwards and from a key on, however far they go. -/
structure Scans (db : DBImpl) (snapshot : Option ℕ) (pairs : List (Bytes × Bytes)) : Prop where
  forward : ∀ n, (scanForward n (db.newIterator snapshot).seekToFirst).1 = pairs.take n
  backward : ∀ n, (scanBackward n (db.newIterator snapshot).seekToLast).1 = pairs.reverse.take n
  seek : ∀ k n, (scanForward n ((db.newIterator snapshot).seek k)).1
    = (pairs.dropWhile fun p => p.1 < k).take n

/-- Scans of a store read the pairs that lookups find. -/
theorem scans_store (S : Store) {snapshot : Option ℕ}
    (hs : S.readAt snapshot ≤ kMaxSequenceNumber) :
    PairsOf (lookup S.toDBImpl snapshot) (S.shown (S.readAt snapshot)) ∧
      Scans S.toDBImpl snapshot (S.shown (S.readAt snapshot)) :=
  ⟨⟨S.shown_sorted _, fun k v => (lookup_eq_some_iff S snapshot hs k v).symm⟩,
    ⟨fun n => (scanForward_seekToFirst S snapshot n).1,
      fun n => (scanBackward_seekToLast S snapshot n).1,
      fun k n => (scanForward_seek S snapshot hs k n).1⟩⟩

section Run

variable {steps before after : List LeveledDB.Step} {acknowledged ws : List Write}
  {db db' : LeveledDB}

/-- **Lookups find the state behind the acknowledged writes**, whatever memtables were written out,
files moved and compactions installed, or failed, in between. -/
theorem lookup_levels (hfine : LeveledDB.AllFine steps .create)
    (hrun : LeveledDB.run steps .create = some (acknowledged, db)) (key : Bytes) :
    lookup db.toDBImpl none key = stateOf acknowledged key :=
  (lookup_inv (LeveledDB.inv_create.run hfine hrun) key).1

theorem lookup_levels_example : ∃ acknowledged db,
    LeveledDB.run exampleRun .create = some (acknowledged, db) ∧
      ∀ key, lookup db.toDBImpl none key = stateOf acknowledged key := by
  obtain ⟨⟨acknowledged, db⟩, hrun⟩ := Option.isSome_iff_exists.mp
    (show (LeveledDB.run exampleRun .create).isSome = true by decide +kernel)
  exact ⟨acknowledged, db, hrun, lookup_levels (by decide +kernel) hrun⟩

/-- The second compaction takes a deletion down that the first one, under a snapshot, has put into
another file than what it deletes. -/
def splitRun : List LeveledDB.Step :=
  [writeOut [putBatch 1, putBatch 3], [.background (.seek 2 0) .OK],
    writeOut [putBatch 5, putBatch 7], [.background (.seek 2 0) .OK],
    writeOut [putBatch 2, putBatch 6], [.getSnapshot], writeOut [deleteBatch 2],
    [.background (.size 1) .OK, .finishCompaction (exampleCompaction true) .OK,
      .releaseSnapshot 0, .background (.seek 2 0) .OK,
      .finishCompaction (exampleCompaction true) .OK]].flatten

/-- **Where a user key is put into two files, a deleted key can come back.** -/
theorem split_resurrects : ∃ acknowledged db,
    LeveledDB.run splitRun .create = some (acknowledged, db) ∧
      lookup db.toDBImpl none [2] = some [10] ∧ stateOf acknowledged [2] = none := by
  obtain ⟨⟨acknowledged, db⟩, hrun⟩ := Option.isSome_iff_exists.mp
    (show (LeveledDB.run splitRun .create).isSome = true by decide +kernel)
  have hboth : ∀ last ∈ LeveledDB.run splitRun .create,
      lookup last.2.toDBImpl none [2] = some [10] ∧ stateOf last.1 [2] = none := by decide +kernel
  exact ⟨acknowledged, db, hrun, hboth (acknowledged, db) (Option.mem_def.mpr hrun)⟩

theorem isSome_run_writeOut :
    (LeveledDB.run (writeOut [putBatch 2, putBatch 3]) .create).isSome = true := by decide +kernel

/-- What the first puts leave. -/
def exampleBefore : List Write × LeveledDB :=
  (LeveledDB.run (writeOut [putBatch 2, putBatch 3]) .create).get isSome_run_writeOut

theorem run_exampleBefore : LeveledDB.run (writeOut [putBatch 2, putBatch 3]) .create
    = some (exampleBefore.1, exampleBefore.2) := by
  rw [Prod.mk.eta, exampleBefore, Option.some_get]

/-- A deletion, and a compaction with what was there before. -/
def exampleAfter : List LeveledDB.Step :=
  writeOut [deleteBatch 2] ++
    [.background (.size 1) .OK, .finishCompaction (exampleCompaction false) .OK]

/-- **Scans read the state behind the acknowledged writes**, each key once and in order, and with a
snapshot the state behind those up to its sequence number. -/
theorem scan_levels (hfine : LeveledDB.AllFine steps .create)
    (hrun : LeveledDB.run steps .create = some (acknowledged, db)) :
    (∃ pairs, PairsOf (stateOf acknowledged) pairs ∧ Scans db.toDBImpl none pairs) ∧
      ∀ s ∈ db.snapshots, ∃ pairs,
        PairsOf (Version.state ((acknowledged.flatMap Write.versions).filter (·.seq ≤ s))) pairs ∧
          Scans db.toDBImpl (some s) pairs := by
  have H := LeveledDB.inv_create.run hfine hrun
  constructor
  · have hlast : H.store.readAt none ≤ kMaxSequenceNumber := H.last_lt.le
    obtain ⟨hpairs, hscans⟩ := scans_store H.store hlast
    have hstate : lookup db.toDBImpl none = stateOf acknowledged :=
      funext fun key => (lookup_inv H key).1
    exact ⟨_, hstate ▸ hpairs, hscans⟩
  · intro s hs
    have hlast : H.store.readAt (some s) ≤ kMaxSequenceNumber :=
      (H.snapshots_le s hs).trans H.last_lt.le
    obtain ⟨hpairs, hscans⟩ := scans_store H.store hlast
    have hstate : lookup db.toDBImpl (some s)
        = Version.state ((acknowledged.flatMap Write.versions).filter (·.seq ≤ s)) :=
      funext fun key => (lookup_inv H key).2 s hs
    exact ⟨_, hstate ▸ hpairs, hscans⟩

theorem scan_levels_example : ∃ acknowledged db,
    LeveledDB.run exampleRun .create = some (acknowledged, db) ∧
      (∃ pairs, PairsOf (stateOf acknowledged) pairs ∧ Scans db.toDBImpl none pairs) ∧
        ∀ s ∈ db.snapshots, ∃ pairs,
          PairsOf (Version.state ((acknowledged.flatMap Write.versions).filter (·.seq ≤ s))) pairs ∧
            Scans db.toDBImpl (some s) pairs := by
  obtain ⟨⟨acknowledged, db⟩, hrun⟩ := Option.isSome_iff_exists.mp
    (show (LeveledDB.run exampleRun .create).isSome = true by decide +kernel)
  exact ⟨acknowledged, db, hrun, scan_levels (by decide +kernel) hrun⟩

end Run

end Jni
