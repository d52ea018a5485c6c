import AndroidLevelDB.Leveldb.Recovery

/-!
# Leveldb/LoggedDb — a database with its logs

A `LoggedDB` is a database with the log of its memtable, that of the memtable being compacted, and
the last sequence number in the manifest.  `LoggedDB.write` is `DBImpl::Write` with the log it writes
to; without the log it is `DBImpl.write` (`LoggedDB.write_db`).  What is left when the process ends is
a `Disk`, from which `DB::Open` builds the database again (`Disk.open`).
-/

namespace Leveldb

/-- A file that was just created. -/
structure NewFile extends WritableFile where
  empty : contents = []

/-- A batch, with the operations it records. -/
structure RecordedBatch extends WriteBatch where
  ops : List Op
  encodes : toWriteBatch.Encodes ops
  count_lt : ops.length < 2 ^ 31

structure LoggedDB where
  db : DBImpl
  /-- The log of the memtable. -/
  log : Log.Writer
  /-- The log of the memtable being compacted. -/
  immLog : Option Log.Writer
  /-- The last sequence number in the manifest. -/
  manifestLast : UInt64
deriving DecidableEq

/-- What is left of a database when the process ends. -/
structure Disk where
  /-- The tables in the manifest. -/
  tables : List Source
  /-- The last sequence number in the manifest. -/
  lastSequence : UInt64
  /-- The logs that the manifest does not supersede, the oldest first. -/
  logs : List Bytes
deriving DecidableEq

namespace LoggedDB

/-- A new database. -/
def create (file : NewFile) : LoggedDB := ⟨.empty, .new file.toWritableFile, none, 0⟩

/-- `CompactMemTable`: the table goes to the manifest, with the last sequence number, and the log
is superseded. -/
def compactMemTable (L : LoggedDB) : LoggedDB :=
  if L.db.imm.isNone then L
  else { L with db := L.db.compactMemTable, immLog := none, manifestLast := L.db.lastSequence }

/-- `MakeRoomForWrite`; `file` is the new log file. -/
def makeRoomForWrite (room : Room) (file : NewFile) (force : Bool) (L : LoggedDB) :
    Status × LoggedDB :=
  if !room.bgError.ok then (room.bgError, L)
  else if !force && !room.full then (.OK, L)
  else
    let L := L.compactMemTable
    if !room.newFile.ok then (room.newFile, L)
    else
      (.OK, { L with
        db := { L.db with imm := some L.db.mem, mem := [] }
        log := .new file.toWritableFile
        immLog := some L.log })

/-- `DBImpl::Write` of a writer that is alone. -/
def write (room : Room) (file : NewFile) (batch : Option WriteBatch) (L : LoggedDB) :
    Status × LoggedDB × Option WriteBatch :=
  let (status, L) := L.makeRoomForWrite room file batch.isNone
  match batch with
  | none => (status, L, none)
  | some batch =>
    if status.ok then
      let updates := batch.setSequence (L.db.lastSequence + 1).toNat
      let lastSequence := L.db.lastSequence + .ofInt updates.count
      let (status, log) := L.log.addRecord updates.rep
      let (status, mem) := if status.ok then updates.insertInto L.db.mem else (status, L.db.mem)
      (status, { L with db := { L.db with mem := mem, lastSequence := lastSequence }, log := log },
        some updates)
    else (status, L, some batch)

/-- What is left when the process ends; `kept` bytes of the current log, if not all. -/
def crash (kept : Option ℕ) (L : LoggedDB) : Disk where
  tables := L.db.tables
  lastSequence := L.manifestLast
  logs := (L.immLog.map fun w => w.dest.contents).toList ++
    [L.log.dest.contents.take (kept.getD L.log.dest.contents.length)]

end LoggedDB

/-- `DB::Open`: the logs are replayed, and the tables they leave go to the manifest together with
the number of a new log file. -/
def Disk.open (env : RecoveryEnv) (file : NewFile) (disk : Disk) : Except Status LoggedDB :=
  let st := recoverLogs env (disk.logs.map fun log => .ok (.new log)) ⟨.OK, none, disk.tables, 0⟩
  let lastSequence :=
    if disk.lastSequence < st.maxSequence then st.maxSequence else disk.lastSequence
  if st.status.ok then
    .ok ⟨⟨[], none, st.tables, lastSequence⟩, .new file.toWritableFile, none, lastSequence⟩
  else .error st.status

/-! ## Without the logs -/

namespace LoggedDB

theorem compactMemTable_db (L : LoggedDB) : L.compactMemTable.db = L.db.compactMemTable := by
  rw [compactMemTable, DBImpl.compactMemTable]
  cases h : L.db.imm <;> rfl

theorem makeRoomForWrite_db (room : Room) (file : NewFile) (force : Bool) (L : LoggedDB) :
    L.db.makeRoomForWrite room force = ((L.makeRoomForWrite room file force).1,
      (L.makeRoomForWrite room file force).2.db) := by
  have hc := L.compactMemTable_db
  simp only [makeRoomForWrite, DBImpl.makeRoomForWrite]
  split_ifs
  · rfl
  · rfl
  · rw [hc]
  · simp only [hc]

/-- What a write meets, with the status of its log record. -/
def roomFor (room : Room) (file : NewFile) (batch : WriteBatch) (L : LoggedDB) : Room :=
  let L := (L.makeRoomForWrite room file false).2
  { room with
    addRecord := (L.log.addRecord (batch.setSequence (L.db.lastSequence + 1).toNat).rep).1 }

/-- **Without its log a write is that of the database alone.** -/
theorem write_db (room : Room) (file : NewFile) (batch : WriteBatch) (L : LoggedDB) :
    L.db.write (L.roomFor room file batch) (some batch)
      = ((L.write room file (some batch)).1, (L.write room file (some batch)).2.1.db,
          (L.write room file (some batch)).2.2) := by
  have hmake : L.db.makeRoomForWrite (L.roomFor room file batch) false
      = L.db.makeRoomForWrite room false := rfl
  simp only [DBImpl.write, write, Option.isNone_some, hmake, makeRoomForWrite_db room file]
  split
  · rfl
  · rfl

end LoggedDB

/-! ## Writes in a log -/

namespace Log

/-- **The log holds the writes `ws`**: they are the records that were written. -/
def Logs (w : Writer) (ws : List Write) : Prop :=
  ∃ (file : NewFile) (rs : List Bytes), w = ((Writer.new file.toWritableFile).addRecords rs).2 ∧
    List.Forall₂ Write.Logged ws (rs.take ((Writer.new file.toWritableFile).written rs))

theorem logs_new (file : NewFile) : Logs (.new file.toWritableFile) [] :=
  ⟨file, [], rfl, .nil⟩

theorem Writer.addRecords_append_singleton (w : Writer) (rs : List Bytes) (record : Bytes) :
    (w.addRecords (rs ++ [record])).1
      = (w.addRecords rs).1 ++ [((w.addRecords rs).2.addRecord record).1] := by
  induction rs generalizing w with
  | nil => rfl
  | cons data rs ih => exact congrArg (_ :: ·) (ih (w.addRecord data).2)

/-- A record is written only if all records before it are. -/
theorem Writer.written_of_ok {w : Writer} (ho : w.blockOffset ≤ kBlockSize) {rs : List Bytes}
    {record : Bytes} (hok : ((w.addRecords rs).2.addRecord record).1.ok = true) :
    w.written rs = rs.length ∧ w.written (rs ++ [record]) = rs.length + 1 := by
  obtain ⟨hle, hall⟩ := addRecords_written ho (rs ++ [record])
  rw [List.length_append, List.length_singleton] at hle hall
  have hlast : w.written (rs ++ [record]) = rs.length + 1 := by
    by_contra hne
    obtain ⟨m, hm⟩ : ∃ m, rs.length + 1 - w.written (rs ++ [record]) = m + 1 :=
      ⟨rs.length - w.written (rs ++ [record]), by omega⟩
    rw [addRecords_append_singleton, List.map_append, hm, List.replicate_succ',
      ← List.append_assoc] at hall
    have heq := (List.append_inj' hall rfl).2
    rw [List.map_singleton, hok] at heq
    cases heq
  refine ⟨?_, hlast⟩
  obtain ⟨hle', hall'⟩ := addRecords_written ho rs
  have hlen := congrArg List.length hall'
  rw [List.length_map, List.length_append, List.length_replicate, List.length_replicate] at hlen
  rw [written, addRecords_append_singleton, List.takeWhile_append] at hlast
  split at hlast
  · next hfull =>
    rw [written] at hle' hlen ⊢
    omega
  · rw [← written] at hlast
    omega

theorem Writer.written_of_not_ok {w : Writer} {rs : List Bytes} {record : Bytes}
    (hok : ¬ ((w.addRecords rs).2.addRecord record).1.ok = true) :
    w.written (rs ++ [record]) = w.written rs := by
  rw [written, addRecords_append_singleton, List.takeWhile_append]
  split
  · next hfull =>
    rw [List.takeWhile_cons_of_neg hok, List.append_nil, written, hfull]
  · rfl

theorem Writer.new_offset_le (dest : WritableFile) : (Writer.new dest).blockOffset ≤ kBlockSize :=
  Nat.zero_le _

/-- **A record is in the log exactly if it was reported as written.** -/
theorem Logs.addRecord {w : Writer} {ws : List Write} (h : Logs w ws) {x : Write} {record : Bytes}
    (hx : x.Logged record) :
    Logs (w.addRecord record).2 (ws ++ if (w.addRecord record).1.ok then [x] else []) := by
  obtain ⟨file, rs, rfl, hws⟩ := h
  have hadd : ((Writer.new file.toWritableFile).addRecords (rs ++ [record])).2
      = (((Writer.new file.toWritableFile).addRecords rs).2.addRecord record).2 := by
    rw [Writer.addRecords_append]
    rfl
  refine ⟨file, rs ++ [record], hadd.symm, ?_⟩
  split
  · next hok =>
    obtain ⟨hrs, hall⟩ := Writer.written_of_ok (Writer.new_offset_le file.toWritableFile) hok
    rw [hrs, List.take_length] at hws
    rw [hall, List.take_of_length_le (by simp)]
    exact List.rel_append hws (.cons hx .nil)
  · next hok =>
    rw [Writer.written_of_not_ok hok, List.append_nil, List.take_append_of_le_length]
    · exact hws
    · exact (Writer.addRecords_written (Writer.new_offset_le _) rs).1

/-- **The writes in a log are read back**, those behind a cut excepted. -/
theorem Logs.readAll {w : Writer} {ws : List Write} (h : Logs w ws) (n : ℕ) :
    ∃ k, List.Forall₂ Write.Logged (ws.take k)
        (Reader.new (.new (w.dest.contents.take n)) true 0).readAll.1 ∧
      (Reader.new (.new (w.dest.contents.take n)) true 0).readAll.2.reports = [] ∧
      (w.dest.contents.length ≤ n → ws.length ≤ k) := by
  obtain ⟨file, rs, rfl, hws⟩ := h
  obtain ⟨k, ⟨hk, hkept⟩, hrs, hrep⟩ :=
    readAll_addRecords_take file.toWritableFile file.empty rs true n
  refine ⟨k, ?_, hrep, fun hn => ?_⟩
  · rw [hrs]
    have := List.forall₂_take k hws
    rwa [List.take_take, min_eq_left hk] at this
  · have hlen := hws.length_eq
    have hle := Writer.length_contents_take_le (Writer.new_offset_le file.toWritableFile) rs
      ((Writer.new file.toWritableFile).written rs)
    have := (hkept _ le_rfl).mp (hle.trans (hn.trans (Nat.le_add_left _ _)))
    rw [List.length_take] at hlen
    omega

end Log

end Leveldb
