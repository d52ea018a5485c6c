import AndroidLevelDB.Leveldb.CompactionWork
import AndroidLevelDB.Leveldb.LoggedDb
import AndroidLevelDB.Leveldb.PickCompaction
import AndroidLevelDB.Leveldb.VersionBuilder

/-!
# Leveldb/LeveledDb — a database with its levels

A `LeveledDB` has the table files of each level.  In the background `compactMemTable` writes the
memtable to a level, and `background` picks a compaction, which either moves a file or runs until
`finishCompaction` installs its results; in between there may be writes, switches of the memtable,
snapshots and further calls of `compactMemTable`.
-/

namespace Leveldb

/-- A compaction that was begun, with the snapshots held and the last sequence number by then. -/
structure RunningCompaction where
  compaction : Compaction
  snapshots : List ℕ
  lastSequence : ℕ

/-- `smallest_snapshot` of a compaction. -/
def RunningCompaction.smallestSnapshot (r : RunningCompaction) : ℕ :=
  r.snapshots.head?.getD r.lastSequence

structure LeveledDB where
  mem : MemTable
  imm : Option MemTable
  lastSequence : UInt64
  /-- Those held, the oldest first. -/
  snapshots : List ℕ
  /-- The files of the current version. -/
  current : Files
  compactPointer : ℕ → Bytes
  nextFileNumber : ℕ
  /-- What is in the table files. -/
  tables : ℕ → List Entry
  running : Option RunningCompaction

/-- What a memtable meets that is written out. -/
structure FlushEnv where
  fileSize : MemTable → ℕ
  buildTable : Status
  shuttingDown : Bool
  logAndApply : Status

/-- The edit of a file that is moved to the next level. -/
def Compaction.moveEdit (c : Compaction) : Manifest.VersionEdit :=
  match c.inputs0 with
  | [] => .clear
  | f :: _ =>
    { Manifest.VersionEdit.clear with
      deletedFiles := Manifest.VersionEdit.clear.deletedFiles.insert (c.level, f.number)
      newFiles := [(c.level + 1, f.toFileRecord)] }

/-- The levels and numbers of the inputs, for `AddInputDeletions`. -/
def Compaction.inputNumbers (c : Compaction) : List (ℕ × ℕ) :=
  (c.inputs0.map fun f => (c.level, f.number)) ++ c.inputs1.map fun f => (c.level + 1, f.number)

/-- The record of an output. -/
def Output.record (out : Output) : FileRecord :=
  ⟨out.number, out.fileSize, out.smallest, out.largest⟩

/-- The edit of `InstallCompactionResults`. -/
def Compaction.installEdit (c : Compaction) (outs : List Output) : Manifest.VersionEdit :=
  { Manifest.VersionEdit.clear with
    deletedFiles := c.inputNumbers.foldl (fun files p => files.insert p)
      Manifest.VersionEdit.clear.deletedFiles
    newFiles := outs.map fun out => (c.level + 1, out.record) }

namespace LeveledDB

/-- A new database. -/
def create : LeveledDB := ⟨[], none, 0, [], fun _ => [], fun _ => [], 2, fun _ => [], none⟩

/-- The file of a record, given what is in the files. -/
def fileOf (tables : ℕ → List Entry) (f : FileRecord) : FileMetaData :=
  ⟨f, (tables f.number).map Cell.entry, .OK⟩

/-- The current version, with its files. -/
def version (db : LeveledDB) : VersionFiles :=
  fun level => (db.current level).map (fileOf db.tables)

/-- What an iterator reads. -/
def toDBImpl (db : LeveledDB) : DBImpl :=
  ⟨db.mem, db.imm, addIterators db.version, db.lastSequence⟩

/-- The oldest sequence number that is still read at. -/
def smallestSnapshot (db : LeveledDB) : ℕ := db.snapshots.head?.getD db.lastSequence.toNat

/-- `DBImpl::Write` of a batch for which there is room in the memtable. -/
def write (addRecord : Status) (batch : WriteBatch) (db : LeveledDB) : Status × LeveledDB :=
  let updates := batch.setSequence (db.lastSequence + 1).toNat
  let lastSequence := db.lastSequence + .ofInt updates.count
  let (status, mem) :=
    if addRecord.ok then updates.insertInto db.mem else (addRecord, db.mem)
  (status, { db with mem := mem, lastSequence := lastSequence })

/-- `MakeRoomForWrite` of a full memtable: it waits as long as there is one to be written out. -/
def switchMemTable (newFile : Status) (db : LeveledDB) : Option LeveledDB :=
  if db.imm.isSome then none
  else some (if newFile.ok then { db with imm := some db.mem, mem := [] } else db)

/-- `LogAndApply`, but for the manifest. -/
def logAndApply (edit : Manifest.VersionEdit) (db : LeveledDB) : LeveledDB :=
  { db with current := ((Builder.new db.current).apply edit).saveTo }

/-- The table file of a memtable. -/
def tableOf (env : FlushEnv) (number : ℕ) (mem : MemTable) : FileRecord where
  number := number
  fileSize := env.fileSize mem
  smallest := (mem.head?.map Entry.key).getD []
  largest := (mem.getLast?.map Entry.key).getD []

/-- `CompactMemTable`; of an empty memtable no file is left. -/
def compactMemTable (env : FlushEnv) (db : LeveledDB) : LeveledDB :=
  match db.imm with
  | none => db
  | some imm =>
    let number := db.nextFileNumber
    let db := { db with nextFileNumber := number + 1 }
    if env.buildTable.ok && !env.shuttingDown && env.logAndApply.ok then
      let f := tableOf env number imm
      let level := pickLevelForMemTableOutput db.version (extractUserKey f.smallest)
        (extractUserKey f.largest)
      let edit :=
        { Manifest.VersionEdit.clear with newFiles := if imm.isEmpty then [] else [(level, f)] }
      { db.logAndApply edit with imm := none, tables := Function.update db.tables number imm }
    else db

/-- `BackgroundCompaction`, when there is no memtable to be written out: a file is moved, or a
compaction begins. -/
def background (pick : Pick) (logAndApply : Status) (db : LeveledDB) : Option LeveledDB :=
  if db.running.isSome || db.imm.isSome then none
  else
    match pickCompaction db.version db.compactPointer pick with
    | none => some db
    | some (c, pointer) =>
      let db := { db with compactPointer := Function.update db.compactPointer c.level pointer }
      if c.isTrivialMove then some (if logAndApply.ok then db.logAndApply c.moveEdit else db)
      else some { db with running := some ⟨c, db.snapshots, db.lastSequence.toNat⟩ }

/-- The outputs are table files. -/
def writeTables (outs : List Output) (tables : ℕ → List Entry) : ℕ → List Entry :=
  outs.foldl (fun tables out => Function.update tables out.number out.entries) tables

/-- The end of `DoCompactionWork`, and `InstallCompactionResults`. -/
def finishCompaction (env : CompactionEnv) (logAndApply : Status) (db : LeveledDB) :
    Option LeveledDB :=
  db.running.map fun r =>
    let (status, st) :=
      r.compaction.doCompactionWork env r.snapshots r.lastSequence db.nextFileNumber
    let db := { db with nextFileNumber := st.nextFileNumber, running := none }
    if status.ok && logAndApply.ok then
      { db.logAndApply (r.compaction.installEdit st.outputs) with
        tables := writeTables st.outputs db.tables }
    else db

/-- `GetSnapshot`. -/
def getSnapshot (db : LeveledDB) : LeveledDB :=
  { db with snapshots := db.snapshots ++ [db.lastSequence.toNat] }

/-- `ReleaseSnapshot`, of one of those held. -/
def releaseSnapshot (index : ℕ) (db : LeveledDB) : LeveledDB :=
  { db with snapshots := db.snapshots.eraseIdx index }

/-- What happens to a database. -/
inductive Step
  | write (addRecord : Status) (batch : RecordedBatch)
  | switchMemTable (newFile : Status)
  | compactMemTable (env : FlushEnv)
  | background (pick : Pick) (logAndApply : Status)
  | finishCompaction (env : CompactionEnv) (logAndApply : Status)
  | getSnapshot
  | releaseSnapshot (index : ℕ)

/-- The number of operations. -/
def Step.size : Step → ℕ
  | write _ batch => batch.ops.length
  | _ => 0

/-- A step, with the writes it acknowledges; nothing if it has to wait. -/
def step (db : LeveledDB) : Step → Option (List Write × LeveledDB)
  | .write addRecord batch =>
    let (status, db') := db.write addRecord batch.toWriteBatch
    some (if status.ok then [(db.lastSequence + 1, batch.ops)] else [], db')
  | .switchMemTable newFile => (db.switchMemTable newFile).map fun db => ([], db)
  | .compactMemTable env => some ([], db.compactMemTable env)
  | .background pick logAndApply => (db.background pick logAndApply).map fun db => ([], db)
  | .finishCompaction env logAndApply =>
    (db.finishCompaction env logAndApply).map fun db => ([], db)
  | .getSnapshot => some ([], db.getSnapshot)
  | .releaseSnapshot index => some ([], db.releaseSnapshot index)

/-- A run, with the writes it acknowledges. -/
def run : List Step → LeveledDB → Option (List Write × LeveledDB)
  | [], db => some ([], db)
  | s :: steps, db =>
    match db.step s with
    | none => none
    | some (ws, db) =>
      match run steps db with
      | none => none
      | some (ws', db) => some (ws ++ ws', db)

end LeveledDB

end Leveldb
