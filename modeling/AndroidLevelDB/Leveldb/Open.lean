import AndroidLevelDB.Leveldb.DbImpl

/-!
# Leveldb/Open — opening and destroying a database

`dbOpen` is `DB::Open` with the options of the wrapper (`create_if_missing`).  A `Directory` says
what it meets: what each file operation on it returns and which edits the manifest holds.  The
comparator check and the completeness checks of `VersionSet::Recover` are embedded; a database
written with another comparator is refused with `InvalidArgument` (`recover_comparator`).
-/

namespace Leveldb

/-- The name of `BytewiseComparatorImpl`. -/
def comparatorName : String := "leveldb.BytewiseComparator"

/-- What `VersionSet::Recover` reads of a record of the manifest. -/
structure VersionEdit where
  comparator : Option String
  logNumber : Option ℕ
  prevLogNumber : Option ℕ
  nextFileNumber : Option ℕ
  lastSequence : Option UInt64
deriving DecidableEq

/-- What opening a directory meets. -/
structure Directory where
  /-- Opening and locking the lock file, if this process does not hold the lock. -/
  lockFile : Status
  currentExists : Bool
  /-- Writing the files of a new database. -/
  newDB : Status
  /-- Reading `CURRENT`. -/
  readCurrent : Except Status String
  openManifest : Status
  /-- The records of the manifest, as far as they could be read and decoded. -/
  manifest : List (Except Status VersionEdit)
  /-- Replaying the log files. -/
  replayLogs : Status
  /-- Opening a new log file. -/
  newLogFile : Status
  /-- Writing the recovered version to the manifest. -/
  logAndApply : Status
  /-- The database recovered from the tables and the logs. -/
  recovered : DBImpl
deriving DecidableEq

/-- The state of the loop of `VersionSet::Recover`: the status and which numbers were found. -/
structure Recovery where
  status : Status
  haveLogNumber : Bool
  haveNextFile : Bool
  haveLastSequence : Bool
deriving DecidableEq

namespace Recovery

/-- One round of the loop. -/
def record (r : Recovery) (record : Except Status VersionEdit) : Recovery :=
  match record with
  | .error e => { r with status := e }
  | .ok edit =>
    let s :=
      match edit.comparator with
      | some name =>
        if name ≠ comparatorName then
          .invalidArgument (name ++ " does not match existing comparator ") comparatorName
        else .OK
      | none => .OK
    { status := s
      haveLogNumber := r.haveLogNumber || edit.logNumber.isSome
      haveNextFile := r.haveNextFile || edit.nextFileNumber.isSome
      haveLastSequence := r.haveLastSequence || edit.lastSequence.isSome }

/-- The loop: it ends with the records or with the first error. -/
def run : List (Except Status VersionEdit) → Recovery → Recovery
  | [], r => r
  | rec :: records, r => if r.status.ok then run records (r.record rec) else r

/-- The checks after the loop. -/
def check (r : Recovery) : Status :=
  if !r.status.ok then r.status
  else if !r.haveNextFile then .corruption "no meta-nextfile entry in descriptor"
  else if !r.haveLogNumber then .corruption "no meta-lognumber entry in descriptor"
  else if !r.haveLastSequence then .corruption "no last-sequence-number entry in descriptor"
  else .OK

end Recovery

namespace Directory

/-- `VersionSet::Recover`. -/
def recover (dir : Directory) : Status :=
  match dir.readCurrent with
  | .error s => s
  | .ok current =>
    if current.toList.getLast? ≠ some '\n' then
      .corruption "CURRENT file does not end with newline"
    else if !dir.openManifest.ok then dir.openManifest
    else (Recovery.run dir.manifest ⟨.OK, false, false, false⟩).check

/-- `DBImpl::Recover`; a new database is written first if there is none. -/
def dbRecover (dir : Directory) (dbname : String) (locked : Bool) : Status :=
  if locked then .ioError ("lock " ++ dbname ++ "/LOCK") "already held by process"
  else if !dir.lockFile.ok then dir.lockFile
  else if !dir.currentExists && !dir.newDB.ok then dir.newDB
  else if !dir.recover.ok then dir.recover
  else dir.replayLogs

/-- `DB::Open`: the status and, if it is OK, the database. -/
def dbOpen (dir : Directory) (dbname : String) (locked : Bool) : Status × Option DBImpl :=
  let s := dir.dbRecover dbname locked
  let s := if s.ok then dir.newLogFile else s
  let s := if s.ok then dir.logAndApply else s
  (s, if s.ok then some dir.recovered else none)

/-- **A manifest written with another comparator is refused with `InvalidArgument`.** -/
theorem recover_comparator {dir : Directory} {current : String} {edit : VersionEdit}
    {rest : List (Except Status VersionEdit)} {name : String}
    (hcur : dir.readCurrent = .ok current) (hline : current.toList.getLast? = some '\n')
    (hopen : dir.openManifest.ok = true) (hman : dir.manifest = .ok edit :: rest)
    (hname : edit.comparator = some name) (hne : name ≠ comparatorName) :
    dir.recover.code = some .kInvalidArgument := by
  have hrec : ∀ r : Recovery, (r.record (.ok edit)).status
      = .invalidArgument (name ++ " does not match existing comparator ") comparatorName := by
    intro r
    simp [Recovery.record, hname, hne]
  have hbad : ∀ r : Recovery, (r.record (.ok edit)).status.ok = false := by
    intro r
    rw [hrec]
    rfl
  have hrun : ∀ r : Recovery, r.status.ok = true →
      Recovery.run (.ok edit :: rest) r = r.record (.ok edit) := by
    intro r hr
    rw [Recovery.run, if_pos hr]
    cases rest with
    | nil => rfl
    | cons _ _ => rw [Recovery.run, if_neg (by simp [hbad r])]
  rw [recover, hcur]
  simp only [hline, hopen, hman]
  rw [hrun _ rfl]
  simp only [ne_eq, not_true_eq_false, if_false, Bool.not_true, Bool.false_eq_true,
    Recovery.check, hrec]
  rfl

/-- A database is returned exactly with an OK status. -/
theorem dbOpen_snd (dir : Directory) (dbname : String) (locked : Bool) :
    (dir.dbOpen dbname locked).2
      = if (dir.dbOpen dbname locked).1.ok then some dir.recovered else none := rfl

/-- **A directory that this process has open is refused with an `IOError`.** -/
theorem dbOpen_locked (dir : Directory) (dbname : String) :
    dir.dbOpen dbname true
      = (.ioError ("lock " ++ dbname ++ "/LOCK") "already held by process", none) := rfl

end Directory

end Leveldb
