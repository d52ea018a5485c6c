import AndroidLevelDB.Leveldb.History
import AndroidLevelDB.Leveldb.LogRecords

/-!
# Leveldb/Recovery — replaying the logs

`recoverLogFile` is `DBImpl::RecoverLogFile`: every record of a log is a batch, which is inserted into
a memtable; memtables are written out as tables of level 0.  Over a log whose records are batches
with their sequence numbers the tables hold the entries of these batches, and the largest sequence
number is found (`recoverLogLoop_spec`).
-/

namespace Leveldb

/-- What recovery depends on besides the files. -/
structure RecoveryEnv where
  paranoidChecks : Bool
  /-- A memtable is larger than the write buffer. -/
  full : MemTable → Bool
  /-- Writing out a memtable. -/
  buildTable : MemTable → Status

namespace RecoveryEnv

/-- Every memtable can be written out. -/
def Ok (env : RecoveryEnv) : Prop := ∀ mem, (env.buildTable mem).ok = true

/-- `MaybeIgnoreError`. -/
def maybeIgnoreError (env : RecoveryEnv) (s : Status) : Status :=
  if s.ok || env.paranoidChecks then s else .OK

end RecoveryEnv

/-- The state of the recovery of a log. -/
structure LogRecovery where
  status : Status
  mem : Option MemTable
  /-- The tables written so far, the last one first. -/
  tables : List Source
  maxSequence : UInt64
deriving DecidableEq

namespace LogRecovery

variable (env : RecoveryEnv) (st : LogRecovery)

/-- `LogReporter::Corruption`. -/
def corruption (s : Status) : LogRecovery :=
  if env.paranoidChecks && st.status.ok then { st with status := s } else st

/-- `WriteLevel0Table`; of an empty memtable no file is left. -/
def writeLevel0Table (mem : MemTable) : LogRecovery :=
  if mem.isEmpty then { st with status := .OK }
  else
    let s := env.buildTable mem
    { st with
      status := s, tables := if s.ok then DBImpl.memSource mem :: st.tables else st.tables }

/-- A record in the loop of `RecoverLogFile`; `false` is its `break`. -/
def recoverRecord (record : Bytes) : Bool × LogRecovery :=
  if record.length < 12 then (true, st.corruption env (.corruption "log record too small"))
  else
    let batch : WriteBatch := ⟨record⟩
    let (status, mem) := batch.insertInto (st.mem.getD [])
    let st := { st with status := env.maybeIgnoreError status, mem := some mem }
    if !st.status.ok then (false, st)
    else
      let lastSeq := .ofNat batch.sequence + .ofInt batch.count - 1
      let st := if lastSeq > st.maxSequence then { st with maxSequence := lastSeq } else st
      if env.full mem then
        let st := st.writeLevel0Table env mem
        if !st.status.ok then (false, st) else (true, { st with mem := none })
      else (true, st)

end LogRecovery

/-- The loop of `RecoverLogFile`; every record read takes bytes, whose number bounds the rounds. -/
def recoverLogLoop (env : RecoveryEnv) : ℕ → Log.Reader → LogRecovery → LogRecovery
  | 0, _, st => st
  | n + 1, reader, st =>
    let (record, reader') := reader.readRecord
    let reports := reader'.reports.drop reader.reports.length
    let st := reports.foldl (fun st report => st.corruption env report.2) st
    match record with
    | none => st
    | some record =>
      if !st.status.ok then st
      else
        let (again, st) := st.recoverRecord env record
        if again then recoverLogLoop env n reader' st else st

/-- `RecoverLogFile`; `log` is the file, if it can be opened. -/
def recoverLogFile (env : RecoveryEnv) (log : Except Status SequentialFile) (tables : List Source)
    (maxSequence : UInt64) : LogRecovery :=
  match log with
  | .error s => ⟨env.maybeIgnoreError s, none, tables, maxSequence⟩
  | .ok file =>
    let reader := Log.Reader.new file true 0
    let st := recoverLogLoop env (reader.left + 1) reader ⟨.OK, none, tables, maxSequence⟩
    if st.status.ok then
      match st.mem with
      | some mem => st.writeLevel0Table env mem
      | none => st
    else st

/-- The logs in `Recover`, the oldest first.  The status is that of the last one. -/
def recoverLogs (env : RecoveryEnv) : List (Except Status SequentialFile) → LogRecovery → LogRecovery
  | [], st => st
  | log :: logs, st => recoverLogs env logs (recoverLogFile env log st.tables st.maxSequence)

/-! ## Batches in a log -/

/-- The record of a write in a log. -/
structure Write.Logged (w : Write) (record : Bytes) : Prop where
  encodes : WriteBatch.Encodes ⟨record⟩ w.2
  sequence : UInt64.ofNat (WriteBatch.sequence ⟨record⟩) = w.1
  count : w.2.length < 2 ^ 31

namespace LogRecovery

/-- The entries recovered so far. -/
def stored (st : LogRecovery) : List Entry :=
  st.mem.getD [] ++ st.tables.flatMap fun src => src.cells.flatMap Cell.stored

/-- The memtable and the tables are as the code builds them. -/
structure Built (st : LogRecovery) : Prop where
  mem : MemTable.Ascending (st.mem.getD [])
  tables : ∀ src ∈ st.tables, Flushed src

/-- The larger of two sequence numbers. -/
def later (a b : UInt64) : UInt64 := if b > a then b else a

variable {env : RecoveryEnv} {st : LogRecovery}

/-- **A memtable that is written out stays stored.** -/
theorem writeLevel0Table_spec (henv : env.Ok) {mem : MemTable} (hmem : st.mem = some mem)
    (hst : st.Built) :
    (st.writeLevel0Table env mem).status.ok = true ∧
      (st.writeLevel0Table env mem).maxSequence = st.maxSequence ∧
      ((st.writeLevel0Table env mem).tables.flatMap fun src => src.cells.flatMap Cell.stored)
        = st.stored ∧
      ∀ src ∈ (st.writeLevel0Table env mem).tables, Flushed src := by
  have hm := hst.mem
  rw [hmem, Option.getD_some] at hm
  rw [writeLevel0Table, stored, hmem, Option.getD_some]
  split
  · next h =>
    rw [List.isEmpty_iff.mp h]
    exact ⟨rfl, rfl, rfl, hst.tables⟩
  · simp only [henv mem, if_true, List.flatMap_cons, DBImpl.stored_memSource, true_and,
      List.forall_mem_cons]
    exact ⟨⟨mem, rfl, hm⟩, hst.tables⟩

/-- **The entries of a logged write are recovered.** -/
theorem recoverRecord_spec (henv : env.Ok) (hst : st.Built) {w : Write} {record : Bytes}
    (h : w.Logged record) :
    ∃ st', st.recoverRecord env record = (true, st') ∧ st'.status.ok = true ∧ st'.Built ∧
      st'.stored.Perm (w.entries ++ st.stored) ∧
      st'.maxSequence = later st.maxSequence w.last := by
  have hlen : ¬ record.length < 12 := not_lt.mpr h.encodes.length
  have hiter : WriteBatch.insertInto ⟨record⟩ (st.mem.getD [])
      = (.OK, (w.2.foldl memTableInserter.apply (w.1, st.mem.getD [])).2) := by
    rw [WriteBatch.insertInto, h.encodes.iterate h.count, h.sequence]
  have hmem := memTableInserter_foldl w.2 (w.1, st.mem.getD [])
  have hasc := MemTable.Ascending.foldl (s := (w.1, st.mem.getD [])) hst.mem w.2
  set mem := (w.2.foldl memTableInserter.apply (w.1, st.mem.getD [])).2
  have hignore : env.maybeIgnoreError .OK = .OK := rfl
  set st₁ : LogRecovery := { st with
    status := .OK, mem := some mem, maxSequence := later st.maxSequence w.last } with hst₁
  have hmax : (if w.last > st.maxSequence
      then { st with status := .OK, mem := some mem, maxSequence := w.last }
      else { st with status := .OK, mem := some mem }) = st₁ := by
    rw [hst₁, later]
    split <;> rfl
  have hstored : st₁.stored.Perm (w.entries ++ st.stored) := by
    rw [stored, stored, ← List.append_assoc]
    exact hmem.append_right _
  have hrec : st.recoverRecord env record
      = if env.full mem then
          if !(st₁.writeLevel0Table env mem).status.ok then (false, st₁.writeLevel0Table env mem)
          else (true, { st₁.writeLevel0Table env mem with mem := none })
        else (true, st₁) := by
    rw [recoverRecord, if_neg hlen]
    simp only [hiter, hignore, Status.ok_OK, Bool.not_true, Bool.false_eq_true, if_false,
      h.sequence, h.encodes.count_eq h.count, ofInt_natCast]
    rw [← hmax]
    rfl
  have hbuilt : st₁.Built := ⟨hasc, hst.tables⟩
  obtain ⟨hok, hseq, hout, htables⟩ := writeLevel0Table_spec henv (show st₁.mem = some mem from rfl) hbuilt
  rw [hrec]
  split
  · rw [hok]
    exact ⟨_, rfl, hok, ⟨List.Pairwise.nil, htables⟩, (List.Perm.of_eq hout).trans hstored, hseq⟩
  · exact ⟨_, rfl, rfl, hbuilt, hstored, rfl⟩

end LogRecovery

/-- The largest sequence number behind writes. -/
def lastOf (m : UInt64) (ws : List Write) : UInt64 :=
  ws.foldl (fun m w => LogRecovery.later m w.last) m

open LogRecovery

/-- **The writes in a log are recovered**, where its reader reports nothing. -/
theorem recoverLogLoop_spec {env : RecoveryEnv} (henv : env.Ok) : ∀ (n : ℕ) {reader : Log.Reader}
    {st : LogRecovery} {ws : List Write} {records : List Bytes}, st.status.ok = true → st.Built →
    (reader.readAllLoop n).1 = records → (reader.readAllLoop n).2.reports = reader.reports →
    List.Forall₂ Write.Logged ws records →
    (recoverLogLoop env n reader st).status.ok = true ∧ (recoverLogLoop env n reader st).Built ∧
      (recoverLogLoop env n reader st).stored.Perm
        (ws.reverse.flatMap Write.entries ++ st.stored) ∧
      (recoverLogLoop env n reader st).maxSequence = lastOf st.maxSequence ws
  | 0, reader, st, ws, records, hst, hbuilt, hrecords, _, hws => by
      obtain rfl : records = [] := hrecords.symm
      cases hws
      exact ⟨hst, hbuilt, List.Perm.refl _, rfl⟩
  | n + 1, reader, st, ws, records, hst, hbuilt, hrecords, hreports, hws => by
      have hgrow := reader.readRecord_reports
      rw [Log.Reader.readAllLoop] at hrecords hreports
      rw [recoverLogLoop]
      rcases hread : reader.readRecord with ⟨_ | record, reader'⟩
      · rw [hread] at hrecords hreports hgrow
        obtain rfl : records = [] := hrecords.symm
        cases hws
        simp only at hreports
        simp only [hreports, List.drop_length, List.foldl_nil]
        exact ⟨hst, hbuilt, List.Perm.refl _, rfl⟩
      · rw [hread] at hrecords hreports hgrow
        simp only at hrecords hreports hgrow
        have hsame : reader'.reports = reader.reports := by
          have hrest := reader'.readAllLoop_reports n
          rw [hreports] at hrest
          exact (hgrow.eq_of_length (le_antisymm hgrow.length_le hrest.length_le)).symm
        cases hws with
        | nil => cases hrecords
        | @cons w record' ws records' hw hws =>
          obtain ⟨rfl, hrest⟩ := List.cons.inj hrecords
          obtain ⟨st', heq, hok, hbuilt', hstored, hmax⟩ := recoverRecord_spec henv hbuilt hw
          obtain ⟨h1, h2, h3, h4⟩ := recoverLogLoop_spec henv n hok hbuilt' hrest
            (hreports.trans hsame.symm) hws
          simp only [hsame, List.drop_length, List.foldl_nil, hst, Bool.not_true,
            Bool.false_eq_true, if_false, heq, if_true]
          refine ⟨h1, h2, h3.trans ?_, h4.trans ?_⟩
          · rw [List.reverse_cons, List.flatMap_append, List.append_assoc, List.flatMap_singleton]
            exact hstored.append_left _
          · rw [hmax]
            rfl

/-- The tables hold the writes `ws` besides what they held before. -/
structure Recovered (st : LogRecovery) (ws : List Write) (tables : List Source)
    (maxSequence : UInt64) : Prop where
  status : st.status.ok = true
  flushed : ∀ src ∈ st.tables, Flushed src
  stored : (st.tables.flatMap fun src => src.cells.flatMap Cell.stored).Perm
    (ws.flatMap Write.entries ++ tables.flatMap fun src => src.cells.flatMap Cell.stored)
  maxSequence : st.maxSequence = lastOf maxSequence ws

theorem lastOf_append (m : UInt64) (ws ws' : List Write) :
    lastOf m (ws ++ ws') = lastOf (lastOf m ws) ws' := List.foldl_append

/-- One log after another. -/
theorem Recovered.append {st st' : LogRecovery} {ws ws' : List Write} {tables : List Source}
    {m : UInt64} (h : Recovered st ws tables m) (h' : Recovered st' ws' st.tables st.maxSequence) :
    Recovered st' (ws ++ ws') tables m := by
  refine ⟨h'.status, h'.flushed, ?_, ?_⟩
  · rw [List.flatMap_append]
    refine h'.stored.trans ((h.stored.append_left _).trans ?_)
    rw [← List.append_assoc]
    exact List.perm_append_comm.append_right _
  · rw [h'.maxSequence, h.maxSequence, lastOf_append]

/-- **The writes in a log file are recovered.** -/
theorem recoverLogFile_spec {env : RecoveryEnv} (henv : env.Ok) {contents : Bytes}
    {ws : List Write} (hws : List.Forall₂ Write.Logged ws
      (Log.Reader.new (.new contents) true 0).readAll.1)
    (hreports : (Log.Reader.new (.new contents) true 0).readAll.2.reports = [])
    {tables : List Source} (htables : ∀ src ∈ tables, Flushed src) (maxSequence : UInt64) :
    Recovered (recoverLogFile env (.ok (.new contents)) tables maxSequence) ws tables
      maxSequence := by
  have hnew : LogRecovery.Built ⟨.OK, none, tables, maxSequence⟩ := ⟨List.Pairwise.nil, htables⟩
  obtain ⟨hok, hbuilt, hstored, hmax⟩ := recoverLogLoop_spec henv _ rfl hnew rfl hreports hws
  have hperm : (ws.reverse.flatMap Write.entries).Perm (ws.flatMap Write.entries) :=
    List.Perm.flatMap_right _ (List.reverse_perm ws)
  have hall := hstored.trans (hperm.append_right _)
  rw [recoverLogFile]
  simp only [hok, if_true]
  split
  · next mem hmem =>
    obtain ⟨h1, h2, h3, h4⟩ := writeLevel0Table_spec henv hmem hbuilt
    exact ⟨h1, h4, h3 ▸ hall, h2.trans hmax⟩
  · next hmem =>
    refine ⟨hok, hbuilt.tables, ?_, hmax⟩
    rw [stored, hmem] at hall
    exact hall

end Leveldb
