import Mathlib.Data.Finset.Insert
import AndroidLevelDB.Lib.Lifetime
import AndroidLevelDB.Lib.Outcome
import AndroidLevelDB.Leveldb.Open
import AndroidLevelDB.Jni.ByteBuffer

/-!
# Jni/Native — the native heap

Native code gets its objects as addresses.  `Native` is the part of the process it works on: what
lies at each address, the table of locked databases, and the calls made from Java so far.  To use
an address where nothing of the expected kind lies, or to call what the interface forbids, is
undefined and ends the process.

What matters to the owners of native objects is the `Native.skeleton`: which kinds of objects live
where, the locks, and the calls that create or free.
-/

open Leveldb Function

namespace Jni

/-- What lies at an address. -/
inductive Allocation
  | db (path : String) (impl : DBImpl)
  /-- A snapshot of the database at `db`, taken at a sequence number. -/
  | snapshot (db number : ℕ)
  /-- An iterator over the database at `db`, made with the snapshot at `snapshot`, if not 0. -/
  | iterator (db snapshot : ℕ) (iter : DBIter InternalIterator)
  | batch (b : WriteBatch)

/-- Its kind, with the addresses it depends on. -/
inductive Kind
  | db (path : String)
  | snapshot (db : ℕ)
  | iterator (db snapshot : ℕ)
  | batch
deriving DecidableEq

def Allocation.kind : Allocation → Kind
  | .db path _ => .db path
  | .snapshot d _ => .snapshot d
  | .iterator d s _ => .iterator d s
  | .batch _ => .batch

namespace Allocation

def asDB : Allocation → Option (String × DBImpl)
  | .db path impl => some (path, impl)
  | _ => none

def asSnapshot : Allocation → Option (ℕ × ℕ)
  | .snapshot d number => some (d, number)
  | _ => none

def asIterator : Allocation → Option (ℕ × ℕ × DBIter InternalIterator)
  | .iterator d s iter => some (d, s, iter)
  | _ => none

def asBatch : Allocation → Option WriteBatch
  | .batch b => some b
  | _ => none

end Allocation

/-- A snapshot depends on its database, an iterator on its database and its snapshot. -/
def Kind.parents : Kind → List ℕ
  | .db _ => []
  | .snapshot d => [d]
  | .iterator d s => if s = 0 then [d] else [d, s]
  | .batch => []

/-- The native functions of the three classes, as called, with the address returned. -/
inductive NativeCall
  | nativeOpen (dbpath : String) (result : ℕ)
  | nativeClose (db : ℕ)
  | nativeGet (db snapshot : ℕ)
  | nativeGetBB (db snapshot : ℕ)
  | nativePut (db : ℕ)
  | nativeDelete (db : ℕ)
  | nativeWrite (db batch : ℕ)
  | nativeIterator (db snapshot result : ℕ)
  | nativeGetSnapshot (db result : ℕ)
  | nativeReleaseSnapshot (db snapshot : ℕ)
  | nativeDestroy (dbpath : String)
  | iteratorDestroy (iter : ℕ)
  | iteratorUse (iter : ℕ)
  | batchCreate (result : ℕ)
  | batchDestroy (batch : ℕ)
  | batchUse (batch : ℕ)
deriving DecidableEq

/-- What a call means for the life of objects; the address 0 stands for no object. -/
def NativeCall.event : NativeCall → Option (Lifetime.Event ℕ Kind)
  | nativeOpen dbpath result => if result = 0 then none else some (.create result (.db dbpath))
  | nativeClose db => if db = 0 then none else some (.free db)
  | nativeIterator db snapshot result =>
    if result = 0 then none else some (.create result (.iterator db snapshot))
  | nativeGetSnapshot db result => if result = 0 then none else some (.create result (.snapshot db))
  | nativeReleaseSnapshot _ snapshot => some (.free snapshot)
  | iteratorDestroy iter => if iter = 0 then none else some (.free iter)
  | batchCreate result => if result = 0 then none else some (.create result .batch)
  | batchDestroy batch => if batch = 0 then none else some (.free batch)
  | _ => none

structure Native where
  heap : ℕ → Option Allocation
  /-- The names of the databases this process has locked. -/
  locks : Finset String
  /-- The calls made, the last one first. -/
  calls : List NativeCall

/-- What a native call meets outside of the process. -/
structure Env where
  /-- The address that `new` returns, 0 if it fails. -/
  newPtr : ℕ
  directory : Directory
  room : Room
  /-- What `DestroyDB` returns. -/
  destroyStatus : Status

/-- Nothing fails. -/
def fineEnv : Env where
  newPtr := 3
  directory :=
    { lockFile := .OK
      currentExists := true
      newDB := .OK
      readCurrent := .ok "MANIFEST-000001\n"
      openManifest := .OK
      manifest := [.ok ⟨some comparatorName, some 2, none, some 3, some 0⟩]
      replayLogs := .OK
      newLogFile := .OK
      logAndApply := .OK
      recovered := .empty }
  room := ⟨.OK, false, .OK, .OK⟩
  destroyStatus := .OK

namespace Native

/-- Nothing is allocated. -/
def empty : Native := ⟨fun _ => none, ∅, []⟩

/-- The kinds of what lives. -/
def kinds (s : Native) : ℕ → Option Kind := fun p => (s.heap p).map Allocation.kind

/-- The life of native objects so far. -/
def lifetime (s : Native) : List (Lifetime.Event ℕ Kind) := s.calls.filterMap NativeCall.event

/-- The state after a further call is noted. -/
def called (s : Native) (call : NativeCall) : Native := { s with calls := call :: s.calls }

/-- What there is to own, which database is locked, and how that came to be. -/
def skeleton (s : Native) :
    (ℕ → Option Kind) × Finset String × List (Lifetime.Event ℕ Kind) :=
  (s.kinds, s.locks, s.lifetime)

end Native

/-! ## Elementary steps -/

abbrev JniM := EStateM Abrupt Native

def crash {α : Type} : JniM α := throw .crash

def record (call : NativeCall) : JniM Unit := modify fun s => s.called call

/-- Raise an exception if there is one. -/
def raise : Option Throwable → JniM Unit
  | none => pure ()
  | some t => throw (.thrown t)

/-- `new`. -/
def allocate (env : Env) (a : Allocation) : JniM ℕ := do
  if env.newPtr ≠ 0 then
    modify fun s => { s with heap := update s.heap env.newPtr (some a) }
  pure env.newPtr

/-- `delete`. -/
def free (ptr : ℕ) : JniM Unit := modify fun s => { s with heap := update s.heap ptr none }

/-- Change the object at an address. -/
def store (ptr : ℕ) (a : Allocation) : JniM Unit :=
  modify fun s => { s with heap := update s.heap ptr (some a) }

/-- Use the object at an address as one of a kind. -/
def deref {α : Type} (view : Allocation → Option α) (ptr : ℕ) : JniM α := do
  match ((← get).heap ptr).bind view with
  | some a => pure a
  | none => crash

def derefDB (ptr : ℕ) : JniM (String × DBImpl) := deref Allocation.asDB ptr

def derefBatch (ptr : ℕ) : JniM WriteBatch := deref Allocation.asBatch ptr

/-- An iterator works on its database. -/
def derefIterator (ptr : ℕ) : JniM (ℕ × ℕ × DBIter InternalIterator) := do
  let (db, snapshot, iter) ← deref Allocation.asIterator ptr
  let _ ← derefDB db
  pure (db, snapshot, iter)

/-- `ReadOptions::snapshot`; null means the latest state. -/
def readOptions (snapshotPtr : ℕ) : JniM (Option ℕ) := do
  if snapshotPtr = 0 then pure none
  else
    let (_, number) ← deref Allocation.asSnapshot snapshotPtr
    pure (some number)

end Jni
