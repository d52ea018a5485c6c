import AndroidLevelDB.Jni.Native

/-!
# Jni/Natives — the native functions of the three classes

The functions of `com_litl_leveldb_DB.cc`, `com_litl_leveldb_Iterator.cc` and
`com_litl_leveldb_WriteBatch.cc`.  A function that neither creates nor frees leaves the skeleton of
the native heap (`keepsSkeleton_*`).
-/

open Leveldb Function

namespace Jni

/-- What `nativeGet` and `nativeGetBB` do with the key: seek it and compare. -/
def lookup (db : DBImpl) (snapshot : Option ℕ) (key : Bytes) : Option Bytes :=
  let iter := (db.newIterator snapshot).seek key
  if iter.valid && key = iter.key then some iter.value else none

/-- The bytes of a buffer, as the native functions take them. -/
def takeBuffer (buffer : ByteBuffer) : JniM Bytes :=
  match bufferSlice buffer with
  | .ok bytes => pure bytes
  | .error e => throw e

namespace DB

/-- `DB::Open` uses the new object whatever the outcome. -/
def nativeOpen (env : Env) (dbpath : String) : JniM ℕ := do
  if env.newPtr = 0 then crash
  else
    let s ← get
    let (status, opened) := env.directory.dbOpen dbpath (decide (dbpath ∈ s.locks))
    let db ← match opened with
      | some impl => do
        modify fun s => { s with locks := insert dbpath s.locks }
        allocate env (.db dbpath impl)
      | none => pure 0
    record (.nativeOpen dbpath db)
    raise (throwUnlessOk status)
    pure db

def nativeClose (dbPtr : ℕ) : JniM Unit := do
  record (.nativeClose dbPtr)
  if dbPtr ≠ 0 then
    let (path, _) ← derefDB dbPtr
    free dbPtr
    modify fun s => { s with locks := s.locks.erase path }

def nativeGet (dbPtr snapshotPtr : ℕ) (key : Bytes) : JniM (Option Bytes) := do
  record (.nativeGet dbPtr snapshotPtr)
  let (_, db) ← derefDB dbPtr
  let snapshot ← readOptions snapshotPtr
  pure (lookup db snapshot key)

def nativeGetBB (dbPtr snapshotPtr : ℕ) (keyObj : ByteBuffer) : JniM (Option Bytes) := do
  record (.nativeGetBB dbPtr snapshotPtr)
  let keySlice ← takeBuffer keyObj
  let (_, db) ← derefDB dbPtr
  let snapshot ← readOptions snapshotPtr
  pure (lookup db snapshot keySlice)

def nativePut (env : Env) (dbPtr : ℕ) (key value : Bytes) : JniM Unit := do
  record (.nativePut dbPtr)
  let (path, db) ← derefDB dbPtr
  let (status, db) := db.put env.room key value
  store dbPtr (.db path db)
  raise (throwUnlessOk status)

def nativeDelete (env : Env) (dbPtr : ℕ) (key : Bytes) : JniM Unit := do
  record (.nativeDelete dbPtr)
  let (path, db) ← derefDB dbPtr
  let (status, db) := db.delete env.room key
  store dbPtr (.db path db)
  raise (throwUnlessOk status)

/-- The null batch asks for a switch of memtables. -/
def nativeWrite (env : Env) (dbPtr batchPtr : ℕ) : JniM Unit := do
  record (.nativeWrite dbPtr batchPtr)
  let (path, db) ← derefDB dbPtr
  if batchPtr = 0 then
    let (status, db, _) := db.write env.room none
    store dbPtr (.db path db)
    raise (throwUnlessOk status)
  else
    let batch ← derefBatch batchPtr
    let (status, db, updates) := db.write env.room (some batch)
    store dbPtr (.db path db)
    store batchPtr (.batch (updates.getD batch))
    raise (throwUnlessOk status)

def nativeIterator (env : Env) (dbPtr snapshotPtr : ℕ) : JniM ℕ := do
  let (_, db) ← derefDB dbPtr
  let snapshot ← readOptions snapshotPtr
  let iter ← allocate env (.iterator dbPtr snapshotPtr (db.newIterator snapshot))
  record (.nativeIterator dbPtr snapshotPtr iter)
  pure iter

def nativeGetSnapshot (env : Env) (dbPtr : ℕ) : JniM ℕ := do
  let (_, db) ← derefDB dbPtr
  let snapshot ← allocate env (.snapshot dbPtr db.getSnapshot)
  record (.nativeGetSnapshot dbPtr snapshot)
  pure snapshot

/-- `ReleaseSnapshot` requires a snapshot of this database. -/
def nativeReleaseSnapshot (dbPtr snapshotPtr : ℕ) : JniM Unit := do
  record (.nativeReleaseSnapshot dbPtr snapshotPtr)
  let _ ← derefDB dbPtr
  let (d, _) ← deref Allocation.asSnapshot snapshotPtr
  if d = dbPtr then free snapshotPtr else crash

def nativeDestroy (env : Env) (dbpath : String) : JniM Unit := do
  record (.nativeDestroy dbpath)
  raise (throwUnlessOk env.destroyStatus)

end DB

namespace Iterator

def nativeDestroy (ptr : ℕ) : JniM Unit := do
  record (.iteratorDestroy ptr)
  if ptr ≠ 0 then
    let _ ← derefIterator ptr
    free ptr

/-- Move the iterator at an address; `Next` and `Prev` require it to be valid. -/
def move (valid : Bool) (f : DBIter InternalIterator → DBIter InternalIterator) (iterPtr : ℕ) :
    JniM Unit := do
  record (.iteratorUse iterPtr)
  let (db, snapshot, iter) ← derefIterator iterPtr
  if valid && !iter.valid then crash
  else store iterPtr (.iterator db snapshot (f iter))

/-- Read from the iterator at an address; `key` and `value` require it to be valid. -/
def read {α : Type} (valid : Bool) (f : DBIter InternalIterator → α) (iterPtr : ℕ) : JniM α := do
  record (.iteratorUse iterPtr)
  let (_, _, iter) ← derefIterator iterPtr
  if valid && !iter.valid then crash else pure (f iter)

def nativeSeekToFirst (iterPtr : ℕ) : JniM Unit := move false DBIter.seekToFirst iterPtr

def nativeSeekToLast (iterPtr : ℕ) : JniM Unit := move false DBIter.seekToLast iterPtr

def nativeSeek (iterPtr : ℕ) (key : Bytes) : JniM Unit := move false (DBIter.seek · key) iterPtr

def nativeValid (iterPtr : ℕ) : JniM Bool := read false DBIter.valid iterPtr

def nativeNext (iterPtr : ℕ) : JniM Unit := move true DBIter.next iterPtr

def nativePrev (iterPtr : ℕ) : JniM Unit := move true DBIter.prev iterPtr

def nativeKey (iterPtr : ℕ) : JniM Bytes := read true DBIter.key iterPtr

def nativeValue (iterPtr : ℕ) : JniM Bytes := read true DBIter.value iterPtr

end Iterator

namespace WriteBatch

def nativeCreate (env : Env) : JniM ℕ := do
  let batch ← allocate env (.batch .new)
  record (.batchCreate batch)
  pure batch

def nativeDestroy (ptr : ℕ) : JniM Unit := do
  record (.batchDestroy ptr)
  if ptr ≠ 0 then
    let _ ← derefBatch ptr
    free ptr

def nativeDelete (ptr : ℕ) (buffer : ByteBuffer) : JniM Unit := do
  record (.batchUse ptr)
  let key ← takeBuffer buffer
  let batch ← derefBatch ptr
  store ptr (.batch (batch.delete key))

def nativePut (ptr : ℕ) (keyObj valObj : ByteBuffer) : JniM Unit := do
  record (.batchUse ptr)
  let key ← takeBuffer keyObj
  let val ← takeBuffer valObj
  let batch ← derefBatch ptr
  store ptr (.batch (batch.put key val))

def nativeClear (ptr : ℕ) : JniM Unit := do
  record (.batchUse ptr)
  let batch ← derefBatch ptr
  store ptr (.batch batch.clear)

end WriteBatch

/-! ## What keeps the skeleton -/

/-- Nothing is created, freed, locked or unlocked. -/
def SameSkeleton (s s' : Native) : Prop := s'.skeleton = s.skeleton

instance : Std.Refl SameSkeleton := ⟨fun _ => rfl⟩

instance : IsTrans Native SameSkeleton := ⟨fun _ _ _ h h' => h'.trans h⟩

/-- The program keeps the skeleton, however it ends. -/
abbrev KeepsSkeleton {α : Type} (m : JniM α) : Prop := Keeps SameSkeleton m

/-- Another object of the same kind. -/
theorem skeleton_store {s : Native} {ptr : ℕ} {a a' : Allocation} (h : s.heap ptr = some a)
    (hk : a'.kind = a.kind) :
    Native.skeleton { s with heap := update s.heap ptr (some a') } = s.skeleton := by
  have hkinds : Native.kinds { s with heap := update s.heap ptr (some a') } = s.kinds := by
    funext p
    rcases eq_or_ne p ptr with rfl | hp
    · simp [Native.kinds, h, hk]
    · simp [Native.kinds, update_of_ne hp]
  rw [Native.skeleton, hkinds]
  rfl

theorem keeps_record {call : NativeCall} (h : call.event = none) : KeepsSkeleton (record call) := by
  refine Keeps.modify fun s => ?_
  rw [SameSkeleton, Native.skeleton, Native.lifetime, Native.called, List.filterMap_cons_none h]
  rfl

theorem keeps_raise (t : Option Throwable) : KeepsSkeleton (raise t) := by
  cases t with
  | none => exact Keeps.pure _
  | some t => exact Keeps.throw _

theorem keeps_takeBuffer (b : ByteBuffer) : KeepsSkeleton (takeBuffer b) := by
  rw [takeBuffer]
  cases bufferSlice b with
  | ok bytes => exact Keeps.pure _
  | error e => exact Keeps.throw _

@[simp] theorem ends_deref {α : Type} {view : Allocation → Option α} {ptr : ℕ} {s : Native}
    {Q : α → Native → Prop} {E : Abrupt → Native → Prop} :
    Ends (deref view ptr) s Q E ↔ (∀ a, (s.heap ptr).bind view = some a → Q a s) ∧
      ((s.heap ptr).bind view = none → E .crash s) := by
  simp only [deref, ends_bind, ends_get]
  cases (s.heap ptr).bind view <;> simp [crash]

@[simp] theorem ends_record {call : NativeCall} {s : Native} {Q : Unit → Native → Prop}
    {E : Abrupt → Native → Prop} :
    Ends (record call) s Q E ↔ Q () (s.called call) := Iff.rfl

@[simp] theorem ends_store {ptr : ℕ} {a : Allocation} {s : Native} {Q : Unit → Native → Prop}
    {E : Abrupt → Native → Prop} :
    Ends (store ptr a) s Q E ↔ Q () { s with heap := update s.heap ptr (some a) } := Iff.rfl

theorem ends_derefDB {ptr : ℕ} {s : Native} {path : String} {impl : DBImpl}
    (h : s.heap ptr = some (.db path impl)) {Q : String × DBImpl → Native → Prop}
    {E : Abrupt → Native → Prop} : Ends (derefDB ptr) s Q E ↔ Q (path, impl) s := by
  simp [derefDB, h, Allocation.asDB]

theorem ends_derefBatch {ptr : ℕ} {s : Native} {b : Leveldb.WriteBatch}
    (h : s.heap ptr = some (.batch b)) {Q : Leveldb.WriteBatch → Native → Prop}
    {E : Abrupt → Native → Prop} : Ends (derefBatch ptr) s Q E ↔ Q b s := by
  simp [derefBatch, h, Allocation.asBatch]

theorem keeps_deref {α : Type} (view : Allocation → Option α) (ptr : ℕ) :
    KeepsSkeleton (deref view ptr) := fun s => by simp [SameSkeleton]

/-- What is done with the object at an address, knowing that it is there. -/
theorem keeps_deref_bind {α β : Type} {view : Allocation → Option α} {ptr : ℕ} {f : α → JniM β}
    (h : ∀ a x s, s.heap ptr = some a → view a = some x →
      Ends (f x) s (fun _ => SameSkeleton s) fun _ => SameSkeleton s) :
    KeepsSkeleton (deref view ptr >>= f) := by
  intro s
  rw [ends_bind, ends_deref]
  refine ⟨fun x hx => ?_, fun _ => Std.Refl.refl s⟩
  obtain ⟨a, ha, hax⟩ := Option.bind_eq_some_iff.mp hx
  exact h a x s ha hax

/-- Putting an object of the same kind in its place. -/
theorem ends_store_same {ptr : ℕ} {a a' : Allocation} {s : Native} (h : s.heap ptr = some a)
    (hk : a'.kind = a.kind) :
    Ends (store ptr a') s (fun _ => SameSkeleton s) fun _ => SameSkeleton s :=
  skeleton_store h hk

/-- Putting an object of the same kind in its place, and what comes after that. -/
theorem ends_store_bind {α : Type} {ptr : ℕ} {a a' : Allocation} {s : Native} {m : Unit → JniM α}
    (h : s.heap ptr = some a) (hk : a'.kind = a.kind) (hm : KeepsSkeleton (m ())) :
    Ends (store ptr a' >>= m) s (fun _ => SameSkeleton s) fun _ => SameSkeleton s := by
  rw [ends_bind]
  have hs := skeleton_store h hk
  exact (hm _).mono (fun _ _ h' => h'.trans hs) (fun _ _ h' => h'.trans hs)

theorem keeps_derefIterator_bind {α : Type} {ptr : ℕ}
    {f : ℕ × ℕ × DBIter InternalIterator → JniM α}
    (h : ∀ a x s, s.heap ptr = some a → a.asIterator = some x →
      Ends (f x) s (fun _ => SameSkeleton s) fun _ => SameSkeleton s) :
    KeepsSkeleton (derefIterator ptr >>= f) := by
  intro s
  simp only [derefIterator, derefDB, ends_bind, ends_deref, ends_pure]
  refine ⟨fun x hx => ⟨fun _ _ => ?_, fun _ => Std.Refl.refl s⟩, fun _ => Std.Refl.refl s⟩
  obtain ⟨a, ha, hax⟩ := Option.bind_eq_some_iff.mp hx
  exact h a x s ha hax

theorem keeps_readOptions (ptr : ℕ) : KeepsSkeleton (readOptions ptr) := by
  refine Keeps.ite (Keeps.pure _) (Keeps.bind (keeps_deref _ _) fun _ => Keeps.pure _)

/-- What is used as a database is one. -/
theorem heap_of_asDB {s : Native} {ptr : ℕ} {x : String × DBImpl}
    (h : (s.heap ptr).bind Allocation.asDB = some x) : s.heap ptr = some (.db x.1 x.2) := by
  obtain ⟨a, ha, hx⟩ := Option.bind_eq_some_iff.mp h
  rw [ha]
  cases a <;> cases hx
  rfl

theorem heap_of_asSnapshot {s : Native} {ptr : ℕ} {x : ℕ × ℕ}
    (h : (s.heap ptr).bind Allocation.asSnapshot = some x) :
    s.heap ptr = some (.snapshot x.1 x.2) := by
  obtain ⟨a, ha, hx⟩ := Option.bind_eq_some_iff.mp h
  rw [ha]
  cases a <;> cases hx
  rfl

theorem heap_of_asBatch {s : Native} {ptr : ℕ} {b : Leveldb.WriteBatch}
    (h : (s.heap ptr).bind Allocation.asBatch = some b) : s.heap ptr = some (.batch b) := by
  obtain ⟨a, ha, hx⟩ := Option.bind_eq_some_iff.mp h
  rw [ha]
  cases a <;> cases hx
  rfl

@[simp] theorem ends_raise {t : Option Throwable} {s : Native} {Q : Unit → Native → Prop}
    {E : Abrupt → Native → Prop} :
    Ends (raise t) s Q E ↔ (t = none → Q () s) ∧ ∀ e, t = some e → E (.thrown e) s := by
  cases t <;> simp [raise]

theorem kind_of_asDB {a : Allocation} {x : String × DBImpl} (h : a.asDB = some x) (db : DBImpl) :
    (Allocation.db x.1 db).kind = a.kind := by
  cases a <;> cases h
  rfl

theorem kind_of_asBatch {a : Allocation} {b : Leveldb.WriteBatch} (h : a.asBatch = some b)
    (b' : Leveldb.WriteBatch) : (Allocation.batch b').kind = a.kind := by
  cases a <;> cases h
  rfl

theorem kind_of_asIterator {a : Allocation} {x : ℕ × ℕ × DBIter InternalIterator}
    (h : a.asIterator = some x) (iter : DBIter InternalIterator) :
    (Allocation.iterator x.1 x.2.1 iter).kind = a.kind := by
  cases a <;> cases h
  rfl

namespace DB

theorem keeps_nativeGet (dbPtr snapshotPtr : ℕ) (key : Bytes) :
    KeepsSkeleton (nativeGet dbPtr snapshotPtr key) :=
  Keeps.bind (keeps_record rfl) fun _ => Keeps.bind (keeps_deref _ _) fun _ =>
    Keeps.bind (keeps_readOptions _) fun _ => Keeps.pure _

theorem keeps_nativeGetBB (dbPtr snapshotPtr : ℕ) (keyObj : ByteBuffer) :
    KeepsSkeleton (nativeGetBB dbPtr snapshotPtr keyObj) :=
  Keeps.bind (keeps_record rfl) fun _ => Keeps.bind (keeps_takeBuffer _) fun _ =>
    Keeps.bind (keeps_deref _ _) fun _ => Keeps.bind (keeps_readOptions _) fun _ => Keeps.pure _

theorem keeps_nativePut (env : Env) (dbPtr : ℕ) (key value : Bytes) :
    KeepsSkeleton (nativePut env dbPtr key value) :=
  Keeps.bind (keeps_record rfl) fun _ => keeps_deref_bind fun _ _ _ ha hx =>
    ends_store_bind ha (kind_of_asDB hx _) (keeps_raise _)

theorem keeps_nativeDelete (env : Env) (dbPtr : ℕ) (key : Bytes) :
    KeepsSkeleton (nativeDelete env dbPtr key) :=
  Keeps.bind (keeps_record rfl) fun _ => keeps_deref_bind fun _ _ _ ha hx =>
    ends_store_bind ha (kind_of_asDB hx _) (keeps_raise _)

theorem keeps_nativeWrite (env : Env) (dbPtr batchPtr : ℕ) :
    KeepsSkeleton (nativeWrite env dbPtr batchPtr) := by
  refine Keeps.bind (keeps_record rfl) fun _ => keeps_deref_bind fun a x s ha hx => ?_
  rw [ends_ite]
  refine ⟨fun _ => ends_store_bind ha (kind_of_asDB hx _) (keeps_raise _), fun _ => ?_⟩
  rw [ends_bind, derefBatch, ends_deref]
  refine ⟨fun batch hbatch => ?_, fun _ => Std.Refl.refl s⟩
  obtain ⟨b, hb, hbx⟩ := Option.bind_eq_some_iff.mp hbatch
  -- the database and the batch lie at different addresses
  have hne : batchPtr ≠ dbPtr := by
    rintro rfl
    rw [ha] at hb
    cases hb
    cases a <;> cases hx
    cases hbx
  have hs := skeleton_store ha (kind_of_asDB hx (x.2.write env.room (some batch)).2.1)
  rw [ends_bind]
  refine (ends_store_bind ?_ (kind_of_asBatch hbx _) (keeps_raise _)).mono
    (fun _ _ h' => h'.trans hs) fun _ _ h' => h'.trans hs
  exact (update_of_ne hne _ _).trans hb

end DB

namespace Iterator

theorem keeps_move (valid : Bool) (f : DBIter InternalIterator → DBIter InternalIterator)
    (iterPtr : ℕ) : KeepsSkeleton (move valid f iterPtr) := by
  refine Keeps.bind (keeps_record rfl) fun _ => keeps_derefIterator_bind fun a x s ha hx => ?_
  rw [ends_ite]
  exact ⟨fun _ => Keeps.throw _ s, fun _ => ends_store_same ha (kind_of_asIterator hx _)⟩

theorem keeps_read {α : Type} (valid : Bool) (f : DBIter InternalIterator → α) (iterPtr : ℕ) :
    KeepsSkeleton (read valid f iterPtr) := by
  refine Keeps.bind (keeps_record rfl) fun _ => keeps_derefIterator_bind fun a x s ha hx => ?_
  rw [ends_ite]
  exact ⟨fun _ => Keeps.throw _ s, fun _ => Keeps.pure _ s⟩

end Iterator

namespace WriteBatch

theorem keeps_nativeDelete (ptr : ℕ) (buffer : ByteBuffer) :
    KeepsSkeleton (nativeDelete ptr buffer) :=
  Keeps.bind (keeps_record rfl) fun _ => Keeps.bind (keeps_takeBuffer _) fun _ =>
    keeps_deref_bind fun _ _ _ ha hx => ends_store_same ha (kind_of_asBatch hx _)

theorem keeps_nativePut (ptr : ℕ) (keyObj valObj : ByteBuffer) :
    KeepsSkeleton (nativePut ptr keyObj valObj) :=
  Keeps.bind (keeps_record rfl) fun _ => Keeps.bind (keeps_takeBuffer _) fun _ =>
    Keeps.bind (keeps_takeBuffer _) fun _ =>
      keeps_deref_bind fun _ _ _ ha hx => ends_store_same ha (kind_of_asBatch hx _)

theorem keeps_nativeClear (ptr : ℕ) : KeepsSkeleton (nativeClear ptr) :=
  Keeps.bind (keeps_record rfl) fun _ =>
    keeps_deref_bind fun _ _ _ ha hx => ends_store_same ha (kind_of_asBatch hx _)

end WriteBatch

end Jni
