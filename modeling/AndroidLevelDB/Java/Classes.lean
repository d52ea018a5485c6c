import AndroidLevelDB.Java.NativeObject

/-!
# Java/Classes — `DB`, its snapshots and iterators, and `WriteBatch`

The methods of the three classes.  A method first asserts that its object is open, then checks its
arguments for null, then makes its native call.  A snapshot holds a reference to the database that
made it, an iterator to its database and to the snapshot it was made with; their
`closeNativeObject` gives these references back.
-/

open Leveldb Jni

namespace Java

open NativeObject

/-- Throw a `NullPointerException` for a null argument. -/
def nonNull {α : Type} (message : Option String) : Option α → JavaM α
  | some a => pure a
  | none => throw (.thrown (.nullPointerException message))

namespace WriteBatch

def closeNativeObject (ptr : ℕ) : JavaM Unit := call (Jni.WriteBatch.nativeDestroy ptr)

def new (env : Env) : JavaM ℕ := do
  let ptr ← call (Jni.WriteBatch.nativeCreate env)
  let b := (← get).fresh
  newPtr (.batch b) ptr
  pure b

def close (b : ℕ) : JavaM Unit := NativeObject.close closeNativeObject (.batch b)

def delete (b : ℕ) (key : Option ByteBuffer) : JavaM Unit := do
  assertOpen (.batch b) "WriteBatch is closed"
  let key ← nonNull (some "key") key
  call (Jni.WriteBatch.nativeDelete (← getPtr (.batch b)) key)

def put (b : ℕ) (key value : Option ByteBuffer) : JavaM Unit := do
  assertOpen (.batch b) "WriteBatch is closed"
  let key ← nonNull (some "key") key
  let value ← nonNull (some "value") value
  call (Jni.WriteBatch.nativePut (← getPtr (.batch b)) key value)

def clear (b : ℕ) : JavaM Unit := do
  assertOpen (.batch b) "WriteBatch is closed"
  call (Jni.WriteBatch.nativeClear (← getPtr (.batch b)))

end WriteBatch

def DB.open (env : Env) (d : ℕ) : JavaM Unit := do
  let ptr ← call (Jni.DB.nativeOpen env ((← get).mPath d))
  modify fun w => w.setPtr (.db d) ptr

namespace DB

/-- `destroy(File)`. -/
def destroyPath (env : Env) (path : String) : JavaM Unit := call (Jni.DB.nativeDestroy env path)

/-- `DB(File)`; the check for null comes after the super constructor. -/
def new (path : Option String) : JavaM ℕ := do
  let d := (← get).fresh
  NativeObject.new (.db d)
  let path ← nonNull none path
  modify fun w => { w with mPath := Function.update w.mPath d path }
  pure d

def closeNativeObject (env : Env) (d ptr : ℕ) : JavaM Unit := do
  call (Jni.DB.nativeClose ptr)
  let w ← get
  if w.mDestroyOnClose d then destroyPath env (w.mPath d)
  else pure ()

def unref (env : Env) (d : ℕ) : JavaM Unit := NativeObject.unref (closeNativeObject env d) (.db d)

def close (env : Env) (d : ℕ) : JavaM Unit := NativeObject.close (closeNativeObject env d) (.db d)

def put (env : Env) (d : ℕ) (key value : Option Bytes) : JavaM Unit := do
  assertOpen (.db d) "Database is closed"
  let key ← nonNull (some "key") key
  let value ← nonNull (some "value") value
  call (Jni.DB.nativePut env (← getPtr (.db d)) key value)

/-- `snapshot != null ? snapshot.getPtr() : 0`. -/
def snapshotPtr : Option ℕ → JavaM ℕ
  | some s => getPtr (.snapshot s)
  | none => pure 0

def get (d : ℕ) (snapshot : Option ℕ) (key : Option Bytes) : JavaM (Option Bytes) := do
  assertOpen (.db d) "Database is closed"
  let key ← nonNull none key
  call (Jni.DB.nativeGet (← getPtr (.db d)) (← snapshotPtr snapshot) key)

/-- `get` with a `ByteBuffer`. -/
def getBB (d : ℕ) (snapshot : Option ℕ) (key : Option ByteBuffer) : JavaM (Option Bytes) := do
  assertOpen (.db d) "Database is closed"
  let key ← nonNull none key
  call (Jni.DB.nativeGetBB (← getPtr (.db d)) (← snapshotPtr snapshot) key)

def delete (env : Env) (d : ℕ) (key : Option Bytes) : JavaM Unit := do
  assertOpen (.db d) "Database is closed"
  let key ← nonNull none key
  call (Jni.DB.nativeDelete env (← getPtr (.db d)) key)

def write (env : Env) (d : ℕ) (batch : Option ℕ) : JavaM Unit := do
  assertOpen (.db d) "Database is closed"
  let batch ← nonNull none batch
  call (Jni.DB.nativeWrite env (← getPtr (.db d)) (← getPtr (.batch batch)))

/-- `new Iterator(ptr)` with the variables that the anonymous class captures. -/
def newIterator (d : ℕ) (snapshot : Option ℕ) (ptr : ℕ) : JavaM ℕ := do
  let i := (← MonadState.get).fresh
  modify fun w =>
    { w with
      iteratorDB := Function.update w.iteratorDB i d
      iteratorSnapshot := Function.update w.iteratorSnapshot i snapshot }
  newPtr (.iterator i) ptr
  pure i

def iterator (env : Env) (d : ℕ) (snapshot : Option ℕ) : JavaM ℕ := do
  assertOpen (.db d) "Database is closed"
  ref (.db d)
  if let some s := snapshot then ref (.snapshot s)
  let ptr ← call (Jni.DB.nativeIterator env (← getPtr (.db d)) (← snapshotPtr snapshot))
  newIterator d snapshot ptr

/-- `new Snapshot(ptr)` of the database that the anonymous class captures. -/
def newSnapshot (d : ℕ) (ptr : ℕ) : JavaM ℕ := do
  let s := (← MonadState.get).fresh
  modify fun w => { w with snapshotDB := Function.update w.snapshotDB s d }
  newPtr (.snapshot s) ptr
  pure s

def getSnapshot (env : Env) (d : ℕ) : JavaM ℕ := do
  assertOpen (.db d) "Database is closed"
  ref (.db d)
  let ptr ← call (Jni.DB.nativeGetSnapshot env (← getPtr (.db d)))
  newSnapshot d ptr

def destroy (env : Env) (d : ℕ) : JavaM Unit := do
  modify fun w => { w with mDestroyOnClose := Function.update w.mDestroyOnClose d true }
  let w ← MonadState.get
  if (w.object (.db d)).mPtr = 0 then destroyPath env (w.mPath d)
  else pure ()

end DB

namespace Snapshot

/-- The override in `getSnapshot`; it does not use its argument. -/
def closeNativeObject (env : Env) (s : ℕ) (_ptr : ℕ) : JavaM Unit := do
  let d := (← get).snapshotDB s
  call (Jni.DB.nativeReleaseSnapshot (← getPtr (.db d)) (← getPtr (.snapshot s)))
  DB.unref env d

def unref (env : Env) (s : ℕ) : JavaM Unit :=
  NativeObject.unref (closeNativeObject env s) (.snapshot s)

def close (env : Env) (s : ℕ) : JavaM Unit :=
  NativeObject.close (closeNativeObject env s) (.snapshot s)

end Snapshot

namespace Iterator

/-- The override in `iterator`. -/
def closeNativeObject (env : Env) (i : ℕ) (ptr : ℕ) : JavaM Unit := do
  call (Jni.Iterator.nativeDestroy ptr)
  let w ← get
  match w.iteratorSnapshot i with
  | some s => Snapshot.unref env s
  | none => pure ()
  DB.unref env (w.iteratorDB i)

def close (env : Env) (i : ℕ) : JavaM Unit :=
  NativeObject.close (closeNativeObject env i) (.iterator i)

/-- A method that asserts that the iterator is open and calls a native function. -/
def method {α : Type} (native : ℕ → JniM α) (i : ℕ) : JavaM α := do
  assertOpen (.iterator i) "Iterator is closed"
  call (native (← getPtr (.iterator i)))

def seekToFirst (i : ℕ) : JavaM Unit := method Jni.Iterator.nativeSeekToFirst i

def seekToLast (i : ℕ) : JavaM Unit := method Jni.Iterator.nativeSeekToLast i

def seek (i : ℕ) (target : Option Bytes) : JavaM Unit := do
  assertOpen (.iterator i) "Iterator is closed"
  match target with
  | none => throw (.thrown .illegalArgumentException)
  | some target => call (Jni.Iterator.nativeSeek (← getPtr (.iterator i)) target)

def isValid (i : ℕ) : JavaM Bool := method Jni.Iterator.nativeValid i

def next (i : ℕ) : JavaM Unit := method Jni.Iterator.nativeNext i

def prev (i : ℕ) : JavaM Unit := method Jni.Iterator.nativePrev i

def getKey (i : ℕ) : JavaM Bytes := method Jni.Iterator.nativeKey i

def getValue (i : ℕ) : JavaM Bytes := method Jni.Iterator.nativeValue i

end Iterator

end Java
