import AndroidLevelDB.Jni.Natives

/-!
# Jni/Steps — native functions, step by step

What holds of the steps of native code, and of a program if it holds of the parts, holds of the
native functions: of those that neither create nor free (`Quiet`), and of those that create or free
iterators, snapshots and batches.
-/

open Leveldb

namespace Jni

/-- A call that does not open, close or destroy a database. -/
def NativeCall.isData : NativeCall → Bool
  | nativeOpen .. => false
  | nativeClose _ => false
  | nativeDestroy _ => false
  | _ => true

/-- The native functions that neither create nor free. -/
inductive Quiet (env : Env) : ∀ {α : Type}, JniM α → Prop
  | nativeGet (dbPtr snapshotPtr : ℕ) (key : Bytes) : Quiet env (DB.nativeGet dbPtr snapshotPtr key)
  | nativeGetBB (dbPtr snapshotPtr : ℕ) (keyObj : ByteBuffer) :
    Quiet env (DB.nativeGetBB dbPtr snapshotPtr keyObj)
  | nativePut (dbPtr : ℕ) (key value : Bytes) : Quiet env (DB.nativePut env dbPtr key value)
  | nativeDelete (dbPtr : ℕ) (key : Bytes) : Quiet env (DB.nativeDelete env dbPtr key)
  | nativeWrite (dbPtr batchPtr : ℕ) : Quiet env (DB.nativeWrite env dbPtr batchPtr)
  | move (valid : Bool) (f : DBIter InternalIterator → DBIter InternalIterator) (iterPtr : ℕ) :
    Quiet env (Iterator.move valid f iterPtr)
  | read {α : Type} (valid : Bool) (f : DBIter InternalIterator → α) (iterPtr : ℕ) :
    Quiet env (Iterator.read valid f iterPtr)
  | batchPut (ptr : ℕ) (keyObj valObj : ByteBuffer) :
    Quiet env (WriteBatch.nativePut ptr keyObj valObj)
  | batchDelete (ptr : ℕ) (buffer : ByteBuffer) : Quiet env (WriteBatch.nativeDelete ptr buffer)
  | batchClear (ptr : ℕ) : Quiet env (WriteBatch.nativeClear ptr)

/-- `P` holds of the steps of native code. -/
structure NativeSteps (P : ∀ {α : Type}, JniM α → Prop) : Prop extends Compositional P where
  record : ∀ call : NativeCall, call.isData = true → P (Jni.record call)
  crash : ∀ {α : Type}, P (Jni.crash : JniM α)
  raise : ∀ status, P (Jni.raise (throwUnlessOk status))
  takeBuffer : ∀ buffer, P (Jni.takeBuffer buffer)
  deref : ∀ {α : Type} (view : Allocation → Option α) (ptr : ℕ), P (Jni.deref view ptr)
  store : ∀ ptr a, P (Jni.store ptr a)
  free : ∀ ptr, P (Jni.free ptr)
  allocate : ∀ env a, P (Jni.allocate env a)

namespace NativeSteps

variable {P : ∀ {α : Type}, JniM α → Prop} {env : Env}

theorem derefIterator (h : NativeSteps P) (ptr : ℕ) : P (Jni.derefIterator ptr) :=
  h.bind (h.deref _ _) fun _ => h.bind (h.deref _ _) fun _ => h.pure _

theorem readOptions (h : NativeSteps P) (ptr : ℕ) : P (Jni.readOptions ptr) :=
  h.ite (h.pure _) (h.bind (h.deref _ _) fun _ => h.pure _)

/-- **The functions that neither create nor free.** -/
theorem quiet {α : Type} {m : JniM α} (h : NativeSteps P) (hm : Quiet env m) : P m := by
  cases hm with
  | nativeGet dbPtr snapshotPtr key =>
    exact h.bind (h.record _ rfl) fun _ => h.bind (h.deref _ _) fun _ =>
      h.bind (h.readOptions _) fun _ => h.pure _
  | nativeGetBB dbPtr snapshotPtr keyObj =>
    exact h.bind (h.record _ rfl) fun _ => h.bind (h.takeBuffer _) fun _ =>
      h.bind (h.deref _ _) fun _ => h.bind (h.readOptions _) fun _ => h.pure _
  | nativePut dbPtr key value =>
    exact h.bind (h.record _ rfl) fun _ => h.bind (h.deref _ _) fun _ =>
      h.bind (h.store _ _) fun _ => h.raise _
  | nativeDelete dbPtr key =>
    exact h.bind (h.record _ rfl) fun _ => h.bind (h.deref _ _) fun _ =>
      h.bind (h.store _ _) fun _ => h.raise _
  | nativeWrite dbPtr batchPtr =>
    refine h.bind (h.record _ rfl) fun _ => h.bind (h.deref _ _) fun _ => ?_
    refine h.ite (h.bind (h.store _ _) fun _ => h.raise _) ?_
    exact h.bind (h.deref _ _) fun _ => h.bind (h.store _ _) fun _ =>
      h.bind (h.store _ _) fun _ => h.raise _
  | move valid f iterPtr =>
    exact h.bind (h.record _ rfl) fun _ => h.bind (h.derefIterator _) fun _ =>
      h.ite h.crash (h.store _ _)
  | read valid f iterPtr =>
    exact h.bind (h.record _ rfl) fun _ => h.bind (h.derefIterator _) fun _ =>
      h.ite h.crash (h.pure _)
  | batchPut ptr keyObj valObj =>
    exact h.bind (h.record _ rfl) fun _ => h.bind (h.takeBuffer _) fun _ =>
      h.bind (h.takeBuffer _) fun _ => h.bind (h.deref _ _) fun _ => h.store _ _
  | batchDelete ptr buffer =>
    exact h.bind (h.record _ rfl) fun _ => h.bind (h.takeBuffer _) fun _ =>
      h.bind (h.deref _ _) fun _ => h.store _ _
  | batchClear ptr =>
    exact h.bind (h.record _ rfl) fun _ => h.bind (h.deref _ _) fun _ => h.store _ _

/-! ## The functions that create or free -/

theorem nativeIterator (h : NativeSteps P) (env : Env) (dbPtr snapshotPtr : ℕ) :
    P (DB.nativeIterator env dbPtr snapshotPtr) :=
  h.bind (h.deref _ _) fun _ => h.bind (h.readOptions _) fun _ => h.bind (h.allocate _ _) fun _ =>
    h.bind (h.record _ rfl) fun _ => h.pure _

theorem nativeGetSnapshot (h : NativeSteps P) (env : Env) (dbPtr : ℕ) :
    P (DB.nativeGetSnapshot env dbPtr) :=
  h.bind (h.deref _ _) fun _ => h.bind (h.allocate _ _) fun _ => h.bind (h.record _ rfl) fun _ =>
    h.pure _

theorem nativeReleaseSnapshot (h : NativeSteps P) (dbPtr snapshotPtr : ℕ) :
    P (DB.nativeReleaseSnapshot dbPtr snapshotPtr) :=
  h.bind (h.record _ rfl) fun _ => h.bind (h.deref _ _) fun _ => h.bind (h.deref _ _) fun _ =>
    h.ite (h.free _) h.crash

theorem iteratorDestroy (h : NativeSteps P) (ptr : ℕ) : P (Iterator.nativeDestroy ptr) :=
  h.bind (h.record _ rfl) fun _ => h.ite (h.bind (h.derefIterator _) fun _ => h.free _) (h.pure _)

theorem batchCreate (h : NativeSteps P) (env : Env) : P (WriteBatch.nativeCreate env) :=
  h.bind (h.allocate _ _) fun _ => h.bind (h.record _ rfl) fun _ => h.pure _

theorem batchDestroy (h : NativeSteps P) (ptr : ℕ) : P (WriteBatch.nativeDestroy ptr) :=
  h.bind (h.record _ rfl) fun _ => h.ite (h.bind (h.deref _ _) fun _ => h.free _) (h.pure _)

end NativeSteps

end Jni
