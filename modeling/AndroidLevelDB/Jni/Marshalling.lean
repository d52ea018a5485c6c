import AndroidLevelDB.Jni.Natives

/-!
# Jni/Marshalling — byte strings handed from buffers to the database

Three native functions take keys and values from buffers: the lookup, and the deletion and the put
of a batch.  Each first takes its byte strings and then hands them over (`BufferOp.run_eq`).  What
it hands over is what remains in the buffers exactly if each of them is `Taken`
(`marshals_iff`).
-/

open Leveldb

namespace Jni

/-- The calls that take byte strings from buffers. -/
inductive BufferOp (α : Type)
  | get (key : α)
  | delete (key : α)
  | put (key value : α)
deriving DecidableEq

namespace BufferOp

def args {α : Type} : BufferOp α → List α
  | get key => [key]
  | delete key => [key]
  | put key value => [key, value]

def map {α β : Type} (f : α → β) : BufferOp α → BufferOp β
  | get key => get (f key)
  | delete key => delete (f key)
  | put key value => put (f key) (f value)

/-- The byte strings taken. -/
def passed : BufferOp ByteBuffer → Except Abrupt (BufferOp Bytes)
  | get key => do
    let key ← bufferSlice key
    pure (get key)
  | delete key => do
    let key ← bufferSlice key
    pure (delete key)
  | put key value => do
    let key ← bufferSlice key
    let value ← bufferSlice value
    pure (put key value)

variable (dbPtr snapshotPtr batchPtr : ℕ)

/-- The native function, with the result of a lookup. -/
def run : BufferOp ByteBuffer → JniM (Option Bytes)
  | get key => DB.nativeGetBB dbPtr snapshotPtr key
  | delete key => do
    WriteBatch.nativeDelete batchPtr key
    pure none
  | put key value => do
    WriteBatch.nativePut batchPtr key value
    pure none

/-- The call as it is noted. -/
def call {α : Type} : BufferOp α → NativeCall
  | get _ => .nativeGetBB dbPtr snapshotPtr
  | delete _ => .batchUse batchPtr
  | put _ _ => .batchUse batchPtr

/-- What is done with the byte strings. -/
def pass : BufferOp Bytes → JniM (Option Bytes)
  | get key => do
    let (_, db) ← derefDB dbPtr
    let snapshot ← readOptions snapshotPtr
    pure (lookup db snapshot key)
  | delete key => do
    let batch ← derefBatch batchPtr
    store batchPtr (.batch (batch.delete key))
    pure none
  | put key value => do
    let batch ← derefBatch batchPtr
    store batchPtr (.batch (batch.put key value))
    pure none

theorem takeBuffer_bind {α : Type} (b : ByteBuffer) (f : Bytes → JniM α) (s : Native) :
    (takeBuffer b >>= f) s = match bufferSlice b with
      | .ok bytes => f bytes s
      | .error e => .error e s := by
  rw [takeBuffer]
  cases bufferSlice b <;> rfl

theorem record_bind {α : Type} (call : NativeCall) (f : Unit → JniM α) (s : Native) :
    (record call >>= f) s = f () (s.called call) := rfl

/-- **A native function takes its byte strings and hands them over**, or ends without a change. -/
theorem run_eq (op : BufferOp ByteBuffer) (s : Native) :
    op.run dbPtr snapshotPtr batchPtr s = match op.passed with
      | .ok strings => strings.pass dbPtr snapshotPtr batchPtr
          (s.called (op.call dbPtr snapshotPtr batchPtr))
      | .error e => .error e (s.called (op.call dbPtr snapshotPtr batchPtr)) := by
  cases op with
  | get key =>
    rw [run, DB.nativeGetBB, record_bind, takeBuffer_bind, passed]
    cases bufferSlice key <;> rfl
  | delete key =>
    rw [run, WriteBatch.nativeDelete, bind_assoc, record_bind, bind_assoc, takeBuffer_bind, passed]
    cases bufferSlice key with
    | error e => rfl
    | ok k => simp [pass, call]
  | put key value =>
    rw [run, WriteBatch.nativePut, bind_assoc, record_bind, bind_assoc, takeBuffer_bind, passed]
    cases bufferSlice key with
    | error e => rfl
    | ok k =>
      simp only [bind_assoc]
      rw [takeBuffer_bind]
      cases bufferSlice value with
      | error e => rfl
      | ok v => rfl

/-- A lookup by a byte array does with it what a lookup by a buffer does with its bytes. -/
theorem nativeGet_eq (key : Bytes) (s : Native) :
    DB.nativeGet dbPtr snapshotPtr key s
      = (get key).pass dbPtr snapshotPtr batchPtr (s.called (.nativeGet dbPtr snapshotPtr)) := rfl

end BufferOp

/-- The call hands over exactly what remains in its buffers, or throws. -/
def Marshals (op : BufferOp ByteBuffer) : Prop :=
  op.passed = .ok (op.map ByteBuffer.remaining) ∨ ∃ t, op.passed = .error (.thrown t)

theorem passed_eq_map_iff (op : BufferOp ByteBuffer) :
    op.passed = .ok (op.map ByteBuffer.remaining) ↔ ∀ b ∈ op.args, Taken b := by
  cases op with
  | get key =>
    simp only [BufferOp.passed, BufferOp.map, BufferOp.args, List.forall_mem_singleton,
      ← bufferSlice_eq_iff]
    cases bufferSlice key <;> simp [bind, Except.bind, pure, Except.pure]
  | delete key =>
    simp only [BufferOp.passed, BufferOp.map, BufferOp.args, List.forall_mem_singleton,
      ← bufferSlice_eq_iff]
    cases bufferSlice key <;> simp [bind, Except.bind, pure, Except.pure]
  | put key value =>
    simp only [BufferOp.passed, BufferOp.map, BufferOp.args, List.forall_mem_cons,
      ← bufferSlice_eq_iff]
    cases bufferSlice key <;> cases bufferSlice value <;>
      simp [bind, Except.bind, pure, Except.pure]

/-- No call throws for a buffer. -/
theorem passed_ne_thrown (op : BufferOp ByteBuffer) (t : Throwable) :
    op.passed ≠ .error (.thrown t) := by
  cases op with
  | get key =>
    have h := bufferSlice_ne_thrown key t
    cases hk : bufferSlice key <;> simp_all [BufferOp.passed, bind, Except.bind, pure, Except.pure]
  | delete key =>
    have h := bufferSlice_ne_thrown key t
    cases hk : bufferSlice key <;> simp_all [BufferOp.passed, bind, Except.bind, pure, Except.pure]
  | put key value =>
    have h := bufferSlice_ne_thrown key t
    have h' := bufferSlice_ne_thrown value t
    cases hk : bufferSlice key <;> cases hv : bufferSlice value <;>
      simp_all [BufferOp.passed, bind, Except.bind, pure, Except.pure]

/-- **Marshalling.**  A call hands over what remains in its buffers exactly if each is `Taken`.
Calls of such buffers with the same remaining bytes do the same, which is what is done with these
bytes. -/
theorem marshals_iff (op : BufferOp ByteBuffer) :
    (Marshals op ↔ ∀ b ∈ op.args, Taken b) ∧
    ((∀ b ∈ op.args, Taken b) → ∀ (dbPtr snapshotPtr batchPtr : ℕ) (s : Native),
      op.run dbPtr snapshotPtr batchPtr s
          = (op.map ByteBuffer.remaining).pass dbPtr snapshotPtr batchPtr
              (s.called (op.call dbPtr snapshotPtr batchPtr)) ∧
        ∀ op' : BufferOp ByteBuffer, (∀ b ∈ op'.args, Taken b) →
          op'.map ByteBuffer.remaining = op.map ByteBuffer.remaining →
          op'.run dbPtr snapshotPtr batchPtr s = op.run dbPtr snapshotPtr batchPtr s) := by
  have hrun : ∀ op : BufferOp ByteBuffer, (∀ b ∈ op.args, Taken b) →
      ∀ (dbPtr snapshotPtr batchPtr : ℕ) (s : Native), op.run dbPtr snapshotPtr batchPtr s
        = (op.map ByteBuffer.remaining).pass dbPtr snapshotPtr batchPtr
            (s.called (op.call dbPtr snapshotPtr batchPtr)) := by
    intro op h dbPtr snapshotPtr batchPtr s
    rw [BufferOp.run_eq, (passed_eq_map_iff op).mpr h]
  have hcall : ∀ (op op' : BufferOp ByteBuffer) (dbPtr snapshotPtr batchPtr : ℕ),
      op'.map ByteBuffer.remaining = op.map ByteBuffer.remaining →
      op'.call dbPtr snapshotPtr batchPtr = op.call dbPtr snapshotPtr batchPtr := by
    intro op op' dbPtr snapshotPtr batchPtr h
    cases op <;> cases op' <;> first | rfl | cases h
  refine ⟨?_, fun h dbPtr snapshotPtr batchPtr s => ⟨hrun op h _ _ _ _, fun op' h' hsame => ?_⟩⟩
  · rw [← passed_eq_map_iff]
    exact or_iff_left fun ⟨t, ht⟩ => passed_ne_thrown op t ht
  · rw [hrun op h, hrun op' h', hsame, hcall op op' _ _ _ hsame]

/-- A slice of an array from its second byte on: the byte handed over is the first one.  A read-only
buffer ends the process. -/
theorem marshals_slice :
    let array := ByteBuffer.wrap [9, 1] (by decide)
    let slice := ByteBuffer.slice { array with position := 1, position_le := by decide }
    slice.remaining = [1] ∧ bufferSlice slice = .ok [9] ∧ ¬ Marshals (.get slice) ∧
      (BufferOp.get array.asReadOnlyBuffer).passed = .error .crash ∧
      ¬ Marshals (.get array.asReadOnlyBuffer) := by
  refine ⟨by decide, rfl, ?_, rfl, ?_⟩
  · rintro (h | ⟨t, h⟩) <;> cases h
  · rintro (h | ⟨t, h⟩) <;> cases h

end Jni
