import AndroidLevelDB.Leveldb.DbWrite
import AndroidLevelDB.Jni.Natives

/-!
# Jni/BatchWrites — a batch against the single writes

Java fills a batch by calls that put, delete and clear, and writes it, possibly several times while
it grows.  `recorded` is what the calls so far leave in the batch.  Whatever the calls, each write
adds to the database what putting and deleting one by one would add (`nativeWrite_eq_writeEach`).
-/

open Leveldb Function

namespace Jni

/-- The bytes that native code takes of an accessible buffer. -/
def bytesOf (b : ByteBuffer) : Bytes := (bufferSlice b).toOption.getD []

theorem bufferSlice_of_accessible {b : ByteBuffer} (h : b.Accessible) :
    bufferSlice b = .ok (bytesOf b) := by
  rcases h with h | h
  · rw [bytesOf, bufferSlice_of_direct h]
    rfl
  · cases hd : b.isDirect with
    | true =>
      rw [bytesOf, bufferSlice_of_direct hd]
      rfl
    | false =>
      rw [bytesOf, bufferSlice_of_heap hd h]
      rfl

/-- Buffers are shorter than `2 ^ 31`. -/
theorem length_bytesOf_lt (b : ByteBuffer) : (bytesOf b).length < 2 ^ 31 := by
  have h1 := b.limit_le
  have h2 := b.fits
  have h3 := b.small
  have hlen : ∀ ptr : CharPtr, (ptr.slice b.position (b.limit - b.position)).length < 2 ^ 31 := by
    intro ptr
    rw [CharPtr.slice, List.length_take]
    omega
  cases hd : b.isDirect with
  | true =>
    rw [bytesOf, bufferSlice_of_direct hd]
    exact hlen ⟨b.memory, b.offset⟩
  | false =>
    cases hr : b.isReadOnly with
    | true =>
      rw [bytesOf, bufferSlice_of_readOnly hd hr]
      exact Nat.two_pow_pos 31
    | false =>
      rw [bytesOf, bufferSlice_of_heap hd hr]
      change ((b.memory.drop b.position).take (b.limit - b.position)).length < _
      rw [List.length_take]
      omega

/-- A call on a batch, or a write of it. -/
inductive BatchCall
  | put (key value : ByteBuffer)
  | delete (key : ByteBuffer)
  | clear
  | write (env : Env)

namespace BatchCall

/-- The native function behind the call. -/
def run (dbPtr batchPtr : ℕ) : BatchCall → JniM Unit
  | put key value => WriteBatch.nativePut batchPtr key value
  | delete key => WriteBatch.nativeDelete batchPtr key
  | clear => WriteBatch.nativeClear batchPtr
  | write env => DB.nativeWrite env dbPtr batchPtr

/-- The buffers are accessible, and writing meets no error. -/
def Fine : BatchCall → Prop
  | put key value => key.Accessible ∧ value.Accessible
  | delete key => key.Accessible
  | clear => True
  | write env => env.room.Ok

/-- What is recorded after the call. -/
def record (ops : List Op) : BatchCall → List Op
  | put key value => ops ++ [.put (bytesOf key) (bytesOf value)]
  | delete key => ops ++ [.delete (bytesOf key)]
  | clear => []
  | write _ => ops

end BatchCall

def runCalls (dbPtr batchPtr : ℕ) : List BatchCall → JniM Unit
  | [] => pure ()
  | call :: calls => do
    call.run dbPtr batchPtr
    runCalls dbPtr batchPtr calls

/-- The operations recorded since the last clear. -/
def recorded (calls : List BatchCall) : List Op := calls.foldl BatchCall.record []

/-- The length of the encoding of a batch. -/
def encodedLength (ops : List Op) : ℕ :=
  Leveldb.WriteBatch.kHeader + (ops.flatMap Leveldb.WriteBatch.encodeOp).length

theorem length_lt_of_encodedLength {ops : List Op} (h : encodedLength ops < 2 ^ 31) :
    ops.length < 2 ^ 31 :=
  lt_of_le_of_lt ((Leveldb.WriteBatch.length_le_flatMap_encodeOp ops).trans (Nat.le_add_left _ _)) h

/-- One operation by a call of its own. -/
def writeOp (dbPtr : ℕ) (env : Env) : Op → JniM Unit
  | .put key value => DB.nativePut env dbPtr key value
  | .delete key => DB.nativeDelete env dbPtr key

/-- Operations by calls of their own, one after the other. -/
def writeEach (dbPtr : ℕ) : List (Env × Op) → JniM Unit
  | [] => pure ()
  | (env, op) :: ops => do
    writeOp dbPtr env op
    writeEach dbPtr ops

section Run

variable {s : Native} {dbPtr batchPtr : ℕ} {path : String} {db : DBImpl}
  {b : Leveldb.WriteBatch} {ops : List Op}

/-- The database and the batch, which records `ops`. -/
structure Ready (s : Native) (dbPtr batchPtr : ℕ) (path : String) (db : DBImpl) (ops : List Op) :
    Prop where
  db : s.heap dbPtr = some (.db path db)
  batch : ∃ b, s.heap batchPtr = some (.batch b) ∧ b.Encodes ops

theorem Ready.ne (h : Ready s dbPtr batchPtr path db ops) : dbPtr ≠ batchPtr := by
  rintro rfl
  obtain ⟨b, hb, -⟩ := h.batch
  rw [h.db] at hb
  cases hb

theorem Ready.called (h : Ready s dbPtr batchPtr path db ops) (call : NativeCall) :
    Ready (s.called call) dbPtr batchPtr path db ops := ⟨h.db, h.batch⟩

/-- Changing the batch. -/
theorem Ready.update_batch (h : Ready s dbPtr batchPtr path db ops) {b' : Leveldb.WriteBatch}
    {ops' : List Op} (hb : b'.Encodes ops') {s' : Native}
    (hs : s'.heap = update s.heap batchPtr (some (.batch b'))) :
    Ready s' dbPtr batchPtr path db ops' := by
  refine ⟨?_, b', ?_, hb⟩
  · rw [hs, update_of_ne h.ne, h.db]
  · rw [hs, update_self]

theorem ends_takeBuffer {buffer : ByteBuffer} (h : buffer.Accessible) {Q : Bytes → Native → Prop}
    {E : Abrupt → Native → Prop} : Ends (takeBuffer buffer) s Q E ↔ Q (bytesOf buffer) s := by
  rw [takeBuffer, bufferSlice_of_accessible h]
  rfl

/-- A write of the batch. -/
theorem ends_nativeWrite (h : Ready s dbPtr batchPtr path db ops) (hptr : batchPtr ≠ 0)
    (hn : ops.length < 2 ^ 31) {env : Env} (henv : env.room.Ok) :
    Ends (DB.nativeWrite env dbPtr batchPtr) s
      (fun _ s' => ∃ db', Ready s' dbPtr batchPtr path db' ops ∧
        db'.stored.Perm (opEntries (db.lastSequence + 1) ops ++ db.stored) ∧
        db'.lastSequence = db.lastSequence + .ofNat ops.length)
      fun _ _ => False := by
  have h := h.called (.nativeWrite dbPtr batchPtr)
  obtain ⟨b, hb, henc⟩ := h.batch
  obtain ⟨db', b', hwrite, henc', -, hstored, hlast⟩ := DBImpl.write_spec henv henc hn db
  rw [DB.nativeWrite, ends_bind, ends_record, ends_bind, ends_derefDB h.db]
  simp only [if_neg hptr]
  rw [ends_bind, ends_derefBatch hb, hwrite]
  refine ⟨db', ⟨?_, b', update_self .., henc'⟩, hstored, hlast⟩
  exact (update_of_ne h.ne _ _).trans (update_self ..)

/-- A put or a deletion of its own. -/
theorem ends_writeOp (h : s.heap dbPtr = some (.db path db)) {env : Env} (henv : env.room.Ok)
    {op : Op} (hop : op.Small) :
    Ends (writeOp dbPtr env op) s
      (fun _ s' => ∃ db', s'.heap dbPtr = some (.db path db') ∧
        db'.stored.Perm (opEntry (db.lastSequence + 1) op :: db.stored) ∧
        db'.lastSequence = db.lastSequence + 1)
      fun _ _ => False := by
  obtain ⟨hok, hstored, hlast⟩ := DBImpl.writeOne_spec henv hop db
  cases op with
  | put key value =>
    have h : (s.called (.nativePut dbPtr)).heap dbPtr = some (.db path db) := h
    rw [writeOp, DB.nativePut, ends_bind, ends_record, ends_bind, ends_derefDB h]
    have hraise : throwUnlessOk (db.put env.room key value).1 = none :=
      throwUnlessOk_of_ok (by rw [show (db.put env.room key value).1 = .OK from hok]; rfl)
    simp only [ends_bind, ends_store, hraise]
    exact ⟨_, update_self .., hstored, hlast⟩
  | delete key =>
    have h : (s.called (.nativeDelete dbPtr)).heap dbPtr = some (.db path db) := h
    rw [writeOp, DB.nativeDelete, ends_bind, ends_record, ends_bind, ends_derefDB h]
    have hraise : throwUnlessOk (db.delete env.room key).1 = none :=
      throwUnlessOk_of_ok (by rw [show (db.delete env.room key).1 = .OK from hok]; rfl)
    simp only [ends_bind, ends_store, hraise]
    exact ⟨_, update_self .., hstored, hlast⟩

/-- **Single writes add the entries of their operations.** -/
theorem ends_writeEach : ∀ (each : List (Env × Op)) {s : Native} {db : DBImpl},
    s.heap dbPtr = some (.db path db) → (∀ p ∈ each, p.1.room.Ok ∧ p.2.Small) →
    Ends (writeEach dbPtr each) s
      (fun _ s' => ∃ db', s'.heap dbPtr = some (.db path db') ∧
        db'.stored.Perm
          (opEntries (db.lastSequence + 1) (each.map Prod.snd) ++ db.stored) ∧
        db'.lastSequence = db.lastSequence + .ofNat each.length)
      fun _ _ => False
  | [], s, db, h, _ => ⟨db, h, List.Perm.refl _, (UInt64.add_zero _).symm⟩
  | (env, op) :: each, s, db, h, hfine => by
      obtain ⟨henv, hop⟩ := hfine _ List.mem_cons_self
      rw [writeEach, ends_bind]
      refine (ends_writeOp h henv hop).mono ?_ fun _ _ h => h
      rintro - s' ⟨db', hdb', hstored, hlast⟩
      refine (ends_writeEach each hdb' fun p hp => hfine p (List.mem_cons_of_mem _ hp)).mono ?_
        fun _ _ h => h
      rintro - s'' ⟨db'', hdb'', hstored', hlast'⟩
      rw [hlast] at hstored' hlast'
      refine ⟨db'', hdb'', hstored'.trans ((hstored.append_left _).trans List.perm_middle), ?_⟩
      rw [hlast', List.length_cons, UInt64.ofNat_add, UInt64.add_assoc, UInt64.add_comm 1]
      rfl

/-- A call leaves the database and the batch, which records what it recorded. -/
theorem ends_call (h : Ready s dbPtr batchPtr path db ops) (hptr : batchPtr ≠ 0)
    {call : BatchCall} (hcall : call.Fine) (hn : ops.length < 2 ^ 31) :
    Ends (call.run dbPtr batchPtr) s
      (fun _ s' => ∃ db', Ready s' dbPtr batchPtr path db' (call.record ops))
      fun _ _ => False := by
  cases call with
  | put key value =>
    have h := h.called (.batchUse batchPtr)
    obtain ⟨b, hb, henc⟩ := h.batch
    rw [BatchCall.run, WriteBatch.nativePut, ends_bind, ends_record, ends_bind,
      ends_takeBuffer hcall.1, ends_bind, ends_takeBuffer hcall.2, ends_bind, ends_derefBatch hb]
    exact ⟨db, h.update_batch
      (henc.put (length_bytesOf_lt key) (length_bytesOf_lt value) hn) rfl⟩
  | delete key =>
    have h := h.called (.batchUse batchPtr)
    obtain ⟨b, hb, henc⟩ := h.batch
    rw [BatchCall.run, WriteBatch.nativeDelete, ends_bind, ends_record, ends_bind,
      ends_takeBuffer hcall, ends_bind, ends_derefBatch hb]
    exact ⟨db, h.update_batch (henc.delete (length_bytesOf_lt key) hn) rfl⟩
  | clear =>
    have h := h.called (.batchUse batchPtr)
    obtain ⟨b, hb, henc⟩ := h.batch
    rw [BatchCall.run, WriteBatch.nativeClear, ends_bind, ends_record, ends_bind,
      ends_derefBatch hb]
    exact ⟨db, h.update_batch (Leveldb.WriteBatch.encodes_clear b) rfl⟩
  | write env =>
    refine (ends_nativeWrite h hptr hn hcall).mono ?_ fun _ _ h => h
    rintro - s' ⟨db', hready, -, -⟩
    exact ⟨db', hready⟩

/-- **Any calls leave the batch recording the operations since the last clear.** -/
theorem ends_runCalls (hptr : batchPtr ≠ 0) : ∀ (calls : List BatchCall) {s : Native} {db : DBImpl}
    {ops : List Op}, Ready s dbPtr batchPtr path db ops → (∀ call ∈ calls, call.Fine) →
    (∀ pre, pre <+: calls → (pre.foldl BatchCall.record ops).length < 2 ^ 31) →
    Ends (runCalls dbPtr batchPtr calls) s
      (fun _ s' => ∃ db', Ready s' dbPtr batchPtr path db' (calls.foldl BatchCall.record ops))
      fun _ _ => False
  | [], s, db, ops, h, _, _ => ⟨db, h⟩
  | call :: calls, s, db, ops, h, hfine, hsize => by
      rw [runCalls, ends_bind]
      refine (ends_call h hptr (hfine _ List.mem_cons_self) (hsize [] List.nil_prefix)).mono ?_
        fun _ _ h => h
      rintro - s' ⟨db', hready⟩
      refine ends_runCalls hptr calls hready (fun c hc => hfine c (List.mem_cons_of_mem _ hc)) ?_
      intro pre hpre
      exact hsize (call :: pre) (List.cons_prefix_cons.mpr ⟨rfl, hpre⟩)

end Run

/-- **A write of a batch is the single writes.**  After any calls on a new batch, written any number
of times in between, writing it adds the entries of the operations recorded since the last clear
and advances the last sequence number by their number, as the single writes do; it returns OK, and
the batch still records the same. -/
theorem nativeWrite_eq_writeEach {s : Native} {dbPtr batchPtr : ℕ} {path : String} {db : DBImpl}
    (hdb : s.heap dbPtr = some (.db path db))
    (hbatch : s.heap batchPtr = some (.batch .new)) (hptr : batchPtr ≠ 0)
    (calls : List BatchCall) (hcalls : ∀ call ∈ calls, call.Fine)
    (hsize : ∀ pre, pre <+: calls → encodedLength (recorded pre) < 2 ^ 31)
    (env : Env) (henv : env.room.Ok) (each : List (Env × Op))
    (heach : each.map Prod.snd = recorded calls) (hrooms : ∀ p ∈ each, p.1.room.Ok) :
    ∃ s₁ db₁ b₁, runCalls dbPtr batchPtr calls s = .ok () s₁ ∧
      s₁.heap dbPtr = some (.db path db₁) ∧ s₁.heap batchPtr = some (.batch b₁) ∧
      b₁.Encodes (recorded calls) ∧ (db₁.write env.room (some b₁)).1 = .OK ∧
      (∃ s₂ db₂ b₂, DB.nativeWrite env dbPtr batchPtr s₁ = .ok () s₂ ∧
        s₂.heap dbPtr = some (.db path db₂) ∧ s₂.heap batchPtr = some (.batch b₂) ∧
        b₂.Encodes (recorded calls) ∧
        db₂.stored.Perm (opEntries (db₁.lastSequence + 1) (recorded calls) ++ db₁.stored) ∧
        db₂.lastSequence = db₁.lastSequence + .ofNat (recorded calls).length) ∧
      ∃ s₃ db₃, writeEach dbPtr each s₁ = .ok () s₃ ∧ s₃.heap dbPtr = some (.db path db₃) ∧
        db₃.stored.Perm (opEntries (db₁.lastSequence + 1) (recorded calls) ++ db₁.stored) ∧
        db₃.lastSequence = db₁.lastSequence + .ofNat (recorded calls).length := by
  have hready : Ready s dbPtr batchPtr path db [] :=
    ⟨hdb, _, hbatch, Leveldb.WriteBatch.encodes_new⟩
  obtain ⟨⟨⟩, s₁, hrun, db₁, hready₁⟩ := (ends_runCalls hptr calls hready hcalls
    fun pre hpre => length_lt_of_encodedLength (hsize pre hpre)).exists_ok
  change Ready s₁ dbPtr batchPtr path db₁ (recorded calls) at hready₁
  have hn := length_lt_of_encodedLength (hsize calls List.prefix_rfl)
  obtain ⟨b₁, hb₁, henc⟩ := hready₁.batch
  obtain ⟨⟨⟩, s₂, hwrite, db₂, hready₂, hstored₂, hlast₂⟩ :=
    (ends_nativeWrite hready₁ hptr hn henv).exists_ok
  obtain ⟨b₂, hb₂, henc₂⟩ := hready₂.batch
  have hsmall : ∀ p ∈ each, p.1.room.Ok ∧ p.2.Small := fun p hp =>
    ⟨hrooms p hp, henc.small _ (heach ▸ List.mem_map_of_mem hp)⟩
  obtain ⟨⟨⟩, s₃, heach₃, db₃, hdb₃, hstored₃, hlast₃⟩ :=
    (ends_writeEach each hready₁.db hsmall).exists_ok
  rw [heach] at hstored₃
  rw [← List.length_map Prod.snd, heach] at hlast₃
  have hok : (db₁.write env.room (some b₁)).1 = .OK := by
    obtain ⟨db', b', hw, -⟩ := DBImpl.write_spec henv henc hn db₁
    rw [hw]
  exact ⟨s₁, db₁, b₁, hrun, hready₁.db, hb₁, henc, hok,
    ⟨s₂, db₂, b₂, hwrite, hready₂.db, hb₂, henc₂, hstored₂, hlast₂⟩,
    s₃, db₃, heach₃, hdb₃, hstored₃, hlast₃⟩

/-- An empty database at 1 and a new batch at 2. -/
def freshNative : Native where
  heap
    | 1 => some (.db "/db" .empty)
    | 2 => some (.batch .new)
    | _ => none
  locks := {"/db"}
  calls := []

theorem nativeWrite_eq_writeEach_example :
    let key := ByteBuffer.wrap [1] (by decide)
    ∃ s₁ s₂, runCalls 1 2 [.put key key, .write fineEnv, .delete key] freshNative = .ok () s₁ ∧
      DB.nativeWrite fineEnv 1 2 s₁ = .ok () s₂ := by
  intro key
  have hdb : freshNative.heap 1 = some (.db "/db" .empty) := rfl
  have hbatch : freshNative.heap 2 = some (.batch .new) := rfl
  have hroom : fineEnv.room.Ok := by decide
  have hkey : key.Accessible := by decide
  have hsize : ∀ pre, pre <+: [.put key key, .write fineEnv, .delete key] →
      encodedLength (recorded pre) < 2 ^ 31 := by
    intro pre hpre
    rw [← List.mem_inits] at hpre
    simp only [List.inits, List.map_cons, List.map_nil, List.mem_cons, List.not_mem_nil,
      or_false] at hpre
    rcases hpre with rfl | rfl | rfl | rfl <;> decide
  obtain ⟨s₁, -, -, hrun, -, -, -, -, ⟨s₂, -, -, hwrite, -⟩, -⟩ := nativeWrite_eq_writeEach
    hdb hbatch (by decide)
    [.put key key, .write fineEnv, .delete key] (by simp [BatchCall.Fine, hroom, hkey])
    hsize fineEnv hroom
    [(fineEnv, .put [1] [1]), (fineEnv, .delete [1])] rfl (by simp [hroom])
  exact ⟨s₁, s₂, hrun, hwrite⟩

end Jni
