import AndroidLevelDB.Leveldb.DbImpl

/-!
# Leveldb/DbWrite — what a write adds

A write gives the recorded operations consecutive sequence numbers (`opEntries`) and adds their
entries to what is stored; nothing that was stored goes away, whatever memtable is switched or
written out on the way (`DBImpl.write_spec`).  Writing the operations one by one adds the same
entries (`DBImpl.writeEach_spec`).
-/

namespace Leveldb

/-- The entry that an operation leaves at a sequence number. -/
def opEntry (seq : UInt64) : Op → Entry
  | .put key value => ⟨appendInternalKey [] ⟨key, seq.toNat, .kTypeValue⟩, value⟩
  | .delete key => ⟨appendInternalKey [] ⟨key, seq.toNat, .kTypeDeletion⟩, []⟩

/-- The entries of operations from a sequence number on. -/
def opEntries : UInt64 → List Op → List Entry
  | _, [] => []
  | seq, op :: ops => opEntry seq op :: opEntries (seq + 1) ops

theorem MemTable.add_perm (mem : MemTable) (s : ℕ) (type : ValueType) (key value : Bytes) :
    (mem.add s type key value).Perm (⟨appendInternalKey [] ⟨key, s, type⟩, value⟩ :: mem) := by
  refine List.perm_middle.trans (List.Perm.cons _ ?_)
  rw [List.takeWhile_append_dropWhile]

theorem memTableInserter_apply (s : UInt64 × MemTable) (op : Op) :
    (memTableInserter.apply s op).1 = s.1 + 1 ∧
      (memTableInserter.apply s op).2.Perm (opEntry s.1 op :: s.2) := by
  cases op with
  | put key value => exact ⟨rfl, MemTable.add_perm ..⟩
  | delete key => exact ⟨rfl, MemTable.add_perm ..⟩

/-- Inserting operations adds their entries. -/
theorem memTableInserter_foldl : ∀ (ops : List Op) (s : UInt64 × MemTable),
    (ops.foldl memTableInserter.apply s).2.Perm (opEntries s.1 ops ++ s.2)
  | [], s => List.Perm.refl _
  | op :: ops, s => by
      obtain ⟨hseq, hmem⟩ := memTableInserter_apply s op
      have ih := memTableInserter_foldl ops (memTableInserter.apply s op)
      rw [hseq] at ih
      exact ih.trans ((hmem.append_left _).trans List.perm_middle)

theorem ofInt_natCast (n : ℕ) : UInt64.ofInt n = .ofNat n := by
  refine UInt64.toNat.inj ?_
  rw [UInt64.ofInt, UInt64.toNat_ofNat', UInt64.toNat_ofNat']
  omega

namespace DBImpl

theorem stored_memSource (mem : MemTable) : (memSource mem).cells.flatMap Cell.stored = mem := by
  rw [memSource, List.flatMap_map]
  exact List.flatMap_singleton' mem

/-- What is stored, source by source. -/
theorem stored_eq (db : DBImpl) :
    db.stored = db.mem ++ (db.imm.getD [] ++
      db.tables.flatMap fun src => src.cells.flatMap Cell.stored) := by
  rw [stored, sources, List.cons_append, List.flatMap_cons, stored_memSource, List.flatMap_append]
  cases db.imm with
  | none => rfl
  | some imm => simp [stored_memSource]

theorem stored_compactMemTable (db : DBImpl) : db.compactMemTable.stored = db.stored := by
  rw [compactMemTable]
  cases h : db.imm with
  | none => rfl
  | some imm => simp [stored_eq, h, stored_memSource]

theorem imm_compactMemTable (db : DBImpl) : db.compactMemTable.imm = none := by
  rw [compactMemTable]
  cases h : db.imm <;> simp [h]

theorem lastSequence_compactMemTable (db : DBImpl) :
    db.compactMemTable.lastSequence = db.lastSequence := by
  rw [compactMemTable]
  cases db.imm <;> rfl

/-- **Making room loses nothing that is stored.** -/
theorem makeRoomForWrite_spec (room : Room) (force : Bool) (db : DBImpl) :
    (db.makeRoomForWrite room force).2.stored = db.stored ∧
      (db.makeRoomForWrite room force).2.lastSequence = db.lastSequence := by
  have hcompact := stored_compactMemTable db
  have hlast := lastSequence_compactMemTable db
  simp only [makeRoomForWrite]
  split_ifs
  · exact ⟨rfl, rfl⟩
  · exact ⟨rfl, rfl⟩
  · exact ⟨hcompact, hlast⟩
  · refine ⟨?_, hlast⟩
    rw [← hcompact, stored_eq, stored_eq, imm_compactMemTable]
    rfl

theorem makeRoomForWrite_ok {room : Room} (h : room.Ok) (force : Bool) (db : DBImpl) :
    (db.makeRoomForWrite room force).1 = .OK := by
  obtain ⟨h1, h2, -⟩ := h
  simp only [makeRoomForWrite, h1, h2, Bool.not_true, Bool.false_eq_true, if_false]
  split_ifs <;> rfl

/-- **A write adds the entries of the recorded operations**, advances the last sequence number by
their count, returns OK and leaves the batch recording the same operations. -/
theorem write_spec {room : Room} (hroom : room.Ok) {batch : WriteBatch} {ops : List Op}
    (h : batch.Encodes ops) (hn : ops.length < 2 ^ 31) (db : DBImpl) :
    ∃ db' batch', db.write room (some batch) = (.OK, db', some batch') ∧ batch'.Encodes ops ∧
      batch'.rep.length = batch.rep.length ∧
      db'.stored.Perm (opEntries (db.lastSequence + 1) ops ++ db.stored) ∧
      db'.lastSequence = db.lastSequence + .ofNat ops.length := by
  obtain ⟨hstored, hlast⟩ := makeRoomForWrite_spec room false db
  have hok := makeRoomForWrite_ok hroom false db
  generalize hmake : db.makeRoomForWrite room false = made at hstored hlast hok
  obtain ⟨status, db₁⟩ := made
  obtain rfl : status = .OK := hok
  simp only at hstored hlast
  obtain ⟨henc, hseq, hlen⟩ := h.setSequence (db₁.lastSequence + 1).toNat
  have hcount : (batch.setSequence (db₁.lastSequence + 1).toNat).count = ops.length :=
    henc.count_eq hn
  have hofNat : UInt64.ofNat (batch.setSequence (db₁.lastSequence + 1).toNat).sequence
      = db₁.lastSequence + 1 := by
    rw [hseq, Nat.mod_eq_of_lt (UInt64.toNat_lt _), UInt64.ofNat_toNat]
  have hmem := memTableInserter_foldl ops (db₁.lastSequence + 1, db₁.mem)
  refine ⟨{ db₁ with
    mem := (ops.foldl memTableInserter.apply (db₁.lastSequence + 1, db₁.mem)).2
    lastSequence := db₁.lastSequence + .ofNat ops.length }, _, ?_, henc, hlen, ?_, ?_⟩
  · simp only [write, Option.isNone_some, hmake, Status.ok_OK, if_true, hroom.2.2,
      WriteBatch.insertInto, henc.iterate hn, hofNat, hcount, ofInt_natCast]
  · rw [← hlast, ← hstored, stored_eq, stored_eq, ← List.append_assoc (opEntries _ _)]
    exact hmem.append_right _
  · rw [← hlast]

/-- A put or a deletion on its own. -/
def writeOne (room : Room) (db : DBImpl) : Op → Status × DBImpl
  | .put key value => db.put room key value
  | .delete key => db.delete room key

theorem writeOne_spec {room : Room} (hroom : room.Ok) {op : Op} (hop : op.Small) (db : DBImpl) :
    (db.writeOne room op).1 = .OK ∧
      (db.writeOne room op).2.stored.Perm (opEntry (db.lastSequence + 1) op :: db.stored) ∧
      (db.writeOne room op).2.lastSequence = db.lastSequence + 1 := by
  have hone : ∀ batch : WriteBatch, batch.Encodes [op] →
      (db.writeOne room op) = ((db.write room (some batch)).1, (db.write room (some batch)).2.1) →
      (db.writeOne room op).1 = .OK ∧
        (db.writeOne room op).2.stored.Perm (opEntry (db.lastSequence + 1) op :: db.stored) ∧
        (db.writeOne room op).2.lastSequence = db.lastSequence + 1 := by
    intro batch hbatch heq
    obtain ⟨db', batch', hwrite, -, -, hstored, hlast⟩ :=
      write_spec hroom hbatch (by norm_num) db
    rw [heq, hwrite]
    exact ⟨rfl, hstored, hlast⟩
  cases op with
  | put key value =>
    exact hone _ (WriteBatch.encodes_new.put hop.1 hop.2 (by norm_num)) rfl
  | delete key => exact hone _ (WriteBatch.encodes_new.delete hop (by norm_num)) rfl

/-- The operations one by one, each as a write of its own: the statuses and the database left. -/
def writeEach : List (Room × Op) → DBImpl → List Status × DBImpl
  | [], db => ([], db)
  | (room, op) :: ops, db =>
    let (status, db) := db.writeOne room op
    let (statuses, db) := writeEach ops db
    (status :: statuses, db)

/-- **Writing the operations one by one adds the same entries.** -/
theorem writeEach_spec : ∀ (ops : List (Room × Op)) (db : DBImpl),
    (∀ p ∈ ops, p.1.Ok ∧ p.2.Small) →
      (∀ status ∈ (writeEach ops db).1, status = .OK) ∧
      (writeEach ops db).2.stored.Perm
        (opEntries (db.lastSequence + 1) (ops.map Prod.snd) ++ db.stored) ∧
      (writeEach ops db).2.lastSequence = db.lastSequence + .ofNat ops.length
  | [], db, _ => ⟨by simp [writeEach], List.Perm.refl _, (UInt64.add_zero _).symm⟩
  | (room, op) :: ops, db, h => by
      obtain ⟨hroom, hop⟩ := h _ List.mem_cons_self
      obtain ⟨hok, hstored, hlast⟩ := writeOne_spec hroom hop db
      obtain ⟨hoks, hstored', hlast'⟩ := writeEach_spec ops (db.writeOne room op).2
        fun p hp => h p (List.mem_cons_of_mem _ hp)
      rw [hlast] at hstored' hlast'
      refine ⟨?_, ?_, ?_⟩
      · simpa [writeEach, hok] using hoks
      · exact hstored'.trans ((hstored.append_left _).trans List.perm_middle)
      · refine hlast'.trans ?_
        rw [List.length_cons, UInt64.ofNat_add, UInt64.add_assoc, UInt64.add_comm 1]
        rfl

end DBImpl

end Leveldb
