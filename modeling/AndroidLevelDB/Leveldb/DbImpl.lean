import Mathlib.Algebra.Order.BigOperators.Group.List
import AndroidLevelDB.Leveldb.InternalIterator
import AndroidLevelDB.Leveldb.DbIterCursor
import AndroidLevelDB.Leveldb.WriteBatch

/-!
# Leveldb/DbImpl — the database

A `DBImpl` holds the memtable, the memtable being written out, the tables and the last sequence
number.  `write` is `DBImpl::Write` with one writer; what happens outside of it (a background
error, whether the memtable is full, the status of a new log file and of the log record) is given
by a `Room`.

A `Store` is a database whose sources are what the format promises.  Its entries that can be read
are one list in internal order (`Store.entries`), over which its iterators are cursors
(`Store.stands_newIterator`).
-/

namespace Leveldb

/-- The entries of a memtable, in internal order. -/
abbrev MemTable := List Entry

/-- `MemTable::Add`: the new entry goes before the first that is not smaller. -/
def MemTable.add (mem : MemTable) (s : ℕ) (type : ValueType) (key value : Bytes) : MemTable :=
  let e : Entry := ⟨appendInternalKey [] ⟨key, s, type⟩, value⟩
  let smaller (x : Entry) : Bool := internalKeyCompare x.key e.key < 0
  mem.takeWhile smaller ++ e :: mem.dropWhile smaller

/-- `MemTableInserter`: a sequence number and a memtable. -/
def memTableInserter : WriteBatch.Handler (UInt64 × MemTable) where
  put := fun (sequence, mem) key value =>
    (sequence + 1, mem.add sequence.toNat .kTypeValue key value)
  delete := fun (sequence, mem) key => (sequence + 1, mem.add sequence.toNat .kTypeDeletion key [])

/-- `WriteBatchInternal::InsertInto`. -/
def WriteBatch.insertInto (b : WriteBatch) (mem : MemTable) : Status × MemTable :=
  let (status, _, mem) := b.iterate memTableInserter (.ofNat b.sequence, mem)
  (status, mem)

/-- What a write meets outside of the database's own state. -/
structure Room where
  /-- The error of a background compaction. -/
  bgError : Status
  /-- The memtable is larger than the write buffer. -/
  full : Bool
  /-- Opening a new log file. -/
  newFile : Status
  /-- Appending the record to the log. -/
  addRecord : Status
deriving DecidableEq

/-- Nothing fails. -/
def Room.Ok (room : Room) : Prop :=
  room.bgError.ok = true ∧ room.newFile.ok = true ∧ room.addRecord.ok = true

instance : DecidablePred Room.Ok := fun _ => inferInstanceAs (Decidable (_ ∧ _ ∧ _))

structure DBImpl where
  mem : MemTable
  imm : Option MemTable
  /-- The files of level 0 and the other levels. -/
  tables : List Source
  lastSequence : UInt64
deriving DecidableEq

namespace DBImpl

/-- A memtable as a source: all of it can be read. -/
def memSource (mem : MemTable) : Source := ⟨mem.map Cell.entry, .OK⟩

/-- The sources an iterator merges, in the order of `NewInternalIterator`. -/
def sources (db : DBImpl) : List Source :=
  memSource db.mem :: (db.imm.map memSource).toList ++ db.tables

/-- All entries of all sources, readable or not. -/
def stored (db : DBImpl) : List Entry := db.sources.flatMap fun src => src.cells.flatMap Cell.stored

/-- The memtable being compacted, if any, is written out as a table. -/
def compactMemTable (db : DBImpl) : DBImpl :=
  match db.imm with
  | none => db
  | some imm => { db with imm := none, tables := memSource imm :: db.tables }

/-- `MakeRoomForWrite`: with a full memtable, or if forced, it waits until the previous memtable is
written out and switches to a new one. -/
def makeRoomForWrite (room : Room) (force : Bool) (db : DBImpl) : Status × DBImpl :=
  if !room.bgError.ok then (room.bgError, db)
  else if !force && !room.full then (.OK, db)
  else
    let db := db.compactMemTable
    if !room.newFile.ok then (room.newFile, db)
    else (.OK, { db with imm := some db.mem, mem := [] })

/-- `DBImpl::Write` of a writer that is alone; no batch is the request to switch memtables. -/
def write (room : Room) (batch : Option WriteBatch) (db : DBImpl) :
    Status × DBImpl × Option WriteBatch :=
  let (status, db) := db.makeRoomForWrite room batch.isNone
  match batch with
  | none => (status, db, none)
  | some batch =>
    if status.ok then
      let updates := batch.setSequence (db.lastSequence + 1).toNat
      let lastSequence := db.lastSequence + .ofInt updates.count
      let (status, mem) :=
        if room.addRecord.ok then updates.insertInto db.mem else (room.addRecord, db.mem)
      (status, { db with mem := mem, lastSequence := lastSequence }, some updates)
    else (status, db, some batch)

/-- `DB::Put`. -/
def put (room : Room) (key value : Bytes) (db : DBImpl) : Status × DBImpl :=
  let (status, db, _) := db.write room (some (WriteBatch.new.put key value))
  (status, db)

/-- `DB::Delete`. -/
def delete (room : Room) (key : Bytes) (db : DBImpl) : Status × DBImpl :=
  let (status, db, _) := db.write room (some (WriteBatch.new.delete key))
  (status, db)

/-- `NewInternalIterator`. -/
def newInternalIterator (db : DBImpl) : InternalIterator :=
  newMergingIterator (db.sources.map SourceIterator.new)

/-- No iterator over the database takes more steps than it has places. -/
def rounds (db : DBImpl) : ℕ := (db.sources.map fun src => src.cells.length).sum

/-- `NewIterator`: at the snapshot's sequence number if there is one, at the last one otherwise. -/
def newIterator (db : DBImpl) (snapshot : Option ℕ) : DBIter InternalIterator :=
  .new db.newInternalIterator (snapshot.getD db.lastSequence.toNat) db.rounds

/-- `GetSnapshot`: the number of the snapshot. -/
def getSnapshot (db : DBImpl) : ℕ := db.lastSequence.toNat

end DBImpl

/-- The database of an empty directory. -/
def DBImpl.empty : DBImpl := ⟨[], none, [], 0⟩

/-! ## Stores -/

/-- **A database whose sources are sorted and hold well-formed keys**, no two entries of one user
key and sequence number. -/
structure Store extends DBImpl where
  sorted : ∀ src ∈ toDBImpl.sources, src.Sorted
  wellFormed : ∀ e ∈ toDBImpl.stored, e.WellFormed
  distinct : toDBImpl.stored.Pairwise fun a b =>
    ¬ (a.version.key = b.version.key ∧ a.version.seq = b.version.seq)
  lastSequence_le : toDBImpl.lastSequence.toNat ≤ kMaxSequenceNumber

theorem readable_sublist (cs : List Cell) : (readable cs).Sublist (cs.flatMap Cell.stored) := by
  induction cs with
  | nil => exact List.Sublist.refl _
  | cons c cs ih =>
    cases c with
    | entry e => exact ih.cons_cons e
    | unreadable l lost code msg => exact ih.trans (List.sublist_append_right lost _)

namespace Store

/-- The entries that can be read, in internal order. -/
def entries (S : Store) : List Entry :=
  mergeAll Entry.rank (S.sources.map fun src => readable src.cells)

theorem flatten_sublist : ∀ sources : List Source,
    (sources.map fun src => readable src.cells).flatten.Sublist
      (sources.flatMap fun src => src.cells.flatMap Cell.stored)
  | [] => List.Sublist.refl _
  | src :: sources => (readable_sublist src.cells).append (flatten_sublist sources)

/-- **The readable entries of a store are the merge of what its sources let it read.** -/
theorem merged (S : Store) :
    Merged Entry.rank (S.sources.map fun src => readable src.cells) S.entries := by
  have hsub := flatten_sublist S.sources
  refine merged_mergeAll (List.pairwise_map.mpr ((S.distinct.sublist hsub).imp_of_mem ?_))
  intro a b ha hb hne h
  exact hne (Entry.version_eq_of_rank_eq (S.wellFormed a (hsub.subset ha))
    (S.wellFormed b (hsub.subset hb)) h)

theorem entries_subset (S : Store) {e : Entry} (he : e ∈ S.entries) : e ∈ S.stored :=
  (flatten_sublist S.sources).subset (S.merged.perm.mem_iff.mp he)

theorem versioned (S : Store) : Versioned S.entries := by
  refine ⟨fun e he => S.wellFormed e (S.entries_subset he), S.merged.sorted, ?_⟩
  have hd := S.distinct.sublist (flatten_sublist S.sources)
  exact (List.Perm.pairwise_iff (fun h h' => h ⟨h'.1.symm, h'.2.symm⟩) S.merged.perm).mpr hd

/-- The cursor over the readable entries. -/
def cursor (S : Store) : Cursor InternalIterator S.entries :=
  InternalIterator.cursor S.sorted S.merged

theorem children_newMergingIterator (list : List SourceIterator) :
    (newMergingIterator list).children = list := by
  match list with
  | [] => rfl
  | [_] => rfl
  | _ :: _ :: _ => rfl

theorem covers_newIterator (S : Store) (snapshot : Option ℕ) :
    S.cursor.covers (S.newIterator snapshot).iter := by
  change (newMergingIterator (S.sources.map SourceIterator.new)).children.map
    SourceIterator.source = S.sources
  rw [children_newMergingIterator, List.map_map]
  exact List.map_id _

theorem length_entries_le (S : Store) (snapshot : Option ℕ) :
    S.entries.length ≤ (S.newIterator snapshot).rounds := by
  rw [S.merged.perm.length_eq, List.length_flatten, List.map_map]
  change _ ≤ (S.sources.map fun src => src.cells.length).sum
  exact List.sum_le_sum fun src _ => List.length_filterMap_le _ _

/-- The sequence number at which an iterator reads. -/
def readAt (S : Store) (snapshot : Option ℕ) : ℕ := snapshot.getD S.lastSequence.toNat

/-- A snapshot of the store was taken at a sequence number not above the last one. -/
theorem readAt_le (S : Store) {snapshot : Option ℕ} (h : ∀ n ∈ snapshot, n ≤ S.lastSequence.toNat) :
    S.readAt snapshot ≤ kMaxSequenceNumber := by
  cases snapshot with
  | none => exact S.lastSequence_le
  | some n => exact (h n rfl).trans S.lastSequence_le

/-- The pairs a client sees at `s`, in key order. -/
def shown (S : Store) (s : ℕ) : List (Bytes × Bytes) := DBIter.shown S.entries s S.entries

/-- The versions in the store, readable or not. -/
def versions (S : Store) : Set (Version Bytes Bytes) := {v | ∃ e ∈ S.stored, e.version = v}

/-- Every source can be opened and read. -/
def Readable (S : Store) : Prop :=
  ∀ src ∈ S.sources, src.opened.ok = true ∧ ∀ c ∈ src.cells, c.isUnreadable = false

instance : DecidablePred Readable := fun S => inferInstanceAs (Decidable (∀ src ∈ S.sources,
  src.opened.ok = true ∧ ∀ c ∈ src.cells, c.isUnreadable = false))

theorem stored_eq_readable {cs : List Cell} (h : ∀ c ∈ cs, c.isUnreadable = false) :
    cs.flatMap Cell.stored = readable cs := by
  induction cs with
  | nil => rfl
  | cons c cs ih =>
    have ih := ih fun d hd => h d (List.mem_cons_of_mem _ hd)
    cases c with
    | entry e => rw [List.flatMap_cons, ih]; rfl
    | unreadable l lost code msg =>
      exact absurd (h _ List.mem_cons_self) (by simp [Cell.isUnreadable])

theorem Readable.mem_entries_iff {S : Store} (h : S.Readable) {e : Entry} :
    e ∈ S.entries ↔ e ∈ S.stored := by
  rw [S.merged.perm.mem_iff, DBImpl.stored, List.mem_flatten, List.mem_flatMap]
  simp only [List.mem_map, exists_exists_and_eq_and]
  refine exists_congr fun src => and_congr_right fun hsrc => ?_
  rw [stored_eq_readable (h src hsrc).2]

/-- **The pairs shown are the visible versions of what can be read.** -/
theorem mem_shown_iff (S : Store) {s : ℕ} {p : Bytes × Bytes} :
    p ∈ S.shown s ↔
      p ∈ Version.Visible {v | v ∈ S.entries.map Entry.version} s := by
  constructor
  · intro hp
    obtain ⟨v, hv, hvp⟩ := List.mem_filterMap.mp hp
    obtain ⟨hvm, hseen⟩ := List.mem_filter.mp hv
    obtain ⟨x, hx, rfl⟩ := Option.map_eq_some_iff.mp hvp
    exact ⟨v, (Version.newest_iff_seen hx).mpr ⟨hvm, by simpa using hseen⟩, rfl, hx⟩
  · rintro ⟨v, hn, hk, hx⟩
    obtain ⟨hvm, hseen⟩ := (Version.newest_iff_seen hx).mp hn
    refine List.mem_filterMap.mpr ⟨v, List.mem_filter.mpr ⟨hvm, by simpa using hseen⟩, ?_⟩
    rw [Version.pair, hx, hk]
    rfl

/-- **The pairs shown are in strictly ascending key order.** -/
theorem shown_sorted (S : Store) (s : ℕ) : (S.shown s).Pairwise fun p q => p.1 < q.1 := by
  have hr := S.versioned.ranked
  have hf : ((S.entries.map Entry.version).filter
      (Version.Seen (S.entries.map Entry.version) s)).Pairwise fun a b => a.key < b.key := by
    refine (List.Pairwise.sublist List.filter_sublist hr).imp_of_mem fun ha hb hab => ?_
    obtain ⟨ham, has⟩ := List.mem_filter.mp ha
    obtain ⟨hbm, hbs⟩ := List.mem_filter.mp hb
    have hbs' := of_decide_eq_true hbs
    rcases Version.rank_lt_iff.mp hab with hl | ⟨hk, hl⟩
    · exact hl
    · exact absurd (hbs'.2.2 _ ham hk (of_decide_eq_true has).2.1) (not_le.mpr hl)
  refine List.Pairwise.filterMap Version.pair (fun a b hab p hp q hq => ?_) hf
  obtain ⟨x, -, rfl⟩ := Option.map_eq_some_iff.mp hp
  obtain ⟨y, -, rfl⟩ := Option.map_eq_some_iff.mp hq
  exact hab

end Store

end Leveldb
