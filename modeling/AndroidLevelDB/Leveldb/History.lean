import AndroidLevelDB.Lib.Updates
import AndroidLevelDB.Leveldb.DbWrite

/-!
# Leveldb/History — a database as the writes made to it

A `Write` is the sequence number of its first operation and its operations.  A database whose
memtables and tables hold the entries of a history of writes, with ascending sequence numbers, is a
store (`History.store`), in which a reader finds the state behind the writes (`History.reads`).
-/

namespace Leveldb

/-- A write: the sequence number of its first operation, and its operations. -/
abbrev Write := UInt64 × List Op

/-- The version that an operation leaves at a sequence number. -/
def opVersion (s : ℕ) : Op → Version Bytes Bytes
  | .put key value => ⟨key, s, some value⟩
  | .delete key => ⟨key, s, none⟩

/-- The versions of operations from a sequence number on. -/
def opVersions : ℕ → List Op → List (Version Bytes Bytes)
  | _, [] => []
  | s, op :: ops => opVersion s op :: opVersions (s + 1) ops

@[simp] theorem opVersion_seq (s : ℕ) (op : Op) : (opVersion s op).seq = s := by
  cases op <;> rfl

theorem opEntry_spec (seq : UInt64) (h : seq.toNat ≤ kMaxSequenceNumber) (op : Op) :
    (opEntry seq op).WellFormed ∧ (opEntry seq op).version = opVersion seq.toNat op := by
  cases op with
  | put key value =>
    have hp : parseInternalKey (opEntry seq (.put key value)).key
        = some ⟨key, seq.toNat, .kTypeValue⟩ := parseInternalKey_appendInternalKey h
    exact ⟨by rw [Entry.WellFormed, hp]; rfl, Entry.version_of_parse hp⟩
  | delete key =>
    have hp : parseInternalKey (opEntry seq (.delete key)).key
        = some ⟨key, seq.toNat, .kTypeDeletion⟩ := parseInternalKey_appendInternalKey h
    exact ⟨by rw [Entry.WellFormed, hp]; rfl, Entry.version_of_parse hp⟩

/-- **The entries of operations are well-formed and hold their versions.** -/
theorem opEntries_spec : ∀ (ops : List Op) (seq : UInt64),
    seq.toNat + ops.length ≤ kMaxSequenceNumber + 1 →
      (∀ e ∈ opEntries seq ops, e.WellFormed) ∧
        (opEntries seq ops).map Entry.version = opVersions seq.toNat ops
  | [], _, _ => ⟨fun _ he => (by cases he), rfl⟩
  | op :: ops, seq, h => by
      rw [List.length_cons] at h
      have hmax : kMaxSequenceNumber + 2 < 2 ^ 64 := by decide
      have hnext : (seq + 1).toNat = seq.toNat + 1 := by
        rw [UInt64.toNat_add, UInt64.toNat_one, Nat.mod_eq_of_lt (by omega)]
      obtain ⟨hwf, hversion⟩ := opEntry_spec seq (by omega) op
      obtain ⟨hwfs, hversions⟩ := opEntries_spec ops (seq + 1) (by omega)
      refine ⟨fun e he => ?_, ?_⟩
      · rcases List.mem_cons.mp he with rfl | he
        · exact hwf
        · exact hwfs e he
      · rw [opEntries, List.map_cons, hversion, hversions, hnext, opVersions]

theorem mem_opVersions_seq : ∀ (ops : List Op) {s : ℕ} {v : Version Bytes Bytes},
    v ∈ opVersions s ops → s ≤ v.seq ∧ v.seq < s + ops.length
  | op :: ops, s, v, h => by
      rw [List.length_cons]
      rcases List.mem_cons.mp h with rfl | h
      · rw [opVersion_seq]
        omega
      · have := mem_opVersions_seq ops h
        omega

theorem opVersions_ascend : ∀ (ops : List Op) (s : ℕ),
    (opVersions s ops).Pairwise fun a b => a.seq < b.seq
  | [], _ => List.Pairwise.nil
  | op :: ops, s => by
      refine List.pairwise_cons.mpr ⟨fun v hv => ?_, opVersions_ascend ops (s + 1)⟩
      have := mem_opVersions_seq ops hv
      rw [opVersion_seq]
      omega

namespace Write

/-- The entries of a write. -/
def entries (w : Write) : List Entry := opEntries w.1 w.2

/-- Its versions. -/
def versions (w : Write) : List (Version Bytes Bytes) := opVersions w.1.toNat w.2

/-- The sequence number of the last operation. -/
def last (w : Write) : UInt64 := w.1 + .ofNat w.2.length - 1

end Write

/-! ## Histories -/

/-- Writes one after another, up to a sequence number. -/
structure Ordered (h : List Write) (last : ℕ) : Prop where
  ascend : h.Pairwise fun a b => a.1.toNat + a.2.length ≤ b.1.toNat
  le_last : ∀ w ∈ h, w.1.toNat + w.2.length ≤ last + 1
  pos : ∀ w ∈ h, 1 ≤ w.1.toNat

namespace Ordered

variable {h : List Write} {last : ℕ}

theorem sublist {h' : List Write} (ho : Ordered h last) (hs : h'.Sublist h) : Ordered h' last :=
  ⟨ho.ascend.sublist hs, fun w hw => ho.le_last w (hs.subset hw),
    fun w hw => ho.pos w (hs.subset hw)⟩

theorem mono {last' : ℕ} (ho : Ordered h last) (hl : last ≤ last') : Ordered h last' :=
  ⟨ho.ascend, fun w hw => (ho.le_last w hw).trans (Nat.succ_le_succ hl), ho.pos⟩

/-- One more write, behind the last sequence number. -/
theorem append (ho : Ordered h last) {w : Write} (hw : last < w.1.toNat) :
    Ordered (h ++ [w]) (w.1.toNat + w.2.length - 1) := by
  refine ⟨List.pairwise_append.mpr ⟨ho.ascend, List.pairwise_singleton _ _, fun a ha b hb => ?_⟩,
    fun x hx => ?_, fun x hx => ?_⟩
  · have := ho.le_last a ha
    rw [List.mem_singleton.mp hb]
    omega
  · rcases List.mem_append.mp hx with hx | hx
    · have := ho.le_last x hx
      omega
    · rw [List.mem_singleton.mp hx]
      omega
  · rcases List.mem_append.mp hx with hx | hx
    · exact ho.pos x hx
    · rw [List.mem_singleton.mp hx]
      omega

/-- The versions have ascending sequence numbers. -/
theorem versions_ascend (ho : Ordered h last) :
    (h.flatMap Write.versions).Pairwise fun a b => a.seq < b.seq := by
  refine List.pairwise_flatMap.mpr ⟨fun w _ => opVersions_ascend w.2 _,
    ho.ascend.imp fun hab a ha b hb => ?_⟩
  have h1 := mem_opVersions_seq _ ha
  have h2 := mem_opVersions_seq _ hb
  omega

theorem seq_le (ho : Ordered h last) {v : Version Bytes Bytes}
    (hv : v ∈ h.flatMap Write.versions) : v.seq ≤ last := by
  obtain ⟨w, hw, hv⟩ := List.mem_flatMap.mp hv
  have h1 := mem_opVersions_seq _ hv
  have h2 := ho.le_last w hw
  omega

/-- The entries are well-formed and hold the versions. -/
theorem entries_spec (ho : Ordered h last) (hl : last ≤ kMaxSequenceNumber) :
    (∀ e ∈ h.flatMap Write.entries, e.WellFormed) ∧
      (h.flatMap Write.entries).map Entry.version = h.flatMap Write.versions := by
  have hw (w : Write) (hw : w ∈ h) := opEntries_spec w.2 w.1
    ((ho.le_last w hw).trans (Nat.succ_le_succ hl))
  constructor
  · intro e he
    obtain ⟨w, hm, he⟩ := List.mem_flatMap.mp he
    exact (hw w hm).1 e he
  · rw [List.map_flatMap]
    exact List.flatMap_congr fun w hm => (hw w hm).2

end Ordered

/-! ## The store of a history -/

/-- The entries ascend, not strictly. -/
def MemTable.Ascending (mem : MemTable) : Prop := mem.Pairwise fun a b => a.rank ≤ b.rank

theorem MemTable.Ascending.add {mem : MemTable} (h : mem.Ascending) (s : ℕ) (type : ValueType)
    (key value : Bytes) : (mem.add s type key value).Ascending := by
  set e : Entry := ⟨appendInternalKey [] ⟨key, s, type⟩, value⟩ with he
  have hsmaller (x : Entry) : internalKeyCompare x.key e.key < 0 ↔ x.rank < e.rank :=
    internalKeyCompare_neg_iff
  have hbefore : ∀ x ∈ mem.takeWhile (fun x => internalKeyCompare x.key e.key < 0),
      x.rank < e.rank := fun x hx => (hsmaller x).mp (by simpa using List.mem_takeWhile_imp hx)
  have hbehind : ∀ x ∈ mem.dropWhile (fun x => internalKeyCompare x.key e.key < 0),
      e.rank ≤ x.rank := by
    have hp : (mem.dropWhile (fun x => internalKeyCompare x.key e.key < 0)).Pairwise
        fun a b => a.rank ≤ b.rank := h.sublist (List.dropWhile_sublist _)
    cases hd : mem.dropWhile (fun x => internalKeyCompare x.key e.key < 0) with
    | nil => exact fun x hx => (by cases hx)
    | cons y l =>
      rw [hd] at hp
      have hy : e.rank ≤ y.rank := by
        have hnot := List.head?_dropWhile_not
          (fun x : Entry => internalKeyCompare x.key e.key < 0) mem
        rw [hd] at hnot
        exact not_lt.mp (mt (hsmaller y).mpr (of_decide_eq_false hnot))
      intro x hx
      rcases List.mem_cons.mp hx with rfl | hx
      · exact hy
      · exact hy.trans ((List.pairwise_cons.mp hp).1 x hx)
  refine List.pairwise_append.mpr ⟨h.sublist (List.takeWhile_sublist _),
    List.pairwise_cons.mpr ⟨hbehind, h.sublist (List.dropWhile_sublist _)⟩, fun a ha b hb => ?_⟩
  rcases List.mem_cons.mp hb with rfl | hb
  · exact (hbefore a ha).le
  · exact (hbefore a ha).le.trans (hbehind b hb)

theorem MemTable.Ascending.foldl {s : UInt64 × MemTable} (h : s.2.Ascending) (ops : List Op) :
    (ops.foldl memTableInserter.apply s).2.Ascending := by
  induction ops generalizing s with
  | nil => exact h
  | cons op ops ih =>
    refine ih ?_
    cases op with
    | put key value => exact h.add ..
    | delete key => exact h.add ..

/-- A memtable in strict order is a sorted source. -/
theorem sorted_memSource {es : List Entry} (h : KeySorted Entry.rank es) :
    (DBImpl.memSource es).Sorted := by
  refine ⟨List.pairwise_map.mpr h, ?_, fun c hc e he => ?_⟩
  · rw [DBImpl.stored_memSource]
    exact h
  · obtain ⟨x, -, rfl⟩ := List.mem_map.mp hc
    rw [List.mem_singleton.mp he]
    exact le_rfl

/-- A table written from a memtable. -/
def Flushed (src : Source) : Prop := ∃ mem : MemTable, src = DBImpl.memSource mem ∧ mem.Ascending

/-- Memtables and tables as the code builds them. -/
structure DBImpl.Built (db : DBImpl) : Prop where
  mem : db.mem.Ascending
  imm : ∀ imm ∈ db.imm, imm.Ascending
  tables : ∀ src ∈ db.tables, Flushed src

theorem DBImpl.Built.flushed {db : DBImpl} (h : db.Built) {src : Source} (hs : src ∈ db.sources) :
    Flushed src := by
  rw [sources, List.cons_append, List.mem_cons, List.mem_append] at hs
  rcases hs with rfl | hs | hs
  · exact ⟨db.mem, rfl, h.mem⟩
  · obtain ⟨imm, himm, rfl⟩ := Option.mem_map.mp (Option.mem_toList.mp hs)
    exact ⟨imm, rfl, h.imm imm himm⟩
  · exact h.tables src hs

/-- **The database holds the writes `h`**, and nothing else. -/
structure History (db : DBImpl) (h : List Write) : Prop where
  built : db.Built
  stored : db.stored.Perm (h.flatMap Write.entries)
  ordered : Ordered h db.lastSequence.toNat
  last_le : db.lastSequence.toNat ≤ kMaxSequenceNumber

namespace History

variable {db : DBImpl} {h : List Write}

theorem wellFormed (H : History db h) {e : Entry} (he : e ∈ db.stored) : e.WellFormed :=
  (H.ordered.entries_spec H.last_le).1 e (H.stored.mem_iff.mp he)

theorem distinct (H : History db h) : db.stored.Pairwise fun a b =>
    ¬ (a.version.key = b.version.key ∧ a.version.seq = b.version.seq) := by
  refine (List.Perm.pairwise_iff (fun hab hba => hab ⟨hba.1.symm, hba.2.symm⟩) H.stored).mpr ?_
  have hp := H.ordered.versions_ascend
  rw [← (H.ordered.entries_spec H.last_le).2] at hp
  exact (List.pairwise_map.mp hp).imp fun hlt heq => hlt.ne heq.2

/-- A source of such a database is sorted. -/
theorem sorted (H : History db h) {src : Source} (hs : src ∈ db.sources) : src.Sorted := by
  obtain ⟨mem, rfl, hmem⟩ := H.built.flushed hs
  have hsub : mem.Sublist db.stored := by
    have := List.sublist_flatten_of_mem (List.mem_map_of_mem
      (f := fun src : Source => src.cells.flatMap Cell.stored) hs)
    rwa [DBImpl.stored_memSource] at this
  have hstrict : KeySorted Entry.rank mem := by
    refine (hmem.and (H.distinct.sublist hsub)).imp_of_mem fun ha hb hab => ?_
    refine lt_of_le_of_ne hab.1 fun heq => hab.2 ?_
    exact Entry.version_eq_of_rank_eq (H.wellFormed (hsub.subset ha)) (H.wellFormed (hsub.subset hb))
      heq
  exact sorted_memSource hstrict

/-- **The store of a history.** -/
def store (H : History db h) : Store where
  toDBImpl := db
  sorted := fun _ hs => H.sorted hs
  wellFormed := fun _ he => H.wellFormed he
  distinct := H.distinct
  lastSequence_le := H.last_le

theorem readable (H : History db h) : H.store.Readable := by
  intro src hs
  obtain ⟨mem, rfl, -⟩ := H.built.flushed hs
  refine ⟨rfl, fun c hc => ?_⟩
  obtain ⟨x, -, rfl⟩ := List.mem_map.mp hc
  rfl

/-- **A reader at `s` finds the state behind the operations up to `s`.** -/
theorem reads (H : History db h) (s : ℕ) (key : Bytes) :
    Version.Reads H.store.versions s key
      (Version.state ((h.flatMap Write.versions).filter (·.seq ≤ s)) key) := by
  have hversions : H.store.versions = {v | v ∈ h.flatMap Write.versions} := by
    rw [← (H.ordered.entries_spec H.last_le).2]
    refine Set.ext fun v => ?_
    rw [Store.versions, Set.mem_ofPred_eq, Set.mem_ofPred_eq, List.mem_map]
    exact exists_congr fun e => and_congr_left fun _ => H.stored.mem_iff
  rw [hversions]
  exact Version.reads_state H.ordered.versions_ascend s key

end History

end Leveldb
