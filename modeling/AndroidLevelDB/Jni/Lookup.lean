import AndroidLevelDB.Leveldb.DbWrite
import AndroidLevelDB.Jni.Natives

/-!
# Jni/Lookup — point lookups and scans

The wrapper has no `DB::Get`: it seeks the key and compares.  Over any store the result is what a
reader at the snapshot's sequence number finds under the key among the entries that can be read
(`lookup_reads`), which is also what a scan from the first key shows (`lookup_eq_some_iff`,
`scanForward_seekToFirst`).
-/

open Leveldb

namespace Jni

/-! ## Scans -/

/-- Read pairs with `next` until the iterator is not valid any more, at most `n` of them. -/
def scanForward : ℕ → DBIter InternalIterator → List (Bytes × Bytes) × DBIter InternalIterator
  | 0, it => ([], it)
  | n + 1, it =>
    if it.valid then
      let (pairs, last) := scanForward n it.next
      ((it.key, it.value) :: pairs, last)
    else ([], it)

/-- The same with `prev`. -/
def scanBackward : ℕ → DBIter InternalIterator → List (Bytes × Bytes) × DBIter InternalIterator
  | 0, it => ([], it)
  | n + 1, it =>
    if it.valid then
      let (pairs, last) := scanBackward n it.prev
      ((it.key, it.value) :: pairs, last)
    else ([], it)

section Scan

variable {L : List Entry} {C : Cursor InternalIterator L}

/-- **A scan forwards reads the pairs in front of the iterator.** -/
theorem scanForward_spec (hL : Versioned L) : ∀ (n : ℕ) {it : DBIter InternalIterator}
    {a b : List (Bytes × Bytes)}, DBIter.Stands C it a b → L.length ≤ it.rounds →
      (scanForward n it).1 = b.take n ∧ ((scanForward n it).2.valid = true ↔ n < b.length)
  | 0, it, a, b, h, _ => by
      refine ⟨rfl, ?_⟩
      rw [scanForward, h.valid_iff, List.length_pos_iff]
  | n + 1, it, a, [], h, _ => by
      have hv : ¬ it.valid = true := mt h.valid_iff.mp (by simp)
      rw [scanForward, if_neg hv]
      simpa using hv
  | n + 1, it, a, p :: b, h, hn => by
      obtain ⟨hnext, -, hrounds⟩ := h.next hL hn
      obtain ⟨hk, hval⟩ := h.shows hL
      obtain ⟨h1, h2⟩ := scanForward_spec hL n hnext (hrounds ▸ hn)
      rw [scanForward, if_pos (h.valid_iff.mpr (by simp))]
      refine ⟨?_, h2.trans ?_⟩
      · change (it.key, it.value) :: (scanForward n it.next).1 = _
        rw [h1, hk, hval, List.take_succ_cons]
      · rw [List.length_cons, Nat.succ_lt_succ_iff]

/-- An iterator that stands at the last of the pairs `l`, if there are any. -/
def AtLast (C : Cursor InternalIterator L) (it : DBIter InternalIterator)
    (l b : List (Bytes × Bytes)) : Prop :=
  match l.reverse with
  | [] => it.valid = false
  | q :: l => DBIter.Stands C it l.reverse (q :: b)

/-- **A scan backwards reads the pairs behind the iterator**, the last one first. -/
theorem scanBackward_spec (hL : Versioned L) : ∀ (n : ℕ) {it : DBIter InternalIterator}
    {l b : List (Bytes × Bytes)}, AtLast C it l b → L.length ≤ it.rounds →
      (scanBackward n it).1 = l.reverse.take n ∧
        ((scanBackward n it).2.valid = true ↔ n < l.length)
  | 0, it, l, b, h, _ => by
      refine ⟨rfl, ?_⟩
      rw [AtLast] at h
      rw [scanBackward, ← List.length_reverse]
      cases hl : l.reverse with
      | nil =>
        rw [hl] at h
        simp [h]
      | cons q l =>
        rw [hl] at h
        simp [h.valid_iff]
  | n + 1, it, l, b, h, hn => by
      rw [AtLast] at h
      rw [scanBackward, ← List.length_reverse]
      cases hl : l.reverse with
      | nil =>
        rw [hl] at h
        have hv : ¬ it.valid = true := by simpa using h
        rw [if_neg hv]
        simpa using hv
      | cons q l =>
        rw [hl] at h
        obtain ⟨-, hrounds, -, hprev⟩ := h.prev hL (by simp) hn
        obtain ⟨hk, hval⟩ := h.shows hL
        have hat : AtLast C it.prev l.reverse (q :: b) := hprev
        obtain ⟨h1, h2⟩ := scanBackward_spec hL n hat (hrounds ▸ hn)
        rw [if_pos (h.valid_iff.mpr (by simp))]
        refine ⟨?_, h2.trans ?_⟩
        · change (it.key, it.value) :: (scanBackward n it.prev).1 = _
          rw [h1, hk, hval, List.reverse_reverse, List.take_succ_cons]
        · rw [List.length_cons, List.length_reverse, Nat.succ_lt_succ_iff]

end Scan

section Store

variable (S : Store) (snapshot : Option ℕ)

/-- **From the first key a scan reads the pairs shown.** -/
theorem scanForward_seekToFirst (n : ℕ) :
    (scanForward n (S.newIterator snapshot).seekToFirst).1 = (S.shown (S.readAt snapshot)).take n ∧
      ((scanForward n (S.newIterator snapshot).seekToFirst).2.valid = true
        ↔ n < (S.shown (S.readAt snapshot)).length) := by
  obtain ⟨hst, -, hrounds⟩ := DBIter.stands_seekToFirst S.cursor S.versioned
    (S.covers_newIterator snapshot) (S.length_entries_le snapshot)
  exact scanForward_spec S.versioned n hst (hrounds ▸ S.length_entries_le snapshot)

/-- **From a key sought a scan reads the pairs shown whose key is not before it.** -/
theorem scanForward_seek (hs : S.readAt snapshot ≤ kMaxSequenceNumber) (k : Bytes) (n : ℕ) :
    (scanForward n ((S.newIterator snapshot).seek k)).1
        = ((S.shown (S.readAt snapshot)).dropWhile fun p => p.1 < k).take n ∧
      ((scanForward n ((S.newIterator snapshot).seek k)).2.valid = true
        ↔ n < ((S.shown (S.readAt snapshot)).dropWhile fun p => p.1 < k).length) := by
  obtain ⟨hst, -, hrounds⟩ := DBIter.stands_seek S.cursor S.versioned
    (S.covers_newIterator snapshot) (S.length_entries_le snapshot) hs k
  exact scanForward_spec S.versioned n hst (hrounds ▸ S.length_entries_le snapshot)

/-- **From the last key a scan backwards reads the pairs shown**, the last one first. -/
theorem scanBackward_seekToLast (n : ℕ) :
    (scanBackward n (S.newIterator snapshot).seekToLast).1
        = (S.shown (S.readAt snapshot)).reverse.take n ∧
      ((scanBackward n (S.newIterator snapshot).seekToLast).2.valid = true
        ↔ n < (S.shown (S.readAt snapshot)).length) := by
  obtain ⟨-, hrounds, -, hst⟩ := DBIter.stands_seekToLast S.cursor S.versioned
    (S.covers_newIterator snapshot) (S.length_entries_le snapshot)
  have hat : AtLast S.cursor (S.newIterator snapshot).seekToLast (S.shown (S.readAt snapshot)) [] :=
    hst
  exact scanBackward_spec S.versioned n hat (hrounds ▸ S.length_entries_le snapshot)

/-! ## Lookups -/

/-- In a list of pairs with ascending keys, what stands under a key. -/
theorem mem_iff_head_dropWhile {k v : Bytes} : ∀ {l : List (Bytes × Bytes)},
    (l.Pairwise fun p q => p.1 < q.1) →
      ((k, v) ∈ l ↔ (l.dropWhile fun p => p.1 < k).head? = some (k, v))
  | [], _ => by simp
  | p :: l, h => by
      obtain ⟨hp, hl⟩ := List.pairwise_cons.mp h
      by_cases hlt : p.1 < k
      · have hne : (k, v) ≠ p := by
          rintro rfl
          exact lt_irrefl _ hlt
        rw [List.dropWhile_cons_of_pos (by simpa using hlt), ← mem_iff_head_dropWhile hl,
          List.mem_cons, or_iff_right hne]
      · rw [List.dropWhile_cons_of_neg (by simpa using hlt), List.head?_cons, List.mem_cons,
          Option.some_inj, eq_comm]
        exact or_iff_left fun hmem => hlt (hp _ hmem)

/-- **A lookup finds the pair shown under the key.** -/
theorem lookup_eq_some_iff (hs : S.readAt snapshot ≤ kMaxSequenceNumber) (key v : Bytes) :
    lookup S.toDBImpl snapshot key = some v ↔ (key, v) ∈ S.shown (S.readAt snapshot) := by
  obtain ⟨hst, -, -⟩ := DBIter.stands_seek S.cursor S.versioned
    (S.covers_newIterator snapshot) (S.length_entries_le snapshot) hs key
  have hst : DBIter.Stands S.cursor ((S.newIterator snapshot).seek key) _
    ((S.shown (S.readAt snapshot)).dropWhile fun p => p.1 < key) := hst
  rw [mem_iff_head_dropWhile (S.shown_sorted _), lookup]
  cases hb : (S.shown (S.readAt snapshot)).dropWhile fun p => p.1 < key with
  | nil =>
    rw [hb] at hst
    have hv : ¬ ((S.newIterator snapshot).seek key).valid = true := mt hst.valid_iff.mp (by simp)
    simp [hv]
  | cons p b =>
    rw [hb] at hst
    have hv : ((S.newIterator snapshot).seek key).valid = true := hst.valid_iff.mpr (by simp)
    obtain ⟨hk, hval⟩ := hst.shows S.versioned
    simp only [hv, hk, hval, Bool.true_and, decide_eq_true_eq, List.head?_cons, Option.some_inj,
      Prod.ext_iff]
    by_cases hkey : key = p.1 <;> simp [hkey, eq_comm]

/-- **A lookup is a read of the newest version that can be read.** -/
theorem lookup_reads (hs : S.readAt snapshot ≤ kMaxSequenceNumber) (key : Bytes) :
    Version.Reads {v | v ∈ S.entries.map Entry.version} (S.readAt snapshot) key
      (lookup S.toDBImpl snapshot key) := by
  cases hl : lookup S.toDBImpl snapshot key with
  | some v => exact (S.mem_shown_iff).mp ((lookup_eq_some_iff S snapshot hs key v).mp hl)
  | none =>
    intro e he hk
    by_contra hne
    obtain ⟨v, hv⟩ := Option.ne_none_iff_exists'.mp hne
    have hshown : (key, v) ∈ S.shown (S.readAt snapshot) := S.mem_shown_iff.mpr ⟨e, he, hk, hv⟩
    rw [← lookup_eq_some_iff S snapshot hs, hl] at hshown
    cases hshown

end Store

/-- No two entries of a store share user key and sequence number. -/
theorem entry_unique (S : Store) {a b : Entry} (ha : a ∈ S.stored) (hb : b ∈ S.stored)
    (hk : a.version.key = b.version.key) (hs : a.version.seq = b.version.seq) : a = b := by
  by_contra hne
  have : Std.Symm fun a b : Entry =>
      ¬ (a.version.key = b.version.key ∧ a.version.seq = b.version.seq) :=
    ⟨fun _ _ h h' => h ⟨h'.1.symm, h'.2.symm⟩⟩
  exact S.distinct.forall ha hb hne ⟨hk, hs⟩

theorem distinct_versions (S : Store) : Version.Distinct S.versions := by
  rintro _ ⟨a, ha, rfl⟩ _ ⟨b, hb, rfl⟩ hk hs
  rw [entry_unique S ha hb hk hs]

/-- **In a store without read errors a lookup finds exactly what a reader finds.** -/
theorem lookup_eq_iff {S : Store} (hS : S.Readable) {snapshot : Option ℕ}
    (hs : S.readAt snapshot ≤ kMaxSequenceNumber) (key : Bytes) (r : Option Bytes) :
    lookup S.toDBImpl snapshot key = r ↔ Version.Reads S.versions (S.readAt snapshot) key r := by
  have hversions : {v | v ∈ S.entries.map Entry.version} = S.versions := by
    ext v
    simp [Store.versions, hS.mem_entries_iff]
  have hreads := hversions ▸ lookup_reads S snapshot hs key
  constructor
  · rintro rfl
    exact hreads
  · exact hreads.unique (distinct_versions S)

/-! ## The native lookups -/

/-- The address 0 reads the latest state, another one a snapshot of the database at `dbPtr`. -/
def ReadsAt (s : Native) (S : Store) (dbPtr snapshotPtr : ℕ) : Option ℕ → Prop
  | none => snapshotPtr = 0
  | some n => snapshotPtr ≠ 0 ∧ s.heap snapshotPtr = some (.snapshot dbPtr n) ∧
      n ≤ S.lastSequence.toNat

section Native

variable {S : Store} {s : Native} {dbPtr snapshotPtr : ℕ} {path : String} {snapshot : Option ℕ}

theorem ReadsAt.readAt_le (h : ReadsAt s S dbPtr snapshotPtr snapshot) :
    S.readAt snapshot ≤ kMaxSequenceNumber := by
  refine S.readAt_le fun n hn => ?_
  obtain rfl := Option.mem_def.mp hn
  exact h.2.2

theorem ReadsAt.ends_readOptions (h : ReadsAt s S dbPtr snapshotPtr snapshot) {s' : Native}
    (hs : s'.heap = s.heap) {Q : Option ℕ → Native → Prop} {E : Abrupt → Native → Prop}
    (hQ : Q snapshot s') : Ends (readOptions snapshotPtr) s' Q E := by
  rw [readOptions, ends_ite]
  cases snapshot with
  | none => exact ⟨fun _ => hQ, fun hne => absurd h hne⟩
  | some n =>
    obtain ⟨hne, hheap, -⟩ := h
    refine ⟨fun h0 => absurd h0 hne, fun _ => ?_⟩
    simpa [hs, hheap, Allocation.asSnapshot] using hQ

variable (hdb : s.heap dbPtr = some (.db path S.toDBImpl))
  (hsnap : ReadsAt s S dbPtr snapshotPtr snapshot)

include hdb hsnap

/-- `nativeGet` returns what the lookup finds. -/
theorem ends_nativeGet (key : Bytes) :
    Ends (DB.nativeGet dbPtr snapshotPtr key) s
      (fun r _ => lookup S.toDBImpl snapshot key = r) fun _ _ => False := by
  have hdb : (s.called (.nativeGet dbPtr snapshotPtr)).heap dbPtr
      = some (.db path S.toDBImpl) := hdb
  rw [DB.nativeGet, ends_bind, ends_record, ends_bind, ends_derefDB hdb, ends_bind]
  exact hsnap.ends_readOptions (by rfl) rfl

/-- So does `nativeGetBB`, for the bytes it takes of the buffer. -/
theorem ends_nativeGetBB {keyObj : ByteBuffer} {key : Bytes} (hkey : bufferSlice keyObj = .ok key) :
    Ends (DB.nativeGetBB dbPtr snapshotPtr keyObj) s
      (fun r _ => lookup S.toDBImpl snapshot key = r) fun _ _ => False := by
  have hdb : (s.called (.nativeGetBB dbPtr snapshotPtr)).heap dbPtr
      = some (.db path S.toDBImpl) := hdb
  rw [DB.nativeGetBB, ends_bind, ends_record, ends_bind, takeBuffer, hkey, ends_pure, ends_bind,
    ends_derefDB hdb, ends_bind]
  exact hsnap.ends_readOptions (by rfl) rfl

/-- **`nativeGet` and `nativeGetBB` are reads**: they return what a reader at the snapshot finds
under the key among all entries of all sources; a scan from the first key shows the same; and
entries above the snapshot's sequence number make no difference. -/
theorem nativeGet_reads (hS : S.Readable) (key : Bytes) :
    (∀ r, Returns (DB.nativeGet dbPtr snapshotPtr key) s r ↔
      Version.Reads S.versions (S.readAt snapshot) key r) ∧
    (∀ keyObj, bufferSlice keyObj = .ok key → ∀ r,
      Returns (DB.nativeGetBB dbPtr snapshotPtr keyObj) s r ↔
        Version.Reads S.versions (S.readAt snapshot) key r) ∧
    (∃ n, (scanForward n (S.newIterator snapshot).seekToFirst).2.valid = false) ∧
    (∀ n, (scanForward n (S.newIterator snapshot).seekToFirst).2.valid = false → ∀ v,
      Returns (DB.nativeGet dbPtr snapshotPtr key) s (some v) ↔
        (key, v) ∈ (scanForward n (S.newIterator snapshot).seekToFirst).1) ∧
    ∀ (T : Store) (t : Native) (path' : String), T.Readable →
      t.heap dbPtr = some (.db path' T.toDBImpl) → ReadsAt t T dbPtr snapshotPtr snapshot →
      T.readAt snapshot = S.readAt snapshot →
      (∀ v : Version Bytes Bytes, v.seq ≤ S.readAt snapshot → (v ∈ T.versions ↔ v ∈ S.versions)) →
      ∀ r, Returns (DB.nativeGet dbPtr snapshotPtr key) t r ↔
        Returns (DB.nativeGet dbPtr snapshotPtr key) s r := by
  have hget : ∀ {U : Store} {u : Native} {p : String}, U.Readable →
      u.heap dbPtr = some (.db p U.toDBImpl) → ReadsAt u U dbPtr snapshotPtr snapshot → ∀ r,
      Returns (DB.nativeGet dbPtr snapshotPtr key) u r ↔
        Version.Reads U.versions (U.readAt snapshot) key r := by
    intro U u p hU hdbU hsnapU r
    rw [(ends_nativeGet hdbU hsnapU key).returns_iff]
    exact lookup_eq_iff hU hsnapU.readAt_le key r
  have hvalid := fun n => (scanForward_seekToFirst S snapshot n).2
  refine ⟨hget hS hdb hsnap, ?_, ?_, ?_, ?_⟩
  · intro keyObj hkey r
    rw [(ends_nativeGetBB hdb hsnap hkey).returns_iff]
    exact lookup_eq_iff hS hsnap.readAt_le key r
  · refine ⟨(S.shown (S.readAt snapshot)).length, ?_⟩
    rw [← Bool.not_eq_true, hvalid]
    exact lt_irrefl _
  · intro n hn v
    have hle : (S.shown (S.readAt snapshot)).length ≤ n := by
      rw [← Bool.not_eq_true, hvalid] at hn
      exact not_lt.mp hn
    rw [(ends_nativeGet hdb hsnap key).returns_iff,
      lookup_eq_some_iff S snapshot hsnap.readAt_le, (scanForward_seekToFirst S snapshot n).1,
      List.take_of_length_le hle]
  · intro T t path' hT hdbT hsnapT hat hagree r
    rw [hget hT hdbT hsnapT, hget hS hdb hsnap, hat]
    exact Version.reads_congr hagree key r

end Native

/-- A value under `[1]`, deleted later, and a value under `[2]`. -/
def exampleStore : Store where
  mem := [opEntry 3 (.delete [1]), opEntry 1 (.put [1] [10]), opEntry 2 (.put [2] [20])]
  imm := none
  tables := []
  lastSequence := 3
  sorted := by decide
  wellFormed := by decide
  distinct := by decide
  lastSequence_le := by decide

/-- The store at 1, and at 2 a snapshot of it taken before the deletion. -/
def exampleNative : Native where
  heap
    | 1 => some (.db "/db" exampleStore.toDBImpl)
    | 2 => some (.snapshot 1 2)
    | _ => none
  locks := {"/db"}
  calls := []

theorem nativeGet_reads_example :
    Version.Reads exampleStore.versions (exampleStore.readAt (some 2)) [1] (some [10]) := by
  have hdb : exampleNative.heap 1 = some (.db "/db" exampleStore.toDBImpl) := rfl
  have hsnap : ReadsAt exampleNative exampleStore 1 2 (some 2) := ⟨by decide, rfl, by decide⟩
  refine ((nativeGet_reads hdb hsnap (by decide) [1]).1 _).mp ?_
  exact ((ends_nativeGet hdb hsnap [1]).returns_iff _).mpr (by decide)

end Jni
