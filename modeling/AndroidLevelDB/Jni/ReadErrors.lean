import AndroidLevelDB.Jni.Lookup

/-!
# Jni/ReadErrors — lookups and scans over a store that cannot be read everywhere

An iterator passes over what it cannot read and keeps the error in `status()`, which neither the
lookups nor the Java iterator look at.  So a lookup is honest exactly when it passes no unreadable
place between the target of its seek and the entry where it stops (`honest_iff`), and a
scan is complete exactly when no visible pair is lost, or each one lost has a stand-in
(`complete_iff`).
-/

open Leveldb

namespace Jni

section Lookup

variable (S : Store)

/-- The entry where a lookup of `key` at `s` stops: the first one from the target of the seek on
that is seen. -/
def stop (s : ℕ) (key : Bytes) : Option Entry :=
  (S.entries.dropWhile (below (DBIter.seekTarget key s))).find? fun e =>
    Version.Seen (S.entries.map Entry.version) s e.version

/-- Every source could be opened, and a lookup of `key` at `s` passes no unreadable place. -/
def Clear (s : ℕ) (key : Bytes) : Prop :=
  ∀ src ∈ S.sources, src.opened.ok = true ∧
    ∀ c ∈ InternalIterator.passedBetween src (DBIter.seekTarget key s) (stop S s key),
      c.isUnreadable = false

instance (s : ℕ) : DecidablePred (Clear S s) := fun key =>
  inferInstanceAs (Decidable (∀ src ∈ S.sources, src.opened.ok = true ∧
    ∀ c ∈ InternalIterator.passedBetween src (DBIter.seekTarget key s) (stop S s key),
      c.isUnreadable = false))

/-- Moving forwards while every source keeps track of what it passes. -/
theorem forward_trails (t : Bytes) :
    Forward InternalIterator fun it pre post =>
      S.cursor.fwd it pre post ∧ InternalIterator.Trails t it pre where
  nil h := S.cursor.fwd_nil h.1
  cons h := S.cursor.fwd_cons h.1
  next h := ⟨S.cursor.next_fwd h.1, h.2.next S.sorted h.1⟩

theorem status_newIterator (snapshot : Option ℕ) :
    ∀ c ∈ (S.newIterator snapshot).iter.children, c.status = c.source.opened := by
  intro c hc
  have hc : c ∈ (newMergingIterator (S.sources.map SourceIterator.new)).children := hc
  rw [Store.children_newMergingIterator] at hc
  obtain ⟨src, -, rfl⟩ := List.mem_map.mp hc
  rfl

/-- A position at an entry that is seen, with the same pairs before it as the target of the seek,
is the stop. -/
theorem head?_eq_stop {s : ℕ} {key : Bytes} {pre post : List Entry} (happ : pre ++ post = S.entries)
    (hseen : ∀ e ∈ post.head?, Version.Seen (S.entries.map Entry.version) s e.version)
    (hpre : DBIter.shown S.entries s pre
      = DBIter.shown S.entries s (S.entries.takeWhile (below (DBIter.seekTarget key s)))) :
    post.head? = stop S s key := by
  have hsplit : pre ++ post = S.entries.takeWhile (below (DBIter.seekTarget key s))
      ++ S.entries.dropWhile (below (DBIter.seekTarget key s)) := by
    rw [happ, List.takeWhile_append_dropWhile]
  rw [stop]
  generalize S.entries.takeWhile (below (DBIter.seekTarget key s)) = A at *
  generalize S.entries.dropWhile (below (DBIter.seekTarget key s)) = D at *
  -- entries between the two positions are not seen
  have hnone : ∀ {M : List Entry}, DBIter.shown S.entries s M = [] →
      ∀ e ∈ M, ¬ Version.Seen (S.entries.map Entry.version) s e.version := by
    intro M hM e he hs
    obtain ⟨M₁, M₂, rfl⟩ := List.append_of_mem he
    rw [DBIter.shown_append, DBIter.shown_cons_of_seen hs] at hM
    simp at hM
  rcases List.append_eq_append_iff.mp hsplit with ⟨M, rfl, rfl⟩ | ⟨M, rfl, rfl⟩
  · -- the position is before the target
    rw [DBIter.shown_append] at hpre
    have hM := hnone (List.append_cancel_left (hpre.symm.trans (List.append_nil _).symm))
    cases M with
    | nil =>
      cases D with
      | nil => rfl
      | cons e D =>
        rw [List.nil_append, List.head?_cons, List.find?_cons_of_pos]
        simpa using hseen e rfl
    | cons e M => exact absurd (hseen e rfl) (hM e List.mem_cons_self)
  · rw [DBIter.shown_append] at hpre
    have hM := hnone (List.append_cancel_left (hpre.trans (List.append_nil _).symm))
    rw [List.find?_append, List.find?_eq_none.mpr (by simpa using hM), Option.none_or]
    cases post with
    | nil => rfl
    | cons e post =>
      rw [List.head?_cons, List.find?_cons_of_pos]
      simpa using hseen e rfl

/-- **After a lookup the status is OK exactly when it passed nothing unreadable.** -/
theorem ok_status_seek_iff {snapshot : Option ℕ} (hs : S.readAt snapshot ≤ kMaxSequenceNumber)
    (key : Bytes) :
    ((S.newIterator snapshot).seek key).reportedStatus.ok = true
      ↔ Clear S (S.readAt snapshot) key := by
  have hover := S.covers_newIterator snapshot
  obtain ⟨pre, post, hat, hseq, -, hst, hpre, -⟩ := DBIter.seek_forwardAt S.versioned
    (forward_trails S (DBIter.seekTarget key (S.readAt snapshot))) key hs
    (S.length_entries_le snapshot) ⟨S.cursor.seek_fwd hover _,
      InternalIterator.trails_seek (status_newIterator S snapshot) _ _⟩
  have happ := S.cursor.fwd_append hat.position.1
  have hcut := (DBIter.shown_cut S.versioned hs key).1
  have hstop : post.head? = stop S (S.readAt snapshot) key := by
    have hseen := hat.seen
    rw [hseq] at hseen
    exact head?_eq_stop S happ hseen (hpre.trans hcut.symm)
  have hok : ((S.newIterator snapshot).seek key).status.ok = true := by
    rw [hst]
    rfl
  rw [DBIter.reportedStatus, if_pos hok,
    hat.position.2.ok_status_iff S.sorted S.merged hat.position.1, hstop]
  rfl

/-! ## Honest lookups -/

/-- What is stored in an unreadable place that is not passed is behind the stop. -/
theorem stop_lt_of_not_passed {s : ℕ} {key : Bytes} {src : Source} (hsrc : src.Sorted) {c : Cell}
    (hc : c ∈ src.cells) (hu : c.isUnreadable = true)
    (hnot : c ∉ InternalIterator.passedBetween src (DBIter.seekTarget key s) (stop S s key))
    {e : Entry} (he : e ∈ c.stored) (hge : ¬ below (DBIter.seekTarget key s) e = true) :
    ∃ x, stop S s key = some x ∧ x.rank < e.rank := by
  have hlimit : c ∈ src.cells.dropWhile (SourceIterator.limitBelow (DBIter.seekTarget key s)) := by
    rw [below, decide_eq_true_iff, not_lt] at hge
    have hcut := hsrc.limits.dropWhile_eq_filter (internalRank (DBIter.seekTarget key s))
    have hmem : c ∈ src.cells.filter fun a =>
        ¬ internalRank a.limit < internalRank (DBIter.seekTarget key s) :=
      List.mem_filter.mpr ⟨hc, by simpa using hge.trans (hsrc.le_limit c hc e he)⟩
    exact hcut ▸ hmem
  rw [InternalIterator.passedBetween] at hnot
  have hsub := List.dropWhile_sublist (l := src.cells)
    (SourceIterator.limitBelow (DBIter.seekTarget key s))
  generalize src.cells.dropWhile (SourceIterator.limitBelow (DBIter.seekTarget key s)) = D at *
  -- the first place `d` at which the lookup is no longer before the stop
  have hdrop : c ∈ D.dropWhile (InternalIterator.beforeStop (stop S s key)) := by
    rw [← List.takeWhile_append_dropWhile
      (p := InternalIterator.beforeStop (stop S s key)) (l := D)] at hlimit
    exact (List.mem_append.mp hlimit).resolve_left hnot
  have hfirst := List.head?_dropWhile_not (InternalIterator.beforeStop (stop S s key)) D
  have hsub' := (List.dropWhile_sublist (l := D)
    (InternalIterator.beforeStop (stop S s key))).trans hsub
  cases hd : D.dropWhile (InternalIterator.beforeStop (stop S s key)) with
  | nil =>
    rw [hd] at hdrop
    cases hdrop
  | cons d rest =>
    rw [hd] at hdrop hfirst hsub'
    simp only [List.head?_cons, InternalIterator.beforeStop, Bool.or_eq_false_iff] at hfirst
    cases d with
    | unreadable => cases hfirst.1
    | entry y =>
      cases hstop : stop S s key with
      | none =>
        rw [hstop] at hfirst
        cases hfirst.2
      | some x =>
        rw [hstop] at hfirst
        have hxy : x.rank ≤ y.rank := not_lt.mp (of_decide_eq_false hfirst.2)
        have hrest : c ∈ rest := by
          rcases List.mem_cons.mp hdrop with rfl | hrest
          · cases hu
          · exact hrest
        have hpair := (List.pairwise_flatMap.mp hsrc.stored).2.sublist hsub'
        have hye : y.rank < e.rank :=
          (List.pairwise_cons.mp hpair).1 c hrest y (List.mem_singleton_self y) e he
        exact ⟨x, rfl, hxy.trans_lt hye⟩

/-- After a lookup without an error, a version of the key that could not be read is older than one
that could. -/
theorem readable_or_older {s : ℕ} (hs : s ≤ kMaxSequenceNumber) {key : Bytes} (h : Clear S s key)
    {e : Entry} (he : e ∈ S.stored) (hk : e.version.key = key) (hes : e.version.seq ≤ s) :
    e ∈ S.entries ∨ ∃ x ∈ S.entries, x.version.key = key ∧ x.version.seq ≤ s ∧
      e.version.seq < x.version.seq := by
  obtain ⟨src, hsrc, hmem⟩ := List.mem_flatMap.mp he
  obtain ⟨c, hc, hec⟩ := List.mem_flatMap.mp hmem
  have hwf := S.wellFormed e he
  cases hu : c.isUnreadable with
  | false =>
    refine .inl (S.merged.mem_iff.mpr ⟨readable src.cells, List.mem_map_of_mem hsrc, ?_⟩)
    cases c with
    | unreadable => cases hu
    | entry y =>
      obtain rfl : e = y := List.mem_singleton.mp hec
      exact List.mem_filterMap.mpr ⟨_, hc, rfl⟩
  | true =>
    have hnot :
        c ∉ InternalIterator.passedBetween src (DBIter.seekTarget key s) (stop S s key) := by
      intro hpassed
      have := (h src hsrc).2 c hpassed
      rw [hu] at this
      cases this
    have hge : ¬ below (DBIter.seekTarget key s) e = true := by
      rw [DBIter.below_seekTarget hwf hs hes, hk]
      exact lt_irrefl key
    obtain ⟨x, hstop, hlt⟩ := stop_lt_of_not_passed S (S.sorted src hsrc) hc hu hnot hec hge
    have hxL : x ∈ S.entries := List.dropWhile_subset _ (List.mem_of_find?_eq_some hstop)
    have hseen : Version.Seen (S.entries.map Entry.version) s x.version := by
      simpa using List.find?_some hstop
    have hxwf := S.versioned.wellFormed x hxL
    have hxge : ¬ x.version.key < key := by
      rw [← DBIter.below_seekTarget hxwf hs hseen.2.1]
      have hmem := List.mem_of_find?_eq_some hstop
      rw [(cut_eq_filter S.versioned.sorted _).2] at hmem
      simpa [below] using (List.mem_filter.mp hmem).2
    have hne : ¬ (x.version.key = e.version.key ∧ x.version.seq = e.version.seq) := by
      rintro ⟨hkey, hseq⟩
      rw [entry_unique S (S.entries_subset hxL) he hkey hseq] at hlt
      exact lt_irrefl _ hlt
    refine .inr ⟨x, hxL, ?_⟩
    rcases Version.rank_lt_iff.mp ((Entry.rank_lt_iff hxwf hwf hne).mp hlt) with hl | ⟨hkey, hl⟩
    · exact absurd (hk ▸ hl) hxge
    · exact ⟨hkey.trans hk, hseen.2.1, hl⟩

/-- **After a lookup without an error, the versions that can be read are as good as all.** -/
theorem reads_of_clear {s : ℕ} (hs : s ≤ kMaxSequenceNumber) {key : Bytes} (h : Clear S s key)
    {r : Option Bytes} (hr : Version.Reads {v | v ∈ S.entries.map Entry.version} s key r) :
    Version.Reads S.versions s key r := by
  have hsub : ∀ v ∈ S.entries.map Entry.version, v ∈ S.versions := by
    intro v hv
    obtain ⟨e, he, rfl⟩ := List.mem_map.mp hv
    exact ⟨e, S.entries_subset he, rfl⟩
  cases r with
  | some v =>
    obtain ⟨a, ⟨ha, has, hmax⟩, hk, hv⟩ := hr
    refine ⟨a, ⟨hsub a ha, has, ?_⟩, hk, hv⟩
    rintro _ ⟨e, he, rfl⟩ hek hes
    rcases readable_or_older S hs h he (hek.trans hk) hes with hL | ⟨x, hx, hxk, hxs, hlt⟩
    · exact hmax _ (List.mem_map_of_mem hL) hek hes
    · exact hlt.le.trans (hmax _ (List.mem_map_of_mem hx) (hxk.trans hk.symm) hxs)
  | none =>
    rintro _ ⟨⟨e, he, rfl⟩, hes, hmax⟩ hk
    rcases readable_or_older S hs h he hk hes with hL | ⟨x, hx, hxk, hxs, hlt⟩
    · refine hr _ ⟨List.mem_map_of_mem hL, hes, fun v hv => hmax v (hsub v hv)⟩ hk
    · exact absurd (hmax _ (hsub _ (List.mem_map_of_mem hx)) (hxk.trans hk.symm) hxs)
        (not_le.mpr hlt)

/-- A lookup of `key` that throws if there is an error in the status after its seek, and otherwise
returns what a reader finds among all that is stored. -/
structure Honest (snapshot : Option ℕ) (key : Bytes) (call : JniM (Option Bytes)) (s : Native) :
    Prop where
  throws : ((S.newIterator snapshot).seek key).reportedStatus.ok = false →
    ∃ t s', call s = .error (.thrown t) s'
  value : ∀ r, Returns call s r → Version.Reads S.versions (S.readAt snapshot) key r

/-- A call that returns what the lookup finds is honest exactly if the lookup meets no error. -/
theorem honest_iff {snapshot : Option ℕ} (hs : S.readAt snapshot ≤ kMaxSequenceNumber)
    {key : Bytes} {call : JniM (Option Bytes)} {s : Native}
    (hcall : Ends call s (fun r _ => lookup S.toDBImpl snapshot key = r) fun _ _ => False) :
    Honest S snapshot key call s ↔ Clear S (S.readAt snapshot) key := by
  have hret := hcall.returns_iff
  constructor
  · intro h
    by_contra hclear
    rw [← ok_status_seek_iff S hs, Bool.not_eq_true] at hclear
    obtain ⟨t, s', hthrow⟩ := h.throws hclear
    exact hcall.of_error hthrow
  · intro hclear
    refine ⟨fun hbad => ?_, fun r hr => ?_⟩
    · rw [← ok_status_seek_iff S hs, hbad] at hclear
      cases hclear
    · rw [← (hret r).mp hr]
      exact reads_of_clear S hs hclear (lookup_reads S snapshot hs key)

/-! ## Complete scans -/

/-- The entries of the keys in `range` that are lost to readers at `s`, but for those whose value
the versions that can be read show as well. -/
def Hidden (s : ℕ) (range : Bytes → Prop) : Set Entry :=
  {e | e ∈ S.stored ∧ e ∉ S.entries ∧ range e.version.key ∧ Version.Newest S.versions s e.version ∧
    ∃ v, e.version.val = some v ∧
      (e.version.key, v) ∉ Version.Visible {v | v ∈ S.entries.map Entry.version} s}

/-- The scan ends only after it has returned every visible pair of the keys in `range`. -/
def Complete (snapshot : Option ℕ) (range : Bytes → Prop)
    (scan : ℕ → List (Bytes × Bytes) × DBIter InternalIterator) : Prop :=
  ∀ n, (scan n).2.valid = false →
    ∀ p ∈ Version.Visible S.versions (S.readAt snapshot), range p.1 → p ∈ (scan n).1

/-- **A scan that returns the pairs shown is complete exactly if no visible pair is hidden.** -/
theorem complete_iff {snapshot : Option ℕ} {range : Bytes → Prop}
    {scan : ℕ → List (Bytes × Bytes) × DBIter InternalIterator} {l : List (Bytes × Bytes)}
    (hscan : ∀ n, (scan n).1 = l.take n ∧ ((scan n).2.valid = true ↔ n < l.length))
    (hl : ∀ p, p ∈ l ↔ p ∈ S.shown (S.readAt snapshot) ∧ range p.1) :
    Complete S snapshot range scan ↔ Hidden S (S.readAt snapshot) range = ∅ := by
  have hmem : ∀ n, (scan n).2.valid = false → (scan n).1 = l := by
    intro n hn
    rw [← Bool.not_eq_true, (hscan n).2, not_lt] at hn
    rw [(hscan n).1, List.take_of_length_le hn]
  have hend : (scan l.length).2.valid = false := by
    rw [← Bool.not_eq_true, (hscan _).2]
    exact lt_irrefl _
  rw [Set.eq_empty_iff_forall_notMem]
  constructor
  · rintro h e ⟨he, -, hrange, hnew, v, hv, hlost⟩
    have hp := h _ hend (e.version.key, v) ⟨_, hnew, rfl, hv⟩ hrange
    rw [hmem _ hend, hl, S.mem_shown_iff] at hp
    exact hlost hp.1
  · rintro h n hn ⟨k, v⟩ ⟨_, hnew, rfl, hv⟩ hrange
    obtain ⟨e, he, rfl⟩ := hnew.1
    rw [hmem n hn, hl, S.mem_shown_iff]
    refine ⟨?_, hrange⟩
    by_contra hlost
    refine h e ⟨he, fun hL => hlost ⟨_, ⟨List.mem_map_of_mem hL, hnew.2.1, ?_⟩, rfl, hv⟩,
      hrange, hnew, v, hv, hlost⟩
    intro v' hv'
    obtain ⟨x, hx, rfl⟩ := List.mem_map.mp hv'
    exact hnew.2.2 _ ⟨x, S.entries_subset hx, rfl⟩

end Lookup

section Native

variable {S : Store} {s : Native} {dbPtr snapshotPtr : ℕ} {path : String} {snapshot : Option ℕ}

end Native

/-- A value under `[1]` in a block that cannot be read. -/
def damagedStore : Store where
  mem := []
  imm := none
  tables := [⟨[.unreadable (opEntry 1 (.put [1] [10])).key [opEntry 1 (.put [1] [10])]
    .kCorruption "block checksum mismatch"], .OK⟩]
  lastSequence := 1
  sorted := by decide
  wellFormed := by decide
  distinct := by decide
  lastSequence_le := by decide

def damagedNative : Native where
  heap
    | 1 => some (.db "/db" damagedStore.toDBImpl)
    | _ => none
  locks := {"/db"}
  calls := []

end Jni
