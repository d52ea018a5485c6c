import AndroidLevelDB.Leveldb.LogReader

/-!
# Leveldb/LogRecords — what is read back of a log

Records are written to a device that may fill up, and the log may be cut off behind any byte.  The
records that were reported as written, and are not cut off, are read back; nothing else is, and
nothing is reported (`readAllLoop_addRecords`).  `readAll_take` is the case of a cut alone,
`readAll_addRecords` that of a full device.
-/

namespace Leveldb

/-- **An append writes the front of the data**, and says whether it is all of it; a device that
did not take all takes nothing more. -/
theorem WritableFile.append_spec (f : WritableFile) (data : Bytes) :
    ∃ a, a <+: data ∧ (f.append data).2.contents = f.contents ++ a ∧
      ((f.append data).1.ok = true ↔ a = data) ∧
      ((f.append data).1.ok = true ∨ (f.append data).2.room = some 0) := by
  obtain ⟨filename, contents, room, error⟩ := f
  cases room with
  | none => exact ⟨data, List.prefix_rfl, rfl, by simp [append], .inl rfl⟩
  | some n =>
    refine ⟨data.take n, List.take_prefix n data, rfl, ?_⟩
    rw [List.take_eq_self_iff]
    by_cases h : data.length ≤ n
    · simp [append, h]
    · simp [append, h, Status.ioError, Status.make, Status.ok, Nat.sub_eq_zero_of_le (not_le.mp h).le]

namespace Log

open Reader

/-- The reader stands where the writer does; at the start it has no block yet. -/
def SameOffset (o : ℕ) (w : Writer) : Prop :=
  o = w.blockOffset ∨ o = kBlockSize ∧ w.blockOffset = 0

theorem Fragments.sameOffset {w : Writer} {data a : Bytes} {o o' : ℕ}
    (h : Fragments true data w.blockOffset a o') (ho : SameOffset o w) :
    Fragments true data o a o' := by
  rcases ho with rfl | ⟨rfl, h0⟩
  · exact h
  · rw [h0] at h
    simpa using Fragments.switch le_rfl (by decide) h

namespace Writer

variable {w : Writer}

/-- **A record is written to its end, or the device is full.** -/
theorem addRecord_appends (ho : w.blockOffset ≤ kBlockSize) (data : Bytes) :
    ∃ a o' c, Fragments true data w.blockOffset a o' ∧ c <+: a ∧
      (w.addRecord data).2.dest.contents = w.dest.contents ++ c ∧
      (w.addRecord data).2.blockOffset ≤ kBlockSize ∧
      ((w.addRecord data).1.ok = true ∧ c = a ∧ (w.addRecord data).2.blockOffset = o' ∨
        (w.addRecord data).1.ok = false ∧ c ≠ a ∧ (w.addRecord data).2.dest.room = some 0) := by
  obtain ⟨a, o', hf, -, happ, hoff, ho₁⟩ := addRecord_spec ho data
  obtain ⟨hs, hd⟩ := Prod.ext_iff.mp happ
  obtain ⟨c, hc, hcontents, hiff, hroom⟩ := w.dest.append_spec a
  rw [← hs] at hiff hroom
  rw [← hd] at hcontents hroom
  refine ⟨a, o', c, hf, hc, hcontents, ho₁, ?_⟩
  cases hok : (w.addRecord data).1.ok with
  | true => exact .inl ⟨rfl, hiff.mp hok, hoff hok⟩
  | false =>
    refine .inr ⟨rfl, fun h => ?_, hroom.resolve_left fun h => ?_⟩
    · exact absurd (hok.symm.trans (hiff.mpr h)) (by decide)
    · exact absurd (hok.symm.trans h) (by decide)

/-- What is written is added at the end. -/
theorem exists_contents (ho : w.blockOffset ≤ kBlockSize) (rs : List Bytes) :
    ∃ b, (w.addRecords rs).2.dest.contents = w.dest.contents ++ b := by
  induction rs generalizing w with
  | nil => exact ⟨[], (List.append_nil _).symm⟩
  | cons data rs ih =>
    obtain ⟨a, o', c, -, -, hcontents, ho₁, -⟩ := addRecord_appends ho data
    obtain ⟨b, hb⟩ := ih ho₁
    refine ⟨c ++ b, ?_⟩
    rw [← List.append_assoc, ← hcontents]
    exact hb

theorem addRecords_append (w : Writer) (rs rs' : List Bytes) :
    (w.addRecords (rs ++ rs')).2 = ((w.addRecords rs).2.addRecords rs').2 := by
  induction rs generalizing w with
  | nil => rfl
  | cons data rs ih => exact ih (w.addRecord data).2

theorem addRecords_offset_le (ho : w.blockOffset ≤ kBlockSize) (rs : List Bytes) :
    (w.addRecords rs).2.blockOffset ≤ kBlockSize := by
  induction rs generalizing w with
  | nil => exact ho
  | cons data rs ih =>
    obtain ⟨a, o', c, -, -, -, ho₁, -⟩ := addRecord_appends ho data
    exact ih ho₁

/-- The front of the records is written to the front of the log. -/
theorem length_contents_take_le (ho : w.blockOffset ≤ kBlockSize) (rs : List Bytes) (j : ℕ) :
    (w.addRecords (rs.take j)).2.dest.contents.length
      ≤ (w.addRecords rs).2.dest.contents.length := by
  obtain ⟨b, hb⟩ := exists_contents (addRecords_offset_le ho (rs.take j)) (rs.drop j)
  rw [← addRecords_append, List.take_append_drop] at hb
  rw [hb, List.length_append]
  exact Nat.le_add_right _ _

/-- A full device gets nothing more, and every record is reported as failed. -/
theorem addRecords_full (hw : w.dest.room = some 0) (ho : w.blockOffset ≤ kBlockSize)
    (rs : List Bytes) : (w.addRecords rs).2.dest.contents = w.dest.contents ∧
      (w.addRecords rs).1.map Status.ok = List.replicate rs.length false := by
  induction rs generalizing w with
  | nil => exact ⟨rfl, rfl⟩
  | cons data rs ih =>
    obtain ⟨a, o', hf, -, happ, -, ho₁⟩ := addRecord_spec ho data
    obtain ⟨hs, hd⟩ := Prod.ext_iff.mp happ
    have hok : (w.dest.append a).1.ok = false := by
      rw [Bool.eq_false_iff, ne_eq, WritableFile.ok_append, hw]
      intro h
      exact hf.ne_nil (List.length_eq_zero_iff.mp (Nat.le_zero.mp (h 0 rfl)))
    have hdest : (w.dest.append a).2 = w.dest := by
      obtain ⟨⟨filename, contents, room, error⟩, o⟩ := w
      obtain rfl : room = some 0 := hw
      simp [WritableFile.append]
    rw [hdest] at hd
    obtain ⟨hc, hst⟩ := ih (w := (w.addRecord data).2)
      ((congrArg WritableFile.room hd).trans hw) ho₁
    refine ⟨hc.trans (congrArg WritableFile.contents hd), ?_⟩
    rw [addRecords, List.map_cons, hst, show (w.addRecord data).1.ok = false from hs ▸ hok]
    rfl

/-- How many records are written before the first that is not. -/
def written (w : Writer) (rs : List Bytes) : ℕ := ((w.addRecords rs).1.takeWhile Status.ok).length

theorem written_cons (data : Bytes) (rs : List Bytes) : w.written (data :: rs)
    = if (w.addRecord data).1.ok then (w.addRecord data).2.written rs + 1 else 0 := by
  rw [written, addRecords, List.takeWhile_cons]
  split
  · rfl
  · rfl

/-- **Behind a record that was not written none is.** -/
theorem addRecords_written (ho : w.blockOffset ≤ kBlockSize) (rs : List Bytes) :
    w.written rs ≤ rs.length ∧ (w.addRecords rs).1.map Status.ok
      = List.replicate (w.written rs) true ++ List.replicate (rs.length - w.written rs) false := by
  induction rs generalizing w with
  | nil => exact ⟨le_rfl, rfl⟩
  | cons data rs ih =>
    obtain ⟨a, o', c, -, -, -, ho₁, hcase⟩ := addRecord_appends ho data
    rw [addRecords, List.map_cons, written_cons]
    rcases hcase with ⟨hok, -, -⟩ | ⟨hok, -, hroom⟩
    · obtain ⟨hle, hst⟩ := ih ho₁
      rw [if_pos hok]
      refine ⟨Nat.succ_le_succ hle, ?_⟩
      rw [hst, hok, List.length_cons, Nat.succ_sub_succ, List.replicate_succ, List.cons_append]
    · rw [hok, (addRecords_full hroom ho₁ rs).2]
      exact ⟨Nat.zero_le _, rfl⟩

end Writer

/-- What `n` bytes of a log with the records `rs` give back: the first `k` records, of those that
were written. -/
structure ReadsBack (w : Writer) (rs : List Bytes) (n k : ℕ) : Prop where
  le : k ≤ w.written rs
  kept : ∀ j ≤ w.written rs,
    (w.addRecords (rs.take j)).2.dest.contents.length ≤ w.dest.contents.length + n ↔ j ≤ k

/-- **The records that were written and not cut off are read back**, nothing else is, and nothing is
reported. -/
theorem readAllLoop_addRecords (rs : List Bytes) : ∀ {w : Writer} {r : Reader} {o n m : ℕ}
    {b : Bytes} {reports : List (ℕ × Status)}, w.blockOffset ≤ kBlockSize →
    SameOffset o w → (w.addRecords rs).2.dest.contents = w.dest.contents ++ b →
    At r o (b.take n) reports → (b.take n).length < m →
    ∃ k, ReadsBack w rs n k ∧ (r.readAllLoop m).1 = rs.take k ∧
      (r.readAllLoop m).2.reports = reports := by
  induction rs with
  | nil =>
    intro w r o n m b reports _ _ hb h hm
    obtain rfl : b = [] := by simpa [Writer.addRecords] using hb
    rw [List.take_nil] at h hm
    obtain ⟨m, rfl⟩ : ∃ l, m = l + 1 := ⟨m - 1, by omega⟩
    obtain ⟨r', hread, hrep⟩ := h.readRecord_nil
    refine ⟨0, ⟨le_rfl, fun j hj => ?_⟩, ?_⟩
    · rw [List.take_nil]
      exact iff_of_true (Nat.le_add_right _ _) hj
    · rw [readAllLoop, hread]
      exact ⟨rfl, hrep⟩
  | cons data rs ih =>
    intro w r o n m b reports ho hso hb h hm
    obtain ⟨a, o', c, hf, hca, hcontents, ho₁, hcase⟩ := Writer.addRecord_appends ho data
    have hf' := hf.sameOffset hso
    set w' := (w.addRecord data).2 with hw'
    obtain ⟨m, rfl⟩ : ∃ l, m = l + 1 := ⟨m - 1, by omega⟩
    have hcons (j : ℕ) : (w.addRecords ((data :: rs).take (j + 1))).2
        = (w'.addRecords (rs.take j)).2 := rfl
    have hwritten : w.written (data :: rs) = if (w.addRecord data).1.ok then w'.written rs + 1 else 0 :=
      w.written_cons data rs
    rw [show (w.addRecords (data :: rs)).2 = (w'.addRecords rs).2 from rfl] at hb
    rcases hcase with ⟨hok, rfl, hoff⟩ | ⟨hok, hne, hroom⟩
    · -- the record was written to its end
      rw [if_pos hok] at hwritten
      have hpos := List.length_pos_iff.mpr hf.ne_nil
      have hlen : w'.dest.contents.length = w.dest.contents.length + c.length := by
        rw [hcontents, List.length_append]
      obtain ⟨b', hb'⟩ := Writer.exists_contents ho₁ rs
      obtain rfl : b = c ++ b' := by
        rw [hb', hcontents, List.append_assoc] at hb
        exact (List.append_cancel_left hb).symm
      rcases le_or_gt c.length n with hle | hlt
      · rw [List.take_append, List.take_of_length_le hle] at h hm
        obtain ⟨r', hread, hat⟩ := At.readRecord hf' h
        rw [List.length_append] at hm
        obtain ⟨k, ⟨hk, hkept⟩, hrs, hrep⟩ :=
          ih (m := m) ho₁ (.inl hoff.symm) hb' hat (by omega)
        refine ⟨k + 1, ⟨by omega, fun j hj => ?_⟩, ?_, ?_⟩
        · cases j with
          | zero => exact iff_of_true (Nat.le_add_right _ _) (Nat.zero_le _)
          | succ j =>
            have hj' := hkept j (by omega)
            rw [hcons, Nat.succ_le_succ_iff, ← hj']
            omega
        · rw [readAllLoop, hread, List.take_succ_cons]
          exact congrArg _ hrs
        · rw [readAllLoop, hread]
          exact hrep
      · -- but it was cut off
        rw [List.take_append, Nat.sub_eq_zero_of_le hlt.le, List.take_zero, List.append_nil] at h
        have hne : c.take n ≠ c := fun heq => by
          have := congrArg List.length heq
          rw [List.length_take] at this
          omega
        obtain ⟨r', hread, hrep⟩ := At.readRecord_cut hf' h (List.take_prefix n c) hne
        refine ⟨0, ⟨Nat.zero_le _, fun j hj => ?_⟩, ?_⟩
        · cases j with
          | zero => exact iff_of_true (Nat.le_add_right _ _) le_rfl
          | succ j =>
            obtain ⟨b'', hb''⟩ := Writer.exists_contents ho₁ (rs.take j)
            rw [hcons, hb'', List.length_append, hlen]
            omega
        · rw [readAllLoop, hread]
          exact ⟨rfl, hrep⟩
    · -- the device is full, and nothing is written behind the record
      rw [if_neg (by simp [hok])] at hwritten
      obtain ⟨hc, -⟩ := Writer.addRecords_full hroom ho₁ rs
      obtain rfl : b = c := by
        rw [hc, hcontents] at hb
        exact (List.append_cancel_left hb).symm
      have hne' : b.take n ≠ a := fun heq => by
        have hle : a.length ≤ b.length := by
          rw [← heq]
          exact (List.take_prefix n b).length_le
        exact hne (hca.eq_of_length_le hle)
      obtain ⟨r', hread, hrep⟩ := At.readRecord_cut hf' h ((List.take_prefix n b).trans hca) hne'
      refine ⟨0, ⟨Nat.zero_le _, fun j hj => ?_⟩, ?_⟩
      · obtain rfl := Nat.le_zero.mp (hwritten ▸ hj)
        exact iff_of_true (Nat.le_add_right _ _) le_rfl
      · rw [readAllLoop, hread]
        exact ⟨rfl, hrep⟩

/-- What the first `n` bytes of a new log with the records `rs` give back. -/
theorem readAll_addRecords_take (dest : WritableFile) (hd : dest.contents = []) (rs : List Bytes)
    (checksum : Bool) (n : ℕ) :
    ∃ k, ReadsBack (.new dest) rs n k ∧
      ((Reader.new (.new (((Writer.new dest).addRecords rs).2.dest.contents.take n))
        checksum 0).readAll).1 = rs.take k ∧
      ((Reader.new (.new (((Writer.new dest).addRecords rs).2.dest.contents.take n))
        checksum 0).readAll).2.reports = [] := by
  have h := at_new (((Writer.new dest).addRecords rs).2.dest.contents.take n) checksum
  exact readAllLoop_addRecords rs (w := .new dest) (Nat.zero_le _) (.inr ⟨rfl, rfl⟩)
    (by rw [Writer.new, hd, List.nil_append]) h (Nat.lt_succ_of_le h.left_eq.ge)

/-- The contents of a log with the records `rs`, on a device without limit. -/
def contents (rs : List Bytes) : Bytes := ((Writer.new (.new "")).addRecords rs).2.dest.contents

/-- A device without limit takes every record. -/
theorem written_unlimited {w : Writer} (hw : w.dest.room = none) (ho : w.blockOffset ≤ kBlockSize)
    (rs : List Bytes) : w.written rs = rs.length := by
  induction rs generalizing w with
  | nil => rfl
  | cons data rs ih =>
    obtain ⟨a, o', -, -, happ, -, ho₁⟩ := Writer.addRecord_spec ho data
    obtain ⟨hs, hd⟩ := Prod.ext_iff.mp happ
    have hok : (w.addRecord data).1.ok = true := by
      rw [show (w.addRecord data).1 = _ from hs, WritableFile.ok_append, hw]
      exact fun n hn => (by cases hn)
    have hroom : (w.addRecord data).2.dest.room = none := by
      rw [show (w.addRecord data).2.dest = _ from hd]
      obtain ⟨⟨filename, contents, room, error⟩, o⟩ := w
      obtain rfl : room = none := hw
      rfl
    rw [Writer.written_cons, if_pos hok, ih hroom ho₁, List.length_cons]

/-- **A log cut off anywhere gives back the records that were written to their end**, and reports
nothing. -/
theorem readAll_take (rs : List Bytes) (checksum : Bool) (n : ℕ) :
    ∃ k ≤ rs.length,
      ((Reader.new (.new ((contents rs).take n)) checksum 0).readAll).1 = rs.take k ∧
      ((Reader.new (.new ((contents rs).take n)) checksum 0).readAll).2.reports = [] ∧
      ∀ j ≤ rs.length, (contents (rs.take j)).length ≤ n ↔ j ≤ k := by
  obtain ⟨k, ⟨hk, hkept⟩, hrs, hrep⟩ := readAll_addRecords_take (.new "") rfl rs checksum n
  rw [written_unlimited rfl (Nat.zero_le _)] at hk hkept
  refine ⟨k, hk, hrs, hrep, fun j hj => ?_⟩
  rw [← hkept j hj]
  exact (Nat.zero_add n).symm ▸ Iff.rfl

/-- The front of a list, chosen by statuses. -/
theorem filter_zip_status {α : Type} (rs : List α) : ∀ (ss : List Status) {k : ℕ}, k ≤ rs.length →
    ss.map Status.ok = List.replicate k true ++ List.replicate (rs.length - k) false →
    ((rs.zip ss).filter (·.2.ok)).map Prod.fst = rs.take k := by
  induction rs with
  | nil => intro ss k _ _; simp
  | cons a rs ih =>
    intro ss k hk h
    cases ss with
    | nil => cases k <;> simp at h
    | cons s ss =>
      cases k with
      | zero =>
        rw [List.replicate_zero, List.nil_append, Nat.sub_zero, List.map_cons, List.length_cons,
          List.replicate_succ] at h
        obtain ⟨hs, hss⟩ := List.cons.inj h
        rw [List.zip_cons_cons, List.filter_cons_of_neg (by simp [hs]), ih ss (Nat.zero_le _) hss,
          List.take_zero, List.take_zero]
      | succ k =>
        rw [List.replicate_succ, List.cons_append, List.map_cons, List.length_cons,
          Nat.succ_sub_succ] at h
        obtain ⟨hs, hss⟩ := List.cons.inj h
        rw [List.zip_cons_cons, List.filter_cons_of_pos (by simpa using hs), List.map_cons,
          ih ss (Nat.le_of_succ_le_succ hk) hss, List.take_succ_cons]

/-- **A device that fills up loses no record that was reported as written**, and gives back no
other. -/
theorem readAll_addRecords (filename error : String) (room : ℕ) (rs : List Bytes)
    (checksum : Bool) :
    ((Reader.new (.new ((Writer.new ⟨filename, [], some room, error⟩).addRecords rs).2.dest.contents)
        checksum 0).readAll).1
      = ((rs.zip ((Writer.new ⟨filename, [], some room, error⟩).addRecords rs).1).filter
          (·.2.ok)).map Prod.fst ∧
    ((Reader.new (.new ((Writer.new ⟨filename, [], some room, error⟩).addRecords rs).2.dest.contents)
        checksum 0).readAll).2.reports = [] := by
  set w := Writer.new ⟨filename, [], some room, error⟩ with hw
  obtain ⟨hle, hst⟩ := Writer.addRecords_written (w := w) (Nat.zero_le _) rs
  obtain ⟨k, ⟨hk, hkept⟩, hrs, hrep⟩ := readAll_addRecords_take ⟨filename, [], some room, error⟩ rfl
    rs checksum (w.addRecords rs).2.dest.contents.length
  rw [← hw, List.take_length] at hrs hrep
  -- no record that was written lies behind the end
  have hlen := Writer.length_contents_take_le (w := w) (Nat.zero_le _) rs (w.written rs)
  obtain rfl : k = w.written rs :=
    hk.antisymm ((hkept _ le_rfl).mp (hlen.trans (Nat.le_add_left _ _)))
  exact ⟨hrs.trans (filter_zip_status rs _ hle hst).symm, hrep⟩

end Log

end Leveldb
