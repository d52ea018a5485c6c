import AndroidLevelDB.Leveldb.CompactionResults
import AndroidLevelDB.Leveldb.LevelInvariant

/-!
# Leveldb/LevelCompaction — compactions keep the invariant

A file that is moved to the next level (`Inv.background`), and the results of a compaction that take
the place of its inputs (`Inv.finishCompaction`), leave the levels in order and every reader with
what it found before.
-/

namespace Leveldb

namespace LeveledDB

variable {db : LeveledDB} {h : List Write}

/-! ## Picking a compaction -/

/-- Where the next compaction starts does not matter. -/
theorem Inv.setPointer (H : db.Inv h) (compactPointer : ℕ → Bytes) :
    Inv { db with compactPointer := compactPointer } h :=
  { H with running := fun r hr => (H.running r hr).congr rfl le_rfl }

/-- **A compaction begins.** -/
theorem Inv.begin (H : db.Inv h) {c : Compaction} (hlevel : c.level + 1 < kNumLevels)
    (hversion : c.inputVersion = db.version) (hptrs : c.levelPtrs = fun _ => 0)
    (hp : Picked db.version c.level c.inputs0 c.inputs1) :
    Inv { db with running := some ⟨c, db.snapshots, db.lastSequence.toNat⟩ } h :=
  { H with
    running := fun r hr => by
      obtain rfl := Option.some.inj hr
      refine ⟨le_rfl, hlevel, hversion ▸ H.levels, hversion ▸ hp, hptrs,
        fun _ f hf => hversion ▸ hf, fun _ g hg hgr => absurd (hversion ▸ hg) hgr,
        fun _ _ g hg hgr => absurd (hversion ▸ hg) hgr, fun f hf e he => ?_⟩
      obtain ⟨i, -, hfv⟩ := hp.exists_level hf
      exact mem_history_seq H.ordered H.last_lt.le (H.history e (.inr (.inr ⟨i, f, hfv, he⟩))) }

/-! ## Installing files -/

/-- **Files take the place of others**, with nothing in them that was not there. -/
theorem Inv.installed (H : db.Inv h) {current : Files} {tables : ℕ → List Entry} {n p : ℕ}
    {removed : ℕ → FileMetaData → Prop} {new : List FileMetaData}
    {running : Option RunningCompaction}
    (hr : Replaces db.version (fun level => (current level).map (fileOf tables)) removed p new)
    (he : Enters db.version removed p new) (hn : db.nextFileNumber ≤ n)
    (hnumbers : ∀ f ∈ new, f.number < n)
    (hsub : ∀ f ∈ new, ∀ e ∈ f.stored, ∃ level, ∃ g ∈ db.version level, e ∈ g.stored)
    (hrunning : running = none)
    (hreads : ∀ s, db.smallestSnapshot ≤ s → ∀ k r,
      Version.Reads (versions { db with
        current := current, tables := tables, nextFileNumber := n, running := running }) s k r ↔
      Version.Reads db.versions s k r) :
    Inv { db with
      current := current, tables := tables, nextFileNumber := n, running := running } h := by
  have hmem := hr.mem_iff
  have habove {es : List Entry} (hes : ∀ level, ∀ g ∈ db.version level, Above es g.stored)
      {f : FileMetaData} (hf : f ∈ new) : Above es f.stored := by
    refine above_iff.mpr fun e' he' e he => ?_
    obtain ⟨level, g, hg, heg⟩ := hsub f hf e he
    exact above_iff.mp (hes level g hg) e' he' e heg
  refine ⟨H.ordered, H.last_lt, H.levels.replace hr he, fun level f hf => ?_, H.mem_sorted,
    H.imm_sorted, H.mem_imm, fun level f hf => ?_, fun level f hf => ?_, fun e he => H.history e ?_,
    H.snapshots, H.snapshots_le, fun s hs k r => (hreads s hs k r).trans (H.reads s hs k r),
    fun r hr => (by rw [hrunning] at hr; cases hr)⟩
  · rcases (hmem level f).mp hf with ⟨hf, -⟩ | ⟨-, hf⟩
    · exact (H.numbers_lt level f hf).trans_le hn
    · exact hnumbers f hf
  · rcases (hmem level f).mp hf with ⟨hf, -⟩ | ⟨-, hf⟩
    · exact H.mem_files level f hf
    · exact habove H.mem_files hf
  · rcases (hmem level f).mp hf with ⟨hf, -⟩ | ⟨-, hf⟩
    · exact H.imm_files level f hf
    · exact habove H.imm_files hf
  · rcases he with he | he | ⟨level, f, hf, he⟩
    · exact .inl he
    · exact .inr (.inl he)
    · rcases (hmem level f).mp hf with ⟨hf, -⟩ | ⟨-, hf⟩
      · exact .inr (.inr ⟨level, f, hf, he⟩)
      · exact .inr (.inr (hsub f hf e he))

/-! ## Moving a file -/

theorem fileOf_toFileRecord {level : ℕ} {f : FileMetaData} (hf : f ∈ db.version level) :
    fileOf db.tables f.toFileRecord = f := by
  obtain ⟨r, -, rfl⟩ := mem_version.mp hf
  rfl

/-- A single file without any below it that overlaps can be moved. -/
theorem Inv.enters_move (H : db.Inv h) {level : ℕ} {f : FileMetaData}
    (hlevel : level + 1 < kNumLevels) (hp : Picked db.version level [f] []) :
    Enters db.version (fun i g => (i, g.number) = (level, f.number)) (level + 1) [f] := by
  have hf : f ∈ db.version level := hp.sublist0.subset List.mem_cons_self
  have hsingle {P : FileMetaData → Prop} (hP : P f) : ∀ g ∈ [f], P g :=
    List.forall_mem_singleton.mpr hP
  refine ⟨hlevel, hsingle (H.levels.built level f hf), hsingle (hsingle fun _ => rfl),
    fun _ => hsingle fun g hg _ ho => ?_, fun h0 => absurd h0 (Nat.succ_ne_zero _),
    hsingle fun i hi g hg hne => ?_,
    hsingle fun i hi g hg _ => H.levels.above level i f hf g hg (.inl (by omega)),
    hsingle fun i g hg hne heq => ?_⟩
  · cases hp.closed1 f List.mem_cons_self g hg ho
  · rcases Nat.lt_succ_iff_lt_or_eq.mp hi with hi | rfl
    · exact H.levels.above i level g hg f hf (.inl hi)
    · -- in its own level nothing else overlaps the file
      refine (H.levels.built i g hg).above_of_not_overlaps (H.levels.built i f hf) fun ho => ?_
      have heq : g = f := by
        rcases Nat.eq_zero_or_pos i with rfl | hi
        · exact List.mem_singleton.mp (hp.closed0 rfl f List.mem_cons_self g hg ho.symm)
        · exact H.levels.apart i hi g hg f hf ho
      exact hne (by rw [heq])
  · obtain ⟨rfl, -⟩ := H.levels.numbers i level g hg f hf heq
    exact hne (by rw [heq])

/-- **Moving a file keeps the invariant.** -/
theorem Inv.move (H : db.Inv h) (hrunning : db.running = none) {c : Compaction}
    (hlevel : c.level + 1 < kNumLevels)
    (hp : Picked db.version c.level c.inputs0 c.inputs1) (hmove : c.isTrivialMove = true) :
    (db.logAndApply c.moveEdit).Inv h := by
  obtain ⟨f, hf⟩ : ∃ f, c.inputs0 = [f] := by
    simp only [Compaction.isTrivialMove, Bool.and_eq_true, decide_eq_true_eq] at hmove
    exact List.length_eq_one_iff.mp hmove.1.1
  have hnil : c.inputs1 = [] := by
    simp only [Compaction.isTrivialMove, Bool.and_eq_true, decide_eq_true_eq] at hmove
    exact List.length_eq_zero_iff.mp hmove.1.2
  rw [hf, hnil] at hp
  have hfv : f ∈ db.version c.level := hp.sublist0.subset List.mem_cons_self
  have hedit : c.moveEdit = { Manifest.VersionEdit.clear with
      deletedFiles := Manifest.VersionEdit.clear.deletedFiles.insert (c.level, f.number)
      newFiles := [(c.level + 1, f.toFileRecord)] } := by
    rw [Compaction.moveEdit, hf]
  have hr : Replaces db.version
      (fun level => (((Builder.new db.current).apply c.moveEdit).saveTo level).map
        (fileOf db.tables))
      (fun i g => (i, g.number) = (c.level, f.number)) (c.level + 1) [f] := by
    have hfresh : ∀ g ∈ db.current (c.level + 1), g.number ≠ f.number := fun g hg heq =>
      absurd (H.levels.numbers (c.level + 1) c.level _ (List.mem_map_of_mem hg) f hfv heq).1
        (Nat.succ_ne_self _)
    obtain ⟨hmem, hrank⟩ := @replaces_logAndApply db.current db.tables db.tables c.moveEdit
      (c.level + 1) [f] H.sorted_current (by rw [hedit]; rfl)
      (List.forall_mem_singleton.mpr hfresh) (List.pairwise_singleton _ _)
      (List.forall_mem_singleton.mpr (fileOf_toFileRecord hfv)) fun _ _ _ => rfl
    refine ⟨fun level g => (hmem level g).trans (or_congr_left ?_), hrank⟩
    rw [hedit]
    exact and_congr_right fun _ => not_congr List.mem_singleton
  have hmem := hr.mem_iff
  have hholds (e : Entry) : (db.logAndApply c.moveEdit).Holds e ↔ db.Holds e := by
    refine or_congr_right (or_congr_right ⟨?_, ?_⟩)
    · rintro ⟨level, g, hg, he⟩
      rcases (hmem level g).mp hg with ⟨hg, -⟩ | ⟨-, hg⟩
      · exact ⟨level, g, hg, he⟩
      · exact ⟨_, f, hfv, List.mem_singleton.mp hg ▸ he⟩
    · rintro ⟨level, g, hg, he⟩
      by_cases hgf : (level, g.number) = (c.level, f.number)
      · obtain ⟨-, rfl⟩ := H.levels.numbers level c.level g hg f hfv (congrArg Prod.snd hgf)
        exact ⟨c.level + 1, g, (hmem _ g).mpr (.inr ⟨rfl, List.mem_cons_self⟩), he⟩
      · exact ⟨level, g, (hmem level g).mpr (.inl ⟨hg, hgf⟩), he⟩
  refine H.installed hr (H.enters_move hlevel hp) le_rfl
    (List.forall_mem_singleton.mpr (H.numbers_lt _ f hfv))
    (List.forall_mem_singleton.mpr fun e he => ⟨_, f, hfv, he⟩) hrunning fun s _ k r => ?_
  exact iff_of_eq (congrArg (Version.Reads · s k r) (versions_congr hholds))

/-- **A background compaction keeps the invariant**, whether it moves a file or begins to run. -/
theorem Inv.background (H : db.Inv h) {pick : Pick} (hpick : pick.level + 1 < kNumLevels)
    (logAndApply : Status) {db' : LeveledDB} (heq : db.background pick logAndApply = some db') :
    db'.Inv h := by
  rw [LeveledDB.background] at heq
  by_cases hbusy : (db.running.isSome || db.imm.isSome) = true
  · rw [if_pos hbusy] at heq
    cases heq
  rw [if_neg hbusy] at heq
  have hrunning : db.running = none := by
    simp only [Bool.or_eq_true, not_or, Bool.not_eq_true, Option.isSome_eq_false_iff,
      Option.isNone_iff_eq_none] at hbusy
    exact hbusy.1
  cases hc : pickCompaction db.version db.compactPointer pick with
  | none =>
    rw [hc] at heq
    exact Option.some.inj heq ▸ H
  | some picked =>
    obtain ⟨c, pointer⟩ := picked
    obtain ⟨hp, grandparents, hnew⟩ := pickCompaction_picked H.levels.ranged hc
    have hlevel : c.level = pick.level := by rw [hnew]; rfl
    have H' := H.setPointer (Function.update db.compactPointer c.level pointer)
    rw [hc] at heq
    dsimp only at heq
    split_ifs at heq with hmove hok
    · obtain rfl := Option.some.inj heq
      exact H'.move hrunning (hlevel ▸ hpick) hp hmove
    · exact Option.some.inj heq ▸ H'
    · obtain rfl := Option.some.inj heq
      exact H'.begin (hlevel ▸ hpick) (by rw [hnew]; rfl) (by rw [hnew]; rfl) hp

/-! ## The results of a compaction -/

section Results

variable {r : RunningCompaction}

theorem mem_foldl_insert {q : ℕ × ℕ} : ∀ {ps : List (ℕ × ℕ)} {s : Manifest.DeletedFileSet},
    q ∈ (ps.foldl (fun files p => files.insert p) s).files ↔ q ∈ ps ∨ q ∈ s.files
  | [], _ => by simp
  | p :: ps, s => by
      rw [List.foldl_cons, mem_foldl_insert, List.mem_cons, Manifest.DeletedFileSet.insert,
        Manifest.mem_insertFile, or_left_comm, or_assoc]

/-- The edit deletes the inputs. -/
theorem Inv.removed_iff (H : db.Inv h) (R : db.Runs r) (outs : List Output) {level : ℕ}
    {g : FileMetaData} (hg : g ∈ db.version level) :
    (level, g.number) ∈ (r.compaction.installEdit outs).deletedFiles.files ↔
      level = r.compaction.level ∧ g ∈ r.compaction.inputs0 ∨
        level = r.compaction.level + 1 ∧ g ∈ r.compaction.inputs1 := by
  have hkept {i : ℕ} {f : FileMetaData} (hf : f ∈ r.compaction.inputVersion i) :
      (i, f.number) = (level, g.number) ↔ level = i ∧ g = f := by
    constructor
    · intro heq
      obtain ⟨rfl, rfl⟩ := H.levels.numbers i level f (R.kept i f hf) g hg (congrArg Prod.snd heq)
      exact ⟨rfl, rfl⟩
    · rintro ⟨rfl, rfl⟩
      rfl
  have hmap {i : ℕ} {files : List FileMetaData}
      (hfiles : files.Sublist (r.compaction.inputVersion i)) :
      (level, g.number) ∈ files.map (fun f => (i, f.number)) ↔ level = i ∧ g ∈ files := by
    rw [List.mem_map]
    constructor
    · rintro ⟨f, hf, heq⟩
      obtain ⟨hl, rfl⟩ := (hkept (hfiles.subset hf)).mp heq
      exact ⟨hl, hf⟩
    · rintro ⟨rfl, hf⟩
      exact ⟨g, hf, rfl⟩
  rw [Compaction.installEdit, mem_foldl_insert, or_iff_left (by simp [Manifest.VersionEdit.clear]),
    Compaction.inputNumbers, List.mem_append, hmap R.picked.sublist0, hmap R.picked.sublist1]

/-- What stays is newer than the inputs, unless it was further down when the compaction began. -/
theorem Runs.above_input (R : db.Runs r) {x g : FileMetaData} {i : ℕ}
    (hx : x ∈ r.compaction.inputs0 ++ r.compaction.inputs1) (hg : g ∈ db.version i)
    (hstay : ¬ (i = r.compaction.level ∧ g ∈ r.compaction.inputs0 ∨
      i = r.compaction.level + 1 ∧ g ∈ r.compaction.inputs1))
    (hi : i ≤ r.compaction.level + 1 ∨ g ∉ r.compaction.inputVersion i) :
    Above g.stored x.stored := by
  by_cases hgr : g ∈ r.compaction.inputVersion i
  · exact R.picked.above R.levels hx (hi.resolve_right fun hn => hn hgr) hgr hstay
  · exact R.newer i g hg hgr x hx

variable {outs : List Output} {L : List Entry} {next : ℕ}

/-- **The outputs can take the place of the inputs.** -/
theorem Inv.enters_outputs (H : db.Inv h) (R : db.Runs r) {es : List Entry}
    (hout : Outputs db.nextFileNumber next outs es) (hk : KeysApart outs)
    (hs : KeySorted Entry.rank es) (hwf : ∀ e ∈ es, e.WellFormed)
    (hes : ∀ e ∈ es, ∃ x ∈ r.compaction.inputs0 ++ r.compaction.inputs1, e ∈ x.stored) :
    Enters db.version
      (fun level g => (level, g.number) ∈ (r.compaction.installEdit outs).deletedFiles.files)
      (r.compaction.level + 1) (outs.map Output.file) := by
  have hin : ∀ out ∈ outs, ∀ e ∈ out.file.stored,
      ∃ x ∈ r.compaction.inputs0 ++ r.compaction.inputs1, e ∈ x.stored := fun out ho e he =>
    hes e (hout.mem_iff.mpr ⟨out, ho, out.stored_file ▸ he⟩)
  have hall {P : FileMetaData → Prop} (hP : ∀ out ∈ outs, P out.file) :
      ∀ f ∈ outs.map Output.file, P f := List.forall_mem_map.mpr hP
  have hfree {level : ℕ} {g : FileMetaData} (hg : g ∈ db.version level)
      (hdel : (level, g.number) ∉ (r.compaction.installEdit outs).deletedFiles.files) :=
    mt (H.removed_iff R outs hg).mpr hdel
  refine ⟨R.level_lt, hall fun out ho => hout.built hwf hs ho,
    hall fun a ha => hall fun b hb ho => congrArg _ (hout.distinct hwf hs hk ha hb ho),
    fun _ => hall fun out ho g hg hdel hover => ?_, fun h0 => absurd h0 (Nat.succ_ne_zero _),
    hall fun out ho i hi g hg hdel => ?_, hall fun out ho i hi g hg hdel => ?_,
    hall fun out ho i g hg _ heq => ?_⟩
  · -- a file that stays would overlap an input
    obtain ⟨x, hx, hxg⟩ := R.picked.exists_overlaps_input R.levels (hout.built hwf hs ho)
      (hin out ho) (H.levels.ranged _ g hg) hover
    by_cases hgr : g ∈ r.compaction.inputVersion (r.compaction.level + 1)
    · exact R.picked.not_overlaps R.levels hx hgr (fun hg1 => hfree hg hdel (.inr ⟨rfl, hg1⟩)) hxg
    · obtain ⟨j, hj, hxv⟩ := R.picked.exists_level hx
      exact R.beside _ (Nat.succ_pos _) g hg hgr j hj x hxv hxg
  · refine above_iff.mpr fun e he e' he' => ?_
    obtain ⟨x, hx, hex⟩ := hin out ho e' he'
    exact above_iff.mp (R.above_input hx hg (hfree hg hdel) (.inl hi.le)) e he e' hex
  · refine above_iff.mpr fun e he e' he' => ?_
    obtain ⟨x, hx, hex⟩ := hin out ho e he
    suffices habove : Above x.stored g.stored from above_iff.mp habove e hex e' he'
    by_cases hgr : g ∈ r.compaction.inputVersion i
    · exact R.picked.below R.levels hx hi hgr
    · obtain ⟨j, hj, hxv⟩ := R.picked.exists_level hx
      exact (R.levels.built j x hxv).above_of_not_overlaps (H.levels.built i g hg)
        (R.beside i (Nat.zero_lt_of_lt hi) g hg hgr j (hj.trans hi.le) x hxv)
  · exact absurd (H.numbers_lt i g hg) (not_lt.mpr (heq ▸ hout.first_le out ho))

/-- The edit puts the outputs in the place of the inputs. -/
theorem Inv.replaces_outputs (H : db.Inv h) {es : List Entry}
    (hout : Outputs db.nextFileNumber next outs es) (c : Compaction) :
    Replaces db.version
      (fun level => (((Builder.new db.current).apply (c.installEdit outs)).saveTo level).map
        (fileOf (writeTables outs db.tables)))
      (fun level g => (level, g.number) ∈ (c.installEdit outs).deletedFiles.files)
      (c.level + 1) (outs.map Output.file) := by
  refine replaces_logAndApply H.sorted_current ?_
    (List.forall_mem_map.mpr fun out ho g hg => ?_) (List.pairwise_map.mpr ?_)
    (List.forall_mem_map.mpr fun out ho => ?_) fun level g hg => ?_
  · rw [List.map_map]
    rfl
  · exact ((H.current_lt hg).trans_le (hout.first_le out ho)).ne
  · exact hout.numbers.imp fun hlt => hlt.ne
  · rw [fileOf, Output.file]
    exact congrArg (fun es : List Entry => (⟨out.record, es.map Cell.entry, .OK⟩ : FileMetaData))
      (writeTables_of_mem hout.numbers ho)
  · exact writeTables_of_ne fun out ho => ((H.current_lt hg).trans_le (hout.first_le out ho)).ne'

/-- An entry that is not in the inputs. -/
def Beside (db : LeveledDB) (c : Compaction) (e : Entry) : Prop :=
  e ∈ db.mem ∨ e ∈ db.imm.getD [] ∨ ∃ level, ∃ g ∈ db.version level,
    ¬ (level = c.level ∧ g ∈ c.inputs0 ∨ level = c.level + 1 ∧ g ∈ c.inputs1) ∧ e ∈ g.stored

theorem holds_iff (R : db.Runs r)
    (hL : ∀ e, e ∈ L ↔ ∃ f ∈ r.compaction.inputs0 ++ r.compaction.inputs1, e ∈ f.stored)
    {e : Entry} : db.Holds e ↔ e ∈ L ∨ db.Beside r.compaction e := by
  constructor
  · rintro (he | he | ⟨level, g, hg, he⟩)
    · exact .inr (.inl he)
    · exact .inr (.inr (.inl he))
    · by_cases hstay : level = r.compaction.level ∧ g ∈ r.compaction.inputs0 ∨
          level = r.compaction.level + 1 ∧ g ∈ r.compaction.inputs1
      · exact .inl ((hL e).mpr ⟨g, List.mem_append.mpr (hstay.imp And.right And.right), he⟩)
      · exact .inr (.inr (.inr ⟨level, g, hg, hstay, he⟩))
  · rintro (he | he | he | ⟨level, g, hg, -, he⟩)
    · obtain ⟨f, hf, he⟩ := (hL e).mp he
      obtain ⟨level, -, hfv⟩ := R.picked.exists_level hf
      exact .inr (.inr ⟨level, f, R.kept level f hfv, he⟩)
    · exact .inl he
    · exact .inr (.inl he)
    · exact .inr (.inr ⟨level, g, hg, he⟩)

/-- The outputs come in the place of the inputs. -/
theorem Inv.holds_results (H : db.Inv h) (R : db.Runs r) {es : List Entry} {n : ℕ}
    (hout : Outputs db.nextFileNumber n outs es) (next : ℕ) (e : Entry) :
    Holds { db with
      current := ((Builder.new db.current).apply (r.compaction.installEdit outs)).saveTo
      tables := writeTables outs db.tables
      nextFileNumber := next
      running := none } e ↔ e ∈ es ∨ db.Beside r.compaction e := by
  have hmem := (H.replaces_outputs hout r.compaction).mem_iff
  constructor
  · rintro (he | he | ⟨level, g, hg, he⟩)
    · exact .inr (.inl he)
    · exact .inr (.inr (.inl he))
    · rcases (hmem level g).mp hg with ⟨hgv, hdel⟩ | ⟨-, hgo⟩
      · exact .inr (.inr (.inr ⟨level, g, hgv, mt (H.removed_iff R outs hgv).mpr hdel, he⟩))
      · obtain ⟨out, ho, rfl⟩ := List.mem_map.mp hgo
        exact .inl (hout.mem_iff.mpr ⟨out, ho, out.stored_file ▸ he⟩)
  · rintro (he | he | he | ⟨level, g, hg, hstay, he⟩)
    · obtain ⟨out, ho, he⟩ := hout.mem_iff.mp he
      exact .inr (.inr ⟨_, out.file, (hmem _ _).mpr (.inr ⟨rfl, List.mem_map_of_mem ho⟩),
        out.stored_file.symm ▸ he⟩)
    · exact .inl he
    · exact .inr (.inl he)
    · exact .inr (.inr ⟨level, g,
        (hmem level g).mpr (.inl ⟨hg, mt (H.removed_iff R outs hg).mp hstay⟩), he⟩)

/-- **Beside a base level for a key there is nothing older of it.** -/
theorem Inv.older_beside (H : db.Inv h) (R : db.Runs r)
    (hL : ∀ e, e ∈ L ↔ ∃ f ∈ r.compaction.inputs0 ++ r.compaction.inputs1, e ∈ f.stored)
    {e e' : Entry} (he : e ∈ L) (hbase : r.compaction.Base e.version.key)
    (he' : db.Beside r.compaction e') (hk : e'.version.key = e.version.key) :
    e.version.seq < e'.version.seq := by
  obtain ⟨x, hx, he⟩ := (hL e).mp he
  obtain ⟨j, -, hxv⟩ := R.picked.exists_level hx
  rcases he' with he' | he' | ⟨i, g, hg, hstay, he'⟩
  · exact above_iff.mp (H.mem_files j x (R.kept j x hxv)) e' he' e he hk
  · exact above_iff.mp (H.imm_files j x (R.kept j x hxv)) e' he' e he hk
  · refine above_iff.mp (R.above_input hx hg hstay ?_) e' he' e he hk
    by_contra hn
    obtain ⟨hi, hgr⟩ := not_or.mp hn
    have hgv := not_not.mp hgr
    have hlt : i < kNumLevels := by
      by_contra hge
      rw [R.levels.empty i (not_lt.mp hge)] at hgv
      cases hgv
    exact hbase i hlt (by omega) g hgv (hk ▸ (R.levels.built i g hgv).userKey_range he')

/-- **Installing the results of a compaction keeps the invariant.** -/
theorem Inv.results (H : db.Inv h) (R : db.Runs r) (hv : Versioned L)
    (hL : ∀ e, e ∈ L ↔ ∃ f ∈ r.compaction.inputs0 ++ r.compaction.inputs1, e ∈ f.stored)
    (hout : Outputs db.nextFileNumber next outs
      (CompactionState.kept r.compaction r.smallestSnapshot L L)) (hk : KeysApart outs)
    (hnext : db.nextFileNumber ≤ next) :
    Inv { db with
      current := ((Builder.new db.current).apply (r.compaction.installEdit outs)).saveTo
      tables := writeTables outs db.tables
      nextFileNumber := next
      running := none } h := by
  set kept := CompactionState.kept r.compaction r.smallestSnapshot L L with hkept
  have hsubset : ∀ e ∈ kept, e ∈ L := fun e he => (List.mem_filter.mp he).1
  have hin : ∀ e ∈ kept, ∃ x ∈ r.compaction.inputs0 ++ r.compaction.inputs1, e ∈ x.stored :=
    fun e he => (hL e).mp (hsubset e he)
  have hr := H.replaces_outputs hout r.compaction
  have he := H.enters_outputs R hout hk (hv.sorted.sublist List.filter_sublist)
    (fun e he => hv.wellFormed e (hsubset e he)) hin
  have hholds := fun e => @holds_iff db r L R hL e
  refine H.installed hr he hnext (List.forall_mem_map.mpr hout.lt_next)
    (List.forall_mem_map.mpr fun out ho e he => ?_) rfl fun s hs k res => ?_
  · obtain ⟨x, hx, hex⟩ := hin e (hout.mem_iff.mpr ⟨out, ho, out.stored_file ▸ he⟩)
    obtain ⟨j, -, hxv⟩ := R.picked.exists_level hx
    exact ⟨j, x, R.kept j x hxv, hex⟩
  · set db' : LeveledDB := { db with
      current := ((Builder.new db.current).apply (r.compaction.installEdit outs)).saveTo
      tables := writeTables outs db.tables
      nextFileNumber := next
      running := none } with hdb'
    have hholds' (e : Entry) : db'.Holds e ↔ e ∈ kept ∨ db.Beside r.compaction e :=
      H.holds_results R hout next e
    set O : Set (Version Bytes Bytes) := {v | ∃ e, db.Beside r.compaction e ∧ e.version = v} with hO
    have hbefore : db.versions = {v | v ∈ L.map Entry.version ∨ v ∈ O} := by
      refine Set.ext fun v => ?_
      simp only [versions, hholds, hO, List.mem_map, Set.mem_ofPred_eq, or_and_right, exists_or]
    have hafter : db'.versions = Version.compacted (L.map Entry.version) r.smallestSnapshot
        r.compaction.Base O := by
      refine Set.ext fun v => ?_
      simp only [versions, hholds', hO, Version.compacted, Set.mem_ofPred_eq, or_and_right,
        exists_or]
      refine or_congr_left ⟨?_, ?_⟩
      · rintro ⟨e, he, rfl⟩
        have hdrop := (List.mem_filter.mp he).2
        rw [decide_eq_true_eq] at hdrop
        exact ⟨List.mem_map_of_mem (hsubset e he), hdrop⟩
      · rintro ⟨hv, hdrop⟩
        obtain ⟨e, he, rfl⟩ := List.mem_map.mp hv
        exact ⟨e, List.mem_filter.mpr ⟨he, decide_eq_true hdrop⟩, rfl⟩
    rw [hbefore, hafter]
    refine Version.reads_drop ?_ ?_ (R.smallestSnapshot.trans hs) k res
    · rw [← hbefore]
      rintro _ ⟨e, he, rfl⟩ _ ⟨e', he', rfl⟩ - hseq
      exact congrArg _
        (eq_of_seq_eq H.ordered H.last_lt.le (H.history e he) (H.history e' he') hseq)
    · rintro _ hv - - hbase _ ⟨e', he', rfl⟩ hkey
      obtain ⟨e, he, rfl⟩ := List.mem_map.mp hv
      exact H.older_beside R hL he hbase he' hkey

/-- Whether the outputs of a running compaction share no user key. -/
def SplitsNoKey (db : LeveledDB) (env : CompactionEnv) : Prop :=
  ∀ r ∈ db.running, KeysApart
    (r.compaction.doCompactionWork env r.snapshots r.lastSequence db.nextFileNumber).2.outputs

/-- **The end of a compaction keeps the invariant**, as long as no user key goes to two outputs. -/
theorem Inv.finishCompaction (H : db.Inv h) (env : CompactionEnv) (logAndApply : Status)
    (hsplit : db.SplitsNoKey env ∨ ∀ r ∈ db.running, r.snapshots = []) {db' : LeveledDB}
    (heq : db.finishCompaction env logAndApply = some db') : db'.Inv h := by
  rw [LeveledDB.finishCompaction] at heq
  obtain ⟨r, hr, rfl⟩ := Option.map_eq_some_iff.mp heq
  have R := H.running r hr
  have hnext := r.compaction.le_nextFileNumber env r.snapshots r.lastSequence db.nextFileNumber
  have hs : r.smallestSnapshot < kMaxSequenceNumber :=
    (R.smallestSnapshot.trans (smallestSnapshot_le H)).trans_lt H.last_lt
  have hseq : ∀ f ∈ r.compaction.inputs0 ++ r.compaction.inputs1, ∀ e ∈ f.stored,
      e ∈ h.flatMap Write.entries := fun f hf e he => by
    obtain ⟨j, -, hfv⟩ := R.picked.exists_level hf
    exact H.history e (.inr (.inr ⟨j, f, R.kept j f hfv, he⟩))
  obtain ⟨L, hv, hm, hL⟩ := exists_input R.levels R.picked fun f hf e he g hg e' he' =>
    eq_of_seq_eq H.ordered H.last_lt.le (hseq f hf e he) (hseq g hg e' he')
  dsimp only
  split_ifs with hok
  · rw [Bool.and_eq_true] at hok
    obtain ⟨hout, -⟩ := Compaction.doCompactionWork_spec R.levelPtrs hs
      (fun lvl hl _ => (R.levels.sorted (by omega)).smallestUserKey_le)
      (inputSources_spec R.levels R.picked).1 hm hv hok.1
    refine H.results R hv hL hout ?_ hnext
    rcases hsplit with hsplit | hnone
    · exact hsplit r hr
    · refine keysApart_of_seq_le hv (fun e he => ?_) hout
      obtain ⟨f, hf, he⟩ := (hL e).mp he
      rw [hnone r hr]
      exact R.seq_le f hf e he
  · exact { H.skipNumbers hnext with running := fun r hr => (by cases hr) }

end Results

end LeveledDB

end Leveldb
