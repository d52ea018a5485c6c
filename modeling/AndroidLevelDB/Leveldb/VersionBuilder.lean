import Mathlib.Data.Finset.Insert
import Mathlib.Data.List.TakeWhile
import AndroidLevelDB.Lib.SortedMerge
import AndroidLevelDB.Leveldb.DbFormat
import AndroidLevelDB.Leveldb.VersionEdit

/-!
# Leveldb/VersionBuilder — a version from a version and edits

A `Builder` collects edits to a base version and saves what results from them
(`VersionSet::Builder`).  Its levels are sorted by smallest key (`saveTo_sorted`), and a sequence of
edits gives the same version whether they are collected or saved one after the other
(`saveTo_foldl`).
-/

open OrderDual

namespace Leveldb

/-- The files of each level, as the manifest knows them. -/
abbrev Files := ℕ → List FileRecord

/-- The order `BySmallestKey`: ties are broken by file number. -/
def FileRecord.rank (f : FileRecord) : InternalOrder ×ₗ ℕ :=
  toLex (internalRank f.smallest, f.number)

/-- `BySmallestKey`. -/
def bySmallestKey (f1 f2 : FileRecord) : Bool :=
  let r := internalKeyCompare f1.smallest f2.smallest
  if r ≠ 0 then r < 0 else f1.number < f2.number

theorem bySmallestKey_iff {f1 f2 : FileRecord} : bySmallestKey f1 f2 = true ↔ f1.rank < f2.rank := by
  rw [FileRecord.rank, FileRecord.rank, Prod.Lex.toLex_lt_toLex, ← internalKeyCompare_neg_iff,
    ← internalKeyCompare_eq_zero_iff, bySmallestKey]
  dsimp only
  split_ifs with h
  · simp [h]
  · simp [not_not.mp h]

theorem FileRecord.number_eq_of_rank_eq {f g : FileRecord} (h : f.rank = g.rank) :
    f.number = g.number := congrArg (fun x => (ofLex x).2) h

/-- `insert` of a `FileSet`. -/
def insertAdded (f : FileRecord) : List FileRecord → List FileRecord
  | [] => [f]
  | g :: files =>
    if bySmallestKey f g then f :: g :: files
    else if bySmallestKey g f then g :: insertAdded f files else g :: files

/-- The files of a base level and those added to it: before each of these come the base files that
are not behind it. -/
def mergeFiles : List FileRecord → List FileRecord → List FileRecord
  | base, [] => base
  | base, f :: added =>
    base.takeWhile (fun b => !bySmallestKey f b) ++
      f :: mergeFiles (base.dropWhile fun b => !bySmallestKey f b) added

structure LevelState where
  deletedFiles : Finset ℕ
  addedFiles : List FileRecord

/-- `VersionSet::Builder`. -/
structure Builder where
  base : Files
  levels : ℕ → LevelState

namespace Builder

/-- A new builder. -/
def new (base : Files) : Builder := ⟨base, fun _ => ⟨∅, []⟩⟩

/-- Change the state of a level. -/
def update (b : Builder) (level : ℕ) (g : LevelState → LevelState) : Builder :=
  { b with levels := fun l => if l = level then g (b.levels l) else b.levels l }

/-- A deleted file. -/
def deleteFile (b : Builder) (p : ℕ × ℕ) : Builder :=
  b.update p.1 fun s => { s with deletedFiles := insert p.2 s.deletedFiles }

/-- A new file. -/
def addFile (b : Builder) (p : ℕ × FileRecord) : Builder :=
  b.update p.1 fun s =>
    { deletedFiles := s.deletedFiles.erase p.2.number
      addedFiles := insertAdded p.2 s.addedFiles }

/-- `Apply`, on the files. -/
def apply (b : Builder) (edit : Manifest.VersionEdit) : Builder :=
  edit.newFiles.foldl addFile (edit.deletedFiles.files.foldl deleteFile b)

/-- `SaveTo`; a file that is deleted is not added. -/
def saveTo (b : Builder) : Files := fun level =>
  (mergeFiles (b.base level) (b.levels level).addedFiles).filter
    fun f => f.number ∉ (b.levels level).deletedFiles

end Builder

/-! ## Sorted sets of files -/

theorem of_mem_insertAdded {f g : FileRecord} : ∀ {files : List FileRecord},
    g ∈ insertAdded f files → g = f ∨ g ∈ files
  | [], h => .inl (List.mem_singleton.mp h)
  | x :: files, h => by
      rw [insertAdded] at h
      split_ifs at h
      · exact List.mem_cons.mp h
      · rcases List.mem_cons.mp h with rfl | h
        · exact .inr List.mem_cons_self
        · exact (of_mem_insertAdded h).imp_right (List.mem_cons_of_mem _)
      · exact .inr h

/-- A file is added unless there is one of the same rank. -/
theorem mem_insertAdded {f g : FileRecord} : ∀ {files : List FileRecord},
    (∀ h ∈ files, h.rank ≠ f.rank) → (g ∈ insertAdded f files ↔ g = f ∨ g ∈ files)
  | [], _ => by simp [insertAdded]
  | x :: files, h => by
      have ih := mem_insertAdded (f := f) (g := g) fun y hy => h y (List.mem_cons_of_mem _ hy)
      rw [insertAdded]
      split_ifs with h1 h2
      · rw [List.mem_cons]
      · rw [List.mem_cons, ih, List.mem_cons, or_left_comm]
      · rw [bySmallestKey_iff] at h1 h2
        exact absurd (le_antisymm (not_lt.mp h1) (not_lt.mp h2)) (h x List.mem_cons_self)

theorem sorted_insertAdded {f : FileRecord} : ∀ {files : List FileRecord},
    KeySorted FileRecord.rank files → KeySorted FileRecord.rank (insertAdded f files)
  | [], _ => List.pairwise_singleton _ _
  | x :: files, h => by
      rw [insertAdded]
      split_ifs with h1 h2
      · rw [bySmallestKey_iff] at h1
        exact List.pairwise_cons.mpr ⟨fun y hy => h1.trans_le (h.le_of_mem hy), h⟩
      · rw [bySmallestKey_iff] at h2
        refine List.pairwise_cons.mpr ⟨fun y hy => ?_, sorted_insertAdded h.tail⟩
        rcases of_mem_insertAdded hy with rfl | hy
        · exact h2
        · exact h.lt_of_mem hy
      · exact h

theorem mem_mergeFiles {g : FileRecord} : ∀ {base added : List FileRecord},
    g ∈ mergeFiles base added ↔ g ∈ base ∨ g ∈ added
  | base, [] => by simp [mergeFiles]
  | base, f :: added => by
      conv_rhs => rw [← List.takeWhile_append_dropWhile (p := fun b => !bySmallestKey f b) (l := base)]
      rw [mergeFiles, List.mem_append, List.mem_cons, mem_mergeFiles, List.mem_append, List.mem_cons]
      tauto

/-- **The merge of two sorted lists of different files is sorted.** -/
theorem sorted_mergeFiles : ∀ {base added : List FileRecord}, KeySorted FileRecord.rank base →
    KeySorted FileRecord.rank added → (∀ f ∈ base, ∀ g ∈ added, f.rank ≠ g.rank) →
    KeySorted FileRecord.rank (mergeFiles base added)
  | base, [], hb, _, _ => hb
  | base, f :: added, hb, ha, hne => by
      have hbefore : ∀ b ∈ base.takeWhile (fun b => !bySmallestKey f b), b.rank < f.rank := by
        intro b hm
        have hp := List.mem_takeWhile_imp hm
        have hnot : ¬ f.rank < b.rank := by
          rw [← bySmallestKey_iff]
          simpa using hp
        exact lt_of_le_of_ne (not_lt.mp hnot)
          (hne b ((List.takeWhile_sublist _).subset hm) f List.mem_cons_self)
      have hbehind : ∀ b ∈ base.dropWhile (fun b => !bySmallestKey f b), f.rank < b.rank := by
        intro b hm
        have hnot := hb.eq_false_of_mem_dropWhile (p := fun b => !bySmallestKey f b)
          (fun x y hxy hy => by
            simp only [Bool.not_eq_true', Bool.eq_false_iff, ne_eq, bySmallestKey_iff] at hy ⊢
            exact fun hx => hy (hx.trans hxy)) b hm
        simpa [bySmallestKey_iff] using hnot
      have hrest : ∀ y ∈ mergeFiles (base.dropWhile fun b => !bySmallestKey f b) added,
          f.rank < y.rank := by
        intro y hy
        rcases mem_mergeFiles.mp hy with hy | hy
        · exact hbehind y hy
        · exact ha.lt_of_mem hy
      rw [mergeFiles]
      refine List.pairwise_append.mpr ⟨hb.sublist (List.takeWhile_sublist _),
        List.pairwise_cons.mpr ⟨hrest, sorted_mergeFiles (hb.sublist (List.dropWhile_sublist _))
          ha.tail fun x hx y hy => hne x ((List.dropWhile_sublist _).subset hx) y
            (List.mem_cons_of_mem _ hy)⟩, fun x hx y hy => ?_⟩
      rcases List.mem_cons.mp hy with rfl | hy
      · exact hbefore x hx
      · exact (hbefore x hx).trans (hrest y hy)

/-! ## What an edit does -/

namespace Builder

/-- A file the builder has seen in a level. -/
def Known (b : Builder) (level : ℕ) (f : FileRecord) : Prop :=
  f ∈ b.base level ∨ f ∈ (b.levels level).addedFiles

/-- The levels are sorted, and no file was added with the number of another. -/
structure Ok (b : Builder) : Prop where
  base : ∀ level, KeySorted FileRecord.rank (b.base level)
  added : ∀ level, KeySorted FileRecord.rank (b.levels level).addedFiles
  distinct : ∀ level, ∀ f ∈ b.base level, ∀ g ∈ (b.levels level).addedFiles, f.number ≠ g.number

/-- The files an edit adds to a level have numbers that are new to it. -/
structure Fresh (known : ℕ → FileRecord → Prop) (newFiles : List (ℕ × FileRecord)) : Prop where
  new : ∀ p ∈ newFiles, ∀ g, known p.1 g → g.number ≠ p.2.number
  distinct : newFiles.Pairwise fun p q => p.1 = q.1 → p.2.number ≠ q.2.number

theorem mem_saveTo {b : Builder} {level : ℕ} {f : FileRecord} :
    f ∈ b.saveTo level ↔ b.Known level f ∧ f.number ∉ (b.levels level).deletedFiles := by
  rw [saveTo, List.mem_filter, mem_mergeFiles, decide_eq_true_eq, Known]

/-- **The levels of a version are sorted by smallest key.** -/
theorem saveTo_sorted {b : Builder} (h : b.Ok) (level : ℕ) :
    KeySorted FileRecord.rank (b.saveTo level) :=
  (sorted_mergeFiles (h.base level) (h.added level) fun f hf g hg heq =>
    h.distinct level f hf g hg (FileRecord.number_eq_of_rank_eq heq)).sublist List.filter_sublist

theorem ok_new {base : Files} (h : ∀ level, KeySorted FileRecord.rank (base level)) :
    (new base).Ok :=
  ⟨h, fun _ => List.Pairwise.nil, fun _ _ _ _ hg => (by cases hg)⟩

theorem foldl_deleteFile (deleted : List (ℕ × ℕ)) (b : Builder) :
    (deleted.foldl deleteFile b).base = b.base ∧ ∀ level,
      ((deleted.foldl deleteFile b).levels level).addedFiles = (b.levels level).addedFiles ∧
      ∀ n, n ∈ ((deleted.foldl deleteFile b).levels level).deletedFiles ↔
        n ∈ (b.levels level).deletedFiles ∨ (level, n) ∈ deleted := by
  induction deleted generalizing b with
  | nil => simp
  | cons p deleted ih =>
    obtain ⟨hbase, hlevels⟩ := ih (b.deleteFile p)
    rw [List.foldl_cons]
    refine ⟨hbase, fun level => ⟨(hlevels level).1.trans ?_, fun n => ((hlevels level).2 n).trans ?_⟩⟩
    · simp only [deleteFile, update]
      split_ifs <;> rfl
    · simp only [deleteFile, update, List.mem_cons, Prod.ext_iff]
      split_ifs with h
      · simp only [Finset.mem_insert, h, true_and]
        tauto
      · simp [h]

theorem known_addFile {b : Builder} {p : ℕ × FileRecord} {level : ℕ} {g : FileRecord}
    (h : (b.addFile p).Known level g) : b.Known level g ∨ level = p.1 ∧ g = p.2 := by
  rcases h with h | h
  · exact .inl (.inl h)
  · simp only [addFile, update] at h
    split_ifs at h with hl
    · rcases of_mem_insertAdded h with rfl | h
      · exact .inr ⟨hl, rfl⟩
      · exact .inl (.inr h)
    · exact .inl (.inr h)

theorem Ok.addFile {b : Builder} (h : b.Ok) {p : ℕ × FileRecord}
    (hnew : ∀ g, b.Known p.1 g → g.number ≠ p.2.number) : (b.addFile p).Ok := by
  refine ⟨h.base, fun level => ?_, fun level f hf g hg => ?_⟩
  · simp only [Builder.addFile, update]
    split_ifs
    · exact sorted_insertAdded (h.added level)
    · exact h.added level
  · simp only [Builder.addFile, update] at hg
    split_ifs at hg with hl
    · rcases of_mem_insertAdded hg with rfl | hg
      · exact hnew f (.inl (hl ▸ hf))
      · exact h.distinct level f hf g hg
    · exact h.distinct level f hf g hg

theorem foldl_addFile (news : List (ℕ × FileRecord)) {b : Builder} (h : b.Ok)
    (hfresh : Fresh b.Known news) :
    (news.foldl Builder.addFile b).Ok ∧ (news.foldl Builder.addFile b).base = b.base ∧ ∀ level,
      (∀ f, f ∈ ((news.foldl Builder.addFile b).levels level).addedFiles ↔
        f ∈ (b.levels level).addedFiles ∨ (level, f) ∈ news) ∧
      ∀ n, n ∈ ((news.foldl Builder.addFile b).levels level).deletedFiles ↔
        n ∈ (b.levels level).deletedFiles ∧ ∀ f, (level, f) ∈ news → f.number ≠ n := by
  induction news generalizing b with
  | nil => simp [h]
  | cons p news ih =>
    obtain ⟨hnew, hdistinct⟩ := hfresh
    obtain ⟨hp, hnews⟩ := List.forall_mem_cons.mp hnew
    obtain ⟨hpd, hdistinct⟩ := List.pairwise_cons.mp hdistinct
    obtain ⟨hok, hbase, hlevels⟩ := ih (h.addFile hp) ⟨fun q hq g hg => by
      rcases known_addFile hg with hg | ⟨hl, rfl⟩
      · exact hnews q hq g hg
      · exact hpd q hq hl.symm, hdistinct⟩
    rw [List.foldl_cons]
    refine ⟨hok, hbase, fun level => ⟨fun f => ((hlevels level).1 f).trans ?_, fun n =>
      ((hlevels level).2 n).trans ?_⟩⟩
    · simp only [addFile, update, List.mem_cons, Prod.ext_iff]
      split_ifs with hl
      · rw [mem_insertAdded fun g hg heq =>
          hp g (.inr (hl ▸ hg)) (FileRecord.number_eq_of_rank_eq heq)]
        simp only [hl, true_and]
        tauto
      · simp [hl]
    · simp only [addFile, update, List.mem_cons, Prod.ext_iff]
      split_ifs with hl
      · simp only [Finset.mem_erase, hl, true_and]
        constructor
        · rintro ⟨⟨hne, hm⟩, hall⟩
          refine ⟨hm, fun f hf => ?_⟩
          rcases hf with rfl | hf
          · exact hne.symm
          · exact hall f hf
        · rintro ⟨hm, hall⟩
          exact ⟨⟨(hall p.2 (.inl rfl)).symm, hm⟩, fun f hf => hall f (.inr hf)⟩
      · simp [hl]

/-- **What an edit does**: it adds its new files, and deletes its deleted files except for those it
adds. -/
theorem apply_spec {b : Builder} (h : b.Ok) {edit : Manifest.VersionEdit}
    (hfresh : Fresh b.Known edit.newFiles) :
    (b.apply edit).Ok ∧ (b.apply edit).base = b.base ∧ ∀ level,
      (∀ f, (b.apply edit).Known level f ↔ b.Known level f ∨ (level, f) ∈ edit.newFiles) ∧
      ∀ n, n ∈ ((b.apply edit).levels level).deletedFiles ↔
        (n ∈ (b.levels level).deletedFiles ∨ (level, n) ∈ edit.deletedFiles.files) ∧
          ∀ f, (level, f) ∈ edit.newFiles → f.number ≠ n := by
  obtain ⟨hbase, hlevels⟩ := foldl_deleteFile edit.deletedFiles.files b
  set b' := edit.deletedFiles.files.foldl deleteFile b with hb'
  have hknown (level : ℕ) (f : FileRecord) : b'.Known level f ↔ b.Known level f := by
    rw [Known, Known, hbase, (hlevels level).1]
  have hok : b'.Ok := by
    refine ⟨fun level => hbase ▸ h.base level, fun level => ?_, fun level => ?_⟩
    · rw [(hlevels level).1]
      exact h.added level
    · rw [hbase, (hlevels level).1]
      exact h.distinct level
  have hfresh' : Fresh b'.Known edit.newFiles :=
    ⟨fun p hp g hg => hfresh.new p hp g ((hknown _ _).mp hg), hfresh.distinct⟩
  obtain ⟨hok', hbase', hlevels'⟩ := foldl_addFile edit.newFiles hok hfresh'
  refine ⟨hok', hbase'.trans hbase, fun level => ⟨fun f => ?_, fun n => ?_⟩⟩
  · rw [apply, ← hb', Known, hbase', (hlevels' level).1, ← or_assoc, ← Known, hknown]
  · rw [apply, ← hb', (hlevels' level).2, (hlevels level).2]

/-- Every edit adds files with numbers that are new. -/
def FreshAll : Builder → List Manifest.VersionEdit → Prop
  | _, [] => True
  | b, edit :: edits => Fresh b.Known edit.newFiles ∧ FreshAll (b.apply edit) edits

/-- It is the files seen that matter. -/
theorem FreshAll.congr : ∀ {edits : List Manifest.VersionEdit} {b b' : Builder}, b.Ok → b'.Ok →
    (∀ level f, b.Known level f ↔ b'.Known level f) → b.FreshAll edits → b'.FreshAll edits
  | [], _, _, _, _, _, _ => trivial
  | edit :: edits, b, b', hb, hb', hk, ⟨hfresh, hall⟩ => by
      have hfresh' : Fresh b'.Known edit.newFiles :=
        ⟨fun p hp g hg => hfresh.new p hp g ((hk _ _).mpr hg), hfresh.distinct⟩
      obtain ⟨hok, -, hknown⟩ := apply_spec hb hfresh
      obtain ⟨hok', -, hknown'⟩ := apply_spec hb' hfresh'
      refine ⟨hfresh', hall.congr hok hok' fun level f => ?_⟩
      rw [(hknown level).1, (hknown' level).1, hk]

theorem FreshAll.take : ∀ {edits : List Manifest.VersionEdit} {b : Builder}, b.FreshAll edits →
    ∀ i, b.FreshAll (edits.take i)
  | _, _, _, 0 => trivial
  | [], _, h, _ + 1 => h
  | _ :: _, _, ⟨hfresh, hall⟩, i + 1 => ⟨hfresh, hall.take i⟩

/-- The version after an edit to the version of a builder. -/
theorem saveTo_apply {b : Builder} (h : b.Ok) {edit : Manifest.VersionEdit}
    (hfresh : Fresh b.Known edit.newFiles) :
    (b.apply edit).saveTo = ((new b.saveTo).apply edit).saveTo := by
  have hnew : (new b.saveTo).Ok := ok_new (saveTo_sorted h)
  have hknown (level : ℕ) (f : FileRecord) : (new b.saveTo).Known level f ↔ f ∈ b.saveTo level := by
    simp [Known, new]
  have hfresh' : Fresh (new b.saveTo).Known edit.newFiles :=
    ⟨fun p hp g hg => hfresh.new p hp g (mem_saveTo.mp ((hknown _ _).mp hg)).1, hfresh.distinct⟩
  obtain ⟨hok, -, hlevels⟩ := apply_spec h hfresh
  obtain ⟨hok', -, hlevels'⟩ := apply_spec hnew hfresh'
  funext level
  refine (saveTo_sorted hok level).eq_of_mem_iff (saveTo_sorted hok' level) fun f => ?_
  rw [mem_saveTo, mem_saveTo, (hlevels level).1, (hlevels level).2, (hlevels' level).1,
    (hlevels' level).2, hknown, mem_saveTo]
  have hold : b.Known level f → ∀ g, (level, g) ∈ edit.newFiles → g.number ≠ f.number :=
    fun hk g hg => (hfresh.new (level, g) hg f hk).symm
  have hempty : f.number ∉ ((new b.saveTo).levels level).deletedFiles := by simp [new]
  have hself : (level, f) ∈ edit.newFiles → ¬ ∀ g, (level, g) ∈ edit.newFiles →
      g.number ≠ f.number := fun hf hall => hall f hf rfl
  tauto

/-- **Collecting edits gives the version that saving one after the other gives**, as long as file
numbers are not used again. -/
theorem saveTo_foldl : ∀ (edits : List Manifest.VersionEdit) {b : Builder}, b.Ok →
    b.FreshAll edits → (edits.foldl apply b).saveTo
      = edits.foldl (fun v edit => ((new v).apply edit).saveTo) b.saveTo
  | [], _, _, _ => rfl
  | edit :: edits, b, h, ⟨hfresh, hall⟩ => by
      rw [List.foldl_cons, List.foldl_cons, ← saveTo_apply h hfresh]
      exact saveTo_foldl edits (apply_spec h hfresh).1 hall

/-- A file comes to level 0, and is moved to the next one. -/
theorem saveTo_foldl_example :
    ([{ Manifest.VersionEdit.clear with newFiles := [(0, ⟨7, 100, [], []⟩)] },
      { Manifest.VersionEdit.clear with
        deletedFiles := Manifest.VersionEdit.clear.deletedFiles.insert (0, 7)
        newFiles := [(1, ⟨7, 100, [], []⟩)] }].foldl apply (new fun _ => [])).saveTo
      = [{ Manifest.VersionEdit.clear with newFiles := [(0, ⟨7, 100, [], []⟩)] },
        { Manifest.VersionEdit.clear with
          deletedFiles := Manifest.VersionEdit.clear.deletedFiles.insert (0, 7)
          newFiles := [(1, ⟨7, 100, [], []⟩)] }].foldl
        (fun v edit => ((new v).apply edit).saveTo) (new fun _ => []).saveTo := by
  refine saveTo_foldl _ (ok_new fun _ => List.Pairwise.nil) ⟨?_, ?_, trivial⟩
  · refine ⟨fun p _ g hg => ?_, List.pairwise_singleton _ _⟩
    rcases hg with hg | hg
    · cases hg
    · cases hg
  · refine ⟨fun p hp g hg => ?_, List.pairwise_singleton _ _⟩
    obtain rfl := List.mem_singleton.mp hp
    rcases hg with hg | hg
    · cases hg
    · cases hg

end Builder

end Leveldb
