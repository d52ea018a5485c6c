import Mathlib.Logic.Function.Basic
import AndroidLevelDB.Leveldb.Files

/-!
# Leveldb/Compaction — what a compaction asks of its version

A `Compaction` moves files of `level` and of the next one to the next one.  Its questions come with
ascending keys, and it keeps pointers into the levels it looks at: `isBaseLevelForKey` tells whether
a deeper level may hold a key (`isBaseLevelForKey_iff`), `shouldStopBefore` whether the file being
written overlaps too much of the level after the next.
-/

namespace Leveldb

def kTargetFileSize : ℕ := 2 * 1048576

def kMaxGrandParentOverlapBytes : ℕ := 10 * kTargetFileSize

def kExpandedCompactionByteSizeLimit : ℕ := 25 * kTargetFileSize

def maxFileSizeForLevel (_level : ℕ) : ℕ := kTargetFileSize

def totalFileSize (files : List FileMetaData) : ℕ := (files.map fun f => f.fileSize).sum

structure Compaction where
  level : ℕ
  maxOutputFileSize : ℕ
  inputVersion : VersionFiles
  /-- The files of `level` and of the next level. -/
  inputs0 : List FileMetaData
  inputs1 : List FileMetaData
  grandparents : List FileMetaData
  grandparentIndex : ℕ
  seenKey : Bool
  overlappedBytes : ℕ
  levelPtrs : ℕ → ℕ

namespace Compaction

/-- `Compaction::Compaction`, with the inputs that are filled in after it. -/
def new (level : ℕ) (inputVersion : VersionFiles) (inputs0 inputs1 grandparents : List FileMetaData) :
    Compaction where
  level := level
  maxOutputFileSize := maxFileSizeForLevel level
  inputVersion := inputVersion
  inputs0 := inputs0
  inputs1 := inputs1
  grandparents := grandparents
  grandparentIndex := 0
  seenKey := false
  overlappedBytes := 0
  levelPtrs := fun _ => 0

/-- The loop of `IsBaseLevelForKey` over the files of a level from `ptr` on: where it stops, and
whether the key falls in the range of the file there. -/
def passFiles (userKey : Bytes) : List FileMetaData → ℕ → ℕ × Bool
  | [], ptr => (ptr, false)
  | f :: files, ptr =>
    if Slice.compare userKey f.largestUserKey ≤ 0 then
      (ptr, Slice.compare userKey f.smallestUserKey ≥ 0)
    else passFiles userKey files (ptr + 1)

/-- `IsBaseLevelForKey` through the levels `lvls`. -/
def isBaseLevelIn (userKey : Bytes) : List ℕ → Compaction → Bool × Compaction
  | [], c => (true, c)
  | lvl :: lvls, c =>
    let (ptr, inside) :=
      passFiles userKey ((c.inputVersion lvl).drop (c.levelPtrs lvl)) (c.levelPtrs lvl)
    let c := { c with levelPtrs := Function.update c.levelPtrs lvl ptr }
    if inside then (false, c) else isBaseLevelIn userKey lvls c

/-- `IsBaseLevelForKey`. -/
def isBaseLevelForKey (c : Compaction) (userKey : Bytes) : Bool × Compaction :=
  isBaseLevelIn userKey (List.range' (c.level + 2) (kNumLevels - (c.level + 2))) c

/-- The loop of `ShouldStopBefore` over the grandparents from `index` on. -/
def passGrandparents (internalKey : Bytes) (seenKey : Bool) :
    List FileMetaData → ℕ → ℕ → ℕ × ℕ
  | [], index, overlapped => (index, overlapped)
  | f :: files, index, overlapped =>
    if internalKeyCompare internalKey f.largest > 0 then
      passGrandparents internalKey seenKey files (index + 1)
        (if seenKey then overlapped + f.fileSize else overlapped)
    else (index, overlapped)

/-- `ShouldStopBefore`. -/
def shouldStopBefore (c : Compaction) (internalKey : Bytes) : Bool × Compaction :=
  let (index, overlapped) := passGrandparents internalKey c.seenKey
    (c.grandparents.drop c.grandparentIndex) c.grandparentIndex c.overlappedBytes
  let c := { c with grandparentIndex := index, seenKey := true }
  if overlapped > kMaxGrandParentOverlapBytes then (true, { c with overlappedBytes := 0 })
  else (false, { c with overlappedBytes := overlapped })

/-! ## Base levels -/

/-- All files before the pointers end before `userKey`. -/
def Passed (c : Compaction) (userKey : Bytes) : Prop :=
  ∀ lvl, ∀ f ∈ (c.inputVersion lvl).take (c.levelPtrs lvl), f.largestUserKey < userKey

theorem Passed.mono {c : Compaction} {k k' : Bytes} (h : c.Passed k) (hle : k ≤ k') :
    c.Passed k' := fun lvl f hf => (h lvl f hf).trans_le hle

/-- In a level that ascends, the loop stops at the only file that can hold the key. -/
theorem passFiles_spec (userKey : Bytes) : ∀ (files : List FileMetaData) (ptr : ℕ),
    (files.Pairwise fun f g => f.smallestUserKey ≤ g.smallestUserKey) →
    (∃ n, (passFiles userKey files ptr).1 = ptr + n ∧
      ∀ f ∈ files.take n, f.largestUserKey < userKey) ∧
    ((passFiles userKey files ptr).2 = true ↔
      ∃ f ∈ files, f.smallestUserKey ≤ userKey ∧ userKey ≤ f.largestUserKey)
  | [], ptr, _ => ⟨⟨0, rfl, by simp⟩, by simp [passFiles]⟩
  | f :: files, ptr, h => by
      obtain ⟨hf, h⟩ := List.pairwise_cons.mp h
      have hle := Slice.compare_nonpos_iff userKey f.largestUserKey
      have hge : Slice.compare userKey f.smallestUserKey ≥ 0 ↔ f.smallestUserKey ≤ userKey := by
        rw [ge_iff_le, ← not_lt, Slice.compare_neg_iff, not_lt]
      rw [passFiles]
      split_ifs with h'
      · rw [hle] at h'
        refine ⟨⟨0, rfl, by simp⟩, ?_⟩
        rw [decide_eq_true_eq, hge]
        refine ⟨fun hs => ⟨f, List.mem_cons_self, hs, h'⟩, ?_⟩
        rintro ⟨g, hg, hs, -⟩
        rcases List.mem_cons.mp hg with rfl | hg
        · exact hs
        · exact (hf g hg).trans hs
      · have hlt : f.largestUserKey < userKey := not_le.mp fun hl => h' (hle.mpr hl)
        obtain ⟨⟨n, hn, htake⟩, hiff⟩ := passFiles_spec userKey files (ptr + 1) h
        refine ⟨⟨n + 1, by rw [hn]; omega, ?_⟩, hiff.trans ?_⟩
        · rw [List.take_succ_cons]
          exact List.forall_mem_cons.mpr ⟨hlt, htake⟩
        · rw [List.exists_mem_cons_iff]
          exact (or_iff_right fun ⟨_, hl⟩ => absurd hlt (not_lt.mpr hl)).symm

/-- What `IsBaseLevelForKey` leaves alone. -/
structure Keeps (c c' : Compaction) : Prop where
  level : c'.level = c.level
  maxOutputFileSize : c'.maxOutputFileSize = c.maxOutputFileSize
  inputVersion : c'.inputVersion = c.inputVersion

theorem Keeps.trans {c c' c'' : Compaction} (h : Keeps c c') (h' : Keeps c' c'') : Keeps c c'' :=
  ⟨h'.level.trans h.level, h'.maxOutputFileSize.trans h.maxOutputFileSize,
    h'.inputVersion.trans h.inputVersion⟩

theorem isBaseLevelIn_spec {userKey : Bytes} : ∀ (lvls : List ℕ) (c : Compaction),
    (∀ lvl ∈ lvls, (c.inputVersion lvl).Pairwise fun f g => f.smallestUserKey ≤ g.smallestUserKey) →
    c.Passed userKey →
    ((isBaseLevelIn userKey lvls c).1 = true ↔ ∀ lvl ∈ lvls, ∀ f ∈ c.inputVersion lvl,
      ¬ (f.smallestUserKey ≤ userKey ∧ userKey ≤ f.largestUserKey)) ∧
    (isBaseLevelIn userKey lvls c).2.Passed userKey ∧
    Keeps c (isBaseLevelIn userKey lvls c).2
  | [], c, _, hp => ⟨by simp [isBaseLevelIn], hp, rfl, rfl, rfl⟩
  | lvl :: lvls, c, hs, hp => by
      obtain ⟨⟨n, hn, htake⟩, hiff⟩ := passFiles_spec userKey
        ((c.inputVersion lvl).drop (c.levelPtrs lvl)) (c.levelPtrs lvl)
        ((hs lvl List.mem_cons_self).sublist (List.drop_sublist _ _))
      -- the files passed before end before the key as well
      have hpassed : ∀ f ∈ (c.inputVersion lvl).take (c.levelPtrs lvl + n),
          f.largestUserKey < userKey := by
        intro f hf
        rw [List.take_add] at hf
        rcases List.mem_append.mp hf with hf | hf
        · exact hp lvl f hf
        · exact htake f hf
      have hinside : (∃ f ∈ (c.inputVersion lvl).drop (c.levelPtrs lvl),
          f.smallestUserKey ≤ userKey ∧ userKey ≤ f.largestUserKey) ↔
          ∃ f ∈ c.inputVersion lvl, f.smallestUserKey ≤ userKey ∧ userKey ≤ f.largestUserKey := by
        refine ⟨fun ⟨f, hf, h⟩ => ⟨f, List.mem_of_mem_drop hf, h⟩, fun ⟨f, hf, h⟩ => ⟨f, ?_, h⟩⟩
        rw [← List.take_append_drop (c.levelPtrs lvl) (c.inputVersion lvl)] at hf
        exact (List.mem_append.mp hf).resolve_left fun hf => absurd h.2 (not_le.mpr (hp lvl f hf))
      rw [isBaseLevelIn]
      dsimp only
      set c' : Compaction := { c with levelPtrs := Function.update c.levelPtrs lvl _ } with hc'
      have hp' : c'.Passed userKey := by
        intro lvl' f hf
        by_cases h : lvl' = lvl
        · subst h
          simp only [hc', Function.update_self, hn] at hf
          exact hpassed f hf
        · simp only [hc', Function.update_of_ne h] at hf
          exact hp lvl' f hf
      split_ifs with h
      · obtain ⟨f, hf, hr⟩ := hinside.mp (hiff.mp h)
        refine ⟨iff_of_false (by decide) fun hall => ?_, hp', rfl, rfl, rfl⟩
        exact hall lvl List.mem_cons_self f hf hr
      · obtain ⟨hbase, hpass, hkeeps⟩ := isBaseLevelIn_spec lvls c'
          (fun l hl => hs l (List.mem_cons_of_mem _ hl)) hp'
        refine ⟨hbase.trans ?_, hpass, hkeeps.level, hkeeps.maxOutputFileSize, hkeeps.inputVersion⟩
        rw [List.forall_mem_cons]
        refine (and_iff_right fun f hf hr => ?_).symm
        exact h (hiff.mpr (hinside.mpr ⟨f, hf, hr⟩))

/-- No level behind the next one has a file whose range holds the key. -/
def Base (c : Compaction) (userKey : Bytes) : Prop :=
  ∀ lvl < kNumLevels, c.level + 2 ≤ lvl → ∀ f ∈ c.inputVersion lvl,
    ¬ (f.smallestUserKey ≤ userKey ∧ userKey ≤ f.largestUserKey)

instance (c : Compaction) : DecidablePred c.Base :=
  fun userKey => inferInstanceAs (Decidable (∀ lvl < kNumLevels, c.level + 2 ≤ lvl →
    ∀ f ∈ c.inputVersion lvl, ¬ (f.smallestUserKey ≤ userKey ∧ userKey ≤ f.largestUserKey)))

theorem Keeps.base_iff {c c' : Compaction} (h : Keeps c c') {userKey : Bytes} :
    c'.Base userKey ↔ c.Base userKey := by
  rw [Base, Base, h.level, h.inputVersion]

/-- **With ascending keys `IsBaseLevelForKey` tells whether no deeper level may hold the key**, for
all that its pointers only move forwards. -/
theorem isBaseLevelForKey_iff {c : Compaction} {userKey : Bytes}
    (hs : ∀ lvl, c.level + 2 ≤ lvl → lvl < kNumLevels →
      (c.inputVersion lvl).Pairwise fun f g => f.smallestUserKey ≤ g.smallestUserKey)
    (hp : c.Passed userKey) :
    ((c.isBaseLevelForKey userKey).1 = true ↔ c.Base userKey) ∧
      (c.isBaseLevelForKey userKey).2.Passed userKey ∧
      Keeps c (c.isBaseLevelForKey userKey).2 := by
  have hmem (lvl : ℕ) : lvl ∈ List.range' (c.level + 2) (kNumLevels - (c.level + 2)) ↔
      c.level + 2 ≤ lvl ∧ lvl < kNumLevels := by
    rw [List.mem_range'_1]
    omega
  obtain ⟨hiff, hrest⟩ := isBaseLevelIn_spec (List.range' (c.level + 2) _) c
    (fun lvl hl => hs lvl ((hmem lvl).mp hl).1 ((hmem lvl).mp hl).2) hp
  refine ⟨hiff.trans ?_, hrest⟩
  simp only [hmem, and_imp]
  exact ⟨fun h lvl hlt hle => h lvl hle hlt, fun h lvl hle hlt => h lvl hlt hle⟩

/-- `ShouldStopBefore` looks at other fields. -/
theorem shouldStopBefore_keeps (c : Compaction) (k : Bytes) :
    Keeps c (c.shouldStopBefore k).2 ∧ (c.shouldStopBefore k).2.levelPtrs = c.levelPtrs := by
  rw [shouldStopBefore]
  dsimp only
  split_ifs
  · exact ⟨⟨rfl, rfl, rfl⟩, rfl⟩
  · exact ⟨⟨rfl, rfl, rfl⟩, rfl⟩

theorem Passed.shouldStopBefore {c : Compaction} {userKey : Bytes} (h : c.Passed userKey)
    (k : Bytes) : (c.shouldStopBefore k).2.Passed userKey := by
  obtain ⟨hkeeps, hptrs⟩ := c.shouldStopBefore_keeps k
  rw [Passed, hkeeps.inputVersion, hptrs]
  exact h

end Compaction

end Leveldb
