import Mathlib.Logic.Relation
import AndroidLevelDB.Lib.BinarySearch
import AndroidLevelDB.Leveldb.DbImpl
import AndroidLevelDB.Leveldb.VersionEdit

/-!
# Leveldb/Files — the files of a version

A version lists the table files of each level (`db/version_set.cc`).  `findFile` is a linear search
where the files ascend (`findFile_eq_findIdx`), `someFileOverlapsRange` finds an overlap where there
is one (`someFileOverlapsRange_iff`), and `getOverlappingInputs` gives a set of files of level 0 that
no other file of the level overlaps (`getOverlappingInputs_closed`).
-/

namespace Leveldb

/-- A table file, with what it holds and the status of opening it. -/
structure FileMetaData extends FileRecord where
  table : List Cell
  opened : Status
deriving DecidableEq

namespace FileMetaData

/-- The user keys of the range. -/
def smallestUserKey (f : FileMetaData) : Bytes := extractUserKey f.smallest

def largestUserKey (f : FileMetaData) : Bytes := extractUserKey f.largest

/-- What is stored in a file, readable or not. -/
def stored (f : FileMetaData) : List Entry := f.table.flatMap Cell.stored

/-- What an iterator reads that opens the file. -/
def source (f : FileMetaData) : Source := ⟨f.table, f.opened⟩

/-- What an iterator meets that walks through the files of a level. -/
def cells (f : FileMetaData) : List Cell :=
  match f.opened.state with
  | none => f.table
  | some (code, msg) => [.unreadable f.largest f.stored code msg]

end FileMetaData

/-- `files_` of a version: the files of each level. -/
abbrev VersionFiles := ℕ → List FileMetaData

/-- `NewConcatenatingIterator`: the files are opened one after the other. -/
def concatenating (files : List FileMetaData) : Source := ⟨files.flatMap FileMetaData.cells, .OK⟩

/-- `AddIterators`: each file of level 0, and the other levels. -/
def addIterators (v : VersionFiles) : List Source :=
  (v 0).map FileMetaData.source ++
    (((List.range' 1 (kNumLevels - 1)).map v).filter fun files => !files.isEmpty).map concatenating

/-- `FindFile`: the first file whose largest key is not before `key`. -/
def findFile (files : List FileMetaData) (key : Bytes) : ℕ :=
  BinarySearch.lowerBound
    (fun mid => (files[mid]?).any fun f => internalKeyCompare f.largest key < 0) 0 files.length

/-- `AfterFile`; no key is before all keys. -/
def afterFile (userKey : Option Bytes) (f : FileMetaData) : Bool :=
  userKey.any fun k => Slice.compare k f.largestUserKey > 0

/-- `BeforeFile`; no key is after all keys. -/
def beforeFile (userKey : Option Bytes) (f : FileMetaData) : Bool :=
  userKey.any fun k => Slice.compare k f.smallestUserKey < 0

/-- `SomeFileOverlapsRange`. -/
def someFileOverlapsRange (disjointSortedFiles : Bool) (files : List FileMetaData)
    (smallestUserKey largestUserKey : Option Bytes) : Bool :=
  if !disjointSortedFiles then
    files.any fun f => !(afterFile smallestUserKey f || beforeFile largestUserKey f)
  else
    let index := match smallestUserKey with
      | some k => findFile files (appendInternalKey [] ⟨k, kMaxSequenceNumber, kValueTypeForSeek⟩)
      | none => 0
    match files[index]? with
    | none => false
    | some f => !beforeFile largestUserKey f

/-- A pass of the loop in `GetOverlappingInputs`: the files found, or the new bounds to begin again
with, where a file of level 0 widens the range. -/
def overlapPass (level0 : Bool) (userBegin userEnd : Option Bytes) :
    List FileMetaData → List FileMetaData → List FileMetaData ⊕ Option Bytes × Option Bytes
  | [], inputs => .inl inputs
  | f :: rest, inputs =>
    if userBegin.any fun k => Slice.compare f.largestUserKey k < 0 then
      overlapPass level0 userBegin userEnd rest inputs
    else if userEnd.any fun k => Slice.compare f.smallestUserKey k > 0 then
      overlapPass level0 userBegin userEnd rest inputs
    else if level0 && userBegin.any fun k => Slice.compare f.smallestUserKey k < 0 then
      .inr (some f.smallestUserKey, userEnd)
    else if level0 && userEnd.any fun k => Slice.compare f.largestUserKey k > 0 then
      .inr (userBegin, some f.largestUserKey)
    else overlapPass level0 userBegin userEnd rest (inputs ++ [f])

/-! ## Overlaps -/

namespace FileMetaData

/-- The range of a file meets the range between the bounds. -/
def Meets (f : FileMetaData) (userBegin userEnd : Option Bytes) : Prop :=
  (∀ k ∈ userBegin, k ≤ f.largestUserKey) ∧ ∀ k ∈ userEnd, f.smallestUserKey ≤ k

/-- The range of a file lies between the bounds. -/
def Within (f : FileMetaData) (userBegin userEnd : Option Bytes) : Prop :=
  (∀ k ∈ userBegin, k ≤ f.smallestUserKey) ∧ ∀ k ∈ userEnd, f.largestUserKey ≤ k

end FileMetaData

theorem any_compare_lt {k : Option Bytes} {a : Bytes} :
    (k.any fun k => Slice.compare a k < 0) = true ↔ ∃ b ∈ k, a < b := by
  cases k <;> simp [Slice.compare_neg_iff]

theorem any_compare_gt {k : Option Bytes} {a : Bytes} :
    (k.any fun k => Slice.compare a k > 0) = true ↔ ∃ b ∈ k, b < a := by
  cases k <;> simp [Slice.compare_pos_iff]

/-- What a pass found: all files that meet the range; those of level 0 lie within it. -/
structure Found (level0 : Bool) (files found : List FileMetaData)
    (userBegin userEnd : Option Bytes) : Prop where
  sublist : found.Sublist files
  mem_iff : ∀ f ∈ files, f ∈ found ↔ f.Meets userBegin userEnd
  within : level0 = true → ∀ f ∈ found, f.Within userBegin userEnd

/-- A file of level 0 that meets the range reaches out of it, and gives the new bound. -/
def Widens (files : List FileMetaData) (userBegin userEnd b e : Option Bytes) : Prop :=
  ∃ f ∈ files, f.Meets userBegin userEnd ∧
    ((∃ k ∈ userBegin, f.smallestUserKey < k) ∧ b = some f.smallestUserKey ∧ e = userEnd ∨
      (∃ k ∈ userEnd, k < f.largestUserKey) ∧ b = userBegin ∧ e = some f.largestUserKey)

theorem Widens.meets {files : List FileMetaData} {userBegin userEnd b e : Option Bytes}
    (h : Widens files userBegin userEnd b e) {f : FileMetaData} (hf : f.Meets userBegin userEnd) :
    f.Meets b e := by
  obtain ⟨g, -, -, ⟨⟨k, hk, hlt⟩, rfl, rfl⟩ | ⟨⟨k, hk, hlt⟩, rfl, rfl⟩⟩ := h
  · exact ⟨fun x hx => Option.some.inj hx ▸ hlt.le.trans (hf.1 k hk), hf.2⟩
  · exact ⟨hf.1, fun x hx => Option.some.inj hx ▸ (hf.2 k hk).trans hlt.le⟩

/-- **A pass finds the files that meet the range**, or a file that reaches out of it. -/
theorem overlapPass_spec (level0 : Bool) (userBegin userEnd : Option Bytes) :
    ∀ files inputs : List FileMetaData,
    (∀ found, overlapPass level0 userBegin userEnd files inputs = .inl found →
      ∃ fs, found = inputs ++ fs ∧ Found level0 files fs userBegin userEnd) ∧
    ∀ b e, overlapPass level0 userBegin userEnd files inputs = .inr (b, e) →
      level0 = true ∧ Widens files userBegin userEnd b e
  | [], inputs => by
      refine ⟨fun found h => ⟨[], ?_, List.Sublist.refl _, fun f hf => (by cases hf),
        fun _ f hf => (by cases hf)⟩, fun b e h => (by cases h)⟩
      rw [List.append_nil]
      exact (Sum.inl.inj h).symm
  | f :: rest, inputs => by
      -- a file that does not meet the range is passed by
      have hskip (hf : ¬ f.Meets userBegin userEnd) (found : List FileMetaData)
          (h : ∃ fs, found = inputs ++ fs ∧ Found level0 rest fs userBegin userEnd) :
          ∃ fs, found = inputs ++ fs ∧ Found level0 (f :: rest) fs userBegin userEnd := by
        obtain ⟨fs, rfl, hsub, hmem, hwithin⟩ := h
        refine ⟨fs, rfl, hsub.cons f, fun g hg => ?_, hwithin⟩
        rcases List.mem_cons.mp hg with rfl | hg
        · refine iff_of_false (fun hm => ?_) hf
          exact hf ((hmem g (hsub.subset hm)).mp hm)
        · exact hmem g hg
      have hwiden {b e : Option Bytes} (h : Widens rest userBegin userEnd b e) :
          Widens (f :: rest) userBegin userEnd b e := by
        obtain ⟨g, hg, h⟩ := h
        exact ⟨g, List.mem_cons_of_mem _ hg, h⟩
      -- a file that meets the range is found, or widens the range
      have hmeets (h1 : ¬ (userBegin.any fun k => Slice.compare f.largestUserKey k < 0) = true)
          (h2 : ¬ (userEnd.any fun k => Slice.compare f.smallestUserKey k > 0) = true) :
          f.Meets userBegin userEnd :=
        ⟨fun k hk => not_lt.mp fun hlt => h1 (any_compare_lt.mpr ⟨k, hk, hlt⟩),
          fun k hk => not_lt.mp fun hlt => h2 (any_compare_gt.mpr ⟨k, hk, hlt⟩)⟩
      rw [overlapPass]
      split_ifs with h1 h2 h3 h4
      · obtain ⟨k, hk, hlt⟩ := any_compare_lt.mp h1
        obtain ⟨hl, hr⟩ := overlapPass_spec level0 userBegin userEnd rest inputs
        exact ⟨fun found h => hskip (fun hm => absurd (hm.1 k hk) (not_le.mpr hlt)) _ (hl found h),
          fun b e h => (hr b e h).imp_right hwiden⟩
      · obtain ⟨k, hk, hlt⟩ := any_compare_gt.mp h2
        obtain ⟨hl, hr⟩ := overlapPass_spec level0 userBegin userEnd rest inputs
        exact ⟨fun found h => hskip (fun hm => absurd (hm.2 k hk) (not_le.mpr hlt)) _ (hl found h),
          fun b e h => (hr b e h).imp_right hwiden⟩
      · obtain ⟨h0, hb⟩ := Bool.and_eq_true_iff.mp h3
        refine ⟨fun found h => (by cases h),
          fun b e h => ⟨h0, f, List.mem_cons_self, hmeets h1 h2, ?_⟩⟩
        obtain ⟨rfl, rfl⟩ := Prod.ext_iff.mp (Sum.inr.inj h)
        exact .inl ⟨any_compare_lt.mp hb, rfl, rfl⟩
      · obtain ⟨h0, he⟩ := Bool.and_eq_true_iff.mp h4
        refine ⟨fun found h => (by cases h),
          fun b e h => ⟨h0, f, List.mem_cons_self, hmeets h1 h2, ?_⟩⟩
        obtain ⟨rfl, rfl⟩ := Prod.ext_iff.mp (Sum.inr.inj h)
        exact .inr ⟨any_compare_gt.mp he, rfl, rfl⟩
      · obtain ⟨hl, hr⟩ := overlapPass_spec level0 userBegin userEnd rest (inputs ++ [f])
        refine ⟨fun found h => ?_, fun b e h => (hr b e h).imp_right hwiden⟩
        obtain ⟨fs, rfl, hsub, hmem, hwithin⟩ := hl found h
        refine ⟨f :: fs, by rw [List.append_assoc, List.singleton_append], hsub.cons_cons f,
          fun g hg => ?_, fun h0 g hg => ?_⟩
        · rcases List.mem_cons.mp hg with rfl | hg
          · exact iff_of_true List.mem_cons_self (hmeets h1 h2)
          · rw [List.mem_cons]
            refine ⟨?_, fun hm => .inr ((hmem g hg).mpr hm)⟩
            rintro (rfl | hm)
            · exact hmeets h1 h2
            · exact (hmem g hg).mp hm
        · rcases List.mem_cons.mp hg with rfl | hg
          · rw [h0, Bool.true_and] at h3 h4
            exact ⟨fun k hk => not_lt.mp fun hlt => h3 (any_compare_lt.mpr ⟨k, hk, hlt⟩),
              fun k hk => not_lt.mp fun hlt => h4 (any_compare_gt.mpr ⟨k, hk, hlt⟩)⟩
          · exact hwithin h0 g hg

/-- The files whose range begins before, or ends behind, a bound: each time the range is widened
they are fewer. -/
def outside (files : List FileMetaData) (userBegin userEnd : Option Bytes) : ℕ :=
  (files.countP fun f => userBegin.any fun k => f.smallestUserKey < k) +
    files.countP fun f => userEnd.any fun k => k < f.largestUserKey

/-- Fewer elements satisfy a stronger predicate that one of the others does not. -/
theorem countP_lt_of_mem {α : Type} {p q : α → Bool} {l : List α}
    (h : ∀ a ∈ l, p a = true → q a = true) {a : α} (ha : a ∈ l) (hp : p a = false)
    (hq : q a = true) : l.countP p < l.countP q := by
  obtain ⟨l₁, l₂, rfl⟩ := List.append_of_mem ha
  have h1 := List.countP_mono_left fun a ha => h a (List.mem_append_left _ ha)
  have h2 := List.countP_mono_left fun b hb =>
    h b (List.mem_append_right _ (List.mem_cons_of_mem _ hb))
  rw [List.countP_append, List.countP_append, List.countP_cons_of_neg (by simp [hp]),
    List.countP_cons_of_pos hq]
  omega

theorem Widens.outside_lt {files : List FileMetaData} {userBegin userEnd b e : Option Bytes}
    (h : Widens files userBegin userEnd b e) :
    outside files b e < outside files userBegin userEnd := by
  obtain ⟨f, hf, -, ⟨⟨k, hk, hlt⟩, rfl, rfl⟩ | ⟨⟨k, hk, hlt⟩, rfl, rfl⟩⟩ := h
  · obtain rfl := Option.mem_def.mp hk
    refine Nat.add_lt_add_right (countP_lt_of_mem (fun g _ hg => ?_) hf ?_ ?_) _
    · simp only [Option.any_some, decide_eq_true_eq] at hg ⊢
      exact hg.trans hlt
    · simp
    · simpa using hlt
  · obtain rfl := Option.mem_def.mp hk
    refine Nat.add_lt_add_left (countP_lt_of_mem (fun g _ hg => ?_) hf ?_ ?_) _
    · simp only [Option.any_some, decide_eq_true_eq] at hg ⊢
      exact hlt.trans hg
    · simp
    · simpa using hlt

/-- `GetOverlappingInputs` on the files of a level. -/
def getOverlappingInputs (level0 : Bool) (files : List FileMetaData)
    (userBegin userEnd : Option Bytes) : List FileMetaData :=
  match _hp : overlapPass level0 userBegin userEnd files [] with
  | .inl found => found
  | .inr (b, e) => getOverlappingInputs level0 files b e
termination_by outside files userBegin userEnd
decreasing_by exact ((overlapPass_spec level0 userBegin userEnd files []).2 b e _hp).2.outside_lt

/-- The bounds are widened, any number of times. -/
def Widened (files : List FileMetaData) : Option Bytes × Option Bytes → Option Bytes × Option Bytes →
    Prop := Relation.ReflTransGen fun r r' => Widens files r.1 r.2 r'.1 r'.2

/-- **`GetOverlappingInputs` finds the files that meet the range, or on level 0 a wider one** in
which they all lie. -/
theorem getOverlappingInputs_spec (level0 : Bool) (files : List FileMetaData)
    (userBegin userEnd : Option Bytes) :
    ∃ b e, Found level0 files (getOverlappingInputs level0 files userBegin userEnd) b e ∧
      Widened files (userBegin, userEnd) (b, e) ∧
      (level0 = false → b = userBegin ∧ e = userEnd) := by
  obtain ⟨hl, hr⟩ := overlapPass_spec level0 userBegin userEnd files []
  rw [getOverlappingInputs]
  split
  · next found hp =>
    obtain ⟨fs, rfl, hfound⟩ := hl found hp
    exact ⟨userBegin, userEnd, hfound, .refl, fun _ => ⟨rfl, rfl⟩⟩
  · next b e hp =>
    obtain ⟨h0, hwidens⟩ := hr b e hp
    obtain ⟨b', e', hfound, hwidened, -⟩ := getOverlappingInputs_spec level0 files b e
    exact ⟨b', e', hfound, .head hwidens hwidened, fun h => absurd (h0.symm.trans h) (by decide)⟩
termination_by outside files userBegin userEnd
decreasing_by exact hwidens.outside_lt

theorem Widened.meets {files : List FileMetaData} {r r' : Option Bytes × Option Bytes}
    (h : Widened files r r') {f : FileMetaData} (hf : f.Meets r.1 r.2) : f.Meets r'.1 r'.2 := by
  induction h with
  | refl => exact hf
  | tail _ hw ih => exact hw.meets ih

/-- **No other file of level 0 meets one that was found.** -/
theorem getOverlappingInputs_closed {files : List FileMetaData} {userBegin userEnd : Option Bytes}
    {f g : FileMetaData} (hf : f ∈ getOverlappingInputs true files userBegin userEnd)
    (hg : g ∈ files) (hfg : f.smallestUserKey ≤ g.largestUserKey)
    (hgf : g.smallestUserKey ≤ f.largestUserKey) :
    g ∈ getOverlappingInputs true files userBegin userEnd := by
  obtain ⟨b, e, ⟨-, hmem, hwithin⟩, -, -⟩ :=
    getOverlappingInputs_spec true files userBegin userEnd
  obtain ⟨hb, he⟩ := hwithin rfl f hf
  exact (hmem g hg).mpr ⟨fun k hk => (hb k hk).trans hfg, fun k hk => hgf.trans (he k hk)⟩

/-! ## Sorted levels -/

/-- A level where the files do not overlap, in internal order; the bounds of each file are keys. -/
structure LevelSorted (files : List FileMetaData) : Prop where
  parses : ∀ f ∈ files, (parseInternalKey f.largest).isSome
  range : ∀ f ∈ files, internalRank f.smallest ≤ internalRank f.largest
  pairwise : files.Pairwise fun f g => internalRank f.largest < internalRank g.smallest

namespace LevelSorted

variable {files : List FileMetaData}

theorem largest_lt (h : LevelSorted files) :
    files.Pairwise fun f g => internalRank f.largest < internalRank g.largest :=
  h.pairwise.imp_of_mem fun _ hg hlt => hlt.trans_le (h.range _ hg)

theorem smallestUserKey_le (h : LevelSorted files) :
    files.Pairwise fun f g => f.smallestUserKey ≤ g.smallestUserKey :=
  h.pairwise.imp_of_mem fun hf _ hlt => userKey_le ((h.range _ hf).trans hlt.le)

end LevelSorted

/-- **Binary search finds the first file whose largest key is not before `key`.** -/
theorem findFile_eq_findIdx {files : List FileMetaData} (h : LevelSorted files) (key : Bytes) :
    findFile files key =
      files.findIdx fun f => !decide (internalRank f.largest < internalRank key) := by
  refine BinarySearch.lowerBound_eq_findIdx (h.largest_lt.imp fun hlt hg => ?_) fun i hi => ?_
  · simp only [decide_eq_true_eq] at hg ⊢
    exact hlt.trans hg
  · rw [List.getElem?_eq_getElem hi, Option.any_some]
    exact decide_eq_decide.mpr internalKeyCompare_neg_iff

/-- The earliest internal key of `k` is behind a key exactly when `k` is behind its user key. -/
theorem lt_seekKey_iff {a k : Bytes} (ha : (parseInternalKey a).isSome) :
    internalRank a
        < internalRank (appendInternalKey [] ⟨k, kMaxSequenceNumber, kValueTypeForSeek⟩) ↔
      extractUserKey a < k := by
  obtain ⟨p, hp⟩ := Option.isSome_iff_exists.mp ha
  have hle := sequence_le_of_parse hp
  have htag := (parseInternalKey_eq_some hp).2.2
  have ht : p.type.toNat ≤ 1 := by cases p.type <;> decide
  rw [internalRank_lt_iff, extractUserKey_appendInternalKey, extractTag_appendInternalKey le_rfl]
  refine or_iff_left fun ⟨_, hlt⟩ => ?_
  have h1 : kValueTypeForSeek.toNat = 1 := rfl
  simp only [h1, htag] at hlt
  omega

theorem findIdx_congr {α : Type} {p q : α → Bool} :
    ∀ {l : List α}, (∀ a ∈ l, p a = q a) → l.findIdx p = l.findIdx q
  | [], _ => rfl
  | a :: l, h => by
      rw [List.findIdx_cons, List.findIdx_cons, h a List.mem_cons_self,
        findIdx_congr fun b hb => h b (List.mem_cons_of_mem _ hb)]

/-- The search ends at the first file that does not end before the range. -/
theorem sortedIndex {files : List FileMetaData} (h : LevelSorted files)
    (smallestUserKey : Option Bytes) :
    (match smallestUserKey with
      | some k => findFile files (appendInternalKey [] ⟨k, kMaxSequenceNumber, kValueTypeForSeek⟩)
      | none => 0) = files.findIdx fun f => !afterFile smallestUserKey f := by
  cases smallestUserKey with
  | none =>
    cases files with
    | nil => rfl
    | cons f files => rfl
  | some k =>
    refine (findFile_eq_findIdx h _).trans (findIdx_congr fun f hf => congrArg _ ?_)
    simp only [afterFile, Option.any_some, decide_eq_decide, gt_iff_lt]
    rw [lt_seekKey_iff (h.parses f hf), Slice.compare_pos_iff]
    rfl

/-- **`SomeFileOverlapsRange` tells whether the range of some file meets the range between the
bounds**, in a sorted level as among any files. -/
theorem someFileOverlapsRange_iff {disjointSortedFiles : Bool} {files : List FileMetaData}
    (h : disjointSortedFiles = true → LevelSorted files)
    (smallestUserKey largestUserKey : Option Bytes) :
    someFileOverlapsRange disjointSortedFiles files smallestUserKey largestUserKey = true ↔
      ∃ f ∈ files, f.Meets smallestUserKey largestUserKey := by
  have hafter (f : FileMetaData) :
      afterFile smallestUserKey f = false ↔ ∀ k ∈ smallestUserKey, k ≤ f.largestUserKey := by
    cases smallestUserKey <;> simp [afterFile, Slice.compare_pos_iff]
  have hbefore (f : FileMetaData) :
      beforeFile largestUserKey f = false ↔ ∀ k ∈ largestUserKey, f.smallestUserKey ≤ k := by
    cases largestUserKey <;> simp [beforeFile, Slice.compare_neg_iff]
  cases disjointSortedFiles with
  | false =>
    simp only [someFileOverlapsRange, Bool.not_false, if_true, List.any_eq_true, Bool.not_eq_true',
      Bool.or_eq_false_iff, hafter, hbefore, FileMetaData.Meets]
  | true =>
    have hs := h rfl
    have hlast : files.Pairwise fun f g =>
        (!beforeFile largestUserKey g) = true → (!beforeFile largestUserKey f) = true := by
      refine hs.smallestUserKey_le.imp fun hle hg => ?_
      rw [Bool.not_eq_true', hbefore] at hg ⊢
      exact fun k hk => hle.trans (hg k hk)
    have hiff := BinarySearch.any_findIdx_iff (p := fun f => !afterFile smallestUserKey f) hlast
    simp only [Bool.not_eq_true', hafter, hbefore] at hiff
    simp only [FileMetaData.Meets]
    rw [← hiff]
    unfold someFileOverlapsRange
    rw [if_neg (by decide)]
    dsimp only
    rw [sortedIndex hs]
    cases files[files.findIdx fun f => !afterFile smallestUserKey f]? with
    | none => rfl
    | some f => rfl

end Leveldb
