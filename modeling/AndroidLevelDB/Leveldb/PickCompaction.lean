import AndroidLevelDB.Lib.Intervals
import AndroidLevelDB.Leveldb.Compaction

/-!
# Leveldb/PickCompaction — the inputs of a compaction

`pickCompaction` starts from one file of a level, and `setupOtherInputs` adds what has to go with it:
no file outside of the inputs overlaps them in their own level if that is level 0, nor in the next
level, and the inputs leave no gap in their range (`pickCompaction_picked`).  A memtable is written
to the level of `pickLevelForMemTableOutput`, where no file up to this level overlaps it
(`pickLevel_spec`).
-/

namespace Leveldb

/-- A file widens a range of internal keys. -/
def widenRange (r : Bytes × Bytes) (f : FileMetaData) : Bytes × Bytes :=
  (if internalKeyCompare f.smallest r.1 < 0 then f.smallest else r.1,
    if internalKeyCompare f.largest r.2 > 0 then f.largest else r.2)

/-- `GetRange`. -/
def getRange : List FileMetaData → Bytes × Bytes
  | [] => ([], [])
  | f :: inputs => inputs.foldl widenRange (f.smallest, f.largest)

/-- `GetRange2`. -/
def getRange2 (inputs1 inputs2 : List FileMetaData) : Bytes × Bytes := getRange (inputs1 ++ inputs2)

/-- `GetOverlappingInputs`, for a range of internal keys. -/
def overlapping (v : VersionFiles) (level : ℕ) (range : Bytes × Bytes) : List FileMetaData :=
  getOverlappingInputs (level = 0) (v level) (some (extractUserKey range.1))
    (some (extractUserKey range.2))

/-- The inputs of `level` are grown, if those of the next level remain as many. -/
def expandInputs (v : VersionFiles) (level : ℕ) (inputs0 inputs1 : List FileMetaData) :
    List FileMetaData × List FileMetaData :=
  let expanded0 := overlapping v level (getRange2 inputs0 inputs1)
  let expanded1 := overlapping v (level + 1) (getRange expanded0)
  if !inputs1.isEmpty && expanded0.length > inputs0.length &&
      totalFileSize inputs1 + totalFileSize expanded0 < kExpandedCompactionByteSizeLimit &&
      expanded1.length = inputs1.length then (expanded0, expanded1)
  else (inputs0, inputs1)

/-- `SetupOtherInputs`: the compaction, and the new `compact_pointer_` of its level. -/
def setupOtherInputs (v : VersionFiles) (level : ℕ) (inputs0 : List FileMetaData) :
    Compaction × Bytes :=
  let inputs := expandInputs v level inputs0 (overlapping v (level + 1) (getRange inputs0))
  let grandparents :=
    if level + 2 < kNumLevels then overlapping v (level + 2) (getRange2 inputs.1 inputs.2) else []
  (.new level v inputs.1 inputs.2 grandparents, (getRange inputs.1).2)

/-- What asks for a compaction: the size of a level, or the seeks that met a file. -/
inductive Pick
  | size (level : ℕ)
  | seek (level index : ℕ)
deriving DecidableEq

def Pick.level : Pick → ℕ
  | size level => level
  | seek level _ => level

/-- The file a compaction starts from: behind the last one of its level, or the one asked for. -/
def pickFile (v : VersionFiles) (compactPointer : ℕ → Bytes) : Pick → Option FileMetaData
  | .size level =>
    ((v level).find? fun f => (compactPointer level).isEmpty ||
      internalKeyCompare f.largest (compactPointer level) > 0).or (v level).head?
  | .seek level index => (v level)[index]?

/-- `PickCompaction`. -/
def pickCompaction (v : VersionFiles) (compactPointer : ℕ → Bytes) (pick : Pick) :
    Option (Compaction × Bytes) :=
  (pickFile v compactPointer pick).map fun f =>
    setupOtherInputs v pick.level
      (if pick.level = 0 then overlapping v 0 (getRange [f]) else [f])

/-- `IsTrivialMove`. -/
def Compaction.isTrivialMove (c : Compaction) : Bool :=
  c.inputs0.length = 1 && c.inputs1.length = 0 &&
    totalFileSize c.grandparents ≤ kMaxGrandParentOverlapBytes

def kMaxMemCompactLevel : ℕ := 2

/-- `OverlapInLevel`. -/
def overlapInLevel (v : VersionFiles) (level : ℕ) (smallestUserKey largestUserKey : Bytes) : Bool :=
  someFileOverlapsRange (level > 0) (v level) (some smallestUserKey) (some largestUserKey)

/-- The loop of `PickLevelForMemTableOutput`, for no more than `n` levels. -/
def pickLevelLoop (v : VersionFiles) (smallestUserKey largestUserKey : Bytes) : ℕ → ℕ → ℕ
  | 0, level => level
  | n + 1, level =>
    if overlapInLevel v (level + 1) smallestUserKey largestUserKey then level
    else if level + 2 < kNumLevels && totalFileSize (getOverlappingInputs false (v (level + 2))
        (some smallestUserKey) (some largestUserKey)) > kMaxGrandParentOverlapBytes then level
    else pickLevelLoop v smallestUserKey largestUserKey n (level + 1)

/-- `PickLevelForMemTableOutput`. -/
def pickLevelForMemTableOutput (v : VersionFiles) (smallestUserKey largestUserKey : Bytes) : ℕ :=
  if overlapInLevel v 0 smallestUserKey largestUserKey then 0
  else pickLevelLoop v smallestUserKey largestUserKey kMaxMemCompactLevel 0

/-! ## Ranges -/

/-- The ranges of two files meet. -/
def FileMetaData.Overlaps (f g : FileMetaData) : Prop :=
  f.smallestUserKey ≤ g.largestUserKey ∧ g.smallestUserKey ≤ f.largestUserKey

/-- A chain of files, of which each overlaps the next, leads from the range to `f`. -/
def Reached (files : List FileMetaData) (userBegin userEnd : Option Bytes) (f : FileMetaData) :
    Prop :=
  ∃ g ∈ files, g.Meets userBegin userEnd ∧
    Relation.ReflTransGen (fun x y : FileMetaData => y ∈ files ∧ x.Overlaps y) g f

/-- What meets a range that was widened is reached from the range before. -/
theorem Widened.reached {files : List FileMetaData}
    (hv : ∀ f ∈ files, f.smallestUserKey ≤ f.largestUserKey) {r r' : Option Bytes × Option Bytes}
    (h : Widened files r r') : ∀ f ∈ files, f.Meets r'.1 r'.2 → Reached files r.1 r.2 f := by
  induction h with
  | refl => exact fun f hf hm => ⟨f, hf, hm, .refl⟩
  | tail _ hw ih =>
    intro f hf hm
    obtain ⟨g, hg, hgm, hbound⟩ := hw
    obtain ⟨x, hx, hxm, hchain⟩ := ih g hg hgm
    have hreached (ho : g.Overlaps f) : Reached files r.1 r.2 f :=
      ⟨x, hx, hxm, hchain.tail ⟨hf, ho⟩⟩
    rcases hbound with ⟨⟨k, hk, -⟩, hb, he⟩ | ⟨⟨k, hk, -⟩, hb, he⟩
    · by_cases hle : k ≤ f.largestUserKey
      · exact ih f hf ⟨fun k' hk' => Option.mem_unique hk hk' ▸ hle, he ▸ hm.2⟩
      · -- it lies between the new bound and the old one, which the file `g` both reaches
        exact hreached ⟨hm.1 _ hb, ((hv f hf).trans (not_le.mp hle).le).trans (hgm.1 k hk)⟩
    · by_cases hle : f.smallestUserKey ≤ k
      · exact ih f hf ⟨hb ▸ hm.1, fun k' hk' => Option.mem_unique hk hk' ▸ hle⟩
      · exact hreached ⟨((hgm.2 k hk).trans (not_le.mp hle).le).trans (hv f hf), hm.2 _ he⟩

/-- **On level 0 `GetOverlappingInputs` finds the files that a chain of overlapping files leads to**
from the range, and no others. -/
theorem mem_getOverlappingInputs_iff {files : List FileMetaData}
    (hv : ∀ f ∈ files, f.smallestUserKey ≤ f.largestUserKey) (userBegin userEnd : Option Bytes)
    (f : FileMetaData) : f ∈ getOverlappingInputs true files userBegin userEnd ↔
      f ∈ files ∧ Reached files userBegin userEnd f := by
  obtain ⟨b, e, hfound, hwidened, -⟩ := getOverlappingInputs_spec true files userBegin userEnd
  constructor
  · intro hf
    have hfiles := hfound.sublist.subset hf
    exact ⟨hfiles, hwidened.reached hv f hfiles ((hfound.mem_iff f hfiles).mp hf)⟩
  · rintro ⟨-, g, hg, hgm, hchain⟩
    induction hchain with
    | refl => exact (hfound.mem_iff g hg).mpr (hwidened.meets hgm)
    | tail _ hstep ih => exact getOverlappingInputs_closed ih hstep.1 hstep.2.1 hstep.2.2

/-- A file from one user key to another. -/
def fileBetween (a b : UInt8) : FileMetaData where
  number := a.toNat
  fileSize := 1
  smallest := appendInternalKey [] ⟨[a], 1, .kTypeValue⟩
  largest := appendInternalKey [] ⟨[b], 1, .kTypeValue⟩
  table := []
  opened := .OK

/-- The second file meets the range and leads to the first one. -/
theorem mem_getOverlappingInputs_example :
    fileBetween 1 3 ∈ getOverlappingInputs true [fileBetween 1 3, fileBetween 2 5, fileBetween 7 9]
        (some [4]) (some [4]) ↔
      fileBetween 1 3 ∈ [fileBetween 1 3, fileBetween 2 5, fileBetween 7 9] ∧
        Reached [fileBetween 1 3, fileBetween 2 5, fileBetween 7 9] (some [4]) (some [4])
          (fileBetween 1 3) :=
  mem_getOverlappingInputs_iff (by decide) (some [4]) (some [4]) (fileBetween 1 3)

/-- The files leave no gap between two user keys. -/
abbrev Covers (files : List FileMetaData) (b e : Bytes) : Prop :=
  Intervals.Covers FileMetaData.smallestUserKey FileMetaData.largestUserKey {f | f ∈ files} b e

/-- The range of files: from the smallest of their keys to the largest. -/
structure IsRange (inputs : List FileMetaData) (r : Bytes × Bytes) : Prop where
  smallest_le : ∀ f ∈ inputs, internalRank r.1 ≤ internalRank f.smallest
  le_largest : ∀ f ∈ inputs, internalRank f.largest ≤ internalRank r.2
  exists_smallest : ∃ f ∈ inputs, f.smallest = r.1
  exists_largest : ∃ f ∈ inputs, f.largest = r.2

theorem IsRange.widen {inputs : List FileMetaData} {r : Bytes × Bytes} (h : IsRange inputs r)
    (f : FileMetaData) : IsRange (inputs ++ [f]) (widenRange r f) := by
  obtain ⟨h1, h2, ⟨a, ha, har⟩, ⟨b, hb, hbr⟩⟩ := h
  rw [widenRange]
  refine ⟨List.forall_mem_append.mpr ⟨fun g hg => ?_, List.forall_mem_singleton.mpr ?_⟩,
    List.forall_mem_append.mpr ⟨fun g hg => ?_, List.forall_mem_singleton.mpr ?_⟩, ?_, ?_⟩
  all_goals dsimp only; split_ifs with hc
  · exact (internalKeyCompare_neg_iff.mp hc).le.trans (h1 g hg)
  · exact h1 g hg
  · exact le_rfl
  · exact not_lt.mp (mt internalKeyCompare_neg_iff.mpr hc)
  · exact (h2 g hg).trans (internalKeyCompare_pos_iff.mp hc).le
  · exact h2 g hg
  · exact le_rfl
  · exact not_lt.mp (mt internalKeyCompare_pos_iff.mpr hc)
  · exact ⟨f, List.mem_append_right _ List.mem_cons_self, rfl⟩
  · exact ⟨a, List.mem_append_left _ ha, har⟩
  · exact ⟨f, List.mem_append_right _ List.mem_cons_self, rfl⟩
  · exact ⟨b, List.mem_append_left _ hb, hbr⟩

theorem IsRange.foldl : ∀ (files : List FileMetaData) {inputs : List FileMetaData}
    {r : Bytes × Bytes}, IsRange inputs r → IsRange (inputs ++ files) (files.foldl widenRange r)
  | [], inputs, _, h => (List.append_nil inputs).symm ▸ h
  | f :: files, inputs, _, h => by
      have := IsRange.foldl files (h.widen f)
      rwa [List.append_assoc, List.singleton_append] at this

/-- **`GetRange` gives the range of its inputs.** -/
theorem isRange_getRange : ∀ {inputs : List FileMetaData}, inputs ≠ [] →
    IsRange inputs (getRange inputs)
  | [], h => absurd rfl h
  | f :: inputs, _ => by
      refine @IsRange.foldl inputs [f] _ ⟨?_, ?_, ⟨f, List.mem_cons_self, rfl⟩,
        ⟨f, List.mem_cons_self, rfl⟩⟩
      · exact List.forall_mem_singleton.mpr le_rfl
      · exact List.forall_mem_singleton.mpr le_rfl

namespace IsRange

variable {inputs : List FileMetaData} {r : Bytes × Bytes}

theorem le_smallestUserKey (h : IsRange inputs r) {f : FileMetaData} (hf : f ∈ inputs) :
    extractUserKey r.1 ≤ f.smallestUserKey := userKey_le (h.smallest_le f hf)

theorem largestUserKey_le (h : IsRange inputs r) {f : FileMetaData} (hf : f ∈ inputs) :
    f.largestUserKey ≤ extractUserKey r.2 := userKey_le (h.le_largest f hf)

/-- A range without a gap can be extended to the ranges of files that meet it. -/
theorem covers (h : IsRange inputs r) {files : List FileMetaData} {b e : Bytes}
    (hcov : Covers files b e) (hsub : ∀ f ∈ inputs, f ∈ files)
    (hmeets : ∀ f ∈ inputs, f.Meets (some b) (some e)) :
    Covers files (extractUserKey r.1) (extractUserKey r.2) := by
  obtain ⟨x, hx, hxr⟩ := h.exists_smallest
  obtain ⟨y, hy, hyr⟩ := h.exists_largest
  rw [← hxr, ← hyr]
  exact (hcov.extend_left (hsub x hx) ((hmeets x hx).1 b rfl)).extend_right (hsub y hy)
    ((hmeets y hy).2 e rfl)

end IsRange

/-- **What `GetOverlappingInputs` finds** in a range without a gap, which on level 0 it may widen. -/
theorem overlapping_spec {v : VersionFiles} {level : ℕ} {range : Bytes × Bytes}
    {files : List FileMetaData} (hsub : ∀ f ∈ v level, level = 0 → f ∈ files)
    (hcov : Covers files (extractUserKey range.1) (extractUserKey range.2)) :
    ∃ b e, b ≤ extractUserKey range.1 ∧ extractUserKey range.2 ≤ e ∧ Covers files b e ∧
      Found (level = 0) (v level) (overlapping v level range) (some b) (some e) := by
  obtain ⟨b, e, hfound, hwidened, hsame⟩ := getOverlappingInputs_spec (level = 0) (v level)
    (some (extractUserKey range.1)) (some (extractUserKey range.2))
  rw [← overlapping] at hfound
  by_cases h0 : level = 0
  · have hreach : ∀ r, Widened (v level)
        (some (extractUserKey range.1), some (extractUserKey range.2)) r →
        ∃ b e, r = (some b, some e) ∧ b ≤ extractUserKey range.1 ∧ extractUserKey range.2 ≤ e ∧
          Covers files b e := by
      intro r hr
      induction hr with
      | refl => exact ⟨_, _, rfl, le_rfl, le_rfl, hcov⟩
      | tail _ hw ih =>
        obtain ⟨b, e, rfl, hb, he, hc⟩ := ih
        obtain ⟨f, hf, hm, ⟨⟨k, hk, hlt⟩, hb', he'⟩ | ⟨⟨k, hk, hlt⟩, hb', he'⟩⟩ := hw
        · obtain rfl := Option.some.inj hk
          exact ⟨f.smallestUserKey, e, Prod.ext hb' he', hlt.le.trans hb, he,
            hc.extend_left (hsub f hf h0) (hm.1 _ rfl)⟩
        · obtain rfl := Option.some.inj hk
          exact ⟨b, f.largestUserKey, Prod.ext hb' he', hb, he.trans hlt.le,
            hc.extend_right (hsub f hf h0) (hm.2 _ rfl)⟩
    obtain ⟨b', e', heq, hb, he, hc⟩ := hreach _ hwidened
    obtain ⟨rfl, rfl⟩ := Prod.ext_iff.mp heq
    exact ⟨b', e', hb, he, hc, hfound⟩
  · obtain ⟨rfl, rfl⟩ := hsame (by simpa using h0)
    exact ⟨_, _, le_rfl, le_rfl, hcov, hfound⟩

/-! ## The inputs -/

/-- Files of a level that a compaction may take out of it; together with `rest` they leave no gap in
their range. -/
structure Inputs0 (v : VersionFiles) (level : ℕ) (inputs0 rest : List FileMetaData) : Prop where
  ne_nil : inputs0 ≠ []
  sublist : inputs0.Sublist (v level)
  closed : level = 0 → ∀ f ∈ inputs0, ∀ g ∈ v 0, f.Overlaps g → g ∈ inputs0
  covers : Covers (inputs0 ++ rest) (extractUserKey (getRange inputs0).1)
    (extractUserKey (getRange inputs0).2)

/-- **The inputs of a compaction**: what overlaps those of `level` in the next level is among them,
and they leave no gap in their range. -/
structure Picked (v : VersionFiles) (level : ℕ) (inputs0 inputs1 : List FileMetaData) : Prop where
  ne_nil : inputs0 ≠ []
  sublist0 : inputs0.Sublist (v level)
  sublist1 : inputs1.Sublist (v (level + 1))
  closed0 : level = 0 → ∀ f ∈ inputs0, ∀ g ∈ v 0, f.Overlaps g → g ∈ inputs0
  closed1 : ∀ f ∈ inputs0, ∀ g ∈ v (level + 1), f.Overlaps g → g ∈ inputs1
  covers : Covers (inputs0 ++ inputs1) (extractUserKey (getRange2 inputs0 inputs1).1)
    (extractUserKey (getRange2 inputs0 inputs1).2)

section Picking

variable {v : VersionFiles} {level : ℕ} {inputs0 inputs1 rest : List FileMetaData}

/-- The files of the next level that go with inputs. -/
theorem found_next (v : VersionFiles) (level : ℕ) (range : Bytes × Bytes) :
    Found false (v (level + 1)) (overlapping v (level + 1) range)
      (some (extractUserKey range.1)) (some (extractUserKey range.2)) := by
  obtain ⟨b, e, hfound, -, hsame⟩ := getOverlappingInputs_spec (level + 1 = 0) (v (level + 1))
    (some (extractUserKey range.1)) (some (extractUserKey range.2))
  obtain ⟨rfl, rfl⟩ := hsame rfl
  exact hfound

/-- All files of a version have a range. -/
def Ranged (v : VersionFiles) : Prop :=
  ∀ level, ∀ f ∈ v level, f.smallestUserKey ≤ f.largestUserKey

theorem IsRange.meets {r : Bytes × Bytes} (h : IsRange inputs0 r) {f : FileMetaData}
    (hf : f ∈ inputs0) (hle : f.smallestUserKey ≤ f.largestUserKey) :
    f.Meets (some (extractUserKey r.1)) (some (extractUserKey r.2)) :=
  ⟨fun _ hk => Option.some.inj hk ▸ (h.le_smallestUserKey hf).trans hle,
    fun _ hk => Option.some.inj hk ▸ hle.trans (h.largestUserKey_le hf)⟩

/-- **The inputs of the next level complete those of a level.** -/
theorem Inputs0.picked (h : Inputs0 v level inputs0 rest) (hv : Ranged v)
    (hrest : ∀ f ∈ rest, f ∈ overlapping v (level + 1) (getRange inputs0)) :
    Picked v level inputs0 (overlapping v (level + 1) (getRange inputs0)) := by
  have hrange := isRange_getRange h.ne_nil
  have hfound := found_next v level (getRange inputs0)
  refine ⟨h.ne_nil, h.sublist, hfound.sublist, h.closed, fun f hf g hg hfg => ?_, ?_⟩
  · refine (hfound.mem_iff g hg).mpr ⟨fun k hk => ?_, fun k hk => ?_⟩
    · exact Option.some.inj hk ▸ (hrange.le_smallestUserKey hf).trans hfg.1
    · exact Option.some.inj hk ▸ hfg.2.trans (hrange.largestUserKey_le hf)
  · have hcov : Covers (inputs0 ++ overlapping v (level + 1) (getRange inputs0)) _ _ :=
      h.covers.mono fun f hf => (List.mem_append.mp hf).elim (List.mem_append_left _)
        fun hf => List.mem_append_right _ (hrest f hf)
    refine (isRange_getRange (List.append_ne_nil_of_left_ne_nil h.ne_nil _)).covers hcov
      (fun _ hf => hf) fun f hf => ?_
    rcases List.mem_append.mp hf with hf | hf
    · exact hrange.meets hf (hv level f (h.sublist.subset hf))
    · exact (hfound.mem_iff f (hfound.sublist.subset hf)).mp hf

/-- **What overlaps a range without a gap** can be taken out of its level. -/
theorem inputs0_overlapping {range : Bytes × Bytes}
    (hcov : Covers (v level ++ rest) (extractUserKey range.1) (extractUserKey range.2))
    (hex : ∃ f ∈ v level, f.Meets (some (extractUserKey range.1)) (some (extractUserKey range.2))) :
    Inputs0 v level (overlapping v level range) rest ∧ ∀ f ∈ v level,
      f.Meets (some (extractUserKey range.1)) (some (extractUserKey range.2)) →
      f ∈ overlapping v level range := by
  obtain ⟨b, e, hb, he, hcov, hfound⟩ :=
    overlapping_spec (fun f hf _ => List.mem_append_left _ hf) hcov
  have hmem : ∀ f ∈ v level,
      f.Meets (some (extractUserKey range.1)) (some (extractUserKey range.2)) →
      f ∈ overlapping v level range := fun f hf ⟨hm, hm'⟩ =>
    (hfound.mem_iff f hf).mpr ⟨fun k hk => Option.some.inj hk ▸ hb.trans (hm _ rfl),
      fun k hk => Option.some.inj hk ▸ (hm' _ rfl).trans he⟩
  obtain ⟨x, hx, hmx⟩ := hex
  have hne : overlapping v level range ≠ [] := List.ne_nil_of_mem (hmem x hx hmx)
  refine ⟨⟨hne, hfound.sublist, ?_, ?_⟩, hmem⟩
  · rintro rfl f hf g hg hfg
    exact getOverlappingInputs_closed hf hg hfg.1 hfg.2
  · have hcov' : Covers (overlapping v level range ++ rest) b e := by
      intro k hbk hke
      obtain ⟨f, hf, hlo, hhi⟩ := hcov k hbk hke
      refine ⟨f, ?_, hlo, hhi⟩
      rcases List.mem_append.mp hf with hf | hf
      · exact List.mem_append_left _ ((hfound.mem_iff f hf).mpr
          ⟨fun x hx => Option.some.inj hx ▸ hbk.trans hhi,
            fun x hx => Option.some.inj hx ▸ hlo.trans hke⟩)
      · exact List.mem_append_right _ hf
    exact (isRange_getRange hne).covers hcov' (fun f hf => List.mem_append_left _ hf)
      fun f hf => (hfound.mem_iff f (hfound.sublist.subset hf)).mp hf

/-- More files have a wider range. -/
theorem IsRange.mono {files : List FileMetaData} {r r' : Bytes × Bytes} (h : IsRange inputs0 r)
    (h' : IsRange files r') (hsub : ∀ f ∈ inputs0, f ∈ files) :
    extractUserKey r'.1 ≤ extractUserKey r.1 ∧ extractUserKey r.2 ≤ extractUserKey r'.2 := by
  obtain ⟨x, hx, hxr⟩ := h.exists_smallest
  obtain ⟨y, hy, hyr⟩ := h.exists_largest
  rw [← hxr, ← hyr]
  exact ⟨h'.le_smallestUserKey (hsub x hx), h'.largestUserKey_le (hsub y hy)⟩

/-- **Growing the inputs of a level keeps what they must be.** -/
theorem Picked.expanded (h : Picked v level inputs0 inputs1) (hv : Ranged v)
    (h1 : inputs1 = overlapping v (level + 1) (getRange inputs0)) :
    Inputs0 v level (overlapping v level (getRange2 inputs0 inputs1)) inputs1 ∧
      ∀ f ∈ inputs1, f ∈ overlapping v (level + 1)
        (getRange (overlapping v level (getRange2 inputs0 inputs1))) := by
  have hrange := isRange_getRange (List.append_ne_nil_of_left_ne_nil h.ne_nil inputs1)
  have hmeets : ∀ f ∈ inputs0, f.Meets _ _ := fun f hf =>
    hrange.meets (List.mem_append_left _ hf) (hv level f (h.sublist0.subset hf))
  obtain ⟨x, hx⟩ := List.exists_mem_of_ne_nil _ h.ne_nil
  have hcov : Covers (v level ++ inputs1) _ _ := h.covers.mono fun f hf =>
    (List.mem_append.mp hf).elim (fun hf => List.mem_append_left _ (h.sublist0.subset hf))
      (List.mem_append_right _)
  obtain ⟨hexp, hmem⟩ := inputs0_overlapping hcov ⟨x, h.sublist0.subset hx, hmeets x hx⟩
  refine ⟨hexp, fun f hf => ?_⟩
  -- the range has grown
  obtain ⟨hlo, hhi⟩ := (isRange_getRange h.ne_nil).mono (isRange_getRange hexp.ne_nil)
    fun f hf => hmem f (h.sublist0.subset hf) (hmeets f hf)
  have hf1 := h.sublist1.subset hf
  rw [h1] at hf
  obtain ⟨hm, hm'⟩ := ((found_next v level _).mem_iff f hf1).mp hf
  exact ((found_next v level _).mem_iff f hf1).mpr
    ⟨fun k hk => Option.some.inj hk ▸ hlo.trans (hm _ rfl),
      fun k hk => Option.some.inj hk ▸ (hm' _ rfl).trans hhi⟩

/-- **What `SetupOtherInputs` makes of the inputs of a level.** -/
theorem Inputs0.setupOtherInputs (h : Inputs0 v level inputs0 []) (hv : Ranged v) :
    ∃ inputs0' inputs1, Picked v level inputs0' inputs1 ∧
      (Leveldb.setupOtherInputs v level inputs0).1 = .new level v inputs0' inputs1
        (if level + 2 < kNumLevels then overlapping v (level + 2) (getRange2 inputs0' inputs1)
          else []) := by
  have hp := h.picked hv fun f hf => (by cases hf)
  set inputs1 := overlapping v (level + 1) (getRange inputs0) with h1
  refine ⟨(expandInputs v level inputs0 inputs1).1, (expandInputs v level inputs0 inputs1).2, ?_, rfl⟩
  rw [expandInputs]
  split_ifs
  · obtain ⟨hexp, hrest⟩ := hp.expanded hv h1
    exact hexp.picked hv hrest
  · exact hp

theorem pickFile_mem {compactPointer : ℕ → Bytes} {pick : Pick} {f : FileMetaData}
    (h : pickFile v compactPointer pick = some f) : f ∈ v pick.level := by
  cases pick with
  | size level =>
    rcases Option.or_eq_some_iff.mp h with h | ⟨-, h⟩
    · exact List.mem_of_find?_eq_some h
    · exact List.mem_of_mem_head? h
  | seek level index => exact List.mem_of_getElem? h

/-- **The inputs of a compaction that is picked**: nothing that overlaps them is missing, and they
leave no gap. -/
theorem pickCompaction_picked (hv : Ranged v) {compactPointer : ℕ → Bytes} {pick : Pick}
    {c : Compaction} {pointer : Bytes} (h : pickCompaction v compactPointer pick = some (c, pointer)) :
    Picked v c.level c.inputs0 c.inputs1 ∧ ∃ grandparents,
      c = .new pick.level v c.inputs0 c.inputs1 grandparents := by
  obtain ⟨f, hf, heq⟩ := Option.map_eq_some_iff.mp h
  have hmem := pickFile_mem hf
  have hsingle : IsRange [f] (getRange [f]) := isRange_getRange (List.cons_ne_nil _ _)
  have hinputs : Inputs0 v pick.level
      (if pick.level = 0 then overlapping v 0 (getRange [f]) else [f]) [] := by
    have hle := hv pick.level f hmem
    split_ifs with h0
    · rw [h0] at hmem ⊢
      have hf : f ∈ v 0 ++ [] := List.mem_append_left _ hmem
      have hcov : Covers (v 0 ++ []) (extractUserKey (getRange [f]).1)
        (extractUserKey (getRange [f]).2) := fun k hb he => ⟨f, hf, hb, he⟩
      exact (inputs0_overlapping hcov ⟨f, hmem, hsingle.meets List.mem_cons_self hle⟩).1
    · exact ⟨List.cons_ne_nil _ _, List.singleton_sublist.mpr hmem, fun h => absurd h h0,
        Intervals.covers_single List.mem_cons_self⟩
  obtain ⟨inputs0', inputs1, hp, hc⟩ := hinputs.setupOtherInputs hv
  rw [heq] at hc
  subst hc
  exact ⟨hp, _, rfl⟩

theorem Picked.mem_input (h : Picked v level inputs0 inputs1) {x : FileMetaData}
    (hx : x ∈ inputs0 ++ inputs1) :
    x ∈ v level ∧ x ∈ inputs0 ∨ x ∈ v (level + 1) ∧ x ∈ inputs1 :=
  (List.mem_append.mp hx).imp (fun hx => ⟨h.sublist0.subset hx, hx⟩)
    fun hx => ⟨h.sublist1.subset hx, hx⟩

theorem Picked.exists_level (h : Picked v level inputs0 inputs1) {x : FileMetaData}
    (hx : x ∈ inputs0 ++ inputs1) :
    ∃ j ≤ level + 1, x ∈ v j :=
  (h.mem_input hx).elim (fun hx => ⟨level, Nat.le_succ _, hx.1⟩) fun hx => ⟨_, le_rfl, hx.1⟩

/-- **What meets the range of the inputs overlaps one of them.** -/
theorem Picked.exists_overlaps (h : Picked v level inputs0 inputs1) (hv : Ranged v)
    {g : FileMetaData} (hg : g.smallestUserKey ≤ g.largestUserKey)
    (hm : g.Meets (some (extractUserKey (getRange2 inputs0 inputs1).1))
      (some (extractUserKey (getRange2 inputs0 inputs1).2))) :
    ∃ f ∈ inputs0 ++ inputs1, f.Overlaps g := by
  have hrange := isRange_getRange (List.append_ne_nil_of_left_ne_nil h.ne_nil inputs1)
  obtain ⟨x, hx⟩ := List.exists_mem_of_ne_nil _ h.ne_nil
  have hx' := List.mem_append_left inputs1 hx
  have hle := ((hrange.le_smallestUserKey hx').trans (hv level x (h.sublist0.subset hx))).trans
    (hrange.largestUserKey_le hx')
  exact h.covers.exists_meets hle hg (hm.1 _ rfl) (hm.2 _ rfl)

end Picking

/-! ## The level of a new table -/

section PickLevel

variable {v : VersionFiles} {s l : Bytes}

theorem overlapInLevel_iff {level : ℕ} (h : 0 < level → LevelSorted (v level)) :
    overlapInLevel v level s l = true ↔ ∃ f ∈ v level, f.Meets (some s) (some l) :=
  someFileOverlapsRange_iff (fun hl => h (of_decide_eq_true hl)) _ _

theorem pickLevelLoop_spec (hv : ∀ level, 0 < level → level < kNumLevels → LevelSorted (v level)) :
    ∀ (n level : ℕ), level + n < kNumLevels →
    (∀ i ≤ level, ∀ f ∈ v i, ¬ f.Meets (some s) (some l)) →
    pickLevelLoop v s l n level ≤ level + n ∧
      ∀ i ≤ pickLevelLoop v s l n level, ∀ f ∈ v i, ¬ f.Meets (some s) (some l)
  | 0, level, _, h => ⟨le_rfl, h⟩
  | n + 1, level, hn, h => by
      rw [pickLevelLoop]
      split_ifs with ho hg
      · exact ⟨Nat.le_add_right _ _, h⟩
      · exact ⟨Nat.le_add_right _ _, h⟩
      · rw [overlapInLevel_iff fun hl => hv _ hl (by omega)] at ho
        obtain ⟨hle, hfree⟩ := pickLevelLoop_spec hv n (level + 1) (by omega) fun i hi f hf hm => by
          rcases Nat.le_succ_iff.mp hi with hi | rfl
          · exact h i hi f hf hm
          · exact ho ⟨f, hf, hm⟩
        exact ⟨by omega, hfree⟩

/-- **The level of a new table**: above level 0 no file up to this level meets its range. -/
theorem pickLevel_spec (hv : ∀ level, 0 < level → level < kNumLevels → LevelSorted (v level)) :
    pickLevelForMemTableOutput v s l ≤ kMaxMemCompactLevel ∧
      (0 < pickLevelForMemTableOutput v s l → ∀ i ≤ pickLevelForMemTableOutput v s l, ∀ f ∈ v i,
        ¬ f.Meets (some s) (some l)) := by
  rw [pickLevelForMemTableOutput]
  split_ifs with ho
  · exact ⟨Nat.zero_le _, fun h => absurd h (lt_irrefl 0)⟩
  · rw [overlapInLevel_iff fun h => absurd h (lt_irrefl 0)] at ho
    obtain ⟨hle, hfree⟩ := pickLevelLoop_spec (v := v) (s := s) (l := l) hv kMaxMemCompactLevel 0
      (by decide) fun i hi f hf hm => by
        obtain rfl := Nat.le_zero.mp hi
        exact ho ⟨f, hf, hm⟩
    exact ⟨hle.trans (Nat.zero_add _).le, fun _ => hfree⟩

end PickLevel

end Leveldb
