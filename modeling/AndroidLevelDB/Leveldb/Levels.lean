import AndroidLevelDB.Lib.Levels
import AndroidLevelDB.Leveldb.PickCompaction
import AndroidLevelDB.Leveldb.VersionBuilder

/-!
# Leveldb/Levels — the order of the levels

In the levels of a database the files above level 0 do not overlap, and a key's versions are newer
the further up they are (`Levels`).  So the levels are sorted for binary search (`Levels.sorted`).
Files can be put into a level in place of others where nothing is in their way (`Levels.replace`).
-/

namespace Leveldb

/-- The versions in a list of entries. -/
def versionsOf (es : List Entry) : Set (Version Bytes Bytes) := {v | ∃ e ∈ es, e.version = v}

theorem mem_versionsOf {es : List Entry} {v : Version Bytes Bytes} :
    v ∈ versionsOf es ↔ ∃ e ∈ es, e.version = v := Iff.rfl

/-- The versions of a key in `es` are newer than those in `es'`. -/
def Above (es es' : List Entry) : Prop := Version.Above (versionsOf es) (versionsOf es')

theorem above_iff {es es' : List Entry} : Above es es' ↔ ∀ e ∈ es, ∀ e' ∈ es',
    e.version.key = e'.version.key → e'.version.seq < e.version.seq := by
  constructor
  · exact fun h e he e' he' => h _ ⟨e, he, rfl⟩ _ ⟨e', he', rfl⟩
  · rintro h _ ⟨e, he, rfl⟩ _ ⟨e', he', rfl⟩
    exact h e he e' he'

theorem Above.disjoint {as bs : List Entry} (h : Above as bs) : ∀ a ∈ as, ∀ b ∈ bs, a ≠ b := by
  rintro a ha _ hb rfl
  exact lt_irrefl _ (above_iff.mp h a ha a hb rfl)

theorem Above.of_perm_append {as bs mem es : List Entry} (hp : mem.Perm (as ++ bs))
    (ha : Above as es) (hb : Above bs es) : Above mem es := by
  rw [above_iff] at ha hb ⊢
  intro e he
  rcases List.mem_append.mp (hp.mem_iff.mp he) with he | he
  · exact ha e he
  · exact hb e he

namespace FileMetaData

/-- **A table file as it is built**: its entries can be read and are sorted, and its bounds are the
first and the last of them. -/
structure Built (f : FileMetaData) : Prop where
  table : f.table = f.stored.map Cell.entry
  opened : f.opened = .OK
  wellFormed : ∀ e ∈ f.stored, e.WellFormed
  sorted : KeySorted Entry.rank f.stored
  smallest : f.stored.head?.map Entry.key = some f.smallest
  largest : f.stored.getLast?.map Entry.key = some f.largest

namespace Built

variable {f g : FileMetaData}

theorem exists_smallest (h : f.Built) : ∃ e ∈ f.stored, e.key = f.smallest := by
  obtain ⟨e, he, hk⟩ := Option.map_eq_some_iff.mp h.smallest
  exact ⟨e, List.mem_of_mem_head? he, hk⟩

theorem exists_largest (h : f.Built) : ∃ e ∈ f.stored, e.key = f.largest := by
  obtain ⟨e, he, hk⟩ := Option.map_eq_some_iff.mp h.largest
  exact ⟨e, List.mem_of_getLast? he, hk⟩

/-- The entries of a file lie between its bounds. -/
theorem range (h : f.Built) {e : Entry} (he : e ∈ f.stored) :
    internalRank f.smallest ≤ e.rank ∧ e.rank ≤ internalRank f.largest := by
  have hs := h.sorted
  obtain ⟨a, ha, hak⟩ := Option.map_eq_some_iff.mp h.smallest
  obtain ⟨b, hb, hbk⟩ := Option.map_eq_some_iff.mp h.largest
  obtain ⟨rest, hrest⟩ := List.head?_eq_some_iff.mp ha
  obtain ⟨init, hinit⟩ := List.getLast?_eq_some_iff.mp hb
  rw [← hak, ← hbk]
  refine ⟨?_, ?_⟩
  · rw [hrest] at hs he
    exact hs.le_of_mem he
  · rw [hinit] at hs he
    rcases List.mem_append.mp he with he | he
    · exact ((List.pairwise_append.mp hs).2.2 e he b List.mem_cons_self).le
    · exact (List.mem_singleton.mp he) ▸ le_rfl

theorem userKey_range (h : f.Built) {e : Entry} (he : e ∈ f.stored) :
    f.smallestUserKey ≤ e.version.key ∧ e.version.key ≤ f.largestUserKey := by
  rw [(h.wellFormed e he).version_key]
  exact ⟨userKey_le (h.range he).1, userKey_le (h.range he).2⟩

theorem range_le (h : f.Built) : internalRank f.smallest ≤ internalRank f.largest := by
  obtain ⟨e, he, -⟩ := h.exists_smallest
  exact (h.range he).1.trans (h.range he).2

/-- Files with a key in common overlap. -/
theorem overlaps (hf : f.Built) (hg : g.Built) {e e' : Entry} (he : e ∈ f.stored)
    (he' : e' ∈ g.stored) (hk : e.version.key = e'.version.key) : f.Overlaps g := by
  obtain ⟨h1, h2⟩ := hf.userKey_range he
  obtain ⟨h3, h4⟩ := hg.userKey_range he'
  exact ⟨h1.trans (hk ▸ h4), h3.trans (hk ▸ h2)⟩

theorem above_of_not_overlaps (hf : f.Built) (hg : g.Built) (h : ¬ f.Overlaps g) :
    Above f.stored g.stored :=
  above_iff.mpr fun _ he _ he' hk => absurd (hf.overlaps hg he he' hk) h

end Built

theorem Overlaps.symm {f g : FileMetaData} (h : f.Overlaps g) : g.Overlaps f := ⟨h.2, h.1⟩

end FileMetaData

/-- **The levels of a database.** -/
structure Levels (v : VersionFiles) : Prop where
  empty : ∀ level, kNumLevels ≤ level → v level = []
  built : ∀ level, ∀ f ∈ v level, f.Built
  rank : ∀ level, (v level).Pairwise fun f g => f.rank < g.rank
  apart : ∀ level, 0 < level → ∀ f ∈ v level, ∀ g ∈ v level, f.Overlaps g → f = g
  above : ∀ i j, ∀ f ∈ v i, ∀ g ∈ v j, i < j ∨ i = j ∧ g.number < f.number →
    Above f.stored g.stored
  numbers : ∀ i j, ∀ f ∈ v i, ∀ g ∈ v j, f.number = g.number → i = j ∧ f = g

namespace Levels

variable {v : VersionFiles}

theorem ranged (h : Levels v) : Ranged v :=
  fun level f hf => userKey_le (h.built level f hf).range_le

/-- **Above level 0 the files are sorted and do not overlap**, so that binary search works. -/
theorem sorted (h : Levels v) {level : ℕ} (hl : 0 < level) : LevelSorted (v level) := by
  refine ⟨fun f hf => ?_, fun f hf => (h.built level f hf).range_le,
    (h.rank level).imp_of_mem fun {f g} hf hg hlt => ?_⟩
  · obtain ⟨e, he, hk⟩ := (h.built level f hf).exists_largest
    exact hk ▸ (h.built level f hf).wellFormed e he
  · have hne : ¬ f.Overlaps g := fun ho => absurd hlt (h.apart level hl f hf g hg ho ▸ lt_irrefl _)
    have hle : internalRank f.smallest ≤ internalRank g.smallest :=
      (Prod.Lex.toLex_lt_toLex.mp hlt).elim le_of_lt fun h => h.1.le
    by_contra hn
    refine hne ⟨(userKey_le hle).trans (h.ranged level g hg), userKey_le (not_lt.mp hn)⟩

end Levels

/-! ## Replacing files -/

/-- `v'` is `v` without the files `removed`, and with `new` on the level `p`. -/
structure Replaces (v v' : VersionFiles) (removed : ℕ → FileMetaData → Prop) (p : ℕ)
    (new : List FileMetaData) : Prop where
  mem_iff : ∀ level f, f ∈ v' level ↔ f ∈ v level ∧ ¬ removed level f ∨ level = p ∧ f ∈ new
  rank : ∀ level, (v' level).Pairwise fun f g => f.rank < g.rank

/-- **Nothing is in the way of new files on the level `p`**: they do not overlap what stays there,
which on level 0 may only be older; further up there are newer, further down older versions. -/
structure Enters (v : VersionFiles) (removed : ℕ → FileMetaData → Prop) (p : ℕ)
    (new : List FileMetaData) : Prop where
  level_lt : p < kNumLevels
  built : ∀ f ∈ new, f.Built
  distinct : ∀ f ∈ new, ∀ g ∈ new, f.Overlaps g ∨ f.number = g.number → f = g
  apart : 0 < p → ∀ f ∈ new, ∀ g ∈ v p, ¬ removed p g → ¬ f.Overlaps g
  newest : p = 0 → ∀ f ∈ new, ∀ g ∈ v 0, ¬ removed 0 g →
    g.number < f.number ∧ Above f.stored g.stored
  above : ∀ f ∈ new, ∀ i < p, ∀ g ∈ v i, ¬ removed i g → Above g.stored f.stored
  below : ∀ f ∈ new, ∀ i, p < i → ∀ g ∈ v i, ¬ removed i g → Above f.stored g.stored
  numbers : ∀ f ∈ new, ∀ i, ∀ g ∈ v i, ¬ removed i g → g.number ≠ f.number

/-- **Replacing files keeps the order of the levels.** -/
theorem Levels.replace {v v' : VersionFiles} {removed : ℕ → FileMetaData → Prop} {p : ℕ}
    {new : List FileMetaData} (h : Levels v) (hr : Replaces v v' removed p new)
    (he : Enters v removed p new) : Levels v' := by
  refine ⟨fun level hl => List.eq_nil_iff_forall_not_mem.mpr fun f hf => ?_, fun level f hf => ?_,
    hr.rank, fun level hl f hf g hg ho => ?_, fun i j f hf g hg hij => ?_,
    fun i j f hf g hg hn => ?_⟩
  · rcases (hr.mem_iff level f).mp hf with ⟨hf, -⟩ | ⟨rfl, -⟩
    · rw [h.empty level hl] at hf
      cases hf
    · exact absurd he.level_lt (not_lt.mpr hl)
  · rcases (hr.mem_iff level f).mp hf with ⟨hf, -⟩ | ⟨-, hf⟩
    · exact h.built level f hf
    · exact he.built f hf
  · rcases (hr.mem_iff level f).mp hf with ⟨hf, hfr⟩ | ⟨rfl, hf⟩
    · rcases (hr.mem_iff level g).mp hg with ⟨hg, hgr⟩ | ⟨rfl, hg⟩
      · exact h.apart level hl f hf g hg ho
      · exact absurd ho.symm (he.apart hl g hg f hf hfr)
    · rcases (hr.mem_iff level g).mp hg with ⟨hg, hgr⟩ | ⟨-, hg⟩
      · exact absurd ho (he.apart hl f hf g hg hgr)
      · exact he.distinct f hf g hg (.inl ho)
  · rcases (hr.mem_iff i f).mp hf with ⟨hfv, hfr⟩ | ⟨rfl, hfn⟩
    · rcases (hr.mem_iff j g).mp hg with ⟨hgv, -⟩ | ⟨rfl, hgn⟩
      · exact h.above i j f hfv g hgv hij
      · rcases hij with hij | ⟨rfl, hlt⟩
        · exact he.above g hgn i hij f hfv hfr
        · rcases Nat.eq_zero_or_pos i with rfl | hi
          · exact absurd hlt (he.newest rfl g hgn f hfv hfr).1.not_gt
          · exact (h.built i f hfv).above_of_not_overlaps (he.built g hgn)
              fun ho => he.apart hi g hgn f hfv hfr ho.symm
    · rcases (hr.mem_iff j g).mp hg with ⟨hgv, hgr⟩ | ⟨rfl, hgn⟩
      · rcases hij with hij | ⟨rfl, -⟩
        · exact he.below f hfn j hij g hgv hgr
        · rcases Nat.eq_zero_or_pos i with rfl | hi
          · exact (he.newest rfl f hfn g hgv hgr).2
          · exact (he.built f hfn).above_of_not_overlaps (h.built i g hgv)
              (he.apart hi f hfn g hgv hgr)
      · rcases hij with hij | ⟨-, hlt⟩
        · exact absurd hij (lt_irrefl _)
        · refine (he.built f hfn).above_of_not_overlaps (he.built g hgn) fun ho => ?_
          exact absurd hlt (he.distinct f hfn g hgn (.inl ho) ▸ lt_irrefl _)
  · rcases (hr.mem_iff i f).mp hf with ⟨hfv, hfr⟩ | ⟨rfl, hfn⟩
    · rcases (hr.mem_iff j g).mp hg with ⟨hgv, -⟩ | ⟨rfl, hgn⟩
      · exact h.numbers i j f hfv g hgv hn
      · exact absurd hn (he.numbers g hgn i f hfv hfr)
    · rcases (hr.mem_iff j g).mp hg with ⟨hgv, hgr⟩ | ⟨rfl, hgn⟩
      · exact absurd hn.symm (he.numbers f hfn j g hgv hgr)
      · exact ⟨rfl, he.distinct f hfn g hgn (.inr hn)⟩

end Leveldb
