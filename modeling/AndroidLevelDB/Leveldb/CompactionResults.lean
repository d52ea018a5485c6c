import AndroidLevelDB.Leveldb.LeveledDb
import AndroidLevelDB.Leveldb.Levels

/-!
# Leveldb/CompactionResults — the input and the output of a compaction

The inputs of a running compaction have a merge (`exists_input`), and they are in order with
the files beside them (`Picked.above`).  Its outputs are table files in order, which do not overlap
as long as no user key goes to two of them (`Outputs.distinct`, `KeysApart`).
-/

namespace Leveldb

/-! ## Sources -/

theorem readable_memSource (es : List Entry) : readable (DBImpl.memSource es).cells = es := by
  rw [readable, DBImpl.memSource, List.filterMap_map]
  exact List.filterMap_some

/-- A file that is built is read like a memtable. -/
theorem FileMetaData.Built.source_eq {f : FileMetaData} (h : f.Built) :
    f.source = DBImpl.memSource f.stored := by
  rw [FileMetaData.source, h.opened, h.table, DBImpl.memSource, FileMetaData.stored]

/-- So are files one behind the other. -/
theorem concatenating_eq {files : List FileMetaData} (h : ∀ f ∈ files, f.Built) :
    concatenating files = DBImpl.memSource (files.flatMap FileMetaData.stored) := by
  rw [concatenating, DBImpl.memSource, List.map_flatMap]
  refine congrArg (Source.mk · .OK) (List.flatMap_congr fun f hf => ?_)
  rw [FileMetaData.cells, (h f hf).opened]
  exact (h f hf).table

/-! ## The input -/

namespace Levels

variable {v : VersionFiles}

/-- Of two files one is above the other. -/
theorem above_or (h : Levels v) {i j : ℕ} {f g : FileMetaData} (hf : f ∈ v i) (hg : g ∈ v j)
    (hne : f ≠ g) : Above f.stored g.stored ∨ Above g.stored f.stored := by
  rcases lt_trichotomy i j with hij | rfl | hij
  · exact .inl (h.above i j f hf g hg (.inl hij))
  · rcases lt_trichotomy f.number g.number with hn | hn | hn
    · exact .inr (h.above i i g hg f hf (.inr ⟨rfl, hn⟩))
    · exact absurd (h.numbers i i f hf g hg hn).2 hne
    · exact .inl (h.above i i f hf g hg (.inr ⟨rfl, hn⟩))
  · exact .inr (h.above j i g hg f hf (.inl hij))

theorem nodup (h : Levels v) (level : ℕ) : (v level).Nodup :=
  (h.rank level).imp fun hlt heq => hlt.ne (congrArg (fun f => f.rank) heq)

/-- Files of a level above 0 follow one another. -/
theorem stored_sorted (h : Levels v) {level : ℕ} (hl : 0 < level) {files : List FileMetaData}
    (hs : files.Sublist (v level)) :
    KeySorted Entry.rank (files.flatMap FileMetaData.stored) := by
  have hb := h.built level
  refine List.pairwise_flatMap.mpr ⟨fun f hf => (hb f (hs.subset hf)).sorted,
    ((h.sorted hl).pairwise.sublist hs).imp_of_mem fun {f g} hf hg hlt e he e' he' => ?_⟩
  exact ((hb f (hs.subset hf)).range he).2.trans_lt
    (hlt.trans_le ((hb g (hs.subset hg)).range he').1)

end Levels

namespace Picked

variable {v : VersionFiles} {level i : ℕ} {inputs0 inputs1 : List FileMetaData} {x g : FileMetaData}

/-- What stays of the next level does not overlap an input. -/
theorem not_overlaps (h : Picked v level inputs0 inputs1) (hv : Levels v)
    (hx : x ∈ inputs0 ++ inputs1) (hg : g ∈ v (level + 1)) (hstay : g ∉ inputs1) :
    ¬ x.Overlaps g := by
  intro ho
  rcases h.mem_input hx with ⟨-, hx⟩ | ⟨hxv, hx⟩
  · exact hstay (h.closed1 x hx g hg ho)
  · exact hstay (hv.apart _ (Nat.succ_pos _) x hxv g hg ho ▸ hx)

/-- **What stays in the levels of the inputs and above is newer than they are.** -/
theorem above (h : Picked v level inputs0 inputs1) (hv : Levels v) (hx : x ∈ inputs0 ++ inputs1)
    (hi : i ≤ level + 1) (hg : g ∈ v i)
    (hstay : ¬ (i = level ∧ g ∈ inputs0 ∨ i = level + 1 ∧ g ∈ inputs1)) :
    Above g.stored x.stored := by
  rcases hi.lt_or_eq with hi | rfl
  · rcases h.mem_input hx with ⟨hxv, hx⟩ | ⟨hxv, -⟩
    · rcases (Nat.lt_succ_iff.mp hi).lt_or_eq with hi | rfl
      · exact hv.above i level g hg x hxv (.inl hi)
      · have hg0 : g ∉ inputs0 := fun hg0 => hstay (.inl ⟨rfl, hg0⟩)
        refine (hv.built i g hg).above_of_not_overlaps (hv.built i x hxv) fun ho => hg0 ?_
        rcases Nat.eq_zero_or_pos i with rfl | hpos
        · exact h.closed0 rfl x hx g hg ho.symm
        · exact hv.apart i hpos g hg x hxv ho ▸ hx
    · exact hv.above i _ g hg x hxv (.inl hi)
  · obtain ⟨j, -, hxv⟩ := h.exists_level hx
    refine (hv.built _ g hg).above_of_not_overlaps (hv.built j x hxv) fun ho => ?_
    exact h.not_overlaps hv hx hg (fun hg1 => hstay (.inr ⟨rfl, hg1⟩)) ho.symm

theorem below (h : Picked v level inputs0 inputs1) (hv : Levels v) (hx : x ∈ inputs0 ++ inputs1)
    (hi : level + 1 < i) (hg : g ∈ v i) : Above x.stored g.stored := by
  obtain ⟨j, hj, hxv⟩ := h.exists_level hx
  exact hv.above j i x hxv g hg (.inl (hj.trans_lt hi))

/-- What overlaps a file with entries of the inputs overlaps an input. -/
theorem exists_overlaps_input (h : Picked v level inputs0 inputs1) (hv : Levels v)
    {f : FileMetaData} (hf : f.Built)
    (hin : ∀ e ∈ f.stored, ∃ x ∈ inputs0 ++ inputs1, e ∈ x.stored)
    (hg : g.smallestUserKey ≤ g.largestUserKey) (ho : f.Overlaps g) :
    ∃ x ∈ inputs0 ++ inputs1, x.Overlaps g := by
  have hrange := isRange_getRange (List.append_ne_nil_of_left_ne_nil h.ne_nil inputs1)
  have hbuilt {x : FileMetaData} (hx : x ∈ inputs0 ++ inputs1) : x.Built :=
    let ⟨j, _, hxv⟩ := h.exists_level hx
    hv.built j x hxv
  refine h.exists_overlaps hv.ranged hg ⟨fun k hk => ?_, fun k hk => ?_⟩
  · obtain rfl := Option.some.inj hk
    obtain ⟨e, he, hek⟩ := hf.exists_smallest
    obtain ⟨x, hx, hex⟩ := hin e he
    refine le_trans (userKey_le ?_) ho.1
    exact (hrange.smallest_le x hx).trans (hek ▸ ((hbuilt hx).range hex).1)
  · obtain rfl := Option.some.inj hk
    obtain ⟨e, he, hek⟩ := hf.exists_largest
    obtain ⟨x, hx, hex⟩ := hin e he
    refine ho.2.trans (userKey_le ?_)
    exact le_trans (hek ▸ ((hbuilt hx).range hex).2) (hrange.le_largest x hx)

theorem nodup (h : Picked v level inputs0 inputs1) (hv : Levels v) :
    (inputs0 ++ inputs1).Nodup := by
  refine List.nodup_append.mpr
    ⟨(hv.nodup _).sublist h.sublist0, (hv.nodup _).sublist h.sublist1, ?_⟩
  intro f hf g hg heq
  exact absurd (hv.numbers _ _ f (h.sublist0.subset hf) g (h.sublist1.subset hg) (heq ▸ rfl)).1
    (Nat.succ_ne_self level).symm

end Picked

section Input

variable {c : Compaction} {v : VersionFiles} (hv : Levels v)
  (hp : Picked v c.level c.inputs0 c.inputs1)

include hv hp in
/-- The inputs are sorted, and have the entries of their files. -/
theorem inputSources_spec : (∀ src ∈ c.inputSources, src.Sorted) ∧
    (c.inputSources.map fun src => readable src.cells).flatten
      = (c.inputs0 ++ c.inputs1).flatMap FileMetaData.stored := by
  have hb0 : ∀ f ∈ c.inputs0, f.Built := fun f hf => hv.built _ f (hp.sublist0.subset hf)
  have hconcat {level : ℕ} (hl : 0 < level) {files : List FileMetaData}
      (hs : files.Sublist (v level)) : (concatenating files).Sorted ∧
        readable (concatenating files).cells = files.flatMap FileMetaData.stored := by
    rw [concatenating_eq fun f hf => hv.built level f (hs.subset hf)]
    exact ⟨sorted_memSource (hv.stored_sorted hl hs), readable_memSource _⟩
  have h0 : ∃ sources, (if c.inputs0.isEmpty then []
      else if c.level = 0 then c.inputs0.map FileMetaData.source else [concatenating c.inputs0])
        = sources ∧ (∀ src ∈ sources, src.Sorted) ∧
      (sources.map fun src => readable src.cells).flatten
        = c.inputs0.flatMap FileMetaData.stored := by
    refine ⟨_, rfl, ?_⟩
    split_ifs with hnil hlevel
    · rw [List.isEmpty_iff.mp hnil]
      exact ⟨fun _ hs => (by cases hs), rfl⟩
    · refine ⟨fun src hs => ?_, ?_⟩
      · obtain ⟨f, hf, rfl⟩ := List.mem_map.mp hs
        exact (hb0 f hf).source_eq ▸ sorted_memSource (hb0 f hf).sorted
      · rw [List.map_map, ← List.flatMap_def]
        refine List.flatMap_congr fun f hf => ?_
        rw [Function.comp_apply, (hb0 f hf).source_eq, readable_memSource]
    · obtain ⟨hs, hr⟩ := hconcat (Nat.pos_of_ne_zero hlevel) hp.sublist0
      exact ⟨List.forall_mem_singleton.mpr hs, by simp [hr]⟩
  have h1 : ∃ sources, (if c.inputs1.isEmpty then [] else [concatenating c.inputs1]) = sources ∧
      (∀ src ∈ sources, src.Sorted) ∧
      (sources.map fun src => readable src.cells).flatten
        = c.inputs1.flatMap FileMetaData.stored := by
    refine ⟨_, rfl, ?_⟩
    split_ifs with hnil
    · rw [List.isEmpty_iff.mp hnil]
      exact ⟨fun _ hs => (by cases hs), rfl⟩
    · obtain ⟨hs, hr⟩ := hconcat (Nat.succ_pos _) hp.sublist1
      exact ⟨List.forall_mem_singleton.mpr hs, by simp [hr]⟩
  obtain ⟨s0, hs0, hsorted0, hr0⟩ := h0
  obtain ⟨s1, hs1, hsorted1, hr1⟩ := h1
  rw [Compaction.inputSources, hs0, hs1]
  exact ⟨List.forall_mem_append.mpr ⟨hsorted0, hsorted1⟩,
    by rw [List.map_append, List.flatten_append, List.flatMap_append, hr0, hr1]⟩

include hv hp in
/-- **The input of a compaction has a merge**, in which no version is there twice. -/
theorem exists_input (hd : ∀ f ∈ c.inputs0 ++ c.inputs1, ∀ e ∈ f.stored,
      ∀ g ∈ c.inputs0 ++ c.inputs1, ∀ e' ∈ g.stored, e.version.seq = e'.version.seq → e = e') :
    ∃ L, Versioned L ∧
    Merged Entry.rank (c.inputSources.map fun src => readable src.cells) L ∧
    ∀ e, e ∈ L ↔ ∃ f ∈ c.inputs0 ++ c.inputs1, e ∈ f.stored := by
  obtain ⟨-, hflat⟩ := inputSources_spec hv hp
  set inputs := c.inputs0 ++ c.inputs1 with hinputs
  have hbuilt : ∀ f ∈ inputs, f.Built := fun f hf =>
    let ⟨j, _, hfv⟩ := hp.exists_level hf
    hv.built j f hfv
  have hwf : ∀ e ∈ inputs.flatMap FileMetaData.stored, e.WellFormed := fun e he =>
    let ⟨f, hf, he⟩ := List.mem_flatMap.mp he
    (hbuilt f hf).wellFormed e he
  -- two entries of one rank would be one version in two files, of which one is above the other
  have hnodup :
      ((c.inputSources.map fun src => readable src.cells).flatten.map Entry.rank).Nodup := by
    rw [hflat]
    refine List.pairwise_map.mpr (List.pairwise_flatMap.mpr
      ⟨fun f hf => (hbuilt f hf).sorted.imp fun hlt => hlt.ne, ?_⟩)
    refine (hp.nodup hv).imp_of_mem fun {f g} hf hg hne e he e' he' heq => ?_
    obtain ⟨i, -, hfv⟩ := hp.exists_level hf
    obtain ⟨j, -, hgv⟩ := hp.exists_level hg
    have hver := Entry.version_eq_of_rank_eq ((hbuilt f hf).wellFormed e he)
      ((hbuilt g hg).wellFormed e' he') heq
    rcases hv.above_or hfv hgv hne with ha | ha
    · exact absurd (above_iff.mp ha e he e' he' hver.1) (hver.2 ▸ lt_irrefl _)
    · exact absurd (above_iff.mp ha e' he' e he hver.1.symm) (hver.2 ▸ lt_irrefl _)
  have hm := merged_mergeAll hnodup
  have hmem (e : Entry) :
      e ∈ mergeAll Entry.rank (c.inputSources.map fun src => readable src.cells) ↔
        ∃ f ∈ inputs, e ∈ f.stored := by
    rw [hm.perm.mem_iff, hflat, List.mem_flatMap]
  refine ⟨_, ⟨fun e he => ?_, hm.sorted, ?_⟩, hm, hmem⟩
  · exact hwf e (List.mem_flatMap.mpr ((hmem e).mp he))
  · refine hm.sorted.imp_of_mem fun {e e'} he he' hlt hver => hlt.ne (congrArg _ ?_)
    obtain ⟨f, hf, he⟩ := (hmem e).mp he
    obtain ⟨g, hg, he'⟩ := (hmem e').mp he'
    exact hd f hf e he g hg e' he' hver.2

end Input

/-! ## The output -/

/-- The table file of an output. -/
def Output.file (out : Output) : FileMetaData := ⟨out.record, out.entries.map Cell.entry, .OK⟩

@[simp] theorem Output.stored_file (out : Output) : out.file.stored = out.entries := by
  rw [FileMetaData.stored, Output.file, List.flatMap_map]
  exact List.flatMap_singleton' _

theorem Output.Ok.built {out : Output} (h : out.Ok) (hwf : ∀ e ∈ out.entries, e.WellFormed)
    (hs : KeySorted Entry.rank out.entries) : out.file.Built := by
  refine ⟨?_, rfl, ?_, ?_, ?_, ?_⟩
  all_goals rw [Output.stored_file]
  · rfl
  · exact hwf
  · exact hs
  · exact h.smallest
  · exact h.largest

/-- No user key goes to two outputs. -/
def KeysApart (outs : List Output) : Prop :=
  outs.Pairwise fun a b => ∀ e ∈ a.entries, ∀ e' ∈ b.entries, e.version.key ≠ e'.version.key

instance (outs : List Output) : Decidable (KeysApart outs) :=
  inferInstanceAs (Decidable (outs.Pairwise _))

namespace Outputs

variable {first next : ℕ} {outs : List Output} {es : List Entry}

theorem mem_iff (h : Outputs first next outs es) {e : Entry} :
    e ∈ es ↔ ∃ out ∈ outs, e ∈ out.entries := by rw [← h.entries, List.mem_flatMap]

theorem built (h : Outputs first next outs es) (hwf : ∀ e ∈ es, e.WellFormed)
    (hs : KeySorted Entry.rank es) {out : Output} (hout : out ∈ outs) : out.file.Built := by
  rw [← h.entries] at hs
  exact (h.ok out hout).built (fun e he => hwf e (h.mem_iff.mpr ⟨out, hout, he⟩))
    ((List.pairwise_flatMap.mp hs).1 out hout)

/-- **Outputs do not overlap**, as long as no user key goes to two of them. -/
theorem distinct (h : Outputs first next outs es) (hwf : ∀ e ∈ es, e.WellFormed)
    (hs : KeySorted Entry.rank es) (hk : KeysApart outs) {a b : Output} (ha : a ∈ outs)
    (hb : b ∈ outs) (ho : a.file.Overlaps b.file ∨ a.number = b.number) : a = b := by
  have hes := hs
  rw [← h.entries] at hes
  -- the keys of an output end before those of the next one begin
  have hlt : outs.Pairwise fun a b => a.file.largestUserKey < b.file.smallestUserKey := by
    refine ((List.pairwise_flatMap.mp hes).2.and hk).imp_of_mem fun {a b} ha hb ⟨hlt, hne⟩ => ?_
    obtain ⟨e, he, hek⟩ := (h.built hwf hs ha).exists_largest
    obtain ⟨e', he', hek'⟩ := (h.built hwf hs hb).exists_smallest
    rw [Output.stored_file] at he he'
    have hkey : a.file.largestUserKey = e.version.key := by
      rw [(hwf e (h.mem_iff.mpr ⟨a, ha, he⟩)).version_key, hek]
      rfl
    have hkey' : b.file.smallestUserKey = e'.version.key := by
      rw [(hwf e' (h.mem_iff.mpr ⟨b, hb, he'⟩)).version_key, hek']
      rfl
    refine lt_of_le_of_ne ?_ (hkey ▸ hkey' ▸ hne e he e' he')
    rw [FileMetaData.largestUserKey, FileMetaData.smallestUserKey, ← hek, ← hek']
    exact userKey_le (hlt e he e' he').le
  have hne : outs.Pairwise fun a b => ¬ (a.file.Overlaps b.file ∨ a.number = b.number) :=
    (hlt.and h.numbers).imp fun ⟨hlt, hn⟩ ho =>
      ho.elim (fun ho => absurd hlt (not_lt.mpr ho.2)) fun heq => hn.ne heq
  exact List.Pairwise.forall_of_forall_of_flip
    (R := fun a b : Output => a.file.Overlaps b.file ∨ a.number = b.number → a = b)
    (fun _ _ _ => rfl) (hne.imp fun hab hba => absurd hba hab)
    (hne.imp fun hab hba => absurd (hba.imp FileMetaData.Overlaps.symm Eq.symm) hab) ha hb ho

end Outputs

/-- **Without a snapshot only one version of a user key is kept.** -/
theorem keysApart_of_seq_le {c : Compaction} {s first next : ℕ} {L : List Entry} (hL : Versioned L)
    (hs : ∀ e ∈ L, e.version.seq ≤ s) {outs : List Output}
    (h : Outputs first next outs (CompactionState.kept c s L L)) : KeysApart outs := by
  have hranked := List.pairwise_map.mp hL.ranked
  have hkept : (CompactionState.kept c s L L).Pairwise
      fun e e' => e.version.key ≠ e'.version.key := by
    refine (hranked.sublist List.filter_sublist).imp_of_mem fun {e e'} he he' hlt hk => ?_
    have hdrop := (List.mem_filter.mp he').2
    rw [decide_eq_true_eq] at hdrop
    have heL := (List.mem_filter.mp he).1
    rcases Version.rank_lt_iff.mp hlt with hlt | ⟨-, hseq⟩
    · exact absurd hk hlt.ne
    · exact hdrop (.inl ⟨e.version, List.mem_map_of_mem heL, hk, hseq, hs e heL⟩)
  rw [← h.entries] at hkept
  exact (List.pairwise_flatMap.mp hkept).2

/-! ## The files of the outputs -/

section WriteTables

variable {tables : ℕ → List Entry}

theorem writeTables_of_ne {n : ℕ} : ∀ {outs : List Output} {tables : ℕ → List Entry},
    (∀ out ∈ outs, out.number ≠ n) → LeveledDB.writeTables outs tables n = tables n
  | [], _, _ => rfl
  | out :: outs, tables, h => by
      rw [LeveledDB.writeTables, List.foldl_cons]
      exact (writeTables_of_ne fun o ho => h o (List.mem_cons_of_mem _ ho)).trans
        (Function.update_of_ne (h out List.mem_cons_self).symm _ _)

theorem writeTables_of_mem : ∀ {outs : List Output} {tables : ℕ → List Entry},
    (outs.Pairwise fun a b => a.number < b.number) → ∀ {out : Output}, out ∈ outs →
    LeveledDB.writeTables outs tables out.number = out.entries
  | o :: outs, tables, h, out, hout => by
      obtain ⟨ho, h⟩ := List.pairwise_cons.mp h
      rw [LeveledDB.writeTables, List.foldl_cons]
      rcases List.mem_cons.mp hout with rfl | hout
      · exact (writeTables_of_ne fun b hb => (ho b hb).ne').trans (Function.update_self ..)
      · exact writeTables_of_mem h hout

end WriteTables

end Leveldb
