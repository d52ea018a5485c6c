import AndroidLevelDB.Lib.Versions

/-!
# Lib/Levels — versions in layers

`Above A B` says that a key's versions in `A` are newer than those in `B`.  A reader that finds a
version in `A` need not look into `B` (`Above.reads_of_mem`), and layers can be put on top of two
sets in which a reader finds the same (`Above.reads_union_congr`).
-/

namespace Version

variable {κ ν : Type*} {A B C : Set (Version κ ν)} {s : ℕ} {k : κ} {r : Option ν}

/-- The versions of a key in `A` are newer than those in `B`. -/
def Above (A B : Set (Version κ ν)) : Prop := ∀ a ∈ A, ∀ b ∈ B, a.key = b.key → b.seq < a.seq

/-- What a reader finds under a key depends on the newest version of it. -/
theorem reads_congr_key (h : ∀ e, e.key = k → (Newest A s e ↔ Newest B s e)) :
    Reads A s k r ↔ Reads B s k r := by
  cases r with
  | none =>
    exact forall_congr' fun e => ⟨fun hA he hk => hA ((h e hk).mpr he) hk,
      fun hB he hk => hB ((h e hk).mp he) hk⟩
  | some v =>
    refine exists_congr fun e => ⟨fun ⟨he, hk, hv⟩ => ⟨(h e hk).mp he, hk, hv⟩,
      fun ⟨he, hk, hv⟩ => ⟨(h e hk).mpr he, hk, hv⟩⟩

/-- **Below a layer that has a version for the reader nothing matters.** -/
theorem Above.reads_of_mem (h : Above A B) (hex : ∃ x ∈ A, x.key = k ∧ x.seq ≤ s) :
    Reads (A ∪ B) s k r ↔ Reads A s k r := by
  obtain ⟨x, hx, hxk, hxs⟩ := hex
  refine reads_congr_key fun e hk => ?_
  constructor
  · rintro ⟨he, hs, hmax⟩
    refine ⟨he.resolve_right fun hB => ?_, hs, fun y hy hyk hys => hmax y (.inl hy) hyk hys⟩
    exact absurd (hmax x (.inl hx) (hxk.trans hk.symm) hxs)
      (not_le.mpr (h x hx e hB (hxk.trans hk.symm)))
  · rintro ⟨he, hs, hmax⟩
    refine ⟨.inl he, hs, fun y hy hyk hys => ?_⟩
    rcases hy with hy | hy
    · exact hmax y hy hyk hys
    · exact (h e he y hy hyk.symm).le

/-- A layer that has no version for the reader does not matter. -/
theorem reads_union_of_not_mem (hno : ∀ x ∈ A, x.key = k → s < x.seq) :
    Reads (A ∪ B) s k r ↔ Reads B s k r := by
  refine reads_congr_key fun e hk => ?_
  constructor
  · rintro ⟨he, hs, hmax⟩
    exact ⟨he.resolve_left fun hA => absurd hs (not_le.mpr (hno e hA hk)), hs,
      fun y hy hyk hys => hmax y (.inr hy) hyk hys⟩
  · rintro ⟨he, hs, hmax⟩
    refine ⟨.inr he, hs, fun y hy hyk hys => ?_⟩
    rcases hy with hy | hy
    · exact absurd hys (not_le.mpr (hno y hy (hyk.trans hk)))
    · exact hmax y hy hyk hys

/-- **A layer on top of both leaves it at what a reader finds.** -/
theorem Above.reads_union_congr (hB : Above A B) (hC : Above A C)
    (h : Reads B s k r ↔ Reads C s k r) : Reads (A ∪ B) s k r ↔ Reads (A ∪ C) s k r := by
  by_cases hex : ∃ x ∈ A, x.key = k ∧ x.seq ≤ s
  · exact (hB.reads_of_mem hex).trans (hC.reads_of_mem hex).symm
  · have hno : ∀ x ∈ A, x.key = k → s < x.seq := fun x hx hk =>
      not_le.mp fun hs => hex ⟨x, hx, hk, hs⟩
    rw [reads_union_of_not_mem hno, reads_union_of_not_mem hno, h]

end Version
