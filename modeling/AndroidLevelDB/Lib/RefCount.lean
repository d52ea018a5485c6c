import Mathlib.Algebra.BigOperators.Group.Finset.Basic
import Mathlib.Algebra.Order.BigOperators.Group.Finset

/-!
# Lib/RefCount — counted references

Objects are held by handles of a client (`own`) and by one another (`refs`), and count their
holders.  `Counted` says that every count is right, up to references that are *pending*: taken but
not yet stored in their holder, or taken from their holder but not yet given back.  The rules say
how the steps of an implementation move references between holders and the pending ones.
-/

open Function

variable {ι : Type*} [DecidableEq ι]

/-- The holders of `o`: its handle and the live objects that refer to it. -/
def holders (own live : Finset ι) (refs : ι → List ι) (o : ι) : ℕ :=
  (if o ∈ own then 1 else 0) + ∑ h ∈ live, (refs h).count o

theorem holders_eq_zero_iff {own live : Finset ι} {refs : ι → List ι} {o : ι} :
    holders own live refs o = 0 ↔ o ∉ own ∧ ∀ i ∈ live, o ∉ refs i := by
  simp [holders, Finset.sum_eq_zero_iff, List.count_eq_zero]

/-- A live object's references are among what their holders count. -/
theorem count_refs_le {own live : Finset ι} {refs : ι → List ι} {i : ι} (hi : i ∈ live) (o : ι) :
    (refs i).count o ≤ holders own live refs o := by
  refine le_trans ?_ (Nat.le_add_left _ _)
  exact Finset.single_le_sum (f := fun x => (refs x).count o) (fun x _ => Nat.zero_le _) hi

/-- Every object counts its holders and the pending references to it, and lives as long as there
are any. -/
structure Counted (count : ι → ℤ) (own live : Finset ι) (refs : ι → List ι) (pending : List ι) :
    Prop where
  count_eq : ∀ o, count o = holders own live refs o + pending.count o
  live_iff : ∀ o, o ∈ live ↔ 0 < count o

namespace Counted

variable {count : ι → ℤ} {own live : Finset ι} {refs refs' : ι → List ι} {π : List ι} {j : ι}

theorem live_of_pending (h : Counted count own live refs π) (hj : j ∈ π) : j ∈ live := by
  rw [h.live_iff, h.count_eq]
  have : 0 < π.count j := List.count_pos_iff.mpr hj
  omega

theorem live_of_own (h : Counted count own live refs π) (hj : j ∈ own) : j ∈ live := by
  rw [h.live_iff, h.count_eq, holders, if_pos hj]
  omega

theorem live_of_refs (h : Counted count own live refs π) {i : ι} (hi : i ∈ live)
    (hj : j ∈ refs i) : j ∈ live := by
  rw [h.live_iff, h.count_eq]
  have h1 : 0 < (refs i).count j := List.count_pos_iff.mpr hj
  have h2 : (refs i).count j ≤ holders own live refs j := count_refs_le hi j
  omega

theorem count_of_not_live (h : Counted count own live refs π) (hj : j ∉ live) :
    count j = 0 := by
  have h1 := mt (h.live_iff j).mpr hj
  have h2 := h.count_eq j
  omega

/-- **The last pending reference is the only one.** -/
theorem sole (h : Counted count own live refs (j :: π)) (hj : count j = 1) :
    (j ∉ own ∧ ∀ i ∈ live, j ∉ refs i) ∧ j ∉ π := by
  have hcount := h.count_eq j
  rw [List.count_cons_self] at hcount
  rw [← holders_eq_zero_iff, ← List.count_eq_zero]
  omega

/-- The references of live objects are all that counts. -/
theorem congr_refs (h : Counted count own live refs π) (hrefs : ∀ i ∈ live, refs i = refs' i) :
    Counted count own live refs' π := by
  refine ⟨fun o => ?_, h.live_iff⟩
  rw [h.count_eq, holders, holders, Finset.sum_congr rfl fun i hi => by rw [hrefs i hi]]

/-! ## Rules -/

/-- **Taking a reference to a live object.** -/
theorem acquire (h : Counted count own live refs π) (hj : j ∈ live) :
    Counted (update count j (count j + 1)) own live refs (j :: π) := by
  refine ⟨fun o => ?_, fun o => ?_⟩ <;> rcases eq_or_ne o j with rfl | ho
  · rw [update_self, h.count_eq, List.count_cons_self]
    push_cast
    omega
  · rw [update_of_ne ho, h.count_eq, List.count_cons_of_ne ho.symm]
  · have := (h.live_iff o).mp hj
    rw [update_self]
    exact ⟨fun _ => by omega, fun _ => hj⟩
  · rw [update_of_ne ho, h.live_iff]

/-- **A new object takes over the pending references that it is to hold**, and its handle is the
client's. -/
theorem create (h : Counted count own live refs (refs' j ++ π)) (hj : j ∉ live)
    (hrefs : ∀ i ∈ live, refs i = refs' i) :
    Counted (update count j 1) (insert j own) (insert j live) refs' π := by
  have h' := h.congr_refs hrefs
  have hown : j ∉ own := fun hown => hj (h.live_of_own hown)
  have hzero := h'.count_eq j
  rw [h.count_of_not_live hj, List.count_append] at hzero
  refine ⟨fun o => ?_, fun o => ?_⟩ <;> rcases eq_or_ne o j with rfl | ho
  · rw [holders, if_neg hown] at hzero
    rw [update_self, holders, if_pos (Finset.mem_insert_self _ _), Finset.sum_insert hj]
    omega
  · have hcount := h'.count_eq o
    rw [holders, List.count_append] at hcount
    rw [update_of_ne ho, hcount, holders, Finset.sum_insert hj]
    simp only [Finset.mem_insert, ho, false_or]
    push_cast
    omega
  · simp
  · rw [update_of_ne ho, Finset.mem_insert, ← h.live_iff]
    exact or_iff_right ho

/-- **Taking a reference to an object that is dead**: it is counted again, but holds nothing. -/
theorem revive (h : Counted count own live refs π) (hj : j ∉ live)
    (hrefs : ∀ i ∈ live, refs i = refs' i) (hnone : refs' j = []) :
    Counted (update count j (count j + 1)) own (insert j live) refs' (j :: π) := by
  have h' := h.congr_refs hrefs
  refine ⟨fun o => ?_, fun o => ?_⟩ <;> rcases eq_or_ne o j with rfl | ho
  · have hcount := h'.count_eq o
    rw [holders] at hcount
    rw [update_self, hcount, holders, Finset.sum_insert hj, hnone, List.count_cons_self]
    simp
    omega
  · have hcount := h'.count_eq o
    rw [holders] at hcount
    rw [update_of_ne ho, hcount, holders, Finset.sum_insert hj, hnone,
      List.count_cons_of_ne ho.symm]
    simp
  · rw [update_self, h.count_of_not_live hj]
    simp
  · rw [update_of_ne ho, Finset.mem_insert, ← h.live_iff]
    exact or_iff_right ho

/-- **The client gives its handle up.** -/
theorem disown (h : Counted count own live refs π) (hj : j ∈ own) :
    Counted count (own.erase j) live refs (j :: π) := by
  refine ⟨fun o => ?_, h.live_iff⟩
  rw [h.count_eq]
  rcases eq_or_ne o j with rfl | ho
  · rw [holders, holders, if_pos hj, if_neg (Finset.notMem_erase _ _), List.count_cons_self]
    push_cast
    omega
  · rw [holders, holders, List.count_cons_of_ne ho.symm]
    simp only [Finset.mem_erase, ho, ne_eq, not_false_eq_true, true_and]

/-- **Giving back a reference that is not the last one.** -/
theorem drop (h : Counted count own live refs (j :: π)) (hj : 1 < count j) :
    Counted (update count j (count j - 1)) own live refs π := by
  refine ⟨fun o => ?_, fun o => ?_⟩ <;> rcases eq_or_ne o j with rfl | ho
  · rw [update_self, h.count_eq, List.count_cons_self]
    push_cast
    omega
  · rw [update_of_ne ho, h.count_eq, List.count_cons_of_ne ho.symm]
  · rw [update_self, h.live_iff]
    omega
  · rw [update_of_ne ho, h.live_iff]

/-- **Giving back the last reference**: the object dies and the references it held are pending. -/
theorem release (h : Counted count own live refs (j :: π)) (hj : count j = 1) :
    Counted (update count j 0) own (live.erase j) refs (refs j ++ π) := by
  obtain ⟨⟨hown, hrefs⟩, hπ⟩ := h.sole hj
  have hlive : j ∈ live := h.live_of_pending List.mem_cons_self
  refine ⟨fun o => ?_, fun o => ?_⟩ <;> rcases eq_or_ne o j with rfl | ho
  · have hzero : holders own (live.erase o) refs o = 0 :=
      holders_eq_zero_iff.mpr ⟨hown, fun i hi => hrefs i (Finset.mem_of_mem_erase hi)⟩
    rw [update_self, hzero, List.count_eq_zero.mpr]
    · rfl
    · simpa using ⟨hrefs o hlive, hπ⟩
  · have hsum := Finset.add_sum_erase live (fun i => (refs i).count o) hlive
    rw [update_of_ne ho, h.count_eq, List.count_cons_of_ne ho.symm, List.count_append, holders,
      holders, ← hsum]
    push_cast
    omega
  · simp
  · rw [update_of_ne ho, Finset.mem_erase, ← h.live_iff]
    exact and_iff_right ho

end Counted
