import Mathlib.Order.Lattice
import Mathlib.Data.Set.Basic

/-!
# Lib/Intervals — intervals without a gap between them

The elements of `S` have ranges from `lo` to `hi`, and `Covers S b e` says that these leave no gap
between `b` and `e`.  A range can be extended to the ends of those that meet it
(`Covers.extend_left`), and what meets the whole meets one of the parts (`Covers.exists_meets`).
-/

namespace Intervals

variable {α κ : Type*} [LinearOrder κ] {lo hi : α → κ} {S T : Set α} {b e : κ}

/-- Every point from `b` to `e` lies in the range of an element of `S`. -/
def Covers (lo hi : α → κ) (S : Set α) (b e : κ) : Prop :=
  ∀ k, b ≤ k → k ≤ e → ∃ x ∈ S, lo x ≤ k ∧ k ≤ hi x

theorem Covers.mono (h : Covers lo hi S b e) (hsub : ∀ x ∈ S, x ∈ T) : Covers lo hi T b e := by
  intro k hb he
  obtain ⟨x, hx, hk⟩ := h k hb he
  exact ⟨x, hsub x hx, hk⟩

theorem covers_single {x : α} (hx : x ∈ S) : Covers lo hi S (lo x) (hi x) :=
  fun _ hb he => ⟨x, hx, hb, he⟩

/-- **A range without a gap extends to the beginning of an element that reaches it.** -/
theorem Covers.extend_left (h : Covers lo hi S b e) {x : α} (hx : x ∈ S) (hbx : b ≤ hi x) :
    Covers lo hi S (lo x) e := by
  intro k hk he
  rcases lt_or_ge k b with hb | hb
  · exact ⟨x, hx, hk, hb.le.trans hbx⟩
  · exact h k hb he

theorem Covers.extend_right (h : Covers lo hi S b e) {x : α} (hx : x ∈ S) (hxe : lo x ≤ e) :
    Covers lo hi S b (hi x) := by
  intro k hb hk
  rcases lt_or_ge e k with he | he
  · exact ⟨x, hx, hxe.trans he.le, hk⟩
  · exact h k hb he

/-- **What meets a range without a gap meets an element of it.** -/
theorem Covers.exists_meets (h : Covers lo hi S b e) (hbe : b ≤ e) {z : α} (hz : lo z ≤ hi z)
    (hb : b ≤ hi z) (he : lo z ≤ e) : ∃ x ∈ S, lo x ≤ hi z ∧ lo z ≤ hi x := by
  obtain ⟨x, hx, hlo, hhi⟩ := h (max b (lo z)) (le_max_left _ _) (max_le hbe he)
  exact ⟨x, hx, hlo.trans (max_le hb hz), (le_max_right _ _).trans hhi⟩

end Intervals
