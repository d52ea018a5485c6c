import Mathlib.Algebra.Order.Ring.Nat
import Mathlib.Tactic.Set

/-!
# Lib/BinarySearch — the border of a predicate

`lowerBound p left right` halves an interval of positions until it finds where `p` ends to hold.  In
a list whose front satisfies `p` this is the first place that does not (`lowerBound_eq_findIdx`).
-/

namespace BinarySearch

/-- The first place of `[left, right)` where `p` does not hold, or `right`. -/
def lowerBound (p : ℕ → Bool) (left right : ℕ) : ℕ :=
  if left < right then
    let mid := (left + right) / 2
    if p mid then lowerBound p (mid + 1) right else lowerBound p left mid
  else right
termination_by right - left
decreasing_by all_goals omega

/-- **The border**: `p` holds before it and not from it on. -/
theorem lowerBound_spec {p : ℕ → Bool} {n : ℕ}
    (hp : ∀ i j, i ≤ j → j < n → p j = true → p i = true) (left right : ℕ) (hle : left ≤ right)
    (hn : right ≤ n) :
    left ≤ lowerBound p left right ∧ lowerBound p left right ≤ right ∧
      (∀ i, left ≤ i → i < lowerBound p left right → p i = true) ∧
      ∀ i, lowerBound p left right ≤ i → i < right → p i = false := by
  rw [lowerBound]
  split
  · next hlt =>
    dsimp only
    split
    · next hmid =>
      obtain ⟨h1, h2, h3, h4⟩ :=
        lowerBound_spec hp ((left + right) / 2 + 1) right (by omega) hn
      refine ⟨by omega, h2, fun i hi hi' => ?_, h4⟩
      by_cases hle' : i ≤ (left + right) / 2
      · exact hp i _ hle' (by omega) hmid
      · exact h3 i (by omega) hi'
    · next hmid =>
      obtain ⟨h1, h2, h3, h4⟩ := lowerBound_spec hp left ((left + right) / 2) (by omega) (by omega)
      refine ⟨h1, by omega, h3, fun i hi hi' => ?_⟩
      by_cases hlt' : i < (left + right) / 2
      · exact h4 i hi hlt'
      · exact Bool.eq_false_iff.mpr fun h => hmid (hp _ i (by omega) (by omega) h)
  · exact ⟨hle, le_rfl, fun i h1 h2 => absurd h2 (by omega), fun i h1 h2 => absurd h2 (by omega)⟩
termination_by right - left
decreasing_by all_goals omega

/-- **Binary search is linear search**, where `q` ends to hold only once. -/
theorem lowerBound_eq_findIdx {α : Type*} {q : α → Bool} {xs : List α} {p : ℕ → Bool}
    (hq : xs.Pairwise fun a b => q b = true → q a = true)
    (hp : ∀ i (h : i < xs.length), p i = q xs[i]) :
    lowerBound p 0 xs.length = xs.findIdx fun a => !q a := by
  have hmono : ∀ i j, i ≤ j → j < xs.length → p j = true → p i = true := by
    intro i j hij hj h
    rcases hij.lt_or_eq with hlt | rfl
    · rw [hp j hj] at h
      rw [hp i (hlt.trans hj)]
      exact List.pairwise_iff_getElem.mp hq i j (hlt.trans hj) hj hlt h
    · exact h
  obtain ⟨-, hle, hbefore, hfrom⟩ := lowerBound_spec hmono 0 xs.length (Nat.zero_le _) le_rfl
  set r := lowerBound p 0 xs.length
  symm
  rcases hle.lt_or_eq with hlt | heq
  · refine (List.findIdx_eq hlt).mpr ⟨?_, fun j hj => ?_⟩
    · rw [← hp r hlt, hfrom r le_rfl hlt]
      rfl
    · rw [← hp j (hj.trans hlt), hbefore j (Nat.zero_le _) hj]
      rfl
  · rw [heq, List.findIdx_eq_length]
    intro a ha
    obtain ⟨i, hi, rfl⟩ := List.getElem_of_mem ha
    rw [← hp i hi, hbefore i (Nat.zero_le _) (heq ▸ hi)]
    rfl

/-- Where `q` ends to hold only once, the first place that satisfies `p` decides whether any place
satisfies both. -/
theorem any_findIdx_iff {α : Type*} {p q : α → Bool} {xs : List α}
    (hq : xs.Pairwise fun a b => q b = true → q a = true) :
    (xs[xs.findIdx p]?).any q = true ↔ ∃ a ∈ xs, p a = true ∧ q a = true := by
  constructor
  · intro h
    obtain ⟨a, ha, hqa⟩ := (Option.any_eq_true q _).mp h
    obtain ⟨hi, rfl⟩ := List.getElem?_eq_some_iff.mp ha
    exact ⟨_, List.getElem_mem hi, List.findIdx_getElem, hqa⟩
  · rintro ⟨a, ha, hpa, hqa⟩
    obtain ⟨j, hj, rfl⟩ := List.getElem_of_mem ha
    have hle : xs.findIdx p ≤ j :=
      not_lt.mp fun hlt => absurd hpa (Bool.eq_false_iff.mp (List.not_of_lt_findIdx hlt))
    rw [List.getElem?_eq_getElem (hle.trans_lt hj), Option.any_some]
    rcases hle.lt_or_eq with hlt | heq
    · exact List.pairwise_iff_getElem.mp hq _ j (hle.trans_lt hj) hj hlt hqa
    · simpa only [heq] using hqa

end BinarySearch
