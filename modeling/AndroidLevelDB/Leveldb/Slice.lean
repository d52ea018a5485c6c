import Mathlib.Data.List.Lex
import Mathlib.Data.List.Basic
import Mathlib.Algebra.Order.Group.Int

/-!
# Leveldb/Slice — byte strings and their order

A `Slice` is read as the bytes it refers to.  `Slice.compare` (`memcmp` on the common length, then
the lengths) is the lexicographic order of byte lists (`compare_neg_iff`, `compare_eq_zero_iff`),
which is the order of `BytewiseComparatorImpl`.
-/

/-- The bytes of a `Slice` or a `std::string`. -/
abbrev Bytes := List UInt8

instance instLinearOrderUInt8 : LinearOrder UInt8 where
  le_refl := UInt8.le_refl
  le_trans _ _ _ := UInt8.le_trans
  lt_iff_le_not_ge a b := by simp only [UInt8.lt_iff_toNat_lt, UInt8.le_iff_toNat_le]; omega
  le_antisymm _ _ := UInt8.le_antisymm
  le_total := UInt8.le_total
  toDecidableLE := inferInstance
  toDecidableLT := inferInstance
  toDecidableEq := inferInstance

namespace Leveldb.Slice

/-- `memcmp` on the first `n` bytes, as the difference of the first bytes that differ. -/
def memcmp : ℕ → Bytes → Bytes → ℤ
  | 0, _, _ => 0
  | n + 1, x :: xs, y :: ys => if x = y then memcmp n xs ys else (x.toNat : ℤ) - y.toNat
  | _ + 1, _, _ => 0

/-- `Slice::compare`. -/
def compare (a b : Bytes) : ℤ :=
  let minLen := if a.length < b.length then a.length else b.length
  let r := memcmp minLen a b
  if r = 0 then
    if a.length < b.length then -1 else if b.length < a.length then 1 else 0
  else r

theorem compare_nil_nil : compare [] [] = 0 := rfl

theorem compare_nil_cons (y : UInt8) (ys : Bytes) : compare [] (y :: ys) = -1 := by
  simp [compare, memcmp]

theorem compare_cons_nil (x : UInt8) (xs : Bytes) : compare (x :: xs) [] = 1 := by
  simp [compare, memcmp]

theorem compare_cons_cons (x y : UInt8) (xs ys : Bytes) :
    compare (x :: xs) (y :: ys) = if x = y then compare xs ys else (x.toNat : ℤ) - y.toNat := by
  have hmin : (if xs.length < ys.length then xs.length + 1 else ys.length + 1)
      = (if xs.length < ys.length then xs.length else ys.length) + 1 := by
    split <;> rfl
  unfold compare
  simp only [List.length_cons, Nat.add_lt_add_iff_right, hmin, memcmp]
  by_cases h : x = y
  · simp only [if_pos h]
  · have hxy : x.toNat ≠ y.toNat := mt UInt8.toNat_inj.mp h
    have hne : (x.toNat : ℤ) - y.toNat ≠ 0 := by omega
    simp only [if_neg h, if_neg hne]

/-- **`Slice::compare` is negative exactly on lexicographically smaller byte strings.** -/
theorem compare_neg_iff : ∀ a b : Bytes, compare a b < 0 ↔ a < b
  | [], [] => by simp [compare_nil_nil]
  | [], y :: ys => by simp [compare_nil_cons]
  | x :: xs, [] => by simp [compare_cons_nil]
  | x :: xs, y :: ys => by
      rw [compare_cons_cons, List.cons_lt_cons_iff]
      by_cases h : x = y
      · subst h
        simp [compare_neg_iff xs ys]
      · have hxy : (x.toNat : ℤ) - y.toNat < 0 ↔ x < y := by
          rw [UInt8.lt_iff_toNat_lt]
          omega
        simp [h, hxy]

/-- **…and zero exactly on equal ones.** -/
theorem compare_eq_zero_iff : ∀ a b : Bytes, compare a b = 0 ↔ a = b
  | [], [] => by simp [compare_nil_nil]
  | [], y :: ys => by simp [compare_nil_cons]
  | x :: xs, [] => by simp [compare_cons_nil]
  | x :: xs, y :: ys => by
      rw [compare_cons_cons, List.cons.injEq]
      by_cases h : x = y
      · subst h
        simp [compare_eq_zero_iff xs ys]
      · have hxy : x.toNat ≠ y.toNat := mt UInt8.toNat_inj.mp h
        have hne : (x.toNat : ℤ) - y.toNat ≠ 0 := by omega
        simp [h, hne]

theorem compare_pos_iff (a b : Bytes) : 0 < compare a b ↔ b < a := by
  have hlt := compare_neg_iff a b
  have heq := compare_eq_zero_iff a b
  rcases lt_trichotomy a b with h | h | h
  · have := hlt.mpr h
    exact ⟨fun h' => by omega, fun h' => absurd h h'.not_gt⟩
  · have := heq.mpr h
    exact ⟨fun h' => by omega, fun h' => absurd h h'.ne'⟩
  · have h1 : ¬ compare a b < 0 := fun h' => h.not_gt (hlt.mp h')
    have h2 : compare a b ≠ 0 := fun h' => h.ne' (heq.mp h')
    exact ⟨fun _ => h, fun _ => by omega⟩

theorem compare_nonpos_iff (a b : Bytes) : compare a b ≤ 0 ↔ a ≤ b := by
  rw [← not_lt, compare_pos_iff, not_lt]

end Leveldb.Slice
