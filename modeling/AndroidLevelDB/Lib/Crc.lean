import Mathlib.Algebra.Ring.Nat
import Mathlib.Logic.Function.Iterate
import Mathlib.Order.Basic

/-!
# Lib/Crc — cyclic redundancy checks, bit by bit and by table

`step p` shifts a remainder by one bit, over the reflected polynomial `p`.  It is linear in exclusive
or (`steps_xor`), and a remainder whose low bits are clear only moves down (`steps_of_low`).  So the
steps of eight bits are those of the low byte and the rest moved down (`steps_byte`), which is the
step of a table-driven implementation, and those of a whole word are the steps of its bytes, each
from where it stands (`steps_word`), which is the step of one that takes four bytes at a time.
-/

namespace Crc

variable {w : ℕ}

/-- One bit. -/
def step (p x : BitVec w) : BitVec w := if x.getLsbD 0 then (x >>> 1) ^^^ p else x >>> 1

/-- `n` bits. -/
def steps (p : BitVec w) (n : ℕ) (x : BitVec w) : BitVec w := (step p)^[n] x

variable {p : BitVec w}

theorem step_xor (x y : BitVec w) : step p (x ^^^ y) = step p x ^^^ step p y := by
  simp only [step, BitVec.getLsbD_xor, BitVec.ushiftRight_xor_distrib]
  cases x.getLsbD 0 with
  | false =>
    cases y.getLsbD 0 with
    | false => rfl
    | true => exact BitVec.xor_assoc ..
  | true =>
    cases y.getLsbD 0 with
    | false =>
      change x >>> 1 ^^^ y >>> 1 ^^^ p = x >>> 1 ^^^ p ^^^ y >>> 1
      ac_rfl
    | true =>
      change x >>> 1 ^^^ y >>> 1 = x >>> 1 ^^^ p ^^^ (y >>> 1 ^^^ p)
      rw [BitVec.xor_comm (y >>> 1) p, BitVec.xor_assoc, ← BitVec.xor_assoc p p, BitVec.xor_self,
        BitVec.zero_xor]

/-- **The steps are linear.** -/
theorem steps_xor (n : ℕ) (x y : BitVec w) : steps p n (x ^^^ y) = steps p n x ^^^ steps p n y := by
  induction n generalizing x y with
  | zero => rfl
  | succ n ih => simpa only [steps, Function.iterate_succ_apply, step_xor] using ih _ _

theorem steps_add (m n : ℕ) (x : BitVec w) : steps p (m + n) x = steps p m (steps p n x) :=
  Function.iterate_add_apply ..

/-- A remainder whose low bits are clear only moves down. -/
theorem steps_of_low {x : BitVec w} {k : ℕ} (h : ∀ i < k, x.getLsbD i = false) :
    steps p k x = x >>> k := by
  induction k with
  | zero => simp [steps]
  | succ k ih =>
    have hk : (x >>> k).getLsbD 0 = false := by simpa using h k (Nat.lt_succ_self k)
    have hsteps : steps p k x = x >>> k := ih fun i hi => h i (Nat.lt_succ_of_lt hi)
    rw [steps] at hsteps ⊢
    rw [Function.iterate_succ_apply', hsteps, step, hk, BitVec.shiftRight_add]
    rfl

/-- A remainder that was moved up moves down again. -/
theorem steps_shiftLeft {x : BitVec w} {k : ℕ} (h : x <<< k >>> k = x) (n : ℕ) :
    steps p (n + k) (x <<< k) = steps p n x := by
  have hlow : ∀ i < k, (x <<< k).getLsbD i = false := fun i hi => by simp [hi]
  rw [steps_add, steps_of_low hlow, h]

/-! ## By table -/

section Word

variable {p x : BitVec 32}

/-- A byte of a word. -/
def byte (x : BitVec 32) (i : ℕ) : BitVec 32 := x >>> (8 * i) &&& 0xff

theorem getLsbD_byte (x : BitVec 32) (i j : ℕ) :
    (byte x i).getLsbD j = (decide (j < 8) && x.getLsbD (8 * i + j)) := by
  have h : (0xff : BitVec 32).getLsbD j = decide (j < 8) := by
    change (0xff#32).getLsbD j = _
    rw [BitVec.getLsbD_ofNat, show (255 : ℕ) = 2 ^ 8 - 1 from rfl, Nat.testBit_two_pow_sub_one]
    by_cases hj : j < 8
    · simp [hj, show j < 32 by omega]
    · simp [hj]
  rw [byte, BitVec.getLsbD_and, BitVec.getLsbD_ushiftRight, h, Bool.and_comm]

/-- **Eight bits**: the steps of the low byte, and the rest moved down. -/
theorem steps_byte (x : BitVec 32) : steps p 8 x = steps p 8 (byte x 0) ^^^ x >>> 8 := by
  have hsplit : x = byte x 0 ^^^ x >>> 8 <<< 8 := by
    refine BitVec.eq_of_getLsbD_eq fun i hi => ?_
    rw [BitVec.getLsbD_xor, getLsbD_byte, BitVec.getLsbD_shiftLeft, BitVec.getLsbD_ushiftRight]
    by_cases h8 : i < 8
    · simp [h8]
    · simp [h8, hi, show 8 + (i - 8) = i by omega]
  have hdown : (x >>> 8) <<< 8 >>> 8 = x >>> 8 := by
    refine BitVec.eq_of_getLsbD_eq fun i hi => ?_
    simp only [BitVec.getLsbD_ushiftRight, BitVec.getLsbD_shiftLeft]
    by_cases h : 8 + i < 32
    · simp [h]
    · simp [h, BitVec.getLsbD_of_ge x (8 + i) (by omega)]
  calc steps p 8 x = steps p 8 (byte x 0 ^^^ x >>> 8 <<< 8) := congrArg _ hsplit
    _ = steps p 8 (byte x 0) ^^^ steps p 8 (x >>> 8 <<< 8) := steps_xor ..
    _ = _ := congrArg _ (steps_shiftLeft hdown 0)

/-- A word is its bytes. -/
theorem eq_bytes (x : BitVec 32) :
    x = byte x 0 ^^^ byte x 1 <<< 8 ^^^ byte x 2 <<< 16 ^^^ byte x 3 <<< 24 := by
  refine BitVec.eq_of_getLsbD_eq fun i hi => ?_
  simp only [BitVec.getLsbD_xor, BitVec.getLsbD_shiftLeft, getLsbD_byte, hi, decide_true,
    Bool.true_and]
  have hcases : i < 8 ∨ 8 ≤ i ∧ i < 16 ∨ 16 ≤ i ∧ i < 24 ∨ 24 ≤ i := by omega
  rcases hcases with h | ⟨h, h'⟩ | ⟨h, h'⟩ | h
  · simp [h, show i < 16 by omega, show i < 24 by omega]
  · simp [h', show ¬ i < 8 by omega, show i - 8 < 8 by omega, show i < 24 by omega,
      show 8 + (i - 8) = i by omega]
  · simp [h', show ¬ i < 8 by omega, show ¬ i - 8 < 8 by omega, show ¬ i < 16 by omega,
      show i - 16 < 8 by omega, show 16 + (i - 16) = i by omega]
  · simp [show ¬ i < 8 by omega, show ¬ i - 8 < 8 by omega, show ¬ i < 16 by omega,
      show ¬ i - 16 < 8 by omega, show ¬ i < 24 by omega, show i - 24 < 8 by omega,
      show 24 + (i - 24) = i by omega]

theorem byte_shiftLeft {k : ℕ} (hk : k ≤ 24) (x : BitVec 32) (i : ℕ) :
    byte x i <<< k >>> k = byte x i := by
  refine BitVec.eq_of_getLsbD_eq fun j hj => ?_
  rw [BitVec.getLsbD_ushiftRight, BitVec.getLsbD_shiftLeft, getLsbD_byte, getLsbD_byte]
  by_cases h : j < 8
  · simp [h, show k + j < 32 by omega]
  · simp [h]

/-- **A whole word**: the steps of its bytes, each from where it stands. -/
theorem steps_word (x : BitVec 32) :
    steps p 32 x = steps p 32 (byte x 0) ^^^ steps p 24 (byte x 1) ^^^ steps p 16 (byte x 2) ^^^
      steps p 8 (byte x 3) := by
  have h1 : steps p 32 (byte x 1 <<< 8) = steps p 24 (byte x 1) :=
    steps_shiftLeft (byte_shiftLeft (k := 8) (by decide) x 1) 24
  have h2 : steps p 32 (byte x 2 <<< 16) = steps p 16 (byte x 2) :=
    steps_shiftLeft (byte_shiftLeft (k := 16) (by decide) x 2) 16
  have h3 : steps p 32 (byte x 3 <<< 24) = steps p 8 (byte x 3) :=
    steps_shiftLeft (byte_shiftLeft (k := 24) (by decide) x 3) 8
  rw [← h1, ← h2, ← h3, ← steps_xor, ← steps_xor, ← steps_xor, ← eq_bytes]

/-- **Four bytes, one after another, are the word they make.** -/
theorem steps_bytes (x y : BitVec 32) :
    steps p 8 (steps p 8 (steps p 8 (steps p 8 (x ^^^ byte y 0) ^^^ byte y 1) ^^^ byte y 2) ^^^
      byte y 3) = steps p 32 (x ^^^ y) := by
  rw [steps_xor 32, steps_word y]
  simp only [steps_xor, ← steps_add]
  ac_rfl

theorem toNat_byte (x : BitVec 32) (i : ℕ) : (byte x i).toNat = x.toNat / 2 ^ (8 * i) % 256 := by
  have h : (0xff : BitVec 32).toNat = 2 ^ 8 - 1 := rfl
  rw [byte, BitVec.toNat_and, h, Nat.and_two_pow_sub_one_eq_mod, BitVec.toNat_ushiftRight,
    Nat.shiftRight_eq_div_pow]

end Word

end Crc
