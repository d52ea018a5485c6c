import Mathlib.Data.Nat.Digits.Lemmas
import Mathlib.Data.List.Basic
import Mathlib.Tactic.Ring

/-!
# Lib/ByteCodec — fixed-width and base-128 numbers in byte strings

`toLE w v` is the `w`-byte little-endian encoding of `v` and `ofLE` reads it back.  A base-128
number is read group by group: `or_group` is the step that adds one group of seven bits to what has
been read so far.
-/

namespace ByteCodec

/-! ## Fixed width, least significant byte first -/

/-- The `w` low bytes of `v`, least significant first. -/
def toLE : ℕ → ℕ → List UInt8
  | 0, _ => []
  | w + 1, v => UInt8.ofNat v :: toLE w (v / 256)

/-- The number a little-endian byte string stands for. -/
def ofLE (bs : List UInt8) : ℕ := Nat.ofDigits 256 (bs.map UInt8.toNat)

@[simp] theorem length_toLE : ∀ w v : ℕ, (toLE w v).length = w
  | 0, _ => rfl
  | w + 1, v => by rw [toLE, List.length_cons, length_toLE w]

@[simp] theorem ofLE_nil : ofLE [] = 0 := rfl

@[simp] theorem ofLE_cons (b : UInt8) (bs : List UInt8) :
    ofLE (b :: bs) = b.toNat + 256 * ofLE bs := by
  simp [ofLE, Nat.ofDigits_cons]

/-- **Reading back a fixed-width number** keeps its `w` low bytes. -/
theorem ofLE_toLE : ∀ w v : ℕ, ofLE (toLE w v) = v % 256 ^ w
  | 0, v => by simp [toLE, Nat.mod_one]
  | w + 1, v => by
      rw [toLE, ofLE_cons, ofLE_toLE w, pow_succ, mul_comm (256 ^ w) 256, Nat.mod_mul]
      simp

theorem ofLE_lt (bs : List UInt8) : ofLE bs < 256 ^ bs.length := by
  have h := Nat.ofDigits_lt_base_pow_length (b := 256) (l := bs.map UInt8.toNat) (by decide)
    fun x hx => by
      obtain ⟨b, -, rfl⟩ := List.mem_map.mp hx
      exact b.toNat_lt
  rwa [List.length_map] at h

/-! ## Groups of seven bits -/

/-- The low seven bits of a byte that carries the continuation bit. -/
theorem and_127_of_or_128 (x : ℕ) : (UInt8.ofNat (x ||| 128)).toNat &&& 127 = x % 128 := by
  rw [UInt8.toNat_ofNat', show (127 : ℕ) = 2 ^ 7 - 1 from rfl, Nat.and_two_pow_sub_one_eq_mod]
  have h : (x ||| 128) % 2 ^ 7 = x % 2 ^ 7 := by
    rw [Nat.or_mod_two_pow]
    simp
  omega

/-- The continuation bit of such a byte is set. -/
theorem and_128_of_or_128 (x : ℕ) : (UInt8.ofNat (x ||| 128)).toNat &&& 128 ≠ 0 := by
  have h : ((UInt8.ofNat (x ||| 128)).toNat &&& 128).testBit 7 = true := by
    rw [UInt8.toNat_ofNat', Nat.testBit_and, Nat.testBit_mod_two_pow, Nat.testBit_or]
    simp [show Nat.testBit 128 7 = true by decide]
  intro h0
  rw [h0] at h
  simp at h

/-- The continuation bit of a small byte is clear. -/
theorem and_128_of_lt {x : ℕ} (h : x < 128) : (UInt8.ofNat x).toNat &&& 128 = 0 := by
  rw [UInt8.toNat_ofNat', Nat.mod_eq_of_lt (by omega)]
  refine Nat.eq_of_testBit_eq fun i => ?_
  rw [Nat.testBit_and, Nat.zero_testBit]
  by_cases hi : i = 7
  · subst hi
    rw [Nat.testBit_lt_two_pow (show x < 2 ^ 7 from h), Bool.false_and]
  · rw [show (128 : ℕ) = 2 ^ 7 from rfl, Nat.testBit_two_pow_of_ne (Ne.symm hi), Bool.and_false]

/-- **One more group**: the bits of `v` below `s`, with the seven above them put in. -/
theorem or_group (v s : ℕ) :
    v % 2 ^ s ||| (v >>> s % 128) <<< s = v % 2 ^ (s + 7) := by
  have hlt : v % 2 ^ s < 2 ^ s := Nat.mod_lt _ (Nat.two_pow_pos s)
  rw [Nat.or_comm, ← Nat.shiftLeft_add_eq_or_of_lt hlt, Nat.shiftLeft_eq, Nat.shiftRight_eq_div_pow,
    pow_add, Nat.mod_mul, show (2 : ℕ) ^ 7 = 128 from rfl]
  ring

end ByteCodec
