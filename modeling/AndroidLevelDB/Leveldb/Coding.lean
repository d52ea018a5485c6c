import AndroidLevelDB.Lib.ByteCodec
import AndroidLevelDB.Leveldb.Slice

/-!
# Leveldb/Coding — fixed-width numbers, varints and length-prefixed strings

The functions of `util/coding.cc` on byte lists.  A reader that advances an input slice returns
what it read together with the rest of the input; `none` is its `false` (or `NULL`).
-/

open ByteCodec

namespace Leveldb

/-- `EncodeFixed32`: the low four bytes, least significant first. -/
def encodeFixed32 (value : ℕ) : Bytes := toLE 4 value

/-- `EncodeFixed64`. -/
def encodeFixed64 (value : ℕ) : Bytes := toLE 8 value

def decodeFixed32 (ptr : Bytes) : ℕ := ofLE (ptr.take 4)

def decodeFixed64 (ptr : Bytes) : ℕ := ofLE (ptr.take 8)

@[simp] theorem length_encodeFixed32 (v : ℕ) : (encodeFixed32 v).length = 4 := length_toLE 4 v

@[simp] theorem length_encodeFixed64 (v : ℕ) : (encodeFixed64 v).length = 8 := length_toLE 8 v

theorem decodeFixed32_append (v : ℕ) (rest : Bytes) :
    decodeFixed32 (encodeFixed32 v ++ rest) = v % 2 ^ 32 := by
  rw [decodeFixed32, List.take_left' (length_encodeFixed32 v), encodeFixed32, ofLE_toLE,
    show 256 ^ 4 = 2 ^ 32 from rfl]

theorem decodeFixed64_append (v : ℕ) (rest : Bytes) :
    decodeFixed64 (encodeFixed64 v ++ rest) = v % 2 ^ 64 := by
  rw [decodeFixed64, List.take_left' (length_encodeFixed64 v), encodeFixed64, ofLE_toLE,
    show 256 ^ 8 = 2 ^ 64 from rfl]

theorem decodeFixed64_encodeFixed64 (v : ℕ) : decodeFixed64 (encodeFixed64 v) = v % 2 ^ 64 := by
  simpa using decodeFixed64_append v []

/-! ## Varints -/

/-- `EncodeVarint32`, with `B = 128`. -/
def encodeVarint32 (v : ℕ) : Bytes :=
  if v < 1 <<< 7 then
    [UInt8.ofNat v]
  else if v < 1 <<< 14 then
    [UInt8.ofNat (v ||| 128), UInt8.ofNat (v >>> 7)]
  else if v < 1 <<< 21 then
    [UInt8.ofNat (v ||| 128), UInt8.ofNat (v >>> 7 ||| 128), UInt8.ofNat (v >>> 14)]
  else if v < 1 <<< 28 then
    [UInt8.ofNat (v ||| 128), UInt8.ofNat (v >>> 7 ||| 128), UInt8.ofNat (v >>> 14 ||| 128),
      UInt8.ofNat (v >>> 21)]
  else
    [UInt8.ofNat (v ||| 128), UInt8.ofNat (v >>> 7 ||| 128), UInt8.ofNat (v >>> 14 ||| 128),
      UInt8.ofNat (v >>> 21 ||| 128), UInt8.ofNat (v >>> 28)]

def putVarint32 (dst : Bytes) (v : ℕ) : Bytes := dst ++ encodeVarint32 v

/-- The loop of `GetVarint32PtrFallback`, in 32-bit arithmetic, from a given shift on. -/
def getVarint32PtrFallback : ℕ → ℕ → Bytes → Option (ℕ × Bytes)
  | _, _, [] => none
  | shift, result, b :: p =>
    if shift ≤ 28 then
      let byte := b.toNat
      if byte &&& 128 ≠ 0 then
        getVarint32PtrFallback (shift + 7) (result ||| ((byte &&& 127) <<< shift) % 2 ^ 32) p
      else
        some (result ||| (byte <<< shift) % 2 ^ 32, p)
    else none

/-- `GetVarint32Ptr`: the one-byte case inline, the others in the fallback. -/
def getVarint32Ptr : Bytes → Option (ℕ × Bytes)
  | [] => getVarint32PtrFallback 0 0 []
  | b :: p =>
    if b.toNat &&& 128 = 0 then some (b.toNat, p) else getVarint32PtrFallback 0 0 (b :: p)

/-- `GetVarint32`. -/
def getVarint32 (input : Bytes) : Option (ℕ × Bytes) := getVarint32Ptr input

/-- The inline case of `GetVarint32Ptr` is only a shortcut. -/
theorem getVarint32_eq_fallback (input : Bytes) :
    getVarint32 input = getVarint32PtrFallback 0 0 input := by
  cases input with
  | nil => rfl
  | cons b p =>
    rw [getVarint32, getVarint32Ptr]
    split
    · next h =>
      simp [getVarint32PtrFallback, h]
    · rfl

/-- Reading a byte that carries the continuation bit and the group of `v` at `s`. -/
theorem getVarint32PtrFallback_cont {v s : ℕ} (hv : v < 2 ^ 32) (hs : s ≤ 28) (p : Bytes) :
    getVarint32PtrFallback s (v % 2 ^ s) (UInt8.ofNat (v >>> s ||| 128) :: p)
      = getVarint32PtrFallback (s + 7) (v % 2 ^ (s + 7)) p := by
  have hfit : (v >>> s % 128) <<< s < 2 ^ 32 := by
    rw [Nat.shiftLeft_eq, Nat.shiftRight_eq_div_pow]
    calc v / 2 ^ s % 128 * 2 ^ s ≤ v / 2 ^ s * 2 ^ s := Nat.mul_le_mul_right _ (Nat.mod_le _ _)
      _ ≤ v := Nat.div_mul_le_self v _
      _ < 2 ^ 32 := hv
  rw [getVarint32PtrFallback, if_pos hs, if_pos (and_128_of_or_128 _), and_127_of_or_128,
    Nat.mod_eq_of_lt hfit, or_group]

/-- Reading the last byte of `v`. -/
theorem getVarint32PtrFallback_last {v s : ℕ} (hv : v < 2 ^ 32) (hs : s ≤ 28)
    (hlast : v >>> s < 128) (p : Bytes) :
    getVarint32PtrFallback s (v % 2 ^ s) (UInt8.ofNat (v >>> s) :: p) = some (v, p) := by
  have hbyte : (UInt8.ofNat (v >>> s)).toNat = v >>> s := by
    rw [UInt8.toNat_ofNat', Nat.mod_eq_of_lt (by omega)]
  have hfit : (v >>> s) <<< s < 2 ^ 32 := by
    rw [Nat.shiftLeft_eq, Nat.shiftRight_eq_div_pow]
    exact (Nat.div_mul_le_self v _).trans_lt hv
  have hwhole : v % 2 ^ (s + 7) = v := by
    refine Nat.mod_eq_of_lt ?_
    rw [Nat.shiftRight_eq_div_pow, Nat.div_lt_iff_lt_mul (Nat.two_pow_pos s)] at hlast
    rw [pow_add]
    omega
  have hgroup := or_group v s
  rw [Nat.mod_eq_of_lt hlast, hwhole] at hgroup
  rw [getVarint32PtrFallback, if_pos hs, if_neg (by rw [and_128_of_lt hlast]; simp), hbyte,
    Nat.mod_eq_of_lt hfit, hgroup]

/-- **A varint is read back**, whatever follows it. -/
theorem getVarint32_append {v : ℕ} (hv : v < 2 ^ 32) (rest : Bytes) :
    getVarint32 (encodeVarint32 v ++ rest) = some (v, rest) := by
  -- the fallback's start, and each later state, in the form the two step lemmas take
  have h0 : getVarint32 (encodeVarint32 v ++ rest)
      = getVarint32PtrFallback 0 (v % 2 ^ 0) (encodeVarint32 v ++ rest) := by
    rw [getVarint32_eq_fallback, pow_zero, Nat.mod_one]
  have hcont := fun s (hs : s ≤ 28) p => getVarint32PtrFallback_cont hv hs p
  have hlast := fun s (hs : s ≤ 28) (h : v >>> s < 128) p =>
    getVarint32PtrFallback_last hv hs h p
  have hb0 := hcont 0 (by omega)
  have hl0 := hlast 0 (by omega)
  simp only [Nat.shiftRight_zero, Nat.zero_add] at hb0 hl0
  have hshift : ∀ k, v >>> k = v / 2 ^ k := Nat.shiftRight_eq_div_pow v
  rw [h0, encodeVarint32]
  split_ifs with h1 h2 h3 h4 <;> simp only [List.cons_append, List.nil_append]
  · exact hl0 (by simpa using h1) _
  · rw [hb0, hlast 7 (by omega) (by rw [hshift]; simp at h2; omega)]
  · rw [hb0, hcont 7 (by omega), hlast 14 (by omega) (by rw [hshift]; simp at h3; omega)]
  · rw [hb0, hcont 7 (by omega), hcont 14 (by omega),
      hlast 21 (by omega) (by rw [hshift]; simp at h4; omega)]
  · rw [hb0, hcont 7 (by omega), hcont 14 (by omega), hcont 21 (by omega),
      hlast 28 (by omega) (by rw [hshift]; omega)]

/-! ## 64-bit varints -/

/-- `EncodeVarint64`, with `B = 128`. -/
def encodeVarint64 (v : ℕ) : Bytes :=
  if 128 ≤ v then UInt8.ofNat (v &&& 127 ||| 128) :: encodeVarint64 (v >>> 7) else [UInt8.ofNat v]
decreasing_by
  rw [Nat.shiftRight_eq_div_pow]
  omega

def putVarint64 (dst : Bytes) (v : ℕ) : Bytes := dst ++ encodeVarint64 v

/-- The loop of `GetVarint64Ptr`, in 64-bit arithmetic, from a given shift on. -/
def getVarint64Ptr : ℕ → ℕ → Bytes → Option (ℕ × Bytes)
  | _, _, [] => none
  | shift, result, b :: p =>
    if shift ≤ 63 then
      let byte := b.toNat
      if byte &&& 128 ≠ 0 then
        getVarint64Ptr (shift + 7) (result ||| ((byte &&& 127) <<< shift) % 2 ^ 64) p
      else
        some (result ||| (byte <<< shift) % 2 ^ 64, p)
    else none

/-- `GetVarint64`. -/
def getVarint64 (input : Bytes) : Option (ℕ × Bytes) := getVarint64Ptr 0 0 input

/-- Reading the groups of `v` from `s` on. -/
theorem getVarint64Ptr_append {v : ℕ} (hv : v < 2 ^ 64) (rest : Bytes) (s : ℕ) (hs : s ≤ 63) :
    getVarint64Ptr s (v % 2 ^ s) (encodeVarint64 (v >>> s) ++ rest) = some (v, rest) := by
  have hdiv : v >>> s = v / 2 ^ s := Nat.shiftRight_eq_div_pow v s
  rw [encodeVarint64]
  split_ifs with h
  · -- the group at `s` carries the continuation bit, and there is room for the next one
    have hs' : s + 7 ≤ 63 := by
      by_contra hn
      have hle : 2 ^ 57 ≤ 2 ^ s := Nat.pow_le_pow_right (by decide) (by omega)
      have hlt : v / 2 ^ s < 128 := by
        rw [Nat.div_lt_iff_lt_mul (Nat.two_pow_pos s)]
        omega
      omega
    have hand : v >>> s &&& 127 = v >>> s % 128 := Nat.and_two_pow_sub_one_eq_mod _ 7
    have hfit : (v >>> s % 128) <<< s < 2 ^ 64 := by
      rw [Nat.shiftLeft_eq, hdiv]
      calc v / 2 ^ s % 128 * 2 ^ s ≤ v / 2 ^ s * 2 ^ s := Nat.mul_le_mul_right _ (Nat.mod_le _ _)
        _ ≤ v := Nat.div_mul_le_self v _
        _ < 2 ^ 64 := hv
    rw [List.cons_append, getVarint64Ptr, if_pos hs, if_pos (and_128_of_or_128 _),
      and_127_of_or_128, hand, Nat.mod_mod, Nat.mod_eq_of_lt hfit, or_group, ← Nat.shiftRight_add]
    exact getVarint64Ptr_append hv rest (s + 7) hs'
  · have hbyte : (UInt8.ofNat (v >>> s)).toNat = v >>> s := by
      rw [UInt8.toNat_ofNat', Nat.mod_eq_of_lt (by omega)]
    have hfit : (v >>> s) <<< s < 2 ^ 64 := by
      rw [Nat.shiftLeft_eq, hdiv]
      exact (Nat.div_mul_le_self v _).trans_lt hv
    have hwhole : v % 2 ^ (s + 7) = v := by
      refine Nat.mod_eq_of_lt ?_
      rw [hdiv, not_le, Nat.div_lt_iff_lt_mul (Nat.two_pow_pos s)] at h
      rw [pow_add]
      omega
    have hgroup := or_group v s
    rw [Nat.mod_eq_of_lt (not_le.mp h), hwhole] at hgroup
    rw [List.cons_append, List.nil_append, getVarint64Ptr, if_pos hs,
      if_neg (by rw [and_128_of_lt (not_le.mp h)]; simp), hbyte, Nat.mod_eq_of_lt hfit, hgroup]
termination_by 63 - s

/-- **A 64-bit varint is read back**, whatever follows it. -/
theorem getVarint64_append {v : ℕ} (hv : v < 2 ^ 64) (rest : Bytes) :
    getVarint64 (encodeVarint64 v ++ rest) = some (v, rest) := by
  have h := getVarint64Ptr_append hv rest 0 (by omega)
  rwa [pow_zero, Nat.mod_one, Nat.shiftRight_zero] at h

/-! ## Length-prefixed strings -/

/-- `PutLengthPrefixedSlice`: the length is converted to `uint32_t`. -/
def putLengthPrefixedSlice (dst value : Bytes) : Bytes :=
  putVarint32 dst (value.length % 2 ^ 32) ++ value

/-- `GetLengthPrefixedSlice` on an input slice. -/
def getLengthPrefixedSlice (input : Bytes) : Option (Bytes × Bytes) :=
  match getVarint32 input with
  | some (len, input) => if len ≤ input.length then some (input.take len, input.drop len) else none
  | none => none

/-- **A length-prefixed string is read back**, whatever follows it. -/
theorem getLengthPrefixedSlice_append {value : Bytes} (h : value.length < 2 ^ 32) (rest : Bytes) :
    getLengthPrefixedSlice (putLengthPrefixedSlice [] value ++ rest) = some (value, rest) := by
  rw [putLengthPrefixedSlice, putVarint32, Nat.mod_eq_of_lt h, List.nil_append, List.append_assoc,
    getLengthPrefixedSlice, getVarint32_append h]
  simp

theorem putLengthPrefixedSlice_eq (dst value : Bytes) :
    putLengthPrefixedSlice dst value = dst ++ putLengthPrefixedSlice [] value := by
  simp [putLengthPrefixedSlice, putVarint32]

end Leveldb
