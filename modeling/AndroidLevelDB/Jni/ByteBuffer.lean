import AndroidLevelDB.Leveldb.WriteBatch
import AndroidLevelDB.Jni.LeveldbJni

/-!
# Jni/ByteBuffer — byte strings taken from buffers

A `ByteBuffer` is a window into memory: element `i` lies at `offset + i`.  The native functions
take the address of a direct buffer and the backing array of a heap buffer, and read from
`position` to `limit` behind it.  For a heap buffer this ignores `arrayOffset`
(`bufferSlice_eq_iff`), and a read-only one has no accessible array.
-/

open Leveldb

/-- `java.nio.ByteBuffer`.  `memory` is the backing array of a heap buffer, or the native memory of
a direct one; `offset` is `arrayOffset`, or the place of the buffer's address. -/
structure ByteBuffer where
  isDirect : Bool
  isReadOnly : Bool
  memory : Bytes
  offset : ℕ
  position : ℕ
  limit : ℕ
  capacity : ℕ
  position_le : position ≤ limit
  limit_le : limit ≤ capacity
  fits : offset + capacity ≤ memory.length
  /-- An array has fewer than `2 ^ 31` elements. -/
  small : memory.length < 2 ^ 31

namespace ByteBuffer

/-- Element `i`. -/
def get (b : ByteBuffer) (i : ℕ) : Option UInt8 := b.memory[b.offset + i]?

/-- The elements from `position` to `limit`. -/
def remaining (b : ByteBuffer) : Bytes :=
  (b.memory.drop (b.offset + b.position)).take (b.limit - b.position)

/-- Can native code reach the elements?  `array()` throws on a read-only buffer. -/
def Accessible (b : ByteBuffer) : Prop := b.isDirect = true ∨ b.isReadOnly = false

instance : DecidablePred Accessible := fun _ => inferInstanceAs (Decidable (_ ∨ _))

/-- `ByteBuffer.wrap`. -/
def wrap (array : Bytes) (h : array.length < 2 ^ 31) : ByteBuffer where
  isDirect := false
  isReadOnly := false
  memory := array
  offset := 0
  position := 0
  limit := array.length
  capacity := array.length
  position_le := Nat.zero_le _
  limit_le := le_rfl
  fits := (Nat.zero_add _).le
  small := h

/-- `slice`: a buffer of what remains, over the same memory. -/
def slice (b : ByteBuffer) : ByteBuffer where
  isDirect := b.isDirect
  isReadOnly := b.isReadOnly
  memory := b.memory
  offset := b.offset + b.position
  position := 0
  limit := b.limit - b.position
  capacity := b.limit - b.position
  position_le := Nat.zero_le _
  limit_le := le_rfl
  fits := by
    have h1 := b.position_le
    have h2 := b.limit_le
    have h3 := b.fits
    omega
  small := b.small

/-- `asReadOnlyBuffer`. -/
def asReadOnlyBuffer (b : ByteBuffer) : ByteBuffer := { b with isReadOnly := true }

theorem length_remaining (b : ByteBuffer) : b.remaining.length = b.limit - b.position := by
  have h1 := b.position_le
  have h2 := b.limit_le
  have h3 := b.fits
  simp only [remaining, List.length_take, List.length_drop]
  omega

/-- The remaining bytes are the elements from `position` on. -/
theorem getElem?_remaining (b : ByteBuffer) {i : ℕ} (h : b.position + i < b.limit) :
    b.remaining[i]? = b.get (b.position + i) := by
  rw [remaining, List.getElem?_take_of_lt (by omega), List.getElem?_drop, get, Nat.add_assoc]

end ByteBuffer

namespace Jni

/-- A `char*` into some memory. -/
structure CharPtr where
  memory : Bytes
  offset : ℕ
deriving DecidableEq

/-- `Slice(ptr + pos, len)`. -/
def CharPtr.slice (ptr : CharPtr) (pos len : ℕ) : Bytes :=
  (ptr.memory.drop (ptr.offset + pos)).take len

/-- `GetDirectBufferAddress`: the address of element 0. -/
def getDirectBufferAddress (b : ByteBuffer) : CharPtr := ⟨b.memory, b.offset⟩

/-- `array()`: the whole backing array, nothing (an exception is pending) on a read-only buffer. -/
def array (b : ByteBuffer) : Option Bytes := if b.isReadOnly then none else some b.memory

/-- `GetByteArrayElements`: on a null array the process dies. -/
def getByteArrayElements : Option Bytes → Except Abrupt CharPtr
  | some array => .ok ⟨array, 0⟩
  | none => .error .crash

/-- The bytes that `nativeGetBB`, and `nativeDelete` and `nativePut` of a batch, take of a buffer;
the pending exception of `array()` is not looked at. -/
def bufferSlice (b : ByteBuffer) : Except Abrupt Bytes := do
  let ptr ← if b.isDirect then pure (getDirectBufferAddress b)
    else getByteArrayElements (array b)
  pure (ptr.slice b.position (b.limit - b.position))

/-- The window of a heap buffer's array that the code reads is the one it should read. -/
def SameWindow (b : ByteBuffer) : Prop :=
  (b.memory.drop b.position).take (b.limit - b.position) = b.remaining

instance : DecidablePred SameWindow := fun _ => inferInstanceAs (Decidable (_ = _))

/-- The buffers of which the code takes the right bytes. -/
def Taken (b : ByteBuffer) : Prop := b.isDirect = true ∨ b.isReadOnly = false ∧ SameWindow b

instance : DecidablePred Taken := fun _ => inferInstanceAs (Decidable (_ ∨ _ ∧ _))

theorem bufferSlice_of_direct {b : ByteBuffer} (h : b.isDirect = true) :
    bufferSlice b = .ok b.remaining := by
  simp [bufferSlice, h, getDirectBufferAddress, CharPtr.slice, ByteBuffer.remaining]
  rfl

theorem bufferSlice_of_heap {b : ByteBuffer} (h : b.isDirect = false) (hr : b.isReadOnly = false) :
    bufferSlice b = .ok ((b.memory.drop b.position).take (b.limit - b.position)) := by
  simp [bufferSlice, h, hr, array, getByteArrayElements, CharPtr.slice]

theorem bufferSlice_of_readOnly {b : ByteBuffer} (h : b.isDirect = false)
    (hr : b.isReadOnly = true) : bufferSlice b = .error .crash := by
  simp [bufferSlice, h, hr, array, getByteArrayElements]

/-- **When the code takes the remaining bytes of a buffer.** -/
theorem bufferSlice_eq_iff (b : ByteBuffer) : bufferSlice b = .ok b.remaining ↔ Taken b := by
  cases hd : b.isDirect with
  | true => simp [bufferSlice_of_direct hd, Taken, hd]
  | false =>
    cases hr : b.isReadOnly with
    | true => simp [bufferSlice_of_readOnly hd hr, Taken, hd, hr]
    | false => simp [bufferSlice_of_heap hd hr, Taken, hd, hr, SameWindow]

/-- **It never ends with an exception.** -/
theorem bufferSlice_ne_thrown (b : ByteBuffer) (t : Throwable) :
    bufferSlice b ≠ .error (.thrown t) := by
  cases hd : b.isDirect with
  | true => simp [bufferSlice_of_direct hd]
  | false =>
    cases hr : b.isReadOnly with
    | true => simp [bufferSlice_of_readOnly hd hr]
    | false => simp [bufferSlice_of_heap hd hr]

/-- A heap buffer that starts at the beginning of its array. -/
theorem taken_of_offset_zero {b : ByteBuffer} (hr : b.isReadOnly = false) (h : b.offset = 0) :
    Taken b := by
  refine .inr ⟨hr, ?_⟩
  rw [SameWindow, ByteBuffer.remaining, h, Nat.zero_add]

/-- A buffer with nothing remaining. -/
theorem taken_of_empty {b : ByteBuffer} (hr : b.isReadOnly = false) (h : b.position = b.limit) :
    Taken b := by
  refine .inr ⟨hr, ?_⟩
  rw [SameWindow, ByteBuffer.remaining, h, Nat.sub_self, List.take_zero, List.take_zero]

end Jni
