import AndroidLevelDB.Leveldb.Crc32c
import AndroidLevelDB.Leveldb.Env

/-!
# Leveldb/LogWriter — writing a log

A log is a sequence of blocks.  A record is written in fragments, none of which crosses the end of a
block; a fragment has a header with a checksum, its length and its type.  `Fragments` is this format.
The writer follows it (`Writer.addRecord_spec`): it appends the fragments of the record, and a device
that fills up gets the front of them.
-/

open ByteCodec

namespace Leveldb.Log

inductive RecordType
  | kZeroType
  | kFullType
  | kFirstType
  | kMiddleType
  | kLastType
deriving DecidableEq

def RecordType.toNat : RecordType → ℕ
  | kZeroType => 0
  | kFullType => 1
  | kFirstType => 2
  | kMiddleType => 3
  | kLastType => 4

def kBlockSize : ℕ := 32768

/-- Checksum, length, type. -/
def kHeaderSize : ℕ := 4 + 2 + 1

structure Writer where
  dest : WritableFile
  blockOffset : ℕ
deriving DecidableEq

namespace Writer

/-- A writer of an empty file. -/
def new (dest : WritableFile) : Writer := ⟨dest, 0⟩

/-- The header of a fragment. -/
def header (t : RecordType) (ptr : Bytes) : Bytes :=
  let type := UInt8.ofNat t.toNat
  let crc := Crc32c.mask (Crc32c.extend 0 (Crc32c.value 0 [type]) ptr)
  encodeFixed32 crc.toNat ++
    [UInt8.ofNat (ptr.length &&& 0xff), UInt8.ofNat (ptr.length >>> 8), type]

/-- `EmitPhysicalRecord`. -/
def emitPhysicalRecord (w : Writer) (t : RecordType) (ptr : Bytes) : Status × Writer :=
  let (s, dest) := w.dest.append (header t ptr)
  let (s, dest) := if s.ok then dest.append ptr else (s, dest)
  let (s, dest) := if s.ok then dest.flush else (s, dest)
  (s, ⟨dest, w.blockOffset + kHeaderSize + ptr.length⟩)

/-- Switch to a new block where no header fits; the trailer is filled with zeros. -/
def switchBlock (w : Writer) : Writer :=
  let leftover := kBlockSize - w.blockOffset
  if leftover < kHeaderSize then
    ⟨if leftover > 0 then (w.dest.append (List.replicate leftover 0)).2 else w.dest, 0⟩
  else w

/-- The loop of `AddRecord`; only its first fragment may be empty, so that the length bounds the
rounds. -/
def addRecordLoop : ℕ → Bool → Bytes → Writer → Status × Writer
  | 0, _, _, w => (.OK, w)
  | n + 1, start, left, w =>
    let w := w.switchBlock
    let avail := kBlockSize - w.blockOffset - kHeaderSize
    let fragmentLength := if left.length < avail then left.length else avail
    let last := left.length = fragmentLength
    let type :=
      if start && last then RecordType.kFullType
      else if start then .kFirstType
      else if last then .kLastType
      else .kMiddleType
    let (s, w) := w.emitPhysicalRecord type (left.take fragmentLength)
    let left := left.drop fragmentLength
    if s.ok && left.length > 0 then addRecordLoop n false left w else (s, w)

def addRecord (w : Writer) (slice : Bytes) : Status × Writer :=
  addRecordLoop (slice.length + 2) true slice w

/-- The records of a list, one after another, with what is reported for each. -/
def addRecords (w : Writer) : List Bytes → List Status × Writer
  | [] => ([], w)
  | slice :: slices =>
    let (s, w) := w.addRecord slice
    let (ss, w) := w.addRecords slices
    (s :: ss, w)

end Writer

/-! ## The format -/

/-- A fragment with its header. -/
def physical (t : RecordType) (a : Bytes) : Bytes := Writer.header t a ++ a

/-- `bytes` holds `data`, the first part of a record or a later one, from the offset `o` of a block
on, and ends at `o'`. -/
inductive Fragments : Bool → Bytes → ℕ → Bytes → ℕ → Prop
  | last {start : Bool} {data : Bytes} {o : ℕ} (h : o + kHeaderSize + data.length ≤ kBlockSize) :
    Fragments start data o (physical (if start then .kFullType else .kLastType) data)
      (o + kHeaderSize + data.length)
  | more {start : Bool} {a b : Bytes} {o : ℕ} {bytes : Bytes} {o' : ℕ}
    (h : o + kHeaderSize + a.length = kBlockSize) (hb : b ≠ [])
    (rest : Fragments false b kBlockSize bytes o') :
    Fragments start (a ++ b) o (physical (if start then .kFirstType else .kMiddleType) a ++ bytes) o'
  | switch {start : Bool} {data : Bytes} {o : ℕ} {bytes : Bytes} {o' : ℕ} (ho : o ≤ kBlockSize)
    (h : kBlockSize - o < kHeaderSize) (rest : Fragments start data 0 bytes o') :
    Fragments start data o (List.replicate (kBlockSize - o) 0 ++ bytes) o'

/-- The types of fragments are not that of a trailer. -/
theorem fragmentType_ne {start : Bool} {t t' : RecordType} (ht : t ≠ .kZeroType)
    (ht' : t' ≠ .kZeroType) : (if start then t else t') ≠ .kZeroType := by
  split
  · exact ht
  · exact ht'

@[simp] theorem length_header (t : RecordType) (a : Bytes) :
    (Writer.header t a).length = kHeaderSize := by
  simp [Writer.header, kHeaderSize]

theorem length_physical (t : RecordType) (a : Bytes) :
    (physical t a).length = kHeaderSize + a.length := by
  rw [physical, List.length_append, length_header]

namespace Writer

theorem emitPhysicalRecord_eq (w : Writer) (t : RecordType) (ptr : Bytes) :
    w.emitPhysicalRecord t ptr = ((w.dest.append (physical t ptr)).1,
      ⟨(w.dest.append (physical t ptr)).2, w.blockOffset + kHeaderSize + ptr.length⟩) := by
  rw [physical, WritableFile.append_append, emitPhysicalRecord]
  by_cases h : (w.dest.append (header t ptr)).1.ok
  · simp only [h, if_true, WritableFile.flush]
    by_cases h' : ((w.dest.append (header t ptr)).2.append ptr).1.ok
    · simp [Status.ok_iff.mp h']
    · simp [h']
  · simp [h]

/-- The file got `bytes`, and without an error the block is filled up to `o'`. -/
structure Wrote (w : Writer) (bytes : Bytes) (o' : ℕ) (r : Status × Writer) : Prop where
  append : (r.1, r.2.dest) = w.dest.append bytes
  offset : r.1.ok = true → r.2.blockOffset = o'
  offset_le : r.2.blockOffset ≤ kBlockSize

/-- The rest of a round, in a block where a header fits. -/
theorem wrote_fragment {n : ℕ} {start : Bool} {left : Bytes} {w : Writer}
    (ho : w.blockOffset + kHeaderSize ≤ kBlockSize)
    (ih : ∀ (b : Bytes) (w' : Writer), w'.blockOffset = kBlockSize → b ≠ [] →
      left.length = kBlockSize - w.blockOffset - kHeaderSize + b.length →
      ∃ bytes o', Fragments false b kBlockSize bytes o' ∧ o' ≤ kBlockSize ∧
        w'.Wrote bytes o' (addRecordLoop n false b w')) (hw : w.switchBlock = w) :
    ∃ bytes o', Fragments start left w.blockOffset bytes o' ∧ o' ≤ kBlockSize ∧
      w.Wrote bytes o' (addRecordLoop (n + 1) start left w) := by
  set avail := kBlockSize - w.blockOffset - kHeaderSize with havail
  by_cases h : left.length ≤ avail
  · -- the rest of the record fits
    have hlen : (if left.length < avail then left.length else avail) = left.length := by
      split <;> omega
    refine ⟨_, _, .last (by omega), by omega, ?_⟩
    have hloop : addRecordLoop (n + 1) start left w
        = w.emitPhysicalRecord (if start then .kFullType else .kLastType) left := by
      rw [addRecordLoop]
      simp only [hw, ← havail, hlen, List.take_length, List.drop_length]
      cases start <;> simp
    rw [hloop, emitPhysicalRecord_eq]
    exact ⟨rfl, fun _ => rfl, by dsimp only; omega⟩
  · have hlen : (if left.length < avail then left.length else avail) = avail :=
      if_neg (by omega)
    have htake : (left.take avail).length = avail := by
      rw [List.length_take]
      omega
    have hne : left.drop avail ≠ [] := by
      intro h0
      have := congrArg List.length h0
      rw [List.length_drop, List.length_nil] at this
      omega
    have hfull : w.blockOffset + kHeaderSize + (left.take avail).length = kBlockSize := by
      omega
    set t : RecordType := if start then .kFirstType else .kMiddleType with ht
    have hloop : addRecordLoop (n + 1) start left w
        = if (w.emitPhysicalRecord t (left.take avail)).1.ok then
            addRecordLoop n false (left.drop avail) (w.emitPhysicalRecord t (left.take avail)).2
          else w.emitPhysicalRecord t (left.take avail) := by
      have hlast : ¬ left.length = avail := by omega
      have hpos : (left.drop avail).length > 0 := List.length_pos_iff.mpr hne
      rw [addRecordLoop]
      simp only [hw, ← havail, hlen, hlast, decide_false, Bool.and_false, hpos, decide_true,
        Bool.and_true]
      cases start <;> rfl
    set e := w.emitPhysicalRecord t (left.take avail) with he'
    obtain ⟨bytes, o', hfrag, ho', hwrote⟩ := ih (left.drop avail) e.2
      (by rw [he', emitPhysicalRecord_eq]; exact hfull) hne (by rw [List.length_drop]; omega)
    have hmore : Fragments start (left.take avail ++ left.drop avail) w.blockOffset
        (physical t (left.take avail) ++ bytes) o' := .more hfull hne hfrag
    rw [List.take_append_drop] at hmore
    refine ⟨_, o', hmore, ho', ?_⟩
    have he : (e.1, e.2.dest) = w.dest.append (physical t (left.take avail)) := by
      rw [he', emitPhysicalRecord_eq]
    obtain ⟨hs, hd⟩ := Prod.ext_iff.mp he
    rw [hloop]
    by_cases hok : e.1.ok
    · rw [if_pos hok]
      refine ⟨?_, hwrote.offset, hwrote.offset_le⟩
      rw [WritableFile.append_append, ← hs, if_pos hok, ← hd]
      exact hwrote.append
    · rw [if_neg hok]
      refine ⟨?_, fun h => absurd h hok, ?_⟩
      swap
      · rw [he', emitPhysicalRecord_eq]
        exact hfull.le
      rw [WritableFile.append_append, ← hs, if_neg hok]
      exact he

/-- Switching blocks writes what is left of the old one. -/
theorem switchBlock_eq {w : Writer} (h : kBlockSize - w.blockOffset < kHeaderSize) :
    w.switchBlock
      = ⟨(w.dest.append (List.replicate (kBlockSize - w.blockOffset) 0)).2, 0⟩ := by
  rw [switchBlock, if_pos h]
  by_cases h0 : kBlockSize - w.blockOffset > 0
  · rw [if_pos h0]
  · rw [if_neg h0, Nat.eq_zero_of_not_pos h0, List.replicate_zero, WritableFile.append_nil]

end Writer

theorem Fragments.ne_nil {start : Bool} {data : Bytes} {o : ℕ} {bytes : Bytes} {o' : ℕ}
    (h : Fragments start data o bytes o') : bytes ≠ [] := by
  have hp (t : RecordType) (a : Bytes) : physical t a ≠ [] := by
    intro h0
    have hlen := length_physical t a
    rw [h0, List.length_nil, kHeaderSize] at hlen
    omega
  induction h with
  | last _ => exact hp _ _
  | more _ _ _ _ => exact List.append_ne_nil_of_left_ne_nil (hp _ _) _
  | switch _ _ _ ih => exact List.append_ne_nil_of_right_ne_nil _ ih

namespace Writer

/-- **The loop appends the fragments of what is left**, up to the first error. -/
theorem wrote_loop : ∀ (n : ℕ) (start : Bool) (left : Bytes) (w : Writer),
    w.blockOffset ≤ kBlockSize →
    (left.length + 2 ≤ n ∨ w.blockOffset = kBlockSize ∧ left.length + 1 ≤ n) →
      ∃ bytes o', Fragments start left w.blockOffset bytes o' ∧ o' ≤ kBlockSize ∧
        w.Wrote bytes o' (addRecordLoop n start left w)
  | 0, _, _, _, _, h => by rcases h with h | h <;> omega
  | n + 1, start, left, w, ho, h => by
      by_cases hleft : kBlockSize - w.blockOffset < kHeaderSize
      · -- a new block, in which more than the header fits
        set w' := w.switchBlock with hw'
        have heq := switchBlock_eq hleft
        have hsame : w'.switchBlock = w' := by
          rw [hw', heq, switchBlock, if_neg (by decide : ¬ kBlockSize - 0 < kHeaderSize)]
        have h0 : w'.blockOffset = 0 := by rw [hw', heq]
        have hloop : addRecordLoop (n + 1) start left w = addRecordLoop (n + 1) start left w' := by
          rw [addRecordLoop, addRecordLoop, hsame]
        obtain ⟨bytes, o', hfrag, ho', hwrote⟩ : ∃ bytes o',
            Fragments start left w'.blockOffset bytes o' ∧ o' ≤ kBlockSize ∧
              w'.Wrote bytes o' (addRecordLoop (n + 1) start left w') := by
          refine wrote_fragment (by rw [h0]; decide) (fun b w'' hw'' _ hlen => ?_) hsame
          simp only [h0, kBlockSize, kHeaderSize] at hlen
          exact hw'' ▸ wrote_loop n false b w'' hw''.le (.inr ⟨hw'', by omega⟩)
        rw [h0] at hfrag
        refine ⟨_, o', .switch ho hleft hfrag, ho', ?_, hloop ▸ hwrote.offset,
          hloop ▸ hwrote.offset_le⟩
        rw [WritableFile.append_append_of_ne_nil _ _ hfrag.ne_nil, hloop, hwrote.append, hw', heq]
      · refine wrote_fragment (by omega) (fun b w'' hw'' _ hlen => ?_) (if_neg hleft)
        have hheader : 0 < kHeaderSize := by decide
        exact hw'' ▸ wrote_loop n false b w'' hw''.le (.inr ⟨hw'', by omega⟩)

/-- **`AddRecord` appends the fragments of the record**, up to the first error. -/
theorem addRecord_spec {w : Writer} (ho : w.blockOffset ≤ kBlockSize) (slice : Bytes) :
    ∃ bytes o', Fragments true slice w.blockOffset bytes o' ∧ o' ≤ kBlockSize ∧
      w.Wrote bytes o' (w.addRecord slice) :=
  wrote_loop _ true slice w ho (.inl le_rfl)

end Writer

end Leveldb.Log
