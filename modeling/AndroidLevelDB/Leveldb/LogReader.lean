import AndroidLevelDB.Leveldb.LogWriter

/-!
# Leveldb/LogReader — reading a log

The reader takes a block at a time into its buffer and hands out one record after another.  What is
damaged is dropped and reported; a record that the file ends in was not written to its end, and is
not reported.  `Reader.At` says where a reader is.  It reads back the fragments that lie before it
(`Reader.At.readRecord`), and nothing of a record that was cut off (`Reader.At.readRecord_cut`).
-/

open ByteCodec

namespace Leveldb.Log

structure Reader where
  file : SequentialFile
  checksum : Bool
  buffer : Bytes
  /-- The last read came short. -/
  eof : Bool
  lastRecordOffset : UInt64
  endOfBufferOffset : UInt64
  initialOffset : UInt64
  /-- What was reported, with the number of bytes dropped. -/
  reports : List (ℕ × Status)
deriving DecidableEq

/-- What `ReadPhysicalRecord` returns besides the types. -/
def kEof : ℕ := 5

def kBadRecord : ℕ := 6

namespace Reader

def new (file : SequentialFile) (checksum : Bool) (initialOffset : UInt64) : Reader :=
  ⟨file, checksum, [], false, 0, 0, initialOffset, []⟩

/-- `ReportDrop`, in 64-bit arithmetic. -/
def reportDrop (r : Reader) (bytes : ℕ) (reason : Status) : Reader :=
  if r.endOfBufferOffset - .ofNat r.buffer.length - .ofNat bytes ≥ r.initialOffset then
    { r with reports := r.reports ++ [(bytes, reason)] }
  else r

/-- `ReportCorruption`. -/
def reportCorruption (r : Reader) (bytes : ℕ) (reason : String) : Reader :=
  r.reportDrop bytes (.corruption reason)

/-- `SkipToInitialBlock`. -/
def skipToInitialBlock (r : Reader) : Bool × Reader :=
  let offsetInBlock := r.initialOffset.toNat % kBlockSize
  let blockStartLocation := r.initialOffset.toNat - offsetInBlock
  let blockStartLocation :=
    if offsetInBlock > kBlockSize - 6 then blockStartLocation + kBlockSize else blockStartLocation
  let r := { r with endOfBufferOffset := .ofNat blockStartLocation }
  if blockStartLocation > 0 then
    let (skipStatus, file) := r.file.skip blockStartLocation
    let r := { r with file := file }
    if !skipStatus.ok then (false, r.reportDrop blockStartLocation skipStatus) else (true, r)
  else (true, r)

/-- The next block, in `ReadPhysicalRecord`; `false` is its `return kEof`. -/
def fill (r : Reader) : Bool × Reader :=
  let (status, buffer, file) := r.file.read kBlockSize
  let r := { r with
    file := file
    buffer := buffer
    endOfBufferOffset := r.endOfBufferOffset + .ofNat buffer.length }
  if !status.ok then
    let r := { r with buffer := [] }.reportDrop kBlockSize status
    (false, { r with eof := true })
  else if r.buffer.length < kBlockSize then (true, { r with eof := true })
  else (true, r)

/-- `ReadPhysicalRecord` on what is in the buffer, which holds a header or is the last one. -/
def parse (r : Reader) : (ℕ × Bytes) × Reader :=
  if r.buffer.length < kHeaderSize then ((kEof, []), { r with buffer := [] })
  else
    let header := r.buffer
    let a := (header.getD 4 0).toNat
    let b := (header.getD 5 0).toNat
    let type := (header.getD 6 0).toNat
    let length := a ||| b <<< 8
    if kHeaderSize + length > r.buffer.length then
      let dropSize := r.buffer.length
      let r := { r with buffer := [] }
      if !r.eof then ((kBadRecord, []), r.reportCorruption dropSize "bad record length")
      else ((kEof, []), r)
    else if type = RecordType.kZeroType.toNat ∧ length = 0 then
      ((kBadRecord, []), { r with buffer := [] })
    else if r.checksum ∧ Crc32c.unmask (.ofNat (decodeFixed32 header))
        ≠ Crc32c.value 0 ((header.drop 6).take (1 + length)) then
      let dropSize := r.buffer.length
      ((kBadRecord, []), { r with buffer := [] }.reportCorruption dropSize "checksum mismatch")
    else
      let r := { r with buffer := r.buffer.drop (kHeaderSize + length) }
      if r.endOfBufferOffset - .ofNat r.buffer.length - .ofNat kHeaderSize - .ofNat length
          < r.initialOffset then ((kBadRecord, []), r)
      else ((type, (header.drop kHeaderSize).take length), r)

/-- `ReadPhysicalRecord`.  A read that does not come short fills the buffer, so that there is one. -/
def readPhysicalRecord (r : Reader) : (ℕ × Bytes) × Reader :=
  if r.buffer.length < kHeaderSize ∧ !r.eof then
    let (ok, r) := r.fill
    if ok then r.parse else ((kEof, []), r)
  else r.parse

/-- An earlier writer could leave an empty first fragment behind. -/
def reportPartial (r : Reader) (inFragmentedRecord : Bool) (scratch : Bytes) (reason : String) :
    Reader :=
  if inFragmentedRecord ∧ scratch ≠ [] then r.reportCorruption scratch.length reason else r

/-- The loop of `ReadRecord`; every round but the last takes bytes, whose number bounds the
rounds. -/
def readRecordLoop : ℕ → Bool → Bytes → UInt64 → Reader → Option Bytes × Reader
  | 0, _, _, _, r => (none, r)
  | n + 1, inFragmentedRecord, scratch, prospectiveRecordOffset, r =>
    let physicalRecordOffset := r.endOfBufferOffset - .ofNat r.buffer.length
    let ((recordType, fragment), r) := r.readPhysicalRecord
    if recordType = RecordType.kFullType.toNat then
      let r := r.reportPartial inFragmentedRecord scratch "partial record without end(1)"
      (some fragment, { r with lastRecordOffset := physicalRecordOffset })
    else if recordType = RecordType.kFirstType.toNat then
      let r := r.reportPartial inFragmentedRecord scratch "partial record without end(2)"
      readRecordLoop n true fragment physicalRecordOffset r
    else if recordType = RecordType.kMiddleType.toNat then
      if !inFragmentedRecord then
        readRecordLoop n inFragmentedRecord scratch prospectiveRecordOffset
          (r.reportCorruption fragment.length "missing start of fragmented record(1)")
      else
        readRecordLoop n inFragmentedRecord (scratch ++ fragment) prospectiveRecordOffset r
    else if recordType = RecordType.kLastType.toNat then
      if !inFragmentedRecord then
        readRecordLoop n inFragmentedRecord scratch prospectiveRecordOffset
          (r.reportCorruption fragment.length "missing start of fragmented record(2)")
      else
        (some (scratch ++ fragment), { r with lastRecordOffset := prospectiveRecordOffset })
    else if recordType = kEof then (none, r)
    else if recordType = kBadRecord then
      if inFragmentedRecord then
        readRecordLoop n false [] prospectiveRecordOffset
          (r.reportCorruption scratch.length "error in middle of record")
      else readRecordLoop n inFragmentedRecord scratch prospectiveRecordOffset r
    else
      readRecordLoop n false [] prospectiveRecordOffset
        (r.reportCorruption (fragment.length + if inFragmentedRecord then scratch.length else 0)
          ("unknown record type " ++ toString recordType))

/-- The bytes not handed out yet. -/
def left (r : Reader) : ℕ := r.buffer.length + r.file.rest.length

/-- `ReadRecord`; `none` is its `false`. -/
def readRecord (r : Reader) : Option Bytes × Reader :=
  let (skipped, r) :=
    if r.lastRecordOffset < r.initialOffset then r.skipToInitialBlock else (true, r)
  if skipped then readRecordLoop (r.left + 1) false [] 0 r else (none, r)

/-- All records, as a caller reads them one after another. -/
def readAllLoop : ℕ → Reader → List Bytes × Reader
  | 0, r => ([], r)
  | n + 1, r =>
    match r.readRecord with
    | (none, r) => ([], r)
    | (some record, r) =>
      let (records, r) := readAllLoop n r
      (record :: records, r)

def readAll (r : Reader) : List Bytes × Reader := readAllLoop (r.left + 1) r

/-! ## One fragment -/

/-- The length in a header. -/
theorem header_length {n : ℕ} (h : n < 2 ^ 16) :
    (UInt8.ofNat (n &&& 0xff)).toNat ||| (UInt8.ofNat (n >>> 8)).toNat <<< 8 = n := by
  have hlow : n % 256 < 2 ^ 8 := Nat.mod_lt _ (by decide)
  rw [Nat.and_two_pow_sub_one_eq_mod n 8, UInt8.toNat_ofNat', UInt8.toNat_ofNat', Nat.mod_mod,
    Nat.shiftRight_eq_div_pow, Nat.mod_eq_of_lt (show n / 2 ^ 8 < 2 ^ 8 by omega), Nat.or_comm,
    ← Nat.shiftLeft_add_eq_or_of_lt hlow, Nat.shiftLeft_eq]
  omega

theorem physical_append (t : RecordType) (a rest : Bytes) :
    physical t a ++ rest
      = encodeFixed32 (Crc32c.mask (Crc32c.extend 0 (Crc32c.value 0 [.ofNat t.toNat]) a)).toNat ++
        (.ofNat (a.length &&& 0xff) :: .ofNat (a.length >>> 8) :: .ofNat t.toNat :: (a ++ rest)) := by
  simp [physical, Writer.header]

/-- The checksum of a header is that of the type and the fragment. -/
theorem header_checksum (t : RecordType) (a rest : Bytes) :
    Crc32c.unmask (.ofNat (decodeFixed32 (physical t a ++ rest)))
      = Crc32c.value 0 (((physical t a ++ rest).drop 6).take (1 + a.length)) := by
  have hbytes : ((physical t a ++ rest).drop 6).take (1 + a.length) = .ofNat t.toNat :: a := by
    rw [physical_append, show 6 = 4 + 2 from rfl, ← List.drop_drop,
      List.drop_left' (length_encodeFixed32 _), Nat.add_comm 1]
    simp
  rw [hbytes, physical_append, decodeFixed32_append, Nat.mod_eq_of_lt (UInt32.toNat_lt _),
    UInt32.ofNat_toNat, Crc32c.unmask_mask, Crc32c.value, Crc32c.value, Crc32c.extend_append 0 0 0]
  rfl

/-- Length and type in a header. -/
theorem header_bytes (t : RecordType) (a rest : Bytes) :
    (physical t a ++ rest).getD 4 0 = .ofNat (a.length &&& 0xff) ∧
      (physical t a ++ rest).getD 5 0 = .ofNat (a.length >>> 8) ∧
      (physical t a ++ rest).getD 6 0 = .ofNat t.toNat := by
  have hget (i : ℕ) : (physical t a ++ rest).getD (4 + i) 0
      = (.ofNat (a.length &&& 0xff) :: .ofNat (a.length >>> 8) :: .ofNat t.toNat ::
          (a ++ rest) : Bytes).getD i 0 := by
    rw [physical_append, List.getD_append_right _ _ _ _ (by simp), length_encodeFixed32,
      Nat.add_sub_cancel_left]
  exact ⟨hget 0, hget 1, hget 2⟩

/-- **A fragment at the front of the buffer is read.** -/
theorem parse_physical {r : Reader} {t : RecordType} {a rest : Bytes} (ht : t ≠ .kZeroType)
    (ha : a.length < 2 ^ 16) (hb : r.buffer = physical t a ++ rest) (hi : r.initialOffset = 0) :
    r.parse = ((t.toNat, a), { r with buffer := rest }) := by
  have hlen : ¬ r.buffer.length < kHeaderSize := by
    rw [hb, List.length_append, length_physical]
    omega
  have htype : (UInt8.ofNat t.toNat).toNat = t.toNat := by cases t <;> rfl
  have hzero : t.toNat ≠ RecordType.kZeroType.toNat := by
    cases t <;> first | exact absurd rfl ht | decide
  have hdrop : (physical t a ++ rest).drop (kHeaderSize + a.length) = rest :=
    List.drop_left' (length_physical t a)
  have htake : ((physical t a ++ rest).drop kHeaderSize).take a.length = a := by
    rw [physical, List.append_assoc, List.drop_left' (length_header t a), List.take_left]
  have hfits : ¬ kHeaderSize + a.length > (physical t a ++ rest).length := by
    rw [List.length_append, length_physical]
    omega
  obtain ⟨h0, h1, h2⟩ := header_bytes t a rest
  rw [parse, if_neg hlen, hb]
  simp only [h0, h1, h2, htype, header_length ha, hfits, hzero, false_and, if_false,
    header_checksum, hdrop, htake, hi]
  rw [if_neg fun h => h.2 rfl, if_neg UInt64.not_lt_zero]

/-! ## Where a reader is -/

/-- The reader has come to the offset `o` of a block, with `rem` before it. -/
structure At (r : Reader) (o : ℕ) (rem : Bytes) (reports : List (ℕ × Status)) : Prop where
  offset_le : o ≤ kBlockSize
  buffer : r.buffer = rem.take (kBlockSize - o)
  rest : r.file.rest = rem.drop (kBlockSize - o)
  eof : r.eof = decide (rem.length < kBlockSize - o)
  ending : r.file.ending = .OK
  initialOffset : r.initialOffset = 0
  reports : r.reports = reports

/-- A new reader is at the end of a block that is not there. -/
theorem at_new (contents : Bytes) (checksum : Bool) :
    At (new (.new contents) checksum 0) kBlockSize contents [] where
  offset_le := le_rfl
  buffer := by simp [new]
  rest := by simp [new, SequentialFile.new]
  eof := by simp [new]
  ending := rfl
  initialOffset := rfl
  reports := rfl

variable {r : Reader} {o : ℕ} {rem : Bytes} {reports : List (ℕ × Status)}

theorem At.left_eq (h : At r o rem reports) : r.left = rem.length := by
  rw [left, h.buffer, h.rest, ← List.length_append, List.take_append_drop]

theorem At.lastRecordOffset (h : At r o rem reports) (offset : UInt64) :
    At { r with lastRecordOffset := offset } o rem reports :=
  ⟨h.offset_le, h.buffer, h.rest, h.eof, h.ending, h.initialOffset, h.reports⟩

/-- **A fragment before the reader is read.** -/
theorem At.readPhysicalRecord {t : RecordType} {a : Bytes}
    (h : At r o (physical t a ++ rem) reports) (ht : t ≠ .kZeroType)
    (ho : o + kHeaderSize + a.length ≤ kBlockSize) :
    ∃ r', r.readPhysicalRecord = ((t.toNat, a), r') ∧
      At r' (o + kHeaderSize + a.length) rem reports := by
  have hlen := length_physical t a
  have hbuf : r.buffer = physical t a ++ rem.take (kBlockSize - (o + kHeaderSize + a.length)) := by
    rw [h.buffer, List.take_append, List.take_of_length_le (by omega), hlen,
      show kBlockSize - o - (kHeaderSize + a.length)
        = kBlockSize - (o + kHeaderSize + a.length) by omega]
  have hfull : ¬ (r.buffer.length < kHeaderSize ∧ !r.eof) := by
    rw [hbuf, List.length_append, hlen]
    omega
  have ha : a.length < 2 ^ 16 := by
    simp only [kBlockSize] at ho
    omega
  refine ⟨_, (if_neg hfull).trans (parse_physical ht ha hbuf h.initialOffset), ?_⟩
  refine ⟨ho, rfl, ?_, ?_, h.ending, h.initialOffset, h.reports⟩
  · rw [h.rest, List.drop_append, List.drop_of_length_le (by omega), List.nil_append, hlen,
      show kBlockSize - o - (kHeaderSize + a.length)
        = kBlockSize - (o + kHeaderSize + a.length) by omega]
  · rw [h.eof, List.length_append, hlen]
    congr 1
    exact propext (by omega)

/-- **At the end of a block the next one is read.** -/
theorem At.switch (h : At r o (List.replicate (kBlockSize - o) 0 ++ rem) reports)
    (ho : kBlockSize - o < kHeaderSize) :
    ∃ r', r.readPhysicalRecord = r'.readPhysicalRecord ∧ At r' 0 rem reports := by
  have hlen : (List.replicate (kBlockSize - o) (0 : UInt8)).length = kBlockSize - o :=
    List.length_replicate
  have hrest : r.file.rest = rem := h.rest.trans (List.drop_left' hlen)
  have heof : r.eof = false := by
    rw [h.eof, List.length_append, hlen]
    exact decide_eq_false (by omega)
  have hshort : r.buffer.length < kHeaderSize ∧ !r.eof := by
    rw [h.buffer, List.take_left' hlen, hlen, heof]
    exact ⟨ho, rfl⟩
  have hstatus : (if rem.length < kBlockSize then r.file.ending else .OK) = .OK := by
    rw [h.ending, ite_self]
  set r₁ : Reader := { r with
    file := { r.file with rest := rem.drop kBlockSize }
    buffer := rem.take kBlockSize
    eof := decide (rem.length < kBlockSize)
    endOfBufferOffset := r.endOfBufferOffset + .ofNat (rem.take kBlockSize).length } with hr₁
  have hfill : r.fill = (true, r₁) := by
    have htake : (rem.take kBlockSize).length < kBlockSize ↔ rem.length < kBlockSize := by
      rw [List.length_take]
      omega
    simp only [fill, SequentialFile.read, hrest, hstatus, Status.ok_OK, Bool.not_true,
      Bool.false_eq_true, if_false, htake]
    by_cases hs : rem.length < kBlockSize
    · simp [hr₁, hs]
    · simp [hr₁, hs, heof]
  have hfull : ¬ (r₁.buffer.length < kHeaderSize ∧ !r₁.eof) := by
    rintro ⟨hb, he⟩
    have hge : ¬ rem.length < kBlockSize := by simpa [hr₁] using he
    have hhead : kHeaderSize ≤ kBlockSize := by decide
    simp only [hr₁, List.length_take] at hb
    omega
  refine ⟨r₁, ?_, Nat.zero_le _, rfl, rfl, rfl, h.ending, h.initialOffset, h.reports⟩
  rw [Reader.readPhysicalRecord, if_pos hshort, hfill, Reader.readPhysicalRecord, if_neg hfull]
  rfl

/-- **What was not written to its end is not read.** -/
theorem At.eof_of_prefix {t : RecordType} {a : Bytes} (h : At r o rem reports)
    (hp : rem <+: physical t a) (hne : rem ≠ physical t a)
    (ho : o + kHeaderSize + a.length ≤ kBlockSize) :
    ∃ r', r.readPhysicalRecord = ((kEof, []), r') ∧ r'.reports = reports := by
  obtain ⟨tail, htail⟩ := hp
  have hlen := congrArg List.length htail
  rw [List.length_append, length_physical] at hlen
  have htail0 : 0 < tail.length := by
    refine List.length_pos_iff.mpr fun h0 => hne ?_
    rw [← htail, h0, List.append_nil]
  have heof : r.eof = true := h.eof.trans (decide_eq_true (by omega))
  have hbuf : r.buffer = rem := h.buffer.trans (List.take_of_length_le (by omega))
  have ha : a.length < 2 ^ 16 := by
    simp only [kBlockSize] at ho
    omega
  rw [Reader.readPhysicalRecord, if_neg (by simp [heof]), parse]
  by_cases hshort : r.buffer.length < kHeaderSize
  · exact ⟨_, if_pos hshort, h.reports⟩
  · rw [hbuf] at hshort
    obtain ⟨h0, h1, -⟩ := header_bytes t a []
    have hget (i : ℕ) (hi : i < kHeaderSize) : rem.getD i 0 = (physical t a ++ []).getD i 0 := by
      rw [List.append_nil, ← htail, List.getD_append _ _ _ _ (by omega)]
    have hover : kHeaderSize + a.length > rem.length := by omega
    rw [hbuf, if_neg hshort]
    simp only [hget 4 (by decide), hget 5 (by decide), h0, h1, header_length ha, hover, if_true,
      heof, Bool.not_true, Bool.false_eq_true, if_false]
    exact ⟨_, rfl, h.reports⟩

/-- **Nothing is read at the end**, nor of a trailer that was cut off. -/
theorem At.eof_of_short (h : At r o rem reports) (hshort : rem.length < kHeaderSize)
    (hcut : rem = [] ∨ rem.length < kBlockSize - o) :
    ∃ r', r.readPhysicalRecord = ((kEof, []), r') ∧ r'.reports = reports := by
  have hbuf : r.buffer.length < kHeaderSize := by
    rw [h.buffer, List.length_take]
    omega
  cases heof : r.eof with
  | true =>
    rw [Reader.readPhysicalRecord, if_neg (by simp [heof]), parse, if_pos hbuf]
    exact ⟨_, rfl, h.reports⟩
  | false =>
    obtain rfl : rem = [] := hcut.resolve_right fun hlt => by
      rw [h.eof, decide_eq_true hlt] at heof
      cases heof
    have hrest : r.file.rest = [] := h.rest.trans List.drop_nil
    have hfill : r.fill = (true, { r with
        file := { r.file with rest := [] }, buffer := [], eof := true
        endOfBufferOffset := r.endOfBufferOffset + .ofNat 0 }) := by
      simp [fill, SequentialFile.read, hrest, h.ending, kBlockSize]
    rw [Reader.readPhysicalRecord, if_pos ⟨hbuf, by rw [heof]; rfl⟩, hfill]
    exact ⟨_, rfl, h.reports⟩

/-! ## Records -/

/-- **The fragments of a record are put together.** -/
theorem At.readRecordLoop {start : Bool} {data : Bytes} {bytes : Bytes} {o' : ℕ}
    (hf : Fragments start data o bytes o') : ∀ {r₀ r : Reader} {n : ℕ} {scratch : Bytes}
      {offset : UInt64}, r₀.readPhysicalRecord = r.readPhysicalRecord →
      At r o (bytes ++ rem) reports → bytes.length ≤ n →
      ∃ r', r₀.readRecordLoop n (!start) scratch offset
          = (some ((if start then [] else scratch) ++ data), r') ∧ At r' o' rem reports := by
  induction hf with
  | @last start data o ho =>
    intro r₀ r n scratch offset hr h hn
    have hlen := length_physical (if start then .kFullType else .kLastType) data
    obtain ⟨m, rfl⟩ : ∃ m, n = m + 1 := ⟨n - 1, by simp only [kHeaderSize] at hlen; omega⟩
    obtain ⟨r', hread, hat⟩ := h.readPhysicalRecord (fragmentType_ne (by decide) (by decide)) ho
    rw [Reader.readRecordLoop, hr, hread]
    cases start with
    | true => exact ⟨_, rfl, hat.lastRecordOffset _⟩
    | false => exact ⟨_, rfl, hat.lastRecordOffset _⟩
  | @more start a b o bytes o' ho hb _ ih =>
    intro r₀ r n scratch offset hr h hn
    have hlen := length_physical (if start then .kFirstType else .kMiddleType) a
    rw [List.length_append, hlen] at hn
    obtain ⟨m, rfl⟩ : ∃ m, n = m + 1 := ⟨n - 1, by simp only [kHeaderSize] at hn; omega⟩
    rw [List.append_assoc] at h
    obtain ⟨r', hread, hat⟩ := h.readPhysicalRecord (fragmentType_ne (by decide) (by decide)) ho.le
    rw [ho] at hat
    have hm : bytes.length ≤ m := by
      simp only [kHeaderSize] at hn
      omega
    rw [Reader.readRecordLoop, hr, hread]
    cases start with
    | true =>
      exact ih rfl hat hm
    | false =>
      have hjoin : (if false then [] else scratch) ++ (a ++ b)
          = (if false then [] else scratch ++ a) ++ b := (List.append_assoc ..).symm
      rw [hjoin]
      exact ih rfl hat hm
  | @switch start data o bytes o' ho hleft _ ih =>
    intro r₀ r n scratch offset hr h hn
    rw [List.append_assoc] at h
    obtain ⟨r', hread, hat⟩ := h.switch hleft
    rw [List.length_append] at hn
    exact ih (hr.trans hread) hat (by omega)

/-- What is cut off lies in the first piece, or behind it. -/
theorem cut_append {rem a b : Bytes} (h : rem <+: a ++ b) (hne : rem ≠ a ++ b) :
    (rem <+: a ∧ rem ≠ a) ∨ ∃ rem', rem = a ++ rem' ∧ rem' <+: b ∧ rem' ≠ b := by
  rcases le_or_gt a.length rem.length with hle | hlt
  · obtain ⟨rem', rfl⟩ := List.prefix_of_prefix_length_le (List.prefix_append a b) h hle
    refine .inr ⟨rem', rfl, (List.prefix_append_right_inj a).mp h, fun heq => hne ?_⟩
    rw [heq]
  · refine .inl ⟨List.prefix_of_prefix_length_le h (List.prefix_append a b) hlt.le, ?_⟩
    rintro rfl
    exact lt_irrefl _ hlt

theorem readRecordLoop_eof {n : ℕ} (hn : 0 < n) {r r' : Reader}
    (h : r.readPhysicalRecord = ((kEof, []), r')) (start : Bool) (scratch : Bytes)
    (offset : UInt64) : r.readRecordLoop n start scratch offset = (none, r') := by
  obtain ⟨m, rfl⟩ : ∃ m, n = m + 1 := ⟨n - 1, by omega⟩
  rw [Reader.readRecordLoop, h]
  rfl

/-- **A record that was not written to its end is not read.** -/
theorem At.readRecordLoop_cut {start : Bool} {data : Bytes} {bytes : Bytes} {o' : ℕ}
    (hf : Fragments start data o bytes o') : ∀ {r₀ r : Reader} {n : ℕ} {scratch : Bytes}
      {offset : UInt64} {rem : Bytes}, r₀.readPhysicalRecord = r.readPhysicalRecord →
      At r o rem reports → rem <+: bytes → rem ≠ bytes → rem.length < n →
      ∃ r', r₀.readRecordLoop n (!start) scratch offset = (none, r') ∧ r'.reports = reports := by
  induction hf with
  | @last start data o ho =>
    intro r₀ r n scratch offset rem hr h hp hne hn
    obtain ⟨r', hread, hrep⟩ := h.eof_of_prefix hp hne ho
    exact ⟨r', readRecordLoop_eof (by omega) (hr.trans hread) .., hrep⟩
  | @more start a b o bytes o' ho hb _ ih =>
    intro r₀ r n scratch offset rem hr h hp hne hn
    rcases cut_append hp hne with ⟨hp, hne⟩ | ⟨rem', rfl, hp', hne'⟩
    · obtain ⟨r', hread, hrep⟩ := h.eof_of_prefix hp hne ho.le
      exact ⟨r', readRecordLoop_eof (by omega) (hr.trans hread) .., hrep⟩
    · have hlen := length_physical (if start then .kFirstType else .kMiddleType) a
      rw [List.length_append] at hn
      obtain ⟨m, rfl⟩ : ∃ m, n = m + 1 := ⟨n - 1, by omega⟩
      obtain ⟨r', hread, hat⟩ := h.readPhysicalRecord (fragmentType_ne (by decide) (by decide)) ho.le
      rw [ho] at hat
      have hm : rem'.length < m := by
        simp only [kHeaderSize] at hlen
        omega
      rw [Reader.readRecordLoop, hr, hread]
      cases start with
      | true => exact ih rfl hat hp' hne' hm
      | false => exact ih rfl hat hp' hne' hm
  | @switch start data o bytes o' ho hleft _ ih =>
    intro r₀ r n scratch offset rem hr h hp hne hn
    rcases cut_append hp hne with ⟨hp, hne⟩ | ⟨rem', rfl, hp', hne'⟩
    · have hlt : rem.length < kBlockSize - o := by
        have hle := hp.length_le
        rw [List.length_replicate] at hle
        refine lt_of_le_of_ne hle fun heq => hne (hp.eq_of_length ?_)
        rw [heq, List.length_replicate]
      obtain ⟨r', hread, hrep⟩ := h.eof_of_short (by omega) (.inr hlt)
      exact ⟨r', readRecordLoop_eof (by omega) (hr.trans hread) .., hrep⟩
    · obtain ⟨r', hread, hat⟩ := h.switch hleft
      rw [List.length_append] at hn
      exact ih (hr.trans hread) hat hp' hne' (by omega)

/-! ## Logs -/

theorem At.readRecord {data : Bytes} {bytes : Bytes} {o' : ℕ} (hf : Fragments true data o bytes o')
    (h : At r o (bytes ++ rem) reports) :
    ∃ r', r.readRecord = (some data, r') ∧ At r' o' rem reports := by
  have hleft := h.left_eq
  rw [List.length_append] at hleft
  rw [Reader.readRecord, h.initialOffset, if_neg UInt64.not_lt_zero]
  exact At.readRecordLoop hf rfl h (by omega)

theorem At.readRecord_cut {data : Bytes} {bytes : Bytes} {o' : ℕ}
    (hf : Fragments true data o bytes o') (h : At r o rem reports) (hp : rem <+: bytes)
    (hne : rem ≠ bytes) : ∃ r', r.readRecord = (none, r') ∧ r'.reports = reports := by
  have hleft := h.left_eq
  rw [Reader.readRecord, h.initialOffset, if_neg UInt64.not_lt_zero]
  exact At.readRecordLoop_cut hf rfl h hp hne (by omega)

theorem At.readRecord_nil (h : At r o [] reports) :
    ∃ r', r.readRecord = (none, r') ∧ r'.reports = reports := by
  obtain ⟨r', hread, hrep⟩ := h.eof_of_short (by decide) (.inl rfl)
  rw [Reader.readRecord, h.initialOffset, if_neg UInt64.not_lt_zero]
  exact ⟨r', readRecordLoop_eof (Nat.succ_pos _) hread .., hrep⟩

/-! ## What is reported -/

section Reports

variable (r : Reader)

theorem reportDrop_reports (bytes : ℕ) (reason : Status) :
    r.reports <+: (r.reportDrop bytes reason).reports := by
  rw [reportDrop]
  split
  · exact List.prefix_append _ _
  · exact List.prefix_rfl

theorem reportPartial_reports (inFragmentedRecord : Bool) (scratch : Bytes) (reason : String) :
    r.reports <+: (r.reportPartial inFragmentedRecord scratch reason).reports := by
  rw [reportPartial]
  split
  · exact r.reportDrop_reports _ _
  · exact List.prefix_rfl

theorem fill_reports : r.reports <+: r.fill.2.reports := by
  simp only [fill]
  split_ifs
  · exact reportDrop_reports { r with file := _, buffer := [], endOfBufferOffset := _ } _ _
  · exact List.prefix_rfl
  · exact List.prefix_rfl

theorem parse_reports : r.reports <+: r.parse.2.reports := by
  simp only [parse]
  split_ifs
  · exact List.prefix_rfl
  · exact reportDrop_reports { r with buffer := [] } _ _
  · exact List.prefix_rfl
  · exact List.prefix_rfl
  · exact reportDrop_reports { r with buffer := [] } _ _
  · exact List.prefix_rfl
  · exact List.prefix_rfl

theorem readPhysicalRecord_reports : r.reports <+: r.readPhysicalRecord.2.reports := by
  simp only [readPhysicalRecord]
  split_ifs
  · exact r.fill_reports.trans (parse_reports _)
  · exact r.fill_reports
  · exact r.parse_reports

theorem readRecordLoop_reports (n : ℕ) (inFragmentedRecord : Bool) (scratch : Bytes)
    (offset : UInt64) :
    r.reports <+: (r.readRecordLoop n inFragmentedRecord scratch offset).2.reports := by
  induction n generalizing r inFragmentedRecord scratch offset with
  | zero => exact List.prefix_rfl
  | succ n ih =>
    have h := r.readPhysicalRecord_reports
    simp only [readRecordLoop]
    split_ifs
    · exact h.trans (reportPartial_reports _ _ _ _)
    · exact (h.trans (reportPartial_reports _ _ _ _)).trans (ih _ _ _ _)
    · exact (h.trans (reportDrop_reports _ _ _)).trans (ih _ _ _ _)
    · exact h.trans (ih _ _ _ _)
    · exact (h.trans (reportDrop_reports _ _ _)).trans (ih _ _ _ _)
    · exact h
    · exact h
    · exact (h.trans (reportDrop_reports _ _ _)).trans (ih _ _ _ _)
    · exact h.trans (ih _ _ _ _)
    · exact (h.trans (reportDrop_reports _ _ _)).trans (ih _ _ _ _)
    · exact (h.trans (reportDrop_reports _ _ _)).trans (ih _ _ _ _)

theorem skipToInitialBlock_reports : r.reports <+: r.skipToInitialBlock.2.reports := by
  rw [skipToInitialBlock]
  dsimp only
  generalize (if r.initialOffset.toNat % kBlockSize > kBlockSize - 6 then
    r.initialOffset.toNat - r.initialOffset.toNat % kBlockSize + kBlockSize
    else r.initialOffset.toNat - r.initialOffset.toNat % kBlockSize) = start
  by_cases h : start > 0
  · rw [if_pos h]
    generalize r.file.skip start = skipped
    generalize UInt64.ofNat start = offset
    by_cases hs : skipped.1.ok
    · simp only [hs]
      exact List.prefix_rfl
    · simp only [hs]
      exact reportDrop_reports { r with endOfBufferOffset := offset, file := skipped.2 } _ _
  · rw [if_neg h]

/-- **What was reported stays reported.** -/
theorem readRecord_reports : r.reports <+: r.readRecord.2.reports := by
  rw [readRecord]
  generalize hskip : (if r.lastRecordOffset < r.initialOffset then r.skipToInitialBlock
    else (true, r)) = skipped
  have h : r.reports <+: skipped.2.reports := by
    rw [← hskip]
    split
    · exact r.skipToInitialBlock_reports
    · exact List.prefix_rfl
  dsimp only
  split
  · exact h.trans (readRecordLoop_reports _ _ _ _ _)
  · exact h

theorem readAllLoop_reports (n : ℕ) : r.reports <+: (r.readAllLoop n).2.reports := by
  induction n generalizing r with
  | zero => exact List.prefix_rfl
  | succ n ih =>
    have h := r.readRecord_reports
    rw [readAllLoop]
    rcases hread : r.readRecord with ⟨_ | record, r'⟩
    · rw [hread] at h
      exact h
    · rw [hread] at h
      exact h.trans (ih r')

end Reports

end Reader

end Leveldb.Log
