import AndroidLevelDB.Leveldb.DbFormat
import AndroidLevelDB.Leveldb.Status

/-!
# Leveldb/WriteBatch — recorded updates as one byte string

A batch is a header (eight bytes of sequence number, four of count) followed by the records.
`WriteBatch.ops` is the abstract content of a batch; `Encodes b ops` says that `b` is its encoding.
Every update keeps it (`Encodes.put`, `Encodes.delete`, `Encodes.clear`), and `Iterate` hands
exactly the recorded operations to its handler and returns OK (`Encodes.iterate`).
-/

open ByteCodec

namespace Leveldb

structure WriteBatch where
  rep : Bytes
deriving DecidableEq

/-- An update recorded in a batch. -/
inductive Op
  | put (key value : Bytes)
  | delete (key : Bytes)
deriving DecidableEq

/-- Keys and values that Java arrays and buffers can hold. -/
def Op.Small : Op → Prop
  | .put key value => key.length < 2 ^ 31 ∧ value.length < 2 ^ 31
  | .delete key => key.length < 2 ^ 31

namespace WriteBatch

def kHeader : ℕ := 12

/-- `Clear`: the header alone, all zero. -/
def clear (_ : WriteBatch) : WriteBatch := ⟨List.replicate kHeader 0⟩

/-- A new batch is cleared. -/
def new : WriteBatch := clear ⟨[]⟩

/-- A 32-bit pattern as an `int`. -/
def toInt32 (n : ℕ) : ℤ := if n < 2 ^ 31 then n else n - 2 ^ 32

/-- `WriteBatchInternal::Count`. -/
def count (b : WriteBatch) : ℤ := toInt32 (decodeFixed32 (b.rep.drop 8))

/-- `WriteBatchInternal::SetCount`. -/
def setCount (b : WriteBatch) (n : ℤ) : WriteBatch :=
  ⟨b.rep.take 8 ++ encodeFixed32 (n % 2 ^ 32).toNat ++ b.rep.drop 12⟩

/-- `WriteBatchInternal::Sequence`. -/
def sequence (b : WriteBatch) : ℕ := decodeFixed64 b.rep

/-- `WriteBatchInternal::SetSequence`. -/
def setSequence (b : WriteBatch) (seq : ℕ) : WriteBatch := ⟨encodeFixed64 seq ++ b.rep.drop 8⟩

def put (b : WriteBatch) (key value : Bytes) : WriteBatch :=
  let b := b.setCount (b.count + 1)
  let rep := b.rep ++ [UInt8.ofNat ValueType.kTypeValue.toNat]
  ⟨putLengthPrefixedSlice (putLengthPrefixedSlice rep key) value⟩

def delete (b : WriteBatch) (key : Bytes) : WriteBatch :=
  let b := b.setCount (b.count + 1)
  let rep := b.rep ++ [UInt8.ofNat ValueType.kTypeDeletion.toNat]
  ⟨putLengthPrefixedSlice rep key⟩

/-- `WriteBatch::Handler`, with its state. -/
structure Handler (σ : Type) where
  put : σ → Bytes → Bytes → σ
  delete : σ → Bytes → σ

/-- The loop of `Iterate` on the records: an error, or the number of records found, and the state
the handler was left in.  Every round shortens the input, whose length bounds the rounds. -/
def iterateLoop {σ : Type} (handler : Handler σ) : ℕ → Bytes → ℤ → σ → Except Status ℤ × σ
  | _, [], found, s => (.ok found, s)
  | 0, _ :: _, found, s => (.ok found, s)
  | n + 1, tag :: input, found, s =>
    if tag = UInt8.ofNat ValueType.kTypeValue.toNat then
      match getLengthPrefixedSlice input with
      | some (key, input) =>
        match getLengthPrefixedSlice input with
        | some (value, input) => iterateLoop handler n input (found + 1) (handler.put s key value)
        | none => (.error (.corruption "bad WriteBatch Put"), s)
      | none => (.error (.corruption "bad WriteBatch Put"), s)
    else if tag = UInt8.ofNat ValueType.kTypeDeletion.toNat then
      match getLengthPrefixedSlice input with
      | some (key, input) => iterateLoop handler n input (found + 1) (handler.delete s key)
      | none => (.error (.corruption "bad WriteBatch Delete"), s)
    else (.error (.corruption "unknown WriteBatch tag"), s)

def iterate {σ : Type} (b : WriteBatch) (handler : Handler σ) (s : σ) : Status × σ :=
  if b.rep.length < kHeader then (.corruption "malformed WriteBatch (too small)", s)
  else
    match iterateLoop handler b.rep.length (b.rep.drop kHeader) 0 s with
    | (.error e, s) => (e, s)
    | (.ok found, s) =>
      if found ≠ b.count then (.corruption "WriteBatch has wrong count", s) else (.OK, s)

/-! ## What a batch records -/

/-- One record. -/
def encodeOp : Op → Bytes
  | .put key value => UInt8.ofNat ValueType.kTypeValue.toNat ::
      (putLengthPrefixedSlice [] key ++ putLengthPrefixedSlice [] value)
  | .delete key => UInt8.ofNat ValueType.kTypeDeletion.toNat :: putLengthPrefixedSlice [] key

/-- `b` records the operations `ops`. -/
structure Encodes (b : WriteBatch) (ops : List Op) : Prop where
  length : kHeader ≤ b.rep.length
  count : decodeFixed32 (b.rep.drop 8) = ops.length % 2 ^ 32
  data : b.rep.drop kHeader = ops.flatMap encodeOp
  small : ∀ op ∈ ops, op.Small

theorem encodes_new : Encodes new [] := ⟨by decide, by decide, by decide, by simp⟩

/-- **`Clear` records nothing.** -/
theorem encodes_clear (b : WriteBatch) : Encodes b.clear [] := encodes_new

theorem length_encodeOp_pos (op : Op) : 0 < (encodeOp op).length := by
  cases op <;> simp [encodeOp]

theorem length_le_flatMap_encodeOp : ∀ ops : List Op, ops.length ≤ (ops.flatMap encodeOp).length
  | [] => le_rfl
  | op :: ops => by
      have hpos := length_encodeOp_pos op
      have ih := length_le_flatMap_encodeOp ops
      rw [List.flatMap_cons, List.length_append, List.length_cons]
      omega

/-- A batch is at least as long as its number of records. -/
theorem Encodes.length_le {b : WriteBatch} {ops : List Op} (h : Encodes b ops) :
    ops.length + kHeader ≤ b.rep.length := by
  have hd := congrArg List.length h.data
  have hle := length_le_flatMap_encodeOp ops
  rw [List.length_drop] at hd
  have := h.length
  omega

/-- The count as the code reads it. -/
theorem Encodes.count_eq {b : WriteBatch} {ops : List Op} (h : Encodes b ops)
    (hn : ops.length < 2 ^ 31) : b.count = ops.length := by
  rw [WriteBatch.count, h.count, Nat.mod_eq_of_lt (by omega), toInt32, if_pos (by omega)]

/-- Setting the count keeps the records. -/
theorem setCount_spec {b : WriteBatch} (h : kHeader ≤ b.rep.length) (n : ℤ) :
    kHeader ≤ (b.setCount n).rep.length ∧
      decodeFixed32 ((b.setCount n).rep.drop 8) = (n % 2 ^ 32).toNat ∧
      (b.setCount n).rep.drop kHeader = b.rep.drop kHeader ∧
      (b.setCount n).rep.take 8 = b.rep.take 8 := by
  have h8 : (b.rep.take 8).length = 8 := by
    rw [List.length_take]
    simp only [kHeader] at h
    omega
  have hmod : (n % 2 ^ 32).toNat < 2 ^ 32 := by omega
  refine ⟨?_, ?_, ?_, ?_⟩
  · simp only [setCount, List.length_append, h8, length_encodeFixed32, kHeader]
    omega
  · rw [setCount, List.append_assoc, List.drop_left' h8, decodeFixed32_append,
      Nat.mod_eq_of_lt hmod]
  · rw [setCount, kHeader, List.drop_left' (by rw [List.length_append, h8]; simp)]
  · rw [setCount, List.append_assoc, List.take_left' h8]

theorem Encodes.append {b : WriteBatch} {ops : List Op} (h : Encodes b ops) {op : Op}
    (hop : op.Small) (hn : ops.length < 2 ^ 31) :
    Encodes ⟨(b.setCount (b.count + 1)).rep ++ encodeOp op⟩ (ops ++ [op]) := by
  obtain ⟨h1, h2, h3, -⟩ := setCount_spec h.length (b.count + 1)
  have hle := h.length_le
  have h1' := h1
  simp only [kHeader] at hle h1'
  refine ⟨?_, ?_, ?_, fun x hx => ?_⟩
  · rw [List.length_append]
    omega
  · rw [List.drop_append_of_le_length (by omega), decodeFixed32, List.take_append_of_le_length,
      ← decodeFixed32, h2, h.count_eq hn]
    · rw [List.length_append, List.length_singleton]
      omega
    · rw [List.length_drop]
      omega
  · rw [List.drop_append_of_le_length h1, h3, h.data, List.flatMap_append, List.flatMap_singleton]
  · rcases List.mem_append.mp hx with hx | hx
    · exact h.small x hx
    · obtain rfl := List.mem_singleton.mp hx
      exact hop

/-- **`Put` records a put.** -/
theorem Encodes.put {b : WriteBatch} {ops : List Op} (h : Encodes b ops) {key value : Bytes}
    (hk : key.length < 2 ^ 31) (hv : value.length < 2 ^ 31) (hn : ops.length < 2 ^ 31) :
    Encodes (b.put key value) (ops ++ [.put key value]) := by
  have happ : Encodes _ (ops ++ [.put key value]) := h.append ⟨hk, hv⟩ hn
  rw [WriteBatch.put, putLengthPrefixedSlice_eq, putLengthPrefixedSlice_eq _ key]
  simpa [encodeOp] using happ

/-- **`Delete` records a deletion.** -/
theorem Encodes.delete {b : WriteBatch} {ops : List Op} (h : Encodes b ops) {key : Bytes}
    (hk : key.length < 2 ^ 31) (hn : ops.length < 2 ^ 31) :
    Encodes (b.delete key) (ops ++ [.delete key]) := by
  have happ : Encodes _ (ops ++ [.delete key]) := h.append hk hn
  rw [WriteBatch.delete, putLengthPrefixedSlice_eq]
  simpa [encodeOp] using happ

/-- **Setting the sequence number leaves what is recorded.** -/
theorem Encodes.setSequence {b : WriteBatch} {ops : List Op} (h : Encodes b ops) (seq : ℕ) :
    Encodes (b.setSequence seq) ops ∧ (b.setSequence seq).sequence = seq % 2 ^ 64 ∧
      (b.setSequence seq).rep.length = b.rep.length := by
  have hl := h.length
  have hdrop : ∀ n, (b.setSequence seq).rep.drop (8 + n) = b.rep.drop (8 + n) := fun n => by
    rw [WriteBatch.setSequence, ← List.drop_drop, List.drop_left' (length_encodeFixed64 seq),
      List.drop_drop]
  have hlen : (b.setSequence seq).rep.length = b.rep.length := by
    simp only [kHeader] at hl
    rw [WriteBatch.setSequence, List.length_append, List.length_drop, length_encodeFixed64]
    omega
  refine ⟨⟨hlen ▸ hl, ?_, ?_, h.small⟩, ?_, hlen⟩
  · rw [hdrop 0, ← h.count]
  · rw [kHeader, hdrop 4, ← h.data, kHeader]
  · rw [sequence, WriteBatch.setSequence, decodeFixed64_append]

/-- Hand one operation to a handler. -/
def Handler.apply {σ : Type} (handler : Handler σ) (s : σ) : Op → σ
  | .put key value => handler.put s key value
  | .delete key => handler.delete s key

/-- The loop reads back one record. -/
theorem iterateLoop_encodeOp {σ : Type} (handler : Handler σ) (n : ℕ) {op : Op} (hop : op.Small)
    (rest : Bytes) (found : ℤ) (s : σ) :
    iterateLoop handler (n + 1) (encodeOp op ++ rest) found s
      = iterateLoop handler n rest (found + 1) (handler.apply s op) := by
  cases op with
  | put key value =>
    obtain ⟨hk, hv⟩ := hop
    simp only [encodeOp, List.cons_append, List.append_assoc, iterateLoop, if_true,
      getLengthPrefixedSlice_append (hk.trans (by norm_num)),
      getLengthPrefixedSlice_append (hv.trans (by norm_num)), Handler.apply]
  | delete key =>
    have hk : key.length < 2 ^ 31 := hop
    have htag : ¬ UInt8.ofNat ValueType.kTypeDeletion.toNat
        = UInt8.ofNat ValueType.kTypeValue.toNat := by decide
    simp only [encodeOp, List.cons_append, iterateLoop, htag, if_true, if_false,
      getLengthPrefixedSlice_append (hk.trans (by norm_num)), Handler.apply]

theorem iterateLoop_flatMap {σ : Type} (handler : Handler σ) : ∀ (ops : List Op) (n : ℕ),
    (∀ op ∈ ops, op.Small) → ops.length ≤ n → ∀ (found : ℤ) (s : σ),
      iterateLoop handler n (ops.flatMap encodeOp) found s
        = (.ok (found + ops.length), ops.foldl handler.apply s)
  | [], n, _, _, found, s => by cases n <;> simp [iterateLoop]
  | op :: ops, 0, _, hn, _, _ => by simp at hn
  | op :: ops, n + 1, hsmall, hn, found, s => by
      rw [List.flatMap_cons, iterateLoop_encodeOp handler n (hsmall op List.mem_cons_self),
        iterateLoop_flatMap handler ops n (fun x hx => hsmall x (List.mem_cons_of_mem _ hx))
          (by simpa using hn), List.foldl_cons, List.length_cons]
      congr 2
      push_cast
      ring

/-- **`Iterate` hands the recorded operations over, in order, and returns OK.** -/
theorem Encodes.iterate {b : WriteBatch} {ops : List Op} (h : Encodes b ops)
    (hn : ops.length < 2 ^ 31) {σ : Type} (handler : Handler σ) (s : σ) :
    b.iterate handler s = (.OK, ops.foldl handler.apply s) := by
  have hle := h.length_le
  rw [WriteBatch.iterate, if_neg (not_lt.mpr h.length), h.data,
    iterateLoop_flatMap handler ops b.rep.length h.small (by omega)]
  simp [h.count_eq hn]

end WriteBatch

end Leveldb
