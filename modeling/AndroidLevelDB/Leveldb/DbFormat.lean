import Mathlib.Data.Prod.Lex
import AndroidLevelDB.Lib.Versions
import AndroidLevelDB.Lib.SortedMerge
import AndroidLevelDB.Leveldb.Coding

/-!
# Leveldb/DbFormat — internal keys

An internal key is a user key followed by eight bytes that pack a sequence number and a value type.
`InternalKeyComparator::Compare` sorts by user key and then by the packed number, largest first
(`compare_neg_iff`); on well-formed keys that do not share user key and sequence number this is the
order `Version.rank` of `Lib/Versions` (`rank_lt_iff`).
-/

open ByteCodec OrderDual

namespace Leveldb

inductive ValueType
  | kTypeDeletion
  | kTypeValue
deriving DecidableEq

/-- The value embedded in the on-disk structures. -/
def ValueType.toNat : ValueType → ℕ
  | kTypeDeletion => 0x0
  | kTypeValue => 0x1

def kValueTypeForSeek : ValueType := .kTypeValue

def kMaxSequenceNumber : ℕ := 1 <<< 56 - 1

structure ParsedInternalKey where
  userKey : Bytes
  sequence : ℕ
  type : ValueType
deriving DecidableEq

/-- `PackSequenceAndType`, in 64-bit arithmetic. -/
def packSequenceAndType (seq : ℕ) (t : ValueType) : ℕ := (seq <<< 8 ||| t.toNat) % 2 ^ 64

/-- `AppendInternalKey`. -/
def appendInternalKey (result : Bytes) (key : ParsedInternalKey) : Bytes :=
  result ++ key.userKey ++ encodeFixed64 (packSequenceAndType key.sequence key.type)

/-- `ExtractUserKey`: all but the last eight bytes. -/
def extractUserKey (internalKey : Bytes) : Bytes := internalKey.take (internalKey.length - 8)

/-- The packed number at the end of an internal key. -/
def extractTag (internalKey : Bytes) : ℕ :=
  decodeFixed64 (internalKey.drop (internalKey.length - 8))

/-- `ParseInternalKey`; `none` is its `false`. -/
def parseInternalKey (internalKey : Bytes) : Option ParsedInternalKey :=
  if internalKey.length < 8 then none
  else
    let num := extractTag internalKey
    let c := num &&& 0xff
    if c ≤ ValueType.kTypeValue.toNat then
      some
        { userKey := extractUserKey internalKey
          sequence := num >>> 8
          type := if c = ValueType.kTypeValue.toNat then .kTypeValue else .kTypeDeletion }
    else none

/-- `InternalKeyComparator::Compare`. -/
def internalKeyCompare (akey bkey : Bytes) : ℤ :=
  let r := Slice.compare (extractUserKey akey) (extractUserKey bkey)
  if r = 0 then
    let anum := extractTag akey
    let bnum := extractTag bkey
    if anum > bnum then -1 else if anum < bnum then 1 else r
  else r

/-! ## The order of internal keys -/

/-- The order of internal keys: user key ascending, packed number descending. -/
def InternalOrder : Type := Bytes ×ₗ ℕᵒᵈ

instance : LinearOrder InternalOrder := inferInstanceAs (LinearOrder (Bytes ×ₗ ℕᵒᵈ))

/-- The place of an internal key in that order. -/
def internalRank (k : Bytes) : InternalOrder := toLex (extractUserKey k, toDual (extractTag k))

theorem internalRank_lt_iff {a b : Bytes} :
    internalRank a < internalRank b ↔ extractUserKey a < extractUserKey b ∨
      extractUserKey a = extractUserKey b ∧ extractTag b < extractTag a :=
  Prod.Lex.toLex_lt_toLex

theorem userKey_le {a b : Bytes} (h : internalRank a ≤ internalRank b) :
    extractUserKey a ≤ extractUserKey b := by
  rcases h.lt_or_eq with hlt | heq
  · rcases internalRank_lt_iff.mp hlt with hk | ⟨hk, -⟩
    · exact hk.le
    · exact hk.le
  · exact (congrArg (fun x => (ofLex x).1) heq).le

/-- **The comparator is the order `internalRank`.** -/
theorem internalKeyCompare_neg_iff {a b : Bytes} :
    internalKeyCompare a b < 0 ↔ internalRank a < internalRank b := by
  have hlt := Slice.compare_neg_iff (extractUserKey a) (extractUserKey b)
  have heq := Slice.compare_eq_zero_iff (extractUserKey a) (extractUserKey b)
  rw [internalRank_lt_iff]
  unfold internalKeyCompare
  by_cases h : Slice.compare (extractUserKey a) (extractUserKey b) = 0
  · have hk := heq.mp h
    have h0 : Slice.compare (extractUserKey b) (extractUserKey b) = 0 := hk ▸ h
    simp only [hk, h0, if_true, lt_self_iff_false, true_and, false_or]
    split_ifs <;> omega
  · have hk : extractUserKey a ≠ extractUserKey b := fun h' => h (heq.mpr h')
    simp [h, hk, hlt]

theorem internalKeyCompare_pos_iff {a b : Bytes} :
    0 < internalKeyCompare a b ↔ internalRank b < internalRank a := by
  have hgt := Slice.compare_pos_iff (extractUserKey a) (extractUserKey b)
  have heq := Slice.compare_eq_zero_iff (extractUserKey a) (extractUserKey b)
  rw [internalRank_lt_iff]
  unfold internalKeyCompare
  by_cases h : Slice.compare (extractUserKey a) (extractUserKey b) = 0
  · have hk := heq.mp h
    have h0 : Slice.compare (extractUserKey b) (extractUserKey b) = 0 := hk ▸ h
    simp only [hk, h0, if_true, lt_self_iff_false, true_and, false_or]
    split_ifs <;> omega
  · have hk : extractUserKey b ≠ extractUserKey a := fun h' => h (heq.mpr h'.symm)
    simp [h, hk, hgt]

theorem internalKeyCompare_eq_zero_iff {a b : Bytes} :
    internalKeyCompare a b = 0 ↔ internalRank a = internalRank b := by
  have hlt := internalKeyCompare_neg_iff (a := a) (b := b)
  have hgt := internalKeyCompare_pos_iff (a := a) (b := b)
  rcases lt_trichotomy (internalRank a) (internalRank b) with h | h | h
  · have := hlt.mpr h
    exact ⟨fun h' => by omega, fun h' => absurd h' h.ne⟩
  · have h1 : ¬ internalKeyCompare a b < 0 := fun h' => (hlt.mp h').ne h
    have h2 : ¬ 0 < internalKeyCompare a b := fun h' => (hgt.mp h').ne' h
    exact ⟨fun _ => h, fun _ => by omega⟩
  · have := hgt.mpr h
    exact ⟨fun h' => by omega, fun h' => absurd h' h.ne'⟩

/-! ## Packing and parsing -/

theorem packSequenceAndType_eq {seq : ℕ} (h : seq ≤ kMaxSequenceNumber) (t : ValueType) :
    packSequenceAndType seq t = 256 * seq + t.toNat := by
  have ht : t.toNat < 2 ^ 8 := by cases t <;> decide
  have hmax : kMaxSequenceNumber = 2 ^ 56 - 1 := by decide
  rw [packSequenceAndType, ← Nat.shiftLeft_add_eq_or_of_lt ht, Nat.shiftLeft_eq,
    Nat.mod_eq_of_lt (by omega)]
  omega

theorem extractUserKey_append (k : Bytes) (n : ℕ) :
    extractUserKey (k ++ encodeFixed64 n) = k := by
  simp [extractUserKey]

theorem extractTag_append (k : Bytes) (n : ℕ) :
    extractTag (k ++ encodeFixed64 n) = n % 2 ^ 64 := by
  simp [extractTag, decodeFixed64_encodeFixed64]

theorem extractUserKey_appendInternalKey (p : ParsedInternalKey) :
    extractUserKey (appendInternalKey [] p) = p.userKey := by
  rw [appendInternalKey, List.nil_append, extractUserKey_append]

theorem extractTag_appendInternalKey {p : ParsedInternalKey}
    (h : p.sequence ≤ kMaxSequenceNumber) :
    extractTag (appendInternalKey [] p) = 256 * p.sequence + p.type.toNat := by
  have ht : p.type.toNat < 2 ^ 8 := by cases p.type <;> decide
  have hmax : kMaxSequenceNumber = 2 ^ 56 - 1 := by decide
  rw [appendInternalKey, List.nil_append, extractTag_append, packSequenceAndType_eq h,
    Nat.mod_eq_of_lt (by omega)]

theorem and_255 (n : ℕ) : n &&& 0xff = n % 256 := Nat.and_two_pow_sub_one_eq_mod n 8

/-- **What parsing says about a key**: it is at least eight bytes long and its packed number is the
sequence number and the type it found. -/
theorem parseInternalKey_eq_some {k : Bytes} {p : ParsedInternalKey}
    (h : parseInternalKey k = some p) :
    8 ≤ k.length ∧ p.userKey = extractUserKey k ∧
      extractTag k = 256 * p.sequence + p.type.toNat := by
  unfold parseInternalKey at h
  simp only [and_255, Nat.shiftRight_eq_div_pow] at h
  split at h
  · cases h
  · next hlen =>
    split at h
    · next hc =>
      obtain rfl := Option.some.inj h
      refine ⟨by omega, rfl, ?_⟩
      simp only [ValueType.toNat] at hc
      by_cases h1 : extractTag k % 256 = 1
      · simp only [ValueType.toNat, h1, if_true]
        omega
      · simp only [ValueType.toNat, h1, if_false]
        omega
    · cases h

theorem extractTag_lt (k : Bytes) : extractTag k < 2 ^ 64 := by
  have h := ofLE_lt ((k.drop (k.length - 8)).take 8)
  have hle : ((k.drop (k.length - 8)).take 8).length ≤ 8 := List.length_take_le _ _
  exact h.trans_le (Nat.pow_le_pow_right (by decide) hle)

/-- A key that parses has a sequence number that fits. -/
theorem sequence_le_of_parse {k : Bytes} {p : ParsedInternalKey} (h : parseInternalKey k = some p) :
    p.sequence ≤ kMaxSequenceNumber := by
  have htag := (parseInternalKey_eq_some h).2.2
  have hlt := extractTag_lt k
  have hmax : kMaxSequenceNumber = 2 ^ 56 - 1 := by decide
  omega

/-- **Parsing undoes appending.** -/
theorem parseInternalKey_appendInternalKey {p : ParsedInternalKey}
    (h : p.sequence ≤ kMaxSequenceNumber) :
    parseInternalKey (appendInternalKey [] p) = some p := by
  have htag := extractTag_appendInternalKey h
  have hlen : ¬ (appendInternalKey [] p).length < 8 := by simp [appendInternalKey]
  obtain ⟨k, n, t⟩ := p
  unfold parseInternalKey
  simp only [if_neg hlen, htag, and_255, extractUserKey_appendInternalKey,
    Nat.shiftRight_eq_div_pow]
  cases t with
  | kTypeDeletion => simp [ValueType.toNat]
  | kTypeValue =>
    have h1 : (256 * n + 1) % 256 = 1 := by omega
    have h2 : (256 * n + 1) / 256 = n := by omega
    simp [ValueType.toNat, h1, h2]

/-! ## Entries -/

/-- An entry of a memtable or a table: an internal key and a value. -/
structure Entry where
  key : Bytes
  value : Bytes
deriving DecidableEq

namespace Entry

/-- The key parses. -/
def WellFormed (e : Entry) : Prop := (parseInternalKey e.key).isSome

instance : DecidablePred WellFormed := fun _ => inferInstanceAs (Decidable (_ = true))

/-- The version of a user key that an entry holds; a key that does not parse holds none that is
readable by any sequence number. -/
def version (e : Entry) : Version Bytes Bytes :=
  match parseInternalKey e.key with
  | some ⟨k, seq, .kTypeValue⟩ => ⟨k, seq, some e.value⟩
  | some ⟨k, seq, .kTypeDeletion⟩ => ⟨k, seq, none⟩
  | none => ⟨extractUserKey e.key, 2 ^ 56, none⟩

theorem version_of_parse {e : Entry} {p : ParsedInternalKey} (h : parseInternalKey e.key = some p) :
    e.version = ⟨p.userKey, p.sequence, if p.type = .kTypeValue then some e.value else none⟩ := by
  obtain ⟨k, n, t⟩ := p
  cases t <;> simp [version, h]

theorem WellFormed.exists_parse {e : Entry} (h : e.WellFormed) :
    ∃ p, parseInternalKey e.key = some p := Option.isSome_iff_exists.mp h

theorem WellFormed.version_key {e : Entry} (h : e.WellFormed) :
    e.version.key = extractUserKey e.key := by
  obtain ⟨p, hp⟩ := h.exists_parse
  rw [version_of_parse hp, ← (parseInternalKey_eq_some hp).2.1]

theorem WellFormed.tag_eq {e : Entry} (h : e.WellFormed) :
    extractTag e.key = 256 * e.version.seq + if e.version.val.isSome then 1 else 0 := by
  obtain ⟨p, hp⟩ := h.exists_parse
  rw [version_of_parse hp, (parseInternalKey_eq_some hp).2.2]
  cases p.type <;> simp [ValueType.toNat]

/-- The place of an entry in the order of internal keys. -/
def rank (e : Entry) : InternalOrder := internalRank e.key

/-- Entries at one place in the internal order share user key and sequence number. -/
theorem version_eq_of_rank_eq {a b : Entry} (ha : a.WellFormed) (hb : b.WellFormed)
    (h : a.rank = b.rank) : a.version.key = b.version.key ∧ a.version.seq = b.version.seq := by
  have hk : extractUserKey a.key = extractUserKey b.key := congrArg (fun x => (ofLex x).1) h
  have ht : extractTag a.key = extractTag b.key := congrArg (fun x => ofDual (ofLex x).2) h
  rw [ha.tag_eq, hb.tag_eq] at ht
  rw [ha.version_key, hb.version_key]
  refine ⟨hk, ?_⟩
  split_ifs at ht <;> omega

/-- **On entries that do not share user key and sequence number, the internal order is the order of
versions.** -/
theorem rank_lt_iff {a b : Entry} (ha : a.WellFormed) (hb : b.WellFormed)
    (hne : ¬ (a.version.key = b.version.key ∧ a.version.seq = b.version.seq)) :
    a.rank < b.rank ↔ a.version.rank < b.version.rank := by
  rw [rank, rank, internalRank_lt_iff, Version.rank_lt_iff, ← ha.version_key, ← hb.version_key,
    ha.tag_eq, hb.tag_eq]
  refine or_congr_right (and_congr_right fun hk => ?_)
  have hs : a.version.seq ≠ b.version.seq := fun h => hne ⟨hk, h⟩
  split_ifs <;> omega

end Entry

/-- Entries in internal order, with keys that parse, no two of one user key and sequence number. -/
structure Versioned (L : List Entry) : Prop where
  wellFormed : ∀ e ∈ L, e.WellFormed
  sorted : KeySorted Entry.rank L
  distinct : L.Pairwise fun a b =>
    ¬ (a.version.key = b.version.key ∧ a.version.seq = b.version.seq)

/-- Such entries are ranked as versions. -/
theorem Versioned.ranked {L : List Entry} (h : Versioned L) :
    Version.Ranked (L.map Entry.version) := by
  refine List.pairwise_map.mpr ?_
  refine (List.Pairwise.and h.sorted h.distinct).imp_of_mem fun ha hb hab => ?_
  exact (Entry.rank_lt_iff (h.wellFormed _ ha) (h.wellFormed _ hb) hab.2).mp hab.1

end Leveldb
