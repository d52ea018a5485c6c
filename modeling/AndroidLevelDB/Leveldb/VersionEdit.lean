import AndroidLevelDB.Leveldb.Status
import AndroidLevelDB.Leveldb.Coding

/-!
# Leveldb/VersionEdit — the records of a manifest

A `VersionEdit` says how a version differs from the one before it.  It is written as a sequence of
fields, each behind its tag (`db/version_edit.cc`), and what was written is read back
(`decodeFrom_encodeTo`).  No edit that is read names a level that does not exist
(`decodeFrom_levels`).
-/

namespace Leveldb

def kNumLevels : ℕ := 7

/-- What an edit says of a file. -/
structure FileRecord where
  number : ℕ
  fileSize : ℕ
  smallest : Bytes
  largest : Bytes
deriving DecidableEq

namespace Manifest

/-- The order of the pairs in a `DeletedFileSet`: by level and then by number. -/
def Before (p q : ℕ × ℕ) : Prop := p.1 < q.1 ∨ p.1 = q.1 ∧ p.2 < q.2

instance : DecidableRel Before := fun p q =>
  inferInstanceAs (Decidable (p.1 < q.1 ∨ p.1 = q.1 ∧ p.2 < q.2))

/-- `insert` of a set, in its order. -/
def insertFile (p : ℕ × ℕ) : List (ℕ × ℕ) → List (ℕ × ℕ)
  | [] => [p]
  | q :: files => if Before p q then p :: q :: files else if p = q then q :: files
    else q :: insertFile p files

theorem mem_insertFile {p q : ℕ × ℕ} : ∀ {files : List (ℕ × ℕ)},
    q ∈ insertFile p files ↔ q = p ∨ q ∈ files
  | [] => by simp [insertFile]
  | r :: files => by
      rw [insertFile]
      split_ifs with h1 h2
      · rw [List.mem_cons]
      · subst h2
        simp
      · rw [List.mem_cons, mem_insertFile, List.mem_cons, or_left_comm]

theorem pairwise_insertFile {p : ℕ × ℕ} : ∀ {files : List (ℕ × ℕ)}, files.Pairwise Before →
    (insertFile p files).Pairwise Before
  | [], _ => List.pairwise_singleton _ _
  | r :: files, h => by
      obtain ⟨hr, hfiles⟩ := List.pairwise_cons.mp h
      rw [insertFile]
      split_ifs with h1 h2
      · refine List.pairwise_cons.mpr ⟨fun q hq => ?_, h⟩
        rcases List.mem_cons.mp hq with rfl | hq
        · exact h1
        · have := hr q hq
          simp only [Before] at *
          omega
      · exact h
      · refine List.pairwise_cons.mpr ⟨fun q hq => ?_, pairwise_insertFile hfiles⟩
        rcases mem_insertFile.mp hq with rfl | hq
        · simp only [Before, Prod.ext_iff] at *
          omega
        · exact hr q hq

/-- A pair behind all the others is put at the end. -/
theorem insertFile_last {p : ℕ × ℕ} : ∀ {files : List (ℕ × ℕ)}, (∀ q ∈ files, Before q p) →
    insertFile p files = files ++ [p]
  | [], _ => rfl
  | r :: files, h => by
      have hr := h r List.mem_cons_self
      rw [insertFile, if_neg, if_neg, insertFile_last fun q hq => h q (List.mem_cons_of_mem _ hq)]
      · rfl
      · rintro rfl
        simp only [Before] at hr
        omega
      · simp only [Before] at hr ⊢
        omega

/-- `DeletedFileSet`: pairs of a level and a file number. -/
structure DeletedFileSet where
  files : List (ℕ × ℕ)
  sorted : files.Pairwise Before
deriving DecidableEq

def DeletedFileSet.insert (p : ℕ × ℕ) (s : DeletedFileSet) : DeletedFileSet :=
  ⟨insertFile p s.files, pairwise_insertFile s.sorted⟩

structure VersionEdit where
  comparator : Option Bytes
  logNumber : Option ℕ
  prevLogNumber : Option ℕ
  nextFileNumber : Option ℕ
  lastSequence : Option ℕ
  /-- Levels and internal keys. -/
  compactPointers : List (ℕ × Bytes)
  deletedFiles : DeletedFileSet
  /-- Levels and files. -/
  newFiles : List (ℕ × FileRecord)
deriving DecidableEq

/-- A new edit. -/
def VersionEdit.clear : VersionEdit := ⟨none, none, none, none, none, [], ⟨[], List.Pairwise.nil⟩, []⟩

/-- A field of an edit, as it is written. -/
inductive Field
  | comparator (name : Bytes)
  | logNumber (number : ℕ)
  | prevLogNumber (number : ℕ)
  | nextFileNumber (number : ℕ)
  | lastSequence (number : ℕ)
  | compactPointer (level : ℕ) (key : Bytes)
  | deletedFile (level number : ℕ)
  | newFile (level : ℕ) (f : FileRecord)
deriving DecidableEq

namespace Field

/-- The tags, which are written to disk; 8 was used for large value refs. -/
def tag : Field → ℕ
  | comparator .. => 1
  | logNumber .. => 2
  | nextFileNumber .. => 3
  | lastSequence .. => 4
  | compactPointer .. => 5
  | deletedFile .. => 6
  | newFile .. => 7
  | prevLogNumber .. => 9

/-- What is written behind the tag. -/
def body : Field → Bytes
  | comparator name => putLengthPrefixedSlice [] name
  | logNumber number => encodeVarint64 number
  | prevLogNumber number => encodeVarint64 number
  | nextFileNumber number => encodeVarint64 number
  | lastSequence number => encodeVarint64 number
  | compactPointer level key => encodeVarint32 level ++ putLengthPrefixedSlice [] key
  | deletedFile level number => encodeVarint32 level ++ encodeVarint64 number
  | newFile level f =>
    encodeVarint32 level ++ encodeVarint64 f.number ++ encodeVarint64 f.fileSize ++
      putLengthPrefixedSlice [] f.smallest ++ putLengthPrefixedSlice [] f.largest

def encode (field : Field) : Bytes := encodeVarint32 field.tag ++ field.body

/-- What a field that was read does to the edit. -/
def apply (edit : VersionEdit) : Field → VersionEdit
  | comparator name => { edit with comparator := some name }
  | logNumber number => { edit with logNumber := some number }
  | prevLogNumber number => { edit with prevLogNumber := some number }
  | nextFileNumber number => { edit with nextFileNumber := some number }
  | lastSequence number => { edit with lastSequence := some number }
  | compactPointer level key =>
    { edit with compactPointers := edit.compactPointers ++ [(level, key)] }
  | deletedFile level number =>
    { edit with deletedFiles := edit.deletedFiles.insert (level, number) }
  | newFile level f => { edit with newFiles := edit.newFiles ++ [(level, f)] }

end Field

namespace VersionEdit

/-- The fields of an edit, in the order they are written. -/
def fields (edit : VersionEdit) : List Field :=
  (edit.comparator.map .comparator).toList ++ (edit.logNumber.map .logNumber).toList ++
    (edit.prevLogNumber.map .prevLogNumber).toList ++
    (edit.nextFileNumber.map .nextFileNumber).toList ++
    (edit.lastSequence.map .lastSequence).toList ++
    edit.compactPointers.map (fun (level, key) => .compactPointer level key) ++
    edit.deletedFiles.files.map (fun (level, number) => .deletedFile level number) ++
    edit.newFiles.map fun (level, f) => .newFile level f

/-- `EncodeTo`. -/
def encodeTo (edit : VersionEdit) : Bytes := edit.fields.flatMap Field.encode

end VersionEdit

/-- `GetLevel`. -/
def getLevel (input : Bytes) : Option (ℕ × Bytes) :=
  match getVarint32 input with
  | some (v, input) => if v < kNumLevels then some (v, input) else none
  | none => none

/-- `GetInternalKey`: any string is one. -/
def getInternalKey (input : Bytes) : Option (Bytes × Bytes) := getLengthPrefixedSlice input

/-- The case of a tag in `DecodeFrom`: the field and the rest of the input, or the message. -/
def decodeField (tag : ℕ) (input : Bytes) : Except String (Field × Bytes) :=
  match tag with
  | 1 =>
    match getLengthPrefixedSlice input with
    | some (str, input) => .ok (.comparator str, input)
    | none => .error "comparator name"
  | 2 =>
    match getVarint64 input with
    | some (number, input) => .ok (.logNumber number, input)
    | none => .error "log number"
  | 9 =>
    match getVarint64 input with
    | some (number, input) => .ok (.prevLogNumber number, input)
    | none => .error "previous log number"
  | 3 =>
    match getVarint64 input with
    | some (number, input) => .ok (.nextFileNumber number, input)
    | none => .error "next file number"
  | 4 =>
    match getVarint64 input with
    | some (number, input) => .ok (.lastSequence number, input)
    | none => .error "last sequence number"
  | 5 =>
    match (getLevel input).bind fun (level, input) =>
      (getInternalKey input).map fun (key, input) => (Field.compactPointer level key, input) with
    | some r => .ok r
    | none => .error "compaction pointer"
  | 6 =>
    match (getLevel input).bind fun (level, input) =>
      (getVarint64 input).map fun (number, input) => (Field.deletedFile level number, input) with
    | some r => .ok r
    | none => .error "deleted file"
  | 7 =>
    match (getLevel input).bind fun (level, input) =>
      (getVarint64 input).bind fun (number, input) =>
      (getVarint64 input).bind fun (fileSize, input) =>
      (getInternalKey input).bind fun (smallest, input) =>
      (getInternalKey input).map fun (largest, input) =>
        (Field.newFile level ⟨number, fileSize, smallest, largest⟩, input) with
    | some r => .ok r
    | none => .error "new-file entry"
  | _ => .error "unknown tag"

/-- The loop of `DecodeFrom`, for no more than `n` fields. -/
def decodeFields : ℕ → Bytes → VersionEdit → Except String VersionEdit
  | 0, _, edit => .ok edit
  | n + 1, input, edit =>
    match getVarint32 input with
    | none => if input.isEmpty then .ok edit else .error "invalid tag"
    | some (tag, input) =>
      match decodeField tag input with
      | .ok (field, input) => decodeFields n input (field.apply edit)
      | .error msg => .error msg

/-- `DecodeFrom`; each field takes at least a byte. -/
def decodeFrom (src : Bytes) : Except Status VersionEdit :=
  match decodeFields (src.length + 1) src .clear with
  | .ok edit => .ok edit
  | .error msg => .error (.corruption "VersionEdit" msg)

/-! ## Reading back -/

/-- The numbers and lengths fit, and the levels exist. -/
def Field.Fits : Field → Prop
  | comparator name => name.length < 2 ^ 32
  | logNumber number => number < 2 ^ 64
  | prevLogNumber number => number < 2 ^ 64
  | nextFileNumber number => number < 2 ^ 64
  | lastSequence number => number < 2 ^ 64
  | compactPointer level key => level < kNumLevels ∧ key.length < 2 ^ 32
  | deletedFile level number => level < kNumLevels ∧ number < 2 ^ 64
  | newFile level f => level < kNumLevels ∧ f.number < 2 ^ 64 ∧ f.fileSize < 2 ^ 64 ∧
      f.smallest.length < 2 ^ 32 ∧ f.largest.length < 2 ^ 32

instance : DecidablePred Field.Fits
  | .comparator _ => inferInstanceAs (Decidable (_ < _))
  | .logNumber _ => inferInstanceAs (Decidable (_ < _))
  | .prevLogNumber _ => inferInstanceAs (Decidable (_ < _))
  | .nextFileNumber _ => inferInstanceAs (Decidable (_ < _))
  | .lastSequence _ => inferInstanceAs (Decidable (_ < _))
  | .compactPointer _ _ => inferInstanceAs (Decidable (_ ∧ _))
  | .deletedFile _ _ => inferInstanceAs (Decidable (_ ∧ _))
  | .newFile _ _ => inferInstanceAs (Decidable (_ ∧ _))

theorem getLevel_append {level : ℕ} (h : level < kNumLevels) (rest : Bytes) :
    getLevel (encodeVarint32 level ++ rest) = some (level, rest) := by
  have hlt : level < 2 ^ 32 := lt_trans h (by decide)
  rw [getLevel, getVarint32_append hlt]
  exact if_pos h

theorem getInternalKey_append {key : Bytes} (h : key.length < 2 ^ 32) (rest : Bytes) :
    getInternalKey (putLengthPrefixedSlice [] key ++ rest) = some (key, rest) :=
  getLengthPrefixedSlice_append h rest

/-- **A field is read back**, whatever follows it. -/
theorem decodeField_append : ∀ {field : Field}, field.Fits → ∀ rest : Bytes,
    decodeField field.tag (field.body ++ rest) = .ok (field, rest)
  | .comparator name, h, rest => by
      rw [Field.tag, Field.body, decodeField, getLengthPrefixedSlice_append h]
  | .logNumber number, h, rest => by
      rw [Field.tag, Field.body, decodeField, getVarint64_append h]
  | .prevLogNumber number, h, rest => by
      rw [Field.tag, Field.body, decodeField, getVarint64_append h]
  | .nextFileNumber number, h, rest => by
      rw [Field.tag, Field.body, decodeField, getVarint64_append h]
  | .lastSequence number, h, rest => by
      rw [Field.tag, Field.body, decodeField, getVarint64_append h]
  | .compactPointer level key, ⟨hl, hk⟩, rest => by
      simp only [Field.tag, Field.body, decodeField, List.append_assoc, getLevel_append hl,
        Option.bind_some, getInternalKey_append hk, Option.map_some]
  | .deletedFile level number, ⟨hl, hn⟩, rest => by
      simp only [Field.tag, Field.body, decodeField, List.append_assoc, getLevel_append hl,
        Option.bind_some, getVarint64_append hn, Option.map_some]
  | .newFile level f, ⟨hl, hn, hf, hs, hg⟩, rest => by
      simp only [Field.tag, Field.body, decodeField, List.append_assoc, getLevel_append hl,
        Option.bind_some, getVarint64_append hn, getVarint64_append hf, getInternalKey_append hs,
        getInternalKey_append hg, Option.map_some]

theorem Field.tag_lt (field : Field) : field.tag < 2 ^ 32 := by
  cases field <;> simp [tag]

/-- **Fields are read back one after the other.** -/
theorem decodeFields_flatMap : ∀ {fields : List Field} {n : ℕ} (edit : VersionEdit),
    (∀ field ∈ fields, field.Fits) → fields.length < n →
    decodeFields n (fields.flatMap Field.encode) edit = .ok (fields.foldl Field.apply edit)
  | [], 0, _, _, hn => absurd hn (Nat.not_lt_zero _)
  | [], n + 1, edit, _, _ => rfl
  | _ :: _, 0, _, _, hn => absurd hn (Nat.not_lt_zero _)
  | field :: fields, n + 1, edit, h, hn => by
      obtain ⟨hf, hfs⟩ := List.forall_mem_cons.mp h
      rw [List.flatMap_cons, Field.encode, List.append_assoc, decodeFields,
        getVarint32_append field.tag_lt]
      dsimp only
      rw [decodeField_append hf]
      exact decodeFields_flatMap _ hfs (Nat.lt_of_succ_lt_succ hn)

/-! ## The fields of an edit -/

theorem foldl_compactPointers (pointers : List (ℕ × Bytes)) (edit : VersionEdit) :
    (pointers.map fun (level, key) => Field.compactPointer level key).foldl Field.apply edit
      = { edit with compactPointers := edit.compactPointers ++ pointers } := by
  induction pointers generalizing edit with
  | nil => rw [List.append_nil]; rfl
  | cons p pointers ih =>
    rw [List.map_cons, List.foldl_cons, ih]
    simp [Field.apply]

theorem foldl_newFiles (files : List (ℕ × FileRecord)) (edit : VersionEdit) :
    (files.map fun (level, f) => Field.newFile level f).foldl Field.apply edit
      = { edit with newFiles := edit.newFiles ++ files } := by
  induction files generalizing edit with
  | nil => rw [List.append_nil]; rfl
  | cons p files ih =>
    rw [List.map_cons, List.foldl_cons, ih]
    simp [Field.apply]

/-- Pairs that ascend behind those of a set are put at its end. -/
theorem foldl_deletedFiles (files : List (ℕ × ℕ)) (edit : VersionEdit)
    (h : (edit.deletedFiles.files ++ files).Pairwise Before) :
    (files.map fun (level, number) => Field.deletedFile level number).foldl Field.apply edit
      = { edit with deletedFiles := ⟨edit.deletedFiles.files ++ files, h⟩ } := by
  induction files generalizing edit with
  | nil => simp
  | cons p files ih =>
    have hlast : insertFile p edit.deletedFiles.files = edit.deletedFiles.files ++ [p] :=
      insertFile_last fun q hq => (List.pairwise_append.mp h).2.2 q hq p List.mem_cons_self
    have hp : Field.apply edit (.deletedFile p.1 p.2)
        = { edit with deletedFiles := edit.deletedFiles.insert p } := rfl
    have hfiles : (edit.deletedFiles.insert p).files = edit.deletedFiles.files ++ [p] := hlast
    rw [List.map_cons, List.foldl_cons, hp, ih]
    · simp [hfiles]
    · dsimp only
      rw [hfiles, List.append_assoc]
      exact h

/-- **The fields of an edit make up the edit.** -/
theorem foldl_fields (edit : VersionEdit) : edit.fields.foldl Field.apply .clear = edit := by
  obtain ⟨c, l, p, n, s, pointers, ⟨deleted, hsorted⟩, files⟩ := edit
  -- the numbers come first, into an edit without files
  have hhead : ((c.map Field.comparator).toList ++ (l.map Field.logNumber).toList ++
      (p.map Field.prevLogNumber).toList ++ (n.map Field.nextFileNumber).toList ++
      (s.map Field.lastSequence).toList).foldl Field.apply .clear
      = ⟨c, l, p, n, s, [], ⟨[], List.Pairwise.nil⟩, []⟩ := by
    cases c <;> cases l <;> cases p <;> cases n <;> cases s <;> rfl
  rw [VersionEdit.fields, List.foldl_append, List.foldl_append, List.foldl_append, hhead,
    foldl_compactPointers, foldl_deletedFiles _ _ (by simpa using hsorted), foldl_newFiles]
  rfl

theorem Field.encode_ne_nil (field : Field) : 1 ≤ field.encode.length := by
  rw [Field.encode, List.length_append, encodeVarint32]
  split_ifs <;> rw [List.length_cons] <;> omega

theorem length_le_flatMap : ∀ fields : List Field,
    fields.length ≤ (fields.flatMap Field.encode).length
  | [] => le_rfl
  | field :: fields => by
      have h1 := field.encode_ne_nil
      have h2 := length_le_flatMap fields
      rw [List.flatMap_cons, List.length_append, List.length_cons]
      omega

/-- The numbers and lengths of an edit fit, and its levels exist. -/
def VersionEdit.Fits (edit : VersionEdit) : Prop := ∀ field ∈ edit.fields, field.Fits

instance : DecidablePred VersionEdit.Fits := fun edit =>
  inferInstanceAs (Decidable (∀ field ∈ edit.fields, field.Fits))

/-- **An edit is read back from what `EncodeTo` writes.** -/
theorem decodeFrom_encodeTo {edit : VersionEdit} (h : edit.Fits) :
    decodeFrom edit.encodeTo = .ok edit := by
  rw [decodeFrom, VersionEdit.encodeTo,
    decodeFields_flatMap _ h (Nat.lt_succ_of_le (length_le_flatMap _)), foldl_fields]

/-! ## What is accepted -/

/-- The level of a field, if it has one, exists. -/
def Field.LevelExists : Field → Prop
  | compactPointer level _ => level < kNumLevels
  | deletedFile level _ => level < kNumLevels
  | newFile level _ => level < kNumLevels
  | _ => True

/-- All levels of an edit exist. -/
structure VersionEdit.LevelsExist (edit : VersionEdit) : Prop where
  compactPointers : ∀ p ∈ edit.compactPointers, p.1 < kNumLevels
  deletedFiles : ∀ p ∈ edit.deletedFiles.files, p.1 < kNumLevels
  newFiles : ∀ p ∈ edit.newFiles, p.1 < kNumLevels

theorem VersionEdit.LevelsExist.apply {edit : VersionEdit} (h : edit.LevelsExist) :
    ∀ {field : Field}, field.LevelExists → (field.apply edit).LevelsExist
  | .comparator _, _ => ⟨h.compactPointers, h.deletedFiles, h.newFiles⟩
  | .logNumber _, _ => ⟨h.compactPointers, h.deletedFiles, h.newFiles⟩
  | .prevLogNumber _, _ => ⟨h.compactPointers, h.deletedFiles, h.newFiles⟩
  | .nextFileNumber _, _ => ⟨h.compactPointers, h.deletedFiles, h.newFiles⟩
  | .lastSequence _, _ => ⟨h.compactPointers, h.deletedFiles, h.newFiles⟩
  | .compactPointer _ _, hl =>
      ⟨List.forall_mem_append.mpr ⟨h.compactPointers, List.forall_mem_singleton.mpr hl⟩,
        h.deletedFiles, h.newFiles⟩
  | .deletedFile _ _, hl =>
      ⟨h.compactPointers, fun p hp => (mem_insertFile.mp hp).elim (fun heq => heq ▸ hl)
        (h.deletedFiles p), h.newFiles⟩
  | .newFile _ _, hl =>
      ⟨h.compactPointers, h.deletedFiles,
        List.forall_mem_append.mpr ⟨h.newFiles, List.forall_mem_singleton.mpr hl⟩⟩

theorem getLevel_lt {input rest : Bytes} {level : ℕ} (h : getLevel input = some (level, rest)) :
    level < kNumLevels := by
  rw [getLevel] at h
  split at h
  · split_ifs at h with hlt
    obtain ⟨rfl, -⟩ := Prod.ext_iff.mp (Option.some.inj h)
    exact hlt
  · cases h

theorem decodeField_level {tag : ℕ} {input rest : Bytes} {field : Field}
    (h : decodeField tag input = .ok (field, rest)) : field.LevelExists := by
  have hok {r : Field × Bytes} (h : Except.ok (ε := String) r = .ok (field, rest)) :
      r.1 = field := (Prod.ext_iff.mp (Except.ok.inj h)).1
  unfold decodeField at h
  split at h
  · split at h
    · exact hok h ▸ trivial
    · cases h
  · split at h
    · exact hok h ▸ trivial
    · cases h
  · split at h
    · exact hok h ▸ trivial
    · cases h
  · split at h
    · exact hok h ▸ trivial
    · cases h
  · split at h
    · exact hok h ▸ trivial
    · cases h
  · split at h
    · next hr =>
      obtain ⟨⟨level, input⟩, hl, hr⟩ := Option.bind_eq_some_iff.mp hr
      obtain ⟨⟨key, input⟩, -, rfl⟩ := Option.map_eq_some_iff.mp hr
      exact hok h ▸ getLevel_lt hl
    · cases h
  · split at h
    · next hr =>
      obtain ⟨⟨level, input⟩, hl, hr⟩ := Option.bind_eq_some_iff.mp hr
      obtain ⟨⟨number, input⟩, -, rfl⟩ := Option.map_eq_some_iff.mp hr
      exact hok h ▸ getLevel_lt hl
    · cases h
  · split at h
    · next hr =>
      obtain ⟨⟨level, input⟩, hl, hr⟩ := Option.bind_eq_some_iff.mp hr
      obtain ⟨⟨number, input⟩, -, hr⟩ := Option.bind_eq_some_iff.mp hr
      obtain ⟨⟨fileSize, input⟩, -, hr⟩ := Option.bind_eq_some_iff.mp hr
      obtain ⟨⟨smallest, input⟩, -, hr⟩ := Option.bind_eq_some_iff.mp hr
      obtain ⟨⟨largest, input⟩, -, rfl⟩ := Option.map_eq_some_iff.mp hr
      exact hok h ▸ getLevel_lt hl
    · cases h
  · cases h

theorem decodeFields_levels : ∀ (n : ℕ) {input : Bytes} {edit edit' : VersionEdit},
    edit.LevelsExist → decodeFields n input edit = .ok edit' → edit'.LevelsExist
  | 0, _, _, _, h, hd => Except.ok.inj hd ▸ h
  | n + 1, input, edit, edit', h, hd => by
      rw [decodeFields] at hd
      split at hd
      · split_ifs at hd
        exact Except.ok.inj hd ▸ h
      · split at hd
        · next hfield => exact decodeFields_levels n (h.apply (decodeField_level hfield)) hd
        · cases hd

/-- **No edit that is read names a level that does not exist.** -/
theorem decodeFrom_levels {src : Bytes} {edit : VersionEdit} (h : decodeFrom src = .ok edit) :
    edit.LevelsExist := by
  rw [decodeFrom] at h
  split at h
  · next hd =>
    refine Except.ok.inj h ▸ decodeFields_levels _ ⟨?_, ?_, ?_⟩ hd
    all_goals exact fun p hp => (by cases hp)
  · cases h

end Manifest

end Leveldb
