import AndroidLevelDB.Leveldb.Merger

/-!
# Leveldb/DbIter — the iterator a client sees

`DBIter` walks over internal entries and shows, for each user key, the newest version that its
sequence number lets it see, unless that version is a deletion.  Its loops are the walks
`Version.scanFrom` and `Version.scanBack` of `Lib/Versions` (`findNextUserEntry_spec`,
`findPrevLoop_spec`).
-/

namespace Leveldb

open Iterator

/-- `rounds` bounds the rounds of a loop; it is at least the number of entries. -/
structure DBIter (ι : Type) where
  iter : ι
  sequence : ℕ
  rounds : ℕ
  status : Status
  savedKey : Bytes
  savedValue : Bytes
  direction : Direction
  valid : Bool
deriving DecidableEq

namespace DBIter

variable {ι : Type} [Iterator ι]

/-- `NewDBIterator`. -/
def new (iter : ι) (sequence rounds : ℕ) : DBIter ι :=
  ⟨iter, sequence, rounds, .OK, [], [], .kForward, false⟩

def key (it : DBIter ι) : Bytes :=
  if it.direction = .kForward then extractUserKey (Iterator.key it.iter) else it.savedKey

def value (it : DBIter ι) : Bytes :=
  if it.direction = .kForward then Iterator.value it.iter else it.savedValue

/-- `DBIter::status`: its own error, or else the one of what it walks over. -/
def reportedStatus (it : DBIter ι) : Status :=
  if it.status.ok then Iterator.status it.iter else it.status

/-- `ParseKey`: a key that does not parse leaves an error and is passed over. -/
def parseKey (it : DBIter ι) : Option ParsedInternalKey × DBIter ι :=
  match parseInternalKey (Iterator.key it.iter) with
  | some ikey => (some ikey, it)
  | none => (none, { it with status := .corruption "corrupted internal key in DBIter" })

/-- `FindNextUserEntry`; the key to skip is in `savedKey`. -/
def findNextUserEntry : ℕ → Bool → DBIter ι → DBIter ι
  | 0, _, it => it
  | n + 1, skipping, it =>
    let advance (skipping : Bool) (it : DBIter ι) :=
      let it := { it with iter := Iterator.next it.iter }
      if Iterator.valid it.iter then findNextUserEntry n skipping it
      else { it with savedKey := [], valid := false }
    match it.parseKey with
    | (some ikey, it) =>
      if ikey.sequence ≤ it.sequence then
        match ikey.type with
        | .kTypeDeletion => advance true { it with savedKey := ikey.userKey }
        | .kTypeValue =>
          if skipping && Slice.compare ikey.userKey it.savedKey ≤ 0 then advance skipping it
          else { it with valid := true, savedKey := [] }
      else advance skipping it
    | (none, it) => advance skipping it

/-- The loop of `FindPrevUserEntry`; the value type tells whether there is a saved entry. -/
def findPrevLoop : ℕ → ValueType → DBIter ι → ValueType × DBIter ι
  | 0, valueType, it => (valueType, it)
  | n + 1, valueType, it =>
    let retreat (valueType : ValueType) (it : DBIter ι) :=
      let it := { it with iter := Iterator.prev it.iter }
      if Iterator.valid it.iter then findPrevLoop n valueType it else (valueType, it)
    match it.parseKey with
    | (some ikey, it) =>
      if ikey.sequence ≤ it.sequence then
        if valueType ≠ .kTypeDeletion && Slice.compare ikey.userKey it.savedKey < 0 then
          (valueType, it)
        else
          match ikey.type with
          | .kTypeDeletion => retreat .kTypeDeletion { it with savedKey := [], savedValue := [] }
          | .kTypeValue => retreat .kTypeValue
              { it with
                savedKey := extractUserKey (Iterator.key it.iter)
                savedValue := Iterator.value it.iter }
      else retreat valueType it
    | (none, it) => retreat valueType it

def findPrevUserEntry (it : DBIter ι) : DBIter ι :=
  let (valueType, it) :=
    if Iterator.valid it.iter then findPrevLoop it.rounds .kTypeDeletion it
    else (.kTypeDeletion, it)
  if valueType = .kTypeDeletion then
    { it with valid := false, savedKey := [], savedValue := [], direction := .kForward }
  else { it with valid := true }

def next (it : DBIter ι) : DBIter ι :=
  if it.direction = .kReverse then
    let iter := if Iterator.valid it.iter then Iterator.next it.iter
      else Iterator.seekToFirst it.iter
    let it := { it with direction := .kForward, iter := iter }
    if Iterator.valid it.iter then findNextUserEntry it.rounds true it
    else { it with valid := false, savedKey := [] }
  else
    findNextUserEntry it.rounds true
      { it with savedKey := extractUserKey (Iterator.key it.iter) }

/-- The loop of `Prev` that leaves the entries of the saved key; `true` if it found another key. -/
def leaveKey : ℕ → DBIter ι → Bool × DBIter ι
  | 0, it => (false, it)
  | n + 1, it =>
    let it := { it with iter := Iterator.prev it.iter }
    if Iterator.valid it.iter then
      if Slice.compare (extractUserKey (Iterator.key it.iter)) it.savedKey < 0 then (true, it)
      else leaveKey n it
    else (false, it)

def prev (it : DBIter ι) : DBIter ι :=
  if it.direction = .kForward then
    match leaveKey it.rounds { it with savedKey := extractUserKey (Iterator.key it.iter) } with
    | (true, it) => findPrevUserEntry { it with direction := .kReverse }
    | (false, it) => { it with valid := false, savedKey := [], savedValue := [] }
  else findPrevUserEntry it

def seek (it : DBIter ι) (target : Bytes) : DBIter ι :=
  let savedKey := appendInternalKey [] ⟨target, it.sequence, kValueTypeForSeek⟩
  let it :=
    { it with
      direction := .kForward
      savedValue := []
      savedKey := savedKey
      iter := Iterator.seek it.iter savedKey }
  if Iterator.valid it.iter then findNextUserEntry it.rounds false it
  else { it with valid := false }

def seekToFirst (it : DBIter ι) : DBIter ι :=
  let it :=
    { it with direction := .kForward, savedValue := [], iter := Iterator.seekToFirst it.iter }
  if Iterator.valid it.iter then findNextUserEntry it.rounds false it
  else { it with valid := false }

def seekToLast (it : DBIter ι) : DBIter ι :=
  findPrevUserEntry
    { it with direction := .kReverse, savedValue := [], iter := Iterator.seekToLast it.iter }

instance : Iterator (DBIter ι) :=
  ⟨valid, seekToFirst, seekToLast, seek, next, prev, key, value, reportedStatus⟩

/-! ## The loops are walks over versions -/

/-- The key to skip. -/
def skip (skipping : Bool) (it : DBIter ι) : Option Bytes :=
  if skipping then some it.savedKey else none

omit [Iterator ι] in
theorem skipped_iff {skipping : Bool} {it : DBIter ι} {k : Bytes} :
    Version.Skipped (skip skipping it) k
      ↔ (skipping && decide (Slice.compare k it.savedKey ≤ 0)) = true := by
  cases skipping <;> simp [skip, Version.Skipped, Slice.compare_nonpos_iff]

variable {F : ι → List Entry → List Entry → Prop}

/-- **`FindNextUserEntry` is the forward walk.** -/
theorem findNextUserEntry_spec (hF : Forward ι F) : ∀ (n : ℕ) (skipping : Bool) (it : DBIter ι)
    (pre : List Entry) (e : Entry) (post : List Entry), F it.iter pre (e :: post) →
      (∀ x ∈ e :: post, x.WellFormed) → (e :: post).length ≤ n →
      ∃ iter pre' post',
        findNextUserEntry n skipping it
          = { it with iter := iter, savedKey := [], valid := !post'.isEmpty } ∧
        F iter pre' post' ∧ pre' ++ post' = pre ++ e :: post ∧
        post'.map Entry.version
          = Version.scanFrom it.sequence (skip skipping it) ((e :: post).map Entry.version) := by
  intro n
  induction n with
  | zero => intro _ _ _ _ _ _ _ hn; simp at hn
  | succ n ih =>
    intro skipping it pre e post hf hwf hn
    obtain ⟨hv, hk, hval⟩ := hF.cons hf
    have hnext := hF.next hf
    -- going on to the next entry, whatever is to be skipped from there
    have hgo : ∀ (skipping' : Bool) (savedKey : Bytes),
        ∃ iter pre' post',
          (let it' : DBIter ι := { it with savedKey := savedKey, iter := Iterator.next it.iter }
            if Iterator.valid it'.iter then findNextUserEntry n skipping' it'
            else { it' with savedKey := [], valid := false })
            = { it with iter := iter, savedKey := [], valid := !post'.isEmpty } ∧
          F iter pre' post' ∧ pre' ++ post' = pre ++ e :: post ∧
          post'.map Entry.version = Version.scanFrom it.sequence
            (skip skipping' { it with savedKey := savedKey }) (post.map Entry.version) := by
      intro skipping' savedKey
      cases post with
      | nil =>
        refine ⟨Iterator.next it.iter, pre ++ [e], [], ?_, hnext, by simp, rfl⟩
        simp [hF.nil hnext]
      | cons e' post =>
        obtain ⟨iter, pre', post', h1, h2, h3, h4⟩ := ih skipping'
          { it with savedKey := savedKey, iter := Iterator.next it.iter } (pre ++ [e]) e' post hnext
          (fun x hx => hwf x (List.mem_cons_of_mem _ hx)) (by simpa using hn)
        refine ⟨iter, pre', post', ?_, h2, by simpa using h3, h4⟩
        simp only [(hF.cons hnext).1, if_true]
        exact h1
    obtain ⟨ikey, hp⟩ := (hwf e List.mem_cons_self).exists_parse
    have hver := Entry.version_of_parse hp
    have hparse : it.parseKey = (some ikey, it) := by rw [parseKey, hk, hp]
    rw [List.map_cons, hver, Version.scanFrom]
    by_cases hs : ikey.sequence ≤ it.sequence
    · rw [if_pos hs]
      cases ht : ikey.type with
      | kTypeDeletion =>
        obtain ⟨iter, pre', post', h1, h2, h3, h4⟩ := hgo true ikey.userKey
        refine ⟨iter, pre', post', ?_, h2, h3, h4⟩
        simpa only [findNextUserEntry, hparse, hs, ht, if_true] using h1
      | kTypeValue =>
        by_cases hsk : Version.Skipped (skip skipping it) ikey.userKey
        · obtain ⟨iter, pre', post', h1, h2, h3, h4⟩ := hgo skipping it.savedKey
          refine ⟨iter, pre', post', ?_, h2, h3, ?_⟩
          · simpa only [findNextUserEntry, hparse, hs, ht, skipped_iff.mp hsk, if_true] using h1
          · rw [if_pos rfl]
            simpa only [hsk, if_true] using h4
        · refine ⟨it.iter, pre, e :: post, ?_, hf, rfl, ?_⟩
          · have hsk' := mt skipped_iff.mpr hsk
            simp only [findNextUserEntry, hparse, hs, ht, if_true, hsk']
            simp
          · rw [if_pos rfl]
            simp only [hsk, if_false, List.map_cons, hver, ht, if_true]
    · rw [if_neg hs]
      obtain ⟨iter, pre', post', h1, h2, h3, h4⟩ := hgo skipping it.savedKey
      refine ⟨iter, pre', post', ?_, h2, h3, h4⟩
      simpa only [findNextUserEntry, hparse, hs, if_false] using h1

/-- The saved entry of the backward loop. -/
def saved (valueType : ValueType) (savedKey savedValue : Bytes) : Option (Bytes × Bytes) :=
  if valueType = .kTypeDeletion then none else some (savedKey, savedValue)

theorem breaks_iff {valueType : ValueType} {savedKey savedValue k : Bytes} :
    (∃ p ∈ saved valueType savedKey savedValue, k < p.1)
      ↔ (decide (valueType ≠ .kTypeDeletion) && decide (Slice.compare k savedKey < 0)) = true := by
  cases valueType <;> simp [saved, Slice.compare_neg_iff]

/-- **The loop of `FindPrevUserEntry` is the backward walk.** -/
theorem findPrevLoop_spec {L : List Entry} (C : Cursor ι L) : ∀ (n : ℕ) (valueType : ValueType)
    (it : DBIter ι) (e : Entry) (r post : List Entry), C.bwd it.iter (e :: r) post →
      (∀ x ∈ e :: r, x.WellFormed) → (e :: r).length ≤ n →
      ∃ iter r' post' valueType' savedKey savedValue,
        findPrevLoop n valueType it
          = (valueType', { it with iter := iter, savedKey := savedKey, savedValue := savedValue }) ∧
        C.bwd iter r' post' ∧
        (saved valueType' savedKey savedValue, r'.map Entry.version)
          = Version.scanBack it.sequence (saved valueType it.savedKey it.savedValue)
              ((e :: r).map Entry.version) := by
  intro n
  induction n with
  | zero => intro _ _ _ _ _ _ _ hn; simp at hn
  | succ n ih =>
    intro valueType it e r post hb hwf hn
    obtain ⟨hv, hk, hval⟩ := C.bwd_cons hb
    have hprev := C.prev_bwd hb
    -- going back to the previous entry, whatever is saved from there
    have hgo : ∀ (valueType' : ValueType) (savedKey savedValue : Bytes),
        ∃ iter r' post' valueType'' savedKey' savedValue',
          (let it' : DBIter ι := { it with
              savedKey := savedKey, savedValue := savedValue, iter := Iterator.prev it.iter }
            if Iterator.valid it'.iter then findPrevLoop n valueType' it' else (valueType', it'))
            = (valueType'',
                { it with iter := iter, savedKey := savedKey', savedValue := savedValue' }) ∧
          C.bwd iter r' post' ∧
          (saved valueType'' savedKey' savedValue', r'.map Entry.version)
            = Version.scanBack it.sequence (saved valueType' savedKey savedValue)
                (r.map Entry.version) := by
      intro valueType' savedKey savedValue
      cases r with
      | nil =>
        refine ⟨Iterator.prev it.iter, [], e :: post, valueType', savedKey, savedValue, ?_, hprev,
          rfl⟩
        simp [C.bwd_nil hprev]
      | cons e' r =>
        obtain ⟨iter, r', post', t, k, v, h1, h2, h3⟩ := ih valueType'
          { it with savedKey := savedKey, savedValue := savedValue,
                    iter := Iterator.prev it.iter } e' r (e :: post) hprev
          (fun x hx => hwf x (List.mem_cons_of_mem _ hx)) (by simpa using hn)
        refine ⟨iter, r', post', t, k, v, ?_, h2, h3⟩
        simp only [(C.bwd_cons hprev).1, if_true]
        exact h1
    obtain ⟨ikey, hp⟩ := (hwf e List.mem_cons_self).exists_parse
    have hver := Entry.version_of_parse hp
    have huser : extractUserKey e.key = ikey.userKey := (parseInternalKey_eq_some hp).2.1.symm
    have hparse : it.parseKey = (some ikey, it) := by rw [parseKey, hk, hp]
    rw [List.map_cons, hver, Version.scanBack]
    by_cases hs : ikey.sequence ≤ it.sequence
    · rw [if_pos hs]
      by_cases hbr : ∃ p ∈ saved valueType it.savedKey it.savedValue, ikey.userKey < p.1
      · rw [if_pos hbr]
        refine ⟨it.iter, e :: r, post, valueType, it.savedKey, it.savedValue, ?_, hb, ?_⟩
        · simp only [findPrevLoop, hparse, hs, breaks_iff.mp hbr, if_true]
        · rw [List.map_cons, hver]
      · rw [if_neg hbr]
        have hbr' := mt breaks_iff.mpr hbr
        cases ht : ikey.type with
        | kTypeDeletion =>
          obtain ⟨iter, r', post', t, k, v, h1, h2, h3⟩ := hgo .kTypeDeletion [] []
          refine ⟨iter, r', post', t, k, v, ?_, h2, h3⟩
          simpa only [findPrevLoop, hparse, hs, hbr', ht, if_true, Bool.false_eq_true, if_false]
            using h1
        | kTypeValue =>
          obtain ⟨iter, r', post', t, k, v, h1, h2, h3⟩ := hgo .kTypeValue ikey.userKey e.value
          refine ⟨iter, r', post', t, k, v, ?_, h2, h3⟩
          simpa only [findPrevLoop, hparse, hs, hbr', ht, hk, hval, huser, if_true,
            Bool.false_eq_true, if_false] using h1
    · rw [if_neg hs]
      obtain ⟨iter, r', post', t, k, v, h1, h2, h3⟩ := hgo valueType it.savedKey it.savedValue
      refine ⟨iter, r', post', t, k, v, ?_, h2, h3⟩
      simpa only [findPrevLoop, hparse, hs, if_false] using h1

/-! ## What the iterator shows -/

/-- The pairs of `l` that a reader of `L` at `s` sees. -/
def shown (L : List Entry) (s : ℕ) (l : List Entry) : List (Bytes × Bytes) :=
  ((l.map Entry.version).filter (Version.Seen (L.map Entry.version) s)).filterMap Version.pair

variable {L : List Entry}

theorem shown_append (s : ℕ) (l l' : List Entry) :
    shown L s (l ++ l') = shown L s l ++ shown L s l' := by
  simp only [shown, List.map_append, List.filter_append, List.filterMap_append]

theorem shown_reverse (s : ℕ) (l : List Entry) : shown L s l.reverse = (shown L s l).reverse := by
  simp only [shown, List.map_reverse, List.filter_reverse, List.filterMap_reverse]

theorem shown_eq_nil {s : ℕ} {l : List Entry}
    (h : ∀ e ∈ l, ¬ Version.Seen (L.map Entry.version) s e.version) : shown L s l = [] := by
  rw [shown, List.filter_eq_nil_iff.mpr, List.filterMap_nil]
  intro v hv
  obtain ⟨e, he, rfl⟩ := List.mem_map.mp hv
  simpa using h e he

/-- The iterator stands at a seen entry, having moved forwards, or at the end. -/
structure ForwardAt (F : ι → List Entry → List Entry → Prop) (L : List Entry) (it : DBIter ι)
    (pre post : List Entry) : Prop where
  position : F it.iter pre post
  direction : it.direction = .kForward
  valid : it.valid = !post.isEmpty
  seen : ∀ e ∈ post.head?, Version.Seen (L.map Entry.version) it.sequence e.version

/-- **`FindNextUserEntry` stops at the next entry the client sees**: of the entries in front of it
it passes `K`, which is to be passed, and what it does not see of the others. -/
theorem findNextUserEntry_stops (hF : Forward ι F) (n : ℕ) (skipping : Bool) (it : DBIter ι)
    {pre K D : List Entry} {e : Entry} {post : List Entry} (hf : F it.iter pre (e :: post))
    (hwf : ∀ x ∈ e :: post, x.WellFormed) (hn : (e :: post).length ≤ n)
    (hd : it.direction = .kForward) (hKD : e :: post = K ++ D)
    (hscan : Version.scanFrom it.sequence (skip skipping it) ((e :: post).map Entry.version)
      = (D.map Entry.version).dropWhile
          fun v => ¬ Version.Seen (L.map Entry.version) it.sequence v) :
    ∃ pre' post', ForwardAt F L (findNextUserEntry n skipping it) pre' post' ∧
      (findNextUserEntry n skipping it).sequence = it.sequence ∧
      (findNextUserEntry n skipping it).rounds = it.rounds ∧
      (findNextUserEntry n skipping it).status = it.status ∧
      shown L it.sequence pre' = shown L it.sequence (pre ++ K) ∧
      shown L it.sequence post' = shown L it.sequence D := by
  obtain ⟨iter, pre', post', h1, h2, h3, h4⟩ :=
    findNextUserEntry_spec hF n skipping it pre e post hf hwf hn
  rw [hscan, List.dropWhile_map] at h4
  set p : Entry → Bool := (fun v => decide ¬ Version.Seen (L.map Entry.version) it.sequence v) ∘
    Entry.version with hp
  have hsplit : pre' ++ post' = (pre ++ K ++ D.takeWhile p) ++ D.dropWhile p := by
    rw [List.append_assoc, List.takeWhile_append_dropWhile, h3, hKD, List.append_assoc]
  have hlen : post'.length = (D.dropWhile p).length := by simpa using congrArg List.length h4
  obtain ⟨hpre, hpost⟩ := List.append_inj' hsplit hlen
  have hpassed : ∀ x ∈ D.takeWhile p,
      ¬ Version.Seen (L.map Entry.version) it.sequence x.version := fun x hx => by
    simpa [hp] using List.mem_takeWhile_imp hx
  refine ⟨pre', post', ?_, by rw [h1], by rw [h1], by rw [h1], ?_, ?_⟩
  · rw [h1]
    refine ⟨h2, hd, rfl, fun x hx => ?_⟩
    have hhead := List.head?_dropWhile_not p D
    rw [← hpost, Option.mem_def.mp hx] at hhead
    simpa [hp] using hhead
  · rw [hpre, shown_append, shown_eq_nil hpassed, List.append_nil]
  · conv_rhs => rw [← List.takeWhile_append_dropWhile (p := p) (l := D)]
    rw [shown_append, shown_eq_nil hpassed, List.nil_append, hpost]

end DBIter

end Leveldb
