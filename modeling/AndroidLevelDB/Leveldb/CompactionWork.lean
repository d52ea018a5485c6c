import AndroidLevelDB.Lib.Compaction
import AndroidLevelDB.Leveldb.Compaction

/-!
# Leveldb/CompactionWork — the loop of a compaction

`doCompactionWork` walks through the merge of the input files and writes what no reader can miss to
new files.  If nothing fails, the new files hold the input without the entries it may drop
(`doCompactionWork_spec`); what happens outside of it (a file that cannot be written, a shutdown) is
given by a `CompactionEnv`.
-/

namespace Leveldb

/-- `MakeInputIterator`: the files of level 0 one by one, the others level by level. -/
def Compaction.inputSources (c : Compaction) : List Source :=
  (if c.inputs0.isEmpty then []
    else if c.level = 0 then c.inputs0.map FileMetaData.source else [concatenating c.inputs0]) ++
  if c.inputs1.isEmpty then [] else [concatenating c.inputs1]

def Compaction.makeInputIterator (c : Compaction) : InternalIterator :=
  newMergingIterator (c.inputSources.map SourceIterator.new)

/-- What a compaction meets outside of the database. -/
structure CompactionEnv where
  /-- The size of a table with these entries. -/
  fileSize : List Entry → ℕ
  /-- Opening the file of this number. -/
  newWritableFile : ℕ → Status
  /-- Finishing, syncing, closing and reopening the file of this number. -/
  finish : ℕ → Status
  /-- `shutting_down_`, with so many rounds of the loop to go. -/
  shuttingDown : ℕ → Bool
  /-- It is never taken back. -/
  shuttingDown_mono : ∀ {m n}, m ≤ n → shuttingDown n = true → shuttingDown m = true

/-- A file that a compaction writes, with the entries in it. -/
structure Output where
  number : ℕ
  fileSize : ℕ
  smallest : Bytes
  largest : Bytes
  entries : List Entry
deriving DecidableEq

/-- An entry is added to a file, and to its bounds. -/
def Output.add (e : Entry) (out : Output) : Output :=
  { out with
    smallest := if out.entries.isEmpty then e.key else out.smallest
    largest := e.key
    entries := out.entries ++ [e] }

/-- The state of the loop, its local variables included; `current` is the output that is open. -/
structure CompactionState where
  compaction : Compaction
  smallestSnapshot : ℕ
  outputs : List Output
  current : Option Output
  nextFileNumber : ℕ
  currentUserKey : Option Bytes
  lastSequenceForKey : ℕ

namespace CompactionState

/-- The state before the loop. -/
def new (c : Compaction) (smallestSnapshot nextFileNumber : ℕ) : CompactionState where
  compaction := c
  smallestSnapshot := smallestSnapshot
  outputs := []
  current := none
  nextFileNumber := nextFileNumber
  currentUserKey := none
  lastSequenceForKey := kMaxSequenceNumber

/-- `OpenCompactionOutputFile`. -/
def openCompactionOutputFile (env : CompactionEnv) (st : CompactionState) :
    Status × CompactionState :=
  let number := st.nextFileNumber
  let st := { st with nextFileNumber := number + 1 }
  let s := env.newWritableFile number
  if s.ok then (s, { st with current := some ⟨number, 0, [], [], []⟩ }) else (s, st)

/-- Open an output file if necessary. -/
def openIfNecessary (env : CompactionEnv) (st : CompactionState) : Status × CompactionState :=
  if st.current.isNone then st.openCompactionOutputFile env else (.OK, st)

/-- `FinishCompactionOutputFile`, given the status of the input. -/
def finishCompactionOutputFile (env : CompactionEnv) (input : Status) (st : CompactionState) :
    Status × CompactionState :=
  match st.current with
  | none => (.OK, st)
  | some out =>
    let s := if input.ok then env.finish out.number else input
    let out := { out with fileSize := env.fileSize out.entries }
    (s, { st with outputs := st.outputs ++ [out], current := none })

/-- The first occurrence of a user key. -/
def enter (userKey : Bytes) (st : CompactionState) : CompactionState :=
  if st.currentUserKey.any fun k => Slice.compare userKey k = 0 then st
  else { st with currentUserKey := some userKey, lastSequenceForKey := kMaxSequenceNumber }

/-- Whether the loop drops a key, and what it remembers of it. -/
def drop (key : Bytes) (st : CompactionState) : Bool × CompactionState :=
  match parseInternalKey key with
  | none => (false, { st with currentUserKey := none, lastSequenceForKey := kMaxSequenceNumber })
  | some ikey =>
    let st := st.enter ikey.userKey
    if st.lastSequenceForKey ≤ st.smallestSnapshot then
      (true, { st with lastSequenceForKey := ikey.sequence })
    else if ikey.type = .kTypeDeletion ∧ ikey.sequence ≤ st.smallestSnapshot then
      let (base, compaction) := st.compaction.isBaseLevelForKey ikey.userKey
      (base, { st with compaction := compaction, lastSequenceForKey := ikey.sequence })
    else (false, { st with lastSequenceForKey := ikey.sequence })

/-- Add an entry to the output that is open, and close it if it is big enough. -/
def add (env : CompactionEnv) (input : Status) (e : Entry) (st : CompactionState) :
    Status × CompactionState :=
  let (status, st) := st.openIfNecessary env
  match status.ok, st.current with
  | true, some out =>
    let out := out.add e
    let st := { st with current := some out }
    if env.fileSize out.entries ≥ st.compaction.maxOutputFileSize then
      st.finishCompactionOutputFile env input
    else (.OK, st)
  | _, _ => (status, st)

/-- Close the output before a key, if it should not be in there. -/
def stopBefore (env : CompactionEnv) (input : Status) (key : Bytes) (st : CompactionState) :
    Status × CompactionState :=
  let (stop, compaction) := st.compaction.shouldStopBefore key
  let st := { st with compaction := compaction }
  if stop && st.current.isSome then st.finishCompactionOutputFile env input else (.OK, st)

/-- A round of the loop. -/
def round (env : CompactionEnv) (input : InternalIterator) (st : CompactionState) :
    Status × CompactionState :=
  let key := Iterator.key input
  let (status, st) := st.stopBefore env (Iterator.status input) key
  if !status.ok then (status, st)
  else
    let (drop, st) := st.drop key
    if drop then (.OK, st)
    else st.add env (Iterator.status input) ⟨key, Iterator.value input⟩

/-- The loop, for no more than `n` rounds. -/
def loop (env : CompactionEnv) :
    ℕ → InternalIterator → CompactionState → Status × InternalIterator × CompactionState
  | 0, input, st => (.OK, input, st)
  | n + 1, input, st =>
    if Iterator.valid input && !env.shuttingDown (n + 1) then
      let (status, st) := st.round env input
      if !status.ok then (status, input, st) else loop env n (Iterator.next input) st
    else (.OK, input, st)

/-- What is left to do behind the loop, given the status of the input. -/
def close (env : CompactionEnv) (status input : Status) (st : CompactionState) :
    Status × CompactionState :=
  let status :=
    if status.ok && env.shuttingDown 0 then .ioError "Deleting DB during compaction" else status
  let (status, st) :=
    if status.ok && st.current.isSome then st.finishCompactionOutputFile env input else (status, st)
  (if status.ok then input else status, st)

end CompactionState

/-- The loop takes no more rounds than there are places in the input. -/
def Compaction.rounds (c : Compaction) : ℕ := (c.inputSources.map fun src => src.cells.length).sum + 1

/-- `DoCompactionWork` until the results are installed: `snapshots` are the live ones, oldest first. -/
def Compaction.doCompactionWork (env : CompactionEnv) (snapshots : List ℕ) (lastSequence : ℕ)
    (nextFileNumber : ℕ) (c : Compaction) : Status × CompactionState :=
  let (status, input, st) :=
    CompactionState.loop env c.rounds (Iterator.seekToFirst c.makeInputIterator)
      (.new c (snapshots.head?.getD lastSequence) nextFileNumber)
  st.close env status (Iterator.status input)

/-! ## What is written -/

/-- A file with entries, whose bounds are its first and its last key. -/
structure Output.Ok (out : Output) : Prop where
  smallest : out.entries.head?.map Entry.key = some out.smallest
  largest : out.entries.getLast?.map Entry.key = some out.largest

theorem Output.add_ok {out : Output} (h : out.entries ≠ [] → out.Ok) (e : Entry) :
    (out.add e).Ok := by
  refine ⟨?_, by simp [add]⟩
  cases ho : out.entries with
  | nil => simp [add, ho]
  | cons x xs =>
    have hs := (h (by simp [ho])).smallest
    rw [ho] at hs
    simpa [add, ho] using hs

/-- The outputs hold `es`, in files with ascending numbers from `first` to `next`. -/
structure Outputs (first next : ℕ) (outs : List Output) (es : List Entry) : Prop where
  entries : outs.flatMap Output.entries = es
  ok : ∀ out ∈ outs, out.Ok
  numbers : outs.Pairwise fun a b => a.number < b.number
  first_le : ∀ out ∈ outs, first ≤ out.number
  lt_next : ∀ out ∈ outs, out.number < next

namespace Outputs

variable {first next : ℕ} {outs : List Output} {out : Output} {es : List Entry}

theorem nil (first next : ℕ) : Outputs first next [] [] :=
  ⟨rfl, fun _ h => (by cases h), List.Pairwise.nil, fun _ h => (by cases h),
    fun _ h => (by cases h)⟩

theorem concat_iff : Outputs first next (outs ++ [out]) es ↔
    ∃ es', es = es' ++ out.entries ∧ Outputs first out.number outs es' ∧ out.Ok ∧
      first ≤ out.number ∧ out.number < next := by
  constructor
  · rintro ⟨rfl, hok, hnum, hfirst, hlt⟩
    rw [List.pairwise_append] at hnum
    refine ⟨outs.flatMap Output.entries, by simp, ⟨rfl, ?_, hnum.1, ?_, ?_⟩, ?_, ?_, ?_⟩
    · exact fun o ho => hok o (List.mem_append_left _ ho)
    · exact fun o ho => hfirst o (List.mem_append_left _ ho)
    · exact fun o ho => hnum.2.2 o ho out List.mem_cons_self
    · exact hok out (List.mem_append_right _ List.mem_cons_self)
    · exact hfirst out (List.mem_append_right _ List.mem_cons_self)
    · exact hlt out (List.mem_append_right _ List.mem_cons_self)
  · rintro ⟨es', rfl, ⟨rfl, hok, hnum, hfirst, hlt⟩, hout, hf, hl⟩
    refine ⟨by simp, ?_, List.pairwise_append.mpr ⟨hnum, List.pairwise_singleton _ _, ?_⟩, ?_, ?_⟩
    · exact List.forall_mem_append.mpr ⟨hok, List.forall_mem_singleton.mpr hout⟩
    · exact fun o ho => List.forall_mem_singleton.mpr (hlt o ho)
    · exact List.forall_mem_append.mpr ⟨hfirst, List.forall_mem_singleton.mpr hf⟩
    · exact List.forall_mem_append.mpr
        ⟨fun o ho => (hlt o ho).trans hl, List.forall_mem_singleton.mpr hl⟩

end Outputs

namespace CompactionState

/-- All outputs, the open one included. -/
def written (st : CompactionState) : List Output := st.outputs ++ st.current.toList

/-- `es` has been written. -/
structure Wrote (first : ℕ) (st : CompactionState) (es : List Entry) : Prop where
  outputs : Outputs first st.nextFileNumber st.written es
  first_le : first ≤ st.nextFileNumber

/-- The fields that writing leaves alone. -/
structure SameMemory (st st' : CompactionState) : Prop where
  compaction : st'.compaction = st.compaction
  smallestSnapshot : st'.smallestSnapshot = st.smallestSnapshot
  currentUserKey : st'.currentUserKey = st.currentUserKey
  lastSequenceForKey : st'.lastSequenceForKey = st.lastSequenceForKey

section Writing

variable {env : CompactionEnv} {first : ℕ} {st : CompactionState} {es : List Entry}

/-- Closing a file keeps what was written. -/
theorem finish_wrote (env : CompactionEnv) (h : Wrote first st es) (input : Status) :
    Wrote first (st.finishCompactionOutputFile env input).2 es ∧
      SameMemory st (st.finishCompactionOutputFile env input).2 ∧
      (st.finishCompactionOutputFile env input).2.current = none := by
  unfold finishCompactionOutputFile
  cases hc : st.current with
  | none => exact ⟨h, ⟨rfl, rfl, rfl, rfl⟩, hc⟩
  | some out =>
    have hw : st.written = st.outputs ++ [out] := by rw [written, hc]; rfl
    obtain ⟨hout, hfirst⟩ := h
    rw [hw] at hout
    obtain ⟨es', rfl, hinit, hok, hbounds⟩ := Outputs.concat_iff.mp hout
    refine ⟨⟨?_, hfirst⟩, ⟨rfl, rfl, rfl, rfl⟩, rfl⟩
    rw [written, Option.toList_none, List.append_nil]
    exact Outputs.concat_iff.mpr ⟨es', rfl, hinit, ⟨hok.smallest, hok.largest⟩, hbounds⟩

/-- Unless a file cannot be opened, there is one that is open, and it takes the entry. -/
theorem open_spec (h : Wrote first st es) (e : Entry)
    (hok : (st.openIfNecessary env).1.ok = true) :
    ∃ out, (st.openIfNecessary env).2.current = some out ∧
      Wrote first { (st.openIfNecessary env).2 with current := some (out.add e) } (es ++ [e]) ∧
      SameMemory st (st.openIfNecessary env).2 := by
  obtain ⟨hout, hfirst⟩ := h
  cases hc : st.current with
  | none =>
    have hw : st.written = st.outputs := by rw [written, hc, Option.toList_none, List.append_nil]
    rw [hw] at hout
    rw [openIfNecessary, hc, Option.isNone_none, if_pos rfl, openCompactionOutputFile] at hok ⊢
    dsimp only at hok ⊢
    split_ifs at hok ⊢ with hnew
    · refine ⟨_, rfl, ⟨?_, by dsimp only; omega⟩, ⟨rfl, rfl, rfl, rfl⟩⟩
      exact Outputs.concat_iff.mpr ⟨es, rfl, hout, Output.add_ok (fun h => absurd rfl h) e, hfirst,
        Nat.lt_succ_self _⟩
    · exact absurd hok hnew
  | some out =>
    have hw : st.written = st.outputs ++ [out] := by rw [written, hc]; rfl
    rw [hw] at hout
    obtain ⟨es', rfl, hinit, hout, hbounds⟩ := Outputs.concat_iff.mp hout
    rw [openIfNecessary, hc, Option.isNone_some, if_neg (by decide)]
    refine ⟨out, hc, ⟨?_, hfirst⟩, ⟨rfl, rfl, rfl, rfl⟩⟩
    exact Outputs.concat_iff.mpr ⟨es', List.append_assoc _ _ _, hinit,
      Output.add_ok (fun _ => hout) e, hbounds⟩

/-- **Adding an entry writes it**, unless something fails. -/
theorem add_wrote (h : Wrote first st es) {input : Status} {e : Entry}
    (hok : (st.add env input e).1.ok = true) :
    Wrote first (st.add env input e).2 (es ++ [e]) ∧ SameMemory st (st.add env input e).2 := by
  rw [add] at hok ⊢
  dsimp only at hok ⊢
  cases hs : (st.openIfNecessary env).1.ok with
  | false =>
    rw [hs] at hok
    exact absurd hok (by simp [hs])
  | true =>
    obtain ⟨out, hcur, hw, hsame⟩ := open_spec h e hs
    rw [hs, hcur] at hok
    rw [hcur]
    dsimp only at hok ⊢
    split_ifs at hok ⊢ with hbig
    · obtain ⟨hw', hsame', -⟩ := finish_wrote env hw input
      exact ⟨hw', hsame'.compaction.trans hsame.compaction,
        hsame'.smallestSnapshot.trans hsame.smallestSnapshot,
        hsame'.currentUserKey.trans hsame.currentUserKey,
        hsame'.lastSequenceForKey.trans hsame.lastSequenceForKey⟩
    · exact ⟨hw, hsame.compaction, hsame.smallestSnapshot, hsame.currentUserKey,
        hsame.lastSequenceForKey⟩

end Writing

/-! ## What is dropped -/

/-- What the loop remembers when it has read `pre`. -/
structure Remembers (c : Compaction) (s : ℕ) (st : CompactionState) (pre : List Entry) :
    Prop where
  keeps : c.Keeps st.compaction
  passed : ∀ k, (∀ e ∈ pre, e.version.key ≤ k) → st.compaction.Passed k
  smallestSnapshot : st.smallestSnapshot = s
  currentUserKey : st.currentUserKey = pre.getLast?.map fun e => e.version.key
  lastSequenceForKey : ∀ e ∈ pre.getLast?, st.lastSequenceForKey = e.version.seq

theorem Remembers.of_same {c : Compaction} {s : ℕ} {st st' : CompactionState} {pre : List Entry}
    (h : Remembers c s st pre) (hsame : SameMemory st st') : Remembers c s st' pre := by
  obtain ⟨hc, hs, hk, hl⟩ := hsame
  exact ⟨hc ▸ h.keeps, hc ▸ h.passed, hs.trans h.smallestSnapshot, hk.trans h.currentUserKey,
    fun e he => hl.trans (h.lastSequenceForKey e he)⟩

/-- The entry is one that the compaction may drop. -/
def Drops (c : Compaction) (s : ℕ) (L : List Entry) (e : Entry) : Prop :=
  Version.Dropped (L.map Entry.version) s c.Base e.version

/-- Entering a user key changes only what is remembered of the last one. -/
theorem enter_spec {c : Compaction} {s : ℕ} {st : CompactionState} {pre : List Entry}
    (h : Remembers c s st pre) (hs : s < kMaxSequenceNumber) (k : Bytes) :
    ((st.enter k).lastSequenceForKey ≤ s ↔
        ∃ u ∈ pre.getLast?, u.version.key = k ∧ u.version.seq ≤ s) ∧
      ∃ n, st.enter k = { st with currentUserKey := some k, lastSequenceForKey := n } := by
  obtain ⟨-, -, -, huser, hlast⟩ := h
  rw [enter, huser]
  cases hu : pre.getLast? with
  | none => exact ⟨by simp [hs], _, rfl⟩
  | some u =>
    have hseq := hlast u hu
    rw [hu] at huser
    simp only [Option.map_some, Option.any_some, Slice.compare_eq_zero_iff, decide_eq_true_eq]
    split_ifs with hk
    · subst hk
      refine ⟨?_, st.lastSequenceForKey, by rw [Option.map_some] at huser; rw [← huser]⟩
      simp [hseq]
    · refine ⟨?_, _, rfl⟩
      simp [hs, Ne.symm hk]

instance (c : Compaction) (s : ℕ) (L : List Entry) : DecidablePred (Drops c s L) :=
  fun e => inferInstanceAs (Decidable (Version.Dropped (L.map Entry.version) s c.Base e.version))

/-- What the compaction keeps of `pre`, the part of its input `L` it has read. -/
def kept (c : Compaction) (s : ℕ) (L pre : List Entry) : List Entry :=
  pre.filter fun e => ¬ Drops c s L e

theorem kept_append_of_drops {c : Compaction} {s : ℕ} {L pre : List Entry} {e : Entry}
    (h : Drops c s L e) : kept c s L (pre ++ [e]) = kept c s L pre := by
  rw [kept, List.filter_append, List.filter_cons_of_neg (by simpa using h), List.filter_nil,
    List.append_nil]
  rfl

theorem kept_append_of_not_drops {c : Compaction} {s : ℕ} {L pre : List Entry} {e : Entry}
    (h : ¬ Drops c s L e) : kept c s L (pre ++ [e]) = kept c s L pre ++ [e] := by
  rw [kept, List.filter_append, List.filter_cons_of_pos (by simpa using h), List.filter_nil]
  rfl

/-- The entry in front of which the loop stands is dropped exactly when it may be. -/
theorem drop_iff {c : Compaction} {s : ℕ} {st : CompactionState} {pre post : List Entry}
    {e : Entry} (hL : Versioned (pre ++ e :: post)) (h : Remembers c s st pre)
    (hs : s < kMaxSequenceNumber)
    (hsorted : ∀ lvl, c.level + 2 ≤ lvl → lvl < kNumLevels →
      (c.inputVersion lvl).Pairwise fun f g => f.smallestUserKey ≤ g.smallestUserKey) :
    ((st.drop e.key).1 = true ↔ Drops c s (pre ++ e :: post) e) ∧
      Remembers c s (st.drop e.key).2 (pre ++ [e]) ∧
      (st.drop e.key).2.outputs = st.outputs ∧ (st.drop e.key).2.current = st.current ∧
      (st.drop e.key).2.nextFileNumber = st.nextFileNumber := by
  have hwf := hL.wellFormed e (List.mem_append_right _ List.mem_cons_self)
  obtain ⟨p, hp⟩ := hwf.exists_parse
  have hver := Entry.version_of_parse hp
  have hkey : e.version.key = p.userKey := by rw [hver]
  have hseq : e.version.seq = p.sequence := by rw [hver]
  have hdel : e.version.val = none ↔ p.type = .kTypeDeletion := by
    rw [hver]
    cases p.type <;> simp
  have hranked := hL.ranked
  rw [List.map_append, List.map_cons] at hranked
  have hle : ∀ x ∈ pre, x.version.key ≤ e.version.key := by
    intro x hx
    have hlt := (List.pairwise_append.mp hranked).2.2 _ (List.mem_map_of_mem hx) _
      List.mem_cons_self
    exact (Version.rank_lt_iff.mp hlt).elim le_of_lt fun h => h.1.le
  have hhidden : Version.Hidden ((pre ++ e :: post).map Entry.version) s e.version ↔
      ∃ u ∈ pre.getLast?, u.version.key = p.userKey ∧ u.version.seq ≤ s := by
    rw [List.map_append, List.map_cons, Version.hidden_iff_getLast hranked, List.getLast?_map]
    simp [hkey]
  obtain ⟨hlast, n, henter⟩ := enter_spec h hs p.userKey
  rw [← hhidden] at hlast
  obtain ⟨hkeeps, hpassed, rfl, -, -⟩ := h
  have hp' : st.compaction.Passed p.userKey := hpassed _ (hkey ▸ hle)
  have hremembers {st' : CompactionState} (hk : c.Keeps st'.compaction)
      (hpass : ∀ k, (∀ x ∈ pre ++ [e], x.version.key ≤ k) → st'.compaction.Passed k)
      (hsn : st'.smallestSnapshot = st.smallestSnapshot) (hu : st'.currentUserKey = some p.userKey)
      (hl : st'.lastSequenceForKey = p.sequence) : Remembers c st.smallestSnapshot st' (pre ++ [e]) := by
    refine ⟨hk, hpass, hsn, ?_, fun x hx => ?_⟩
    · rw [hu, List.getLast?_concat, Option.map_some, hkey]
    · rw [List.getLast?_concat, Option.mem_some_iff] at hx
      rw [hl, ← hx, hseq]
  rw [henter] at hlast
  rw [drop, hp]
  dsimp only
  rw [henter]
  dsimp only at hlast ⊢
  have hpass' : ∀ k, (∀ x ∈ pre ++ [e], x.version.key ≤ k) → st.compaction.Passed k :=
    fun k hk => hpassed k fun x hx => hk x (List.mem_append_left _ hx)
  split_ifs with hhid hmark
  · exact ⟨iff_of_true rfl (.inl (hlast.mp hhid)), hremembers hkeeps hpass' rfl rfl rfl,
      rfl, rfl, rfl⟩
  · obtain ⟨hbase, hpass, hkeeps'⟩ := Compaction.isBaseLevelForKey_iff
      (fun lvl h1 h2 => by
        rw [hkeeps.level] at h1
        rw [hkeeps.inputVersion]
        exact hsorted lvl h1 h2) hp'
    refine ⟨(hbase.trans hkeeps.base_iff).trans ?_, hremembers (hkeeps.trans hkeeps')
      (fun k hk => hpass.mono ?_) rfl rfl rfl, rfl, rfl, rfl⟩
    · rw [Drops, Version.Dropped, hdel, hkey, hseq]
      exact ⟨fun hb => .inr ⟨hmark.1, hmark.2, hb⟩,
        fun hd => (hd.resolve_left fun hh => hhid (hlast.mpr hh)).2.2⟩
    · rw [← hkey]
      exact hk e (List.mem_append_right _ List.mem_cons_self)
  · refine ⟨iff_of_false (by decide) ?_, hremembers hkeeps hpass' rfl rfl rfl, rfl, rfl, rfl⟩
    rw [Drops, Version.Dropped, hdel, hseq]
    rintro (hh | ⟨ht, hle, -⟩)
    · exact hhid (hlast.mpr hh)
    · exact hmark ⟨ht, hle⟩

section Loop

variable {env : CompactionEnv} {c : Compaction} {s first : ℕ} (hs : s < kMaxSequenceNumber)
  (hsorted : ∀ lvl, c.level + 2 ≤ lvl → lvl < kNumLevels →
    (c.inputVersion lvl).Pairwise fun f g => f.smallestUserKey ≤ g.smallestUserKey)

theorem stopBefore_spec (env : CompactionEnv) {st : CompactionState} {pre es : List Entry}
    (hw : Wrote first st es) (hr : Remembers c s st pre) (input : Status) (key : Bytes) :
    Wrote first (st.stopBefore env input key).2 es ∧
      Remembers c s (st.stopBefore env input key).2 pre := by
  have hr' : Remembers c s { st with compaction := (st.compaction.shouldStopBefore key).2 } pre :=
    ⟨hr.keeps.trans (st.compaction.shouldStopBefore_keeps key).1,
      fun k hk => (hr.passed k hk).shouldStopBefore key, hr.smallestSnapshot, hr.currentUserKey,
      hr.lastSequenceForKey⟩
  have hw' : Wrote first { st with compaction := (st.compaction.shouldStopBefore key).2 } es :=
    ⟨hw.outputs, hw.first_le⟩
  rw [stopBefore]
  dsimp only
  split_ifs
  · obtain ⟨hw'', hsame, -⟩ := finish_wrote env hw' input
    exact ⟨hw'', hr'.of_same hsame⟩
  · exact ⟨hw', hr'⟩

include hs hsorted in
/-- **A round writes an entry or drops it**, unless something fails. -/
theorem round_spec {st : CompactionState} {pre post : List Entry} {e : Entry}
    {input : InternalIterator} (hL : Versioned (pre ++ e :: post))
    (hk : Iterator.key input = e.key) (hv : Iterator.value input = e.value)
    (hw : Wrote first st (kept c s (pre ++ e :: post) pre)) (hr : Remembers c s st pre)
    (hok : (st.round env input).1.ok = true) :
    Wrote first (st.round env input).2 (kept c s (pre ++ e :: post) (pre ++ [e])) ∧
      Remembers c s (st.round env input).2 (pre ++ [e]) := by
  rw [round, hk, hv] at hok ⊢
  dsimp only at hok ⊢
  obtain ⟨hw, hr⟩ := stopBefore_spec env hw hr (Iterator.status input) e.key
  set stop := st.stopBefore env (Iterator.status input) e.key
  obtain ⟨hdrop, hr', hout, hcur, hnext⟩ := drop_iff hL hr hs hsorted
  have hw' : Wrote first (stop.2.drop e.key).2 (kept c s (pre ++ e :: post) pre) := by
    refine ⟨?_, hnext ▸ hw.first_le⟩
    rw [written, hout, hcur, hnext]
    exact hw.outputs
  cases hst : stop.1.ok with
  | false =>
    rw [hst, Bool.not_false, if_pos rfl] at hok
    exact absurd hok (by simp [hst])
  | true =>
    rw [hst, Bool.not_true, if_neg (by decide)] at hok
    rw [Bool.not_true, if_neg (by decide)]
    by_cases hd : (stop.2.drop e.key).1 = true
    · rw [if_pos hd, kept_append_of_drops (hdrop.mp hd)]
      exact ⟨hw', hr'⟩
    · rw [if_neg hd] at hok ⊢
      rw [kept_append_of_not_drops (mt hdrop.mpr hd)]
      obtain ⟨hw'', hsame⟩ := add_wrote hw' hok
      exact ⟨hw'', hr'.of_same hsame⟩

include hs hsorted in
/-- **The loop writes what it may not drop**, unless something fails or the database is deleted. -/
theorem loop_spec (env : CompactionEnv) {sources : List Source} {L : List Entry} (hL : Versioned L)
    (hsrc : ∀ src ∈ sources, src.Sorted)
    (hm : Merged Entry.rank (sources.map fun s => readable s.cells) L) :
    ∀ (n : ℕ) {input : InternalIterator} {st : CompactionState} {pre post : List Entry},
    InternalIterator.Fwd sources L input pre post → post.length < n →
    Wrote first st (kept c s L pre) → Remembers c s st pre → input.Swept →
    (loop env n input st).1.ok = true → env.shuttingDown 0 = false →
    Wrote first (loop env n input st).2.2 (kept c s L L) ∧
      InternalIterator.Fwd sources L (loop env n input st).2.1 L [] ∧
      (loop env n input st).2.1.Swept
  | 0, _, _, _, _, _, hn, _, _, _, _, _ => absurd hn (Nat.not_lt_zero _)
  | n + 1, input, st, pre, post, hf, hn, hw, hr, hsw, hok, hdown => by
      have happ : pre ++ post = L := (InternalIterator.cursor hsrc hm).fwd_append hf
      have hrun : env.shuttingDown (n + 1) = false :=
        Bool.eq_false_iff.mpr fun h =>
          Bool.eq_false_iff.mp hdown (env.shuttingDown_mono (Nat.zero_le _) h)
      rw [loop, hrun, Bool.not_false, Bool.and_true] at hok ⊢
      cases post with
      | nil =>
        obtain rfl : pre = L := by rw [← happ, List.append_nil]
        have hv : Iterator.valid input = false := (InternalIterator.cursor hsrc hm).fwd_nil hf
        rw [hv, if_neg (by decide)]
        exact ⟨hw, hf, hsw⟩
      | cons e post =>
        obtain ⟨hv, hk, hval⟩ := (InternalIterator.cursor hsrc hm).fwd_cons hf
        subst happ
        rw [hv, if_pos rfl] at hok ⊢
        dsimp only at hok ⊢
        cases hst : (st.round env input).1.ok with
        | false =>
          rw [hst, Bool.not_false, if_pos rfl] at hok
          exact absurd hok (by simp [hst])
        | true =>
          rw [hst, Bool.not_true, if_neg (by decide)] at hok
          rw [Bool.not_true, if_neg (by decide)]
          obtain ⟨hw', hr'⟩ := round_spec hs hsorted hL hk hval hw hr hst
          exact loop_spec env hL hsrc hm n ((InternalIterator.cursor hsrc hm).next_fwd hf)
            (Nat.lt_of_succ_lt_succ hn) hw' hr'
            (hsw.next hsrc hf) hok hdown

end Loop

/-- **Behind the loop all outputs are closed**, if nothing has failed. -/
theorem close_spec {env : CompactionEnv} {first : ℕ} {status input : Status} {st : CompactionState}
    (hok : (st.close env status input).1.ok = true) :
    status.ok = true ∧ env.shuttingDown 0 = false ∧ input.ok = true ∧
      ∀ {es}, Wrote first st es → Outputs first (st.close env status input).2.nextFileNumber
        (st.close env status input).2.outputs es := by
  rw [close] at hok ⊢
  dsimp only at hok ⊢
  set status' := if status.ok && env.shuttingDown 0 then
    Status.ioError "Deleting DB during compaction" else status with hstatus'
  have hs' : status'.ok = true := by
    by_contra hn
    rw [Bool.not_eq_true] at hn
    simp [hn] at hok
  obtain ⟨hs, hd⟩ : status.ok = true ∧ env.shuttingDown 0 = false := by
    rw [hstatus'] at hs'
    split_ifs at hs' with h
    · exact absurd hs' (by decide)
    · exact ⟨hs', by simpa [hs'] using h⟩
  refine ⟨hs, hd, ?_⟩
  rw [hs', Bool.true_and] at hok ⊢
  by_cases hc : st.current.isSome = true
  · rw [if_pos hc] at hok ⊢
    have hinput : input.ok = true := by
      split_ifs at hok with hf
      · exact hok
      · exact absurd hok hf
    refine ⟨hinput, fun hw => ?_⟩
    obtain ⟨hw', -, hnone⟩ := finish_wrote env hw input
    have hout := hw'.outputs
    rwa [written, hnone, Option.toList_none, List.append_nil] at hout
  · rw [if_neg hc] at hok ⊢
    dsimp only at hok ⊢
    rw [if_pos hs'] at hok
    refine ⟨hok, fun hw => ?_⟩
    have hout := hw.outputs
    rwa [written, Option.not_isSome_iff_eq_none.mp hc, Option.toList_none, List.append_nil] at hout

/-! ## File numbers -/

section Numbers

variable (env : CompactionEnv) (input : Status)

theorem nextFileNumber_finish (st : CompactionState) :
    (st.finishCompactionOutputFile env input).2.nextFileNumber = st.nextFileNumber := by
  rw [finishCompactionOutputFile]
  cases st.current <;> rfl

theorem le_nextFileNumber_add (e : Entry) (st : CompactionState) :
    st.nextFileNumber ≤ (st.add env input e).2.nextFileNumber := by
  have hopen : st.nextFileNumber ≤ (st.openIfNecessary env).2.nextFileNumber := by
    rw [openIfNecessary, openCompactionOutputFile]
    dsimp only
    split_ifs
    · exact Nat.le_succ _
    · exact Nat.le_succ _
    · exact le_rfl
  rw [add]
  dsimp only
  split
  · split_ifs
    · rw [nextFileNumber_finish]
      exact hopen
    · exact hopen
  · exact hopen

theorem nextFileNumber_drop (key : Bytes) (st : CompactionState) :
    (st.drop key).2.nextFileNumber = st.nextFileNumber := by
  have henter (k : Bytes) : (st.enter k).nextFileNumber = st.nextFileNumber := by
    rw [enter]
    split_ifs <;> rfl
  rw [drop]
  split
  · rfl
  · dsimp only
    split_ifs <;> exact henter _

theorem le_nextFileNumber_round (it : InternalIterator) (st : CompactionState) :
    st.nextFileNumber ≤ (st.round env it).2.nextFileNumber := by
  have hstop : (st.stopBefore env (Iterator.status it) (Iterator.key it)).2.nextFileNumber
      = st.nextFileNumber := by
    rw [stopBefore]
    dsimp only
    split_ifs
    · exact nextFileNumber_finish env _ _
    · rfl
  rw [round]
  dsimp only
  split_ifs
  · exact hstop.ge
  · exact (hstop.symm.trans (nextFileNumber_drop _ _).symm).le
  · exact (hstop.symm.trans (nextFileNumber_drop _ _).symm).le.trans
      (le_nextFileNumber_add env _ _ _)

theorem le_nextFileNumber_loop : ∀ (n : ℕ) (it : InternalIterator) (st : CompactionState),
    st.nextFileNumber ≤ (loop env n it st).2.2.nextFileNumber
  | 0, _, _ => le_rfl
  | n + 1, it, st => by
      have hround := le_nextFileNumber_round env it st
      rw [loop]
      dsimp only
      split_ifs
      · exact hround
      · exact hround.trans (le_nextFileNumber_loop n _ _)
      · exact le_rfl

end Numbers

end CompactionState

namespace Compaction

/-- **File numbers are not given out twice**, whether the compaction fails or not. -/
theorem le_nextFileNumber (env : CompactionEnv) (snapshots : List ℕ) (lastSequence first : ℕ)
    (c : Compaction) :
    first ≤ (c.doCompactionWork env snapshots lastSequence first).2.nextFileNumber := by
  have hclose (status input : Status) (st : CompactionState) :
      (st.close env status input).2.nextFileNumber = st.nextFileNumber := by
    unfold CompactionState.close
    dsimp only
    split_ifs
    · exact CompactionState.nextFileNumber_finish env input st
    · rfl
    · exact CompactionState.nextFileNumber_finish env input st
    · rfl
  rw [doCompactionWork]
  dsimp only
  rw [hclose]
  exact CompactionState.le_nextFileNumber_loop env c.rounds _
    (.new c (snapshots.head?.getD lastSequence) first)

theorem length_lt_rounds {c : Compaction} {L : List Entry}
    (hm : Merged Entry.rank (c.inputSources.map fun src => readable src.cells) L) :
    L.length < c.rounds := by
  rw [hm.perm.length_eq, List.length_flatten, List.map_map, rounds, Nat.lt_succ_iff]
  exact List.sum_le_sum fun src _ => List.length_filterMap_le _ _

theorem status_makeInputIterator (c : Compaction) :
    ∀ child ∈ c.makeInputIterator.children, child.status = child.source.opened := by
  intro child hchild
  rw [makeInputIterator, Store.children_newMergingIterator] at hchild
  obtain ⟨src, -, rfl⟩ := List.mem_map.mp hchild
  rfl

/-- **A compaction that does not fail has read all of its input**, and its outputs hold what it may
not drop, in order. -/
theorem doCompactionWork_spec {env : CompactionEnv} {snapshots : List ℕ} {lastSequence first : ℕ}
    {c : Compaction} (hptrs : c.levelPtrs = fun _ => 0)
    (hs : snapshots.head?.getD lastSequence < kMaxSequenceNumber)
    (hsorted : ∀ lvl, c.level + 2 ≤ lvl → lvl < kNumLevels →
      (c.inputVersion lvl).Pairwise fun f g => f.smallestUserKey ≤ g.smallestUserKey)
    (hsrc : ∀ src ∈ c.inputSources, src.Sorted) {L : List Entry}
    (hm : Merged Entry.rank (c.inputSources.map fun src => readable src.cells) L)
    (hL : Versioned L)
    (hok : (c.doCompactionWork env snapshots lastSequence first).1.ok = true) :
    Outputs first (c.doCompactionWork env snapshots lastSequence first).2.nextFileNumber
      (c.doCompactionWork env snapshots lastSequence first).2.outputs
      (CompactionState.kept c (snapshots.head?.getD lastSequence) L L) ∧
    ∀ src ∈ c.inputSources, src.opened.ok = true ∧ ∀ cell ∈ src.cells, cell.isUnreadable = false := by
  set s := snapshots.head?.getD lastSequence
  set st := CompactionState.new c s first with hst
  have hw : CompactionState.Wrote first st (CompactionState.kept c s L []) :=
    ⟨Outputs.nil first first, le_rfl⟩
  have hr : CompactionState.Remembers c s st [] := by
    refine ⟨⟨rfl, rfl, rfl⟩, fun k _ lvl f hf => ?_, rfl, rfl, fun e he => (by cases he)⟩
    rw [hst, CompactionState.new, hptrs, List.take_zero] at hf
    cases hf
  have hcovers : (InternalIterator.cursor hsrc hm).covers c.makeInputIterator := by
    change c.makeInputIterator.children.map SourceIterator.source = c.inputSources
    rw [makeInputIterator, Store.children_newMergingIterator, List.map_map]
    exact List.map_id _
  have hf := (InternalIterator.cursor hsrc hm).seekToFirst_fwd hcovers
  have hsw := InternalIterator.swept_seekToFirst c.status_makeInputIterator
  have hloop := CompactionState.loop_spec hs hsorted env hL hsrc hm c.rounds hf
    (length_lt_rounds hm) hw hr hsw
  rw [doCompactionWork] at hok ⊢
  dsimp only at hok ⊢
  obtain ⟨hstatus, hdown, hinput, hclose⟩ := CompactionState.close_spec hok
  obtain ⟨hwrote, hend, hswept⟩ := hloop hstatus hdown
  exact ⟨hclose hwrote, (hswept.ok_status_iff hsrc hm hend).mp hinput⟩

end Compaction

end Leveldb
