import AndroidLevelDB.Leveldb.LoggedDb
import AndroidLevelDB.Leveldb.Open
import AndroidLevelDB.Leveldb.VersionBuilder

/-!
# Leveldb/VersionSet — the manifest

`logAndApply` makes an edit the current version and writes it to the manifest, which begins with a
snapshot of the version before it.  A manifest that is cut off gives back a version that was current
since, with the numbers recorded for it; one that is not gives back the last (`recover_run`).
-/

namespace Leveldb.Manifest

structure VersionSet where
  current : Files
  nextFileNumber : ℕ
  lastSequence : ℕ
  logNumber : ℕ
  prevLogNumber : ℕ
  /-- Empty if there is none. -/
  compactPointer : ℕ → Bytes
  /-- The manifest, once it was begun. -/
  descriptorLog : Option Log.Writer

/-- What writing an edit meets. -/
structure ManifestEnv where
  /-- The file of a new manifest, and the status of creating it. -/
  file : NewFile
  newWritableFile : Status
  sync : Status
  setCurrentFile : Status

/-- The name of the comparator, as it is written. -/
def comparatorBytes : Bytes := comparatorName.toUTF8.data.toList

namespace VersionSet

/-- `WriteSnapshot`, but for the writing. -/
def snapshot (current : Files) (compactPointer : ℕ → Bytes) : VersionEdit :=
  { VersionEdit.clear with
    comparator := some comparatorBytes
    compactPointers := ((List.range kNumLevels).filter fun level =>
      !(compactPointer level).isEmpty).map fun level => (level, compactPointer level)
    newFiles := (List.range kNumLevels).flatMap fun level => (current level).map fun f => (level, f) }

/-- The edit with the numbers that `LogAndApply` puts in. -/
def fill (vs : VersionSet) (edit : VersionEdit) : VersionEdit :=
  { edit with
    logNumber := some (edit.logNumber.getD vs.logNumber)
    prevLogNumber := some (edit.prevLogNumber.getD vs.prevLogNumber)
    nextFileNumber := some vs.nextFileNumber
    lastSequence := some vs.lastSequence }

/-- Change the pointer of a level. -/
def setPointer (compactPointer : ℕ → Bytes) (p : ℕ × Bytes) : ℕ → Bytes :=
  fun level => if level = p.1 then p.2 else compactPointer level

/-- The compaction pointers, after an edit. -/
def applyPointers (compactPointer : ℕ → Bytes) (edit : VersionEdit) : ℕ → Bytes :=
  edit.compactPointers.foldl setPointer compactPointer

/-- The manifest to write to; a new one gets a snapshot first. -/
def openDescriptor (env : ManifestEnv) (vs : VersionSet) : Status × Option Log.Writer :=
  match vs.descriptorLog with
  | some w => (.OK, some w)
  | none =>
    if env.newWritableFile.ok then
      let (s, w) := (Log.Writer.new env.file.toWritableFile).addRecord
        (snapshot vs.current vs.compactPointer).encodeTo
      (s, some w)
    else (env.newWritableFile, none)

/-- Write a record to the manifest, if there is one. -/
def writeRecord (env : ManifestEnv) (record : Bytes) :
    Status × Option Log.Writer → Status × Option Log.Writer
  | (s, none) => (s, none)
  | (s, some w) =>
    if s.ok then
      let (s, w) := w.addRecord record
      (if s.ok then env.sync else s, some w)
    else (s, some w)

/-- `LogAndApply`. -/
def logAndApply (env : ManifestEnv) (edit : VersionEdit) (vs : VersionSet) : Status × VersionSet :=
  let edit := vs.fill edit
  let v := ((Builder.new vs.current).apply edit).saveTo
  let vs := { vs with compactPointer := applyPointers vs.compactPointer edit }
  let (s, log) := writeRecord env edit.encodeTo (vs.openDescriptor env)
  let s := if s.ok && vs.descriptorLog.isNone then env.setCurrentFile else s
  if s.ok then
    (s, { vs with
      current := v
      logNumber := edit.logNumber.getD 0
      prevLogNumber := edit.prevLogNumber.getD 0
      descriptorLog := log })
  else (s, { vs with descriptorLog := if vs.descriptorLog.isNone then none else log })

end VersionSet

/-! ## Recovering -/

/-- The state of the loop of `Recover`: what the edits said so far. -/
structure ManifestRecovery where
  status : Status
  builder : Builder
  compactPointer : ℕ → Bytes
  logNumber : Option ℕ
  prevLogNumber : Option ℕ
  nextFileNumber : Option ℕ
  lastSequence : Option ℕ

namespace ManifestRecovery

/-- A new version set has no files. -/
def new : ManifestRecovery := ⟨.OK, .new fun _ => [], fun _ => [], none, none, none, none⟩

/-- The comparator in an edit is the one in use. -/
def checkComparator (edit : VersionEdit) : Status :=
  match edit.comparator with
  | some name =>
    if name ≠ comparatorBytes then
      .invalidArgument (String.ofList (name.map fun b => Char.ofNat b.toNat) ++
        " does not match existing comparator ") comparatorName
    else .OK
  | none => .OK

/-- An edit that was read. -/
def edit (r : ManifestRecovery) (edit : VersionEdit) : ManifestRecovery :=
  let s := checkComparator edit
  { status := s
    builder := if s.ok then r.builder.apply edit else r.builder
    compactPointer :=
      if s.ok then VersionSet.applyPointers r.compactPointer edit else r.compactPointer
    logNumber := edit.logNumber.or r.logNumber
    prevLogNumber := edit.prevLogNumber.or r.prevLogNumber
    nextFileNumber := edit.nextFileNumber.or r.nextFileNumber
    lastSequence := edit.lastSequence.or r.lastSequence }

/-- A record in the loop. -/
def record (r : ManifestRecovery) (record : Bytes) : ManifestRecovery :=
  match decodeFrom record with
  | .error s => { r with status := s }
  | .ok edit => r.edit edit

/-- The loop; every record read takes bytes, whose number bounds the rounds. -/
def loop : ℕ → Log.Reader → ManifestRecovery → ManifestRecovery
  | 0, _, r => r
  | n + 1, reader, r =>
    let (rec?, reader') := reader.readRecord
    let reports := reader'.reports.drop reader.reports.length
    let r := reports.foldl (fun r report =>
      if r.status.ok then { r with status := report.2 } else r) r
    match rec? with
    | none => r
    | some rec => if r.status.ok then loop n reader' (r.record rec) else r

/-- What is left when the loop has ended. -/
def finish (r : ManifestRecovery) : Except Status VersionSet :=
  match r.status.ok, r.nextFileNumber, r.logNumber, r.lastSequence with
  | false, _, _, _ => .error r.status
  | true, none, _, _ => .error (.corruption "no meta-nextfile entry in descriptor")
  | true, some _, none, _ => .error (.corruption "no meta-lognumber entry in descriptor")
  | true, some _, some _, none =>
    .error (.corruption "no last-sequence-number entry in descriptor")
  | true, some nextFile, some logNumber, some lastSequence =>
    .ok
      { current := r.builder.saveTo
        nextFileNumber := nextFile + 1
        lastSequence := lastSequence
        logNumber := logNumber
        prevLogNumber := r.prevLogNumber.getD 0
        compactPointer := r.compactPointer
        descriptorLog := none }

end ManifestRecovery

/-- `VersionSet::Recover`, given the contents of the manifest. -/
def VersionSet.recover (contents : Bytes) : Except Status VersionSet :=
  let reader := Log.Reader.new (.new contents) true 0
  (ManifestRecovery.loop (reader.left + 1) reader .new).finish

/-! ## Reading edits back -/

/-- An edit that can be written and is accepted when it is read. -/
structure VersionEdit.Readable (edit : VersionEdit) : Prop where
  fits : edit.Fits
  comparator : (ManifestRecovery.checkComparator edit).ok = true

namespace ManifestRecovery

theorem record_encodeTo {edit : VersionEdit} (h : edit.Readable) (r : ManifestRecovery) :
    r.record edit.encodeTo = r.edit edit := by
  rw [record, decodeFrom_encodeTo h.fits]

/-- **The loop reads the edits that were written**, where the reader reports nothing. -/
theorem loop_spec : ∀ (n : ℕ) {reader : Log.Reader} {r : ManifestRecovery}
    {edits : List VersionEdit}, r.status.ok = true → (∀ e ∈ edits, e.Readable) →
    (reader.readAllLoop n).1 = edits.map VersionEdit.encodeTo →
    (reader.readAllLoop n).2.reports = reader.reports →
    loop n reader r = edits.foldl edit r
  | 0, reader, r, edits, _, _, hrecords, _ => by
      obtain rfl : edits = [] := List.map_eq_nil_iff.mp hrecords.symm
      rfl
  | n + 1, reader, r, edits, hst, hread, hrecords, hreports => by
      have hgrow := reader.readRecord_reports
      rw [Log.Reader.readAllLoop] at hrecords hreports
      rw [loop]
      rcases hrec : reader.readRecord with ⟨_ | record, reader'⟩
      · rw [hrec] at hrecords hreports
        obtain rfl : edits = [] := List.map_eq_nil_iff.mp hrecords.symm
        simp only at hreports
        simp only [hreports, List.drop_length, List.foldl_nil]
      · rw [hrec] at hrecords hreports hgrow
        simp only at hrecords hreports hgrow
        have hsame : reader'.reports = reader.reports := by
          have hrest := reader'.readAllLoop_reports n
          rw [hreports] at hrest
          exact (hgrow.eq_of_length (le_antisymm hgrow.length_le hrest.length_le)).symm
        cases edits with
        | nil => cases hrecords
        | cons e edits =>
          obtain ⟨he, hedits⟩ := List.forall_mem_cons.mp hread
          obtain ⟨rfl, hrest⟩ := List.cons.inj hrecords
          simp only [hsame, List.drop_length, List.foldl_nil, hst, if_true, record_encodeTo he,
            List.foldl_cons]
          exact loop_spec n he.comparator hedits hrest (hreports.trans hsame.symm)

end ManifestRecovery

namespace VersionSet

/-- What is recovered of a version set. -/
def recovered (vs : VersionSet) : VersionSet :=
  { vs with nextFileNumber := vs.nextFileNumber + 1, descriptorLog := none }

/-- The builder that has read `edits`. -/
abbrev builderOf (edits : List VersionEdit) : Builder :=
  (edits.foldl ManifestRecovery.edit .new).builder

/-- The edits `edits`, read one after the other, give the files `current`. -/
structure Begun (current : Files) (edits : List VersionEdit) : Prop where
  readable : ∀ e ∈ edits, e.Readable
  status : (edits.foldl ManifestRecovery.edit .new).status.ok = true
  builder : (edits.foldl ManifestRecovery.edit .new).builder.Ok
  current : (edits.foldl ManifestRecovery.edit .new).builder.saveTo = current

/-- The edits make up the version set. -/
structure MadeOf (vs : VersionSet) (edits : List VersionEdit) : Prop extends
    Begun vs.current edits where
  compactPointer : (edits.foldl ManifestRecovery.edit .new).compactPointer = vs.compactPointer
  logNumber : (edits.foldl ManifestRecovery.edit .new).logNumber = some vs.logNumber
  prevLogNumber : (edits.foldl ManifestRecovery.edit .new).prevLogNumber = some vs.prevLogNumber
  nextFileNumber : (edits.foldl ManifestRecovery.edit .new).nextFileNumber = some vs.nextFileNumber
  lastSequence : (edits.foldl ManifestRecovery.edit .new).lastSequence = some vs.lastSequence

theorem MadeOf.finish {vs : VersionSet} {edits : List VersionEdit} (h : MadeOf vs edits) :
    (edits.foldl ManifestRecovery.edit .new).finish = .ok vs.recovered := by
  rw [ManifestRecovery.finish, h.status, h.nextFileNumber, h.logNumber, h.lastSequence]
  dsimp only
  rw [h.current, h.compactPointer, h.prevLogNumber]
  rfl

/-- The version set behind an edit that was written. -/
def installed (vs : VersionSet) (edit : VersionEdit) (log : Log.Writer) : VersionSet :=
  { vs with
    current := ((Builder.new vs.current).apply (vs.fill edit)).saveTo
    logNumber := (vs.fill edit).logNumber.getD 0
    prevLogNumber := (vs.fill edit).prevLogNumber.getD 0
    compactPointer := applyPointers vs.compactPointer (vs.fill edit)
    descriptorLog := some log }

/-- **One more edit**, whose pointers may have been there already. -/
theorem Begun.fill {vs : VersionSet} {edits : List VersionEdit} (h : Begun vs.current edits)
    {edit : VersionEdit} (hread : (vs.fill edit).Readable)
    (hfresh : Builder.Fresh (edits.foldl ManifestRecovery.edit .new).builder.Known edit.newFiles)
    (hpointer : applyPointers (edits.foldl ManifestRecovery.edit .new).compactPointer (vs.fill edit)
      = applyPointers vs.compactPointer (vs.fill edit)) (log : Log.Writer) :
    MadeOf (vs.installed edit log) (edits ++ [vs.fill edit]) := by
  have hfold : (edits ++ [vs.fill edit]).foldl ManifestRecovery.edit .new
      = (edits.foldl ManifestRecovery.edit .new).edit (vs.fill edit) := List.foldl_concat ..
  have hsave := @Builder.saveTo_apply _ h.builder (vs.fill edit) hfresh
  rw [h.current] at hsave
  have hok := (@Builder.apply_spec _ h.builder (vs.fill edit) hfresh).1
  have hc := hread.comparator
  refine ⟨⟨?_, ?_, ?_, ?_⟩, ?_, ?_, ?_, ?_, ?_⟩
  · exact List.forall_mem_append.mpr ⟨h.readable, List.forall_mem_singleton.mpr hread⟩
  all_goals rw [hfold, ManifestRecovery.edit]
  · exact hc
  · rw [if_pos hc]
    exact hok
  · rw [if_pos hc]
    exact hsave
  · exact (if_pos hc).trans hpointer
  all_goals rfl

/-! ## The snapshot -/

theorem foldl_setPointer (ps : List (ℕ × Bytes)) (P : ℕ → Bytes) (l : ℕ) :
    (l ∉ ps.map Prod.fst → ps.foldl setPointer P l = P l) ∧
      (l ∈ ps.map Prod.fst → ∀ Q, ps.foldl setPointer P l = ps.foldl setPointer Q l) := by
  induction ps generalizing P with
  | nil => exact ⟨fun _ => rfl, fun h => absurd h List.not_mem_nil⟩
  | cons p ps ih =>
    rw [List.map_cons, List.mem_cons, not_or]
    refine ⟨fun ⟨hne, hm⟩ => ((ih _).1 hm).trans (if_neg hne), fun hmem Q => ?_⟩
    rw [List.foldl_cons, List.foldl_cons]
    by_cases hm : l ∈ ps.map Prod.fst
    · exact (ih _).2 hm _
    · have heq : l = p.1 := hmem.resolve_right hm
      rw [(ih _).1 hm, (ih _).1 hm, setPointer, setPointer, if_pos heq, if_pos heq]

/-- Pointers that were applied are not changed by applying them again. -/
theorem applyPointers_applyPointers (P : ℕ → Bytes) (edit : VersionEdit) :
    applyPointers (applyPointers P edit) edit = applyPointers P edit := by
  funext l
  by_cases h : l ∈ edit.compactPointers.map Prod.fst
  · exact (foldl_setPointer _ _ l).2 h _
  · exact (foldl_setPointer _ _ l).1 h

/-- There is nothing in levels that do not exist, and the others are sorted and list a file number
once. -/
structure Wf (vs : VersionSet) : Prop where
  files : ∀ level, kNumLevels ≤ level → vs.current level = []
  pointers : ∀ level, kNumLevels ≤ level → vs.compactPointer level = []
  sorted : ∀ level, KeySorted FileRecord.rank (vs.current level)
  numbers : ∀ level, (vs.current level).Pairwise fun f g => f.number ≠ g.number

theorem mem_snapshot {current : Files} {P : ℕ → Bytes} {level : ℕ} {f : FileRecord} :
    (level, f) ∈ (snapshot current P).newFiles ↔ level < kNumLevels ∧ f ∈ current level := by
  simp [snapshot]

theorem applyPointers_snapshot {current : Files} {P : ℕ → Bytes}
    (h : ∀ level, kNumLevels ≤ level → P level = []) :
    applyPointers (fun _ => []) (snapshot current P) = P := by
  have hrun (ls : List ℕ) (Q : ℕ → Bytes) (l : ℕ) :
      (ls.map fun level => (level, P level)).foldl setPointer Q l
        = if l ∈ ls then P l else Q l := by
    induction ls generalizing Q with
    | nil => rfl
    | cons a ls ih =>
      rw [List.map_cons, List.foldl_cons, ih, setPointer]
      by_cases ha : l = a
      · subst ha
        simp
      · simp [ha]
  funext l
  refine (hrun _ _ l).trans ?_
  split_ifs with hl
  · rfl
  · simp only [List.mem_filter, List.mem_range, Bool.not_eq_true', List.isEmpty_eq_false_iff,
      not_and, not_not] at hl
    by_cases hlt : l < kNumLevels
    · exact (hl hlt).symm
    · exact (h l (not_lt.mp hlt)).symm

/-- **The snapshot of a version gives back the version.** -/
theorem Wf.snapshot {vs : VersionSet} (h : vs.Wf) {P : ℕ → Bytes}
    (hP : ∀ level, kNumLevels ≤ level → P level = [])
    (hread : (VersionSet.snapshot vs.current P).Readable) :
    Begun vs.current [VersionSet.snapshot vs.current P] ∧
      ([VersionSet.snapshot vs.current P].foldl ManifestRecovery.edit .new).compactPointer = P ∧
      ∀ level f, (builderOf [VersionSet.snapshot vs.current P]).Known level f ↔
        (Builder.new vs.current).Known level f := by
  have hfold : [VersionSet.snapshot vs.current P].foldl ManifestRecovery.edit .new
      = ManifestRecovery.new.edit (VersionSet.snapshot vs.current P) := rfl
  have hc := hread.comparator
  have hempty : (Builder.new fun _ => []).Ok := Builder.ok_new fun _ => List.Pairwise.nil
  have hknown (level : ℕ) (f : FileRecord) : ¬ (Builder.new fun _ => []).Known level f := by
    rintro (hf | hf)
    · cases hf
    · cases hf
  have hfresh : Builder.Fresh (Builder.new fun _ => []).Known
      (VersionSet.snapshot vs.current P).newFiles := by
    refine ⟨fun p _ g hg => absurd hg (hknown _ _),
      List.pairwise_flatMap.mpr ⟨fun level _ => List.pairwise_map.mpr ?_, ?_⟩⟩
    · exact (h.numbers level).imp fun {f g} (hne : f.number ≠ g.number) _ => hne
    refine List.nodup_range.imp fun hne p hp q hq heq => absurd ?_ hne
    obtain ⟨f, -, rfl⟩ := List.mem_map.mp hp
    obtain ⟨g, -, rfl⟩ := List.mem_map.mp hq
    exact heq
  obtain ⟨hok, hbase, hlevels⟩ := Builder.apply_spec hempty hfresh
  have hmem (level : ℕ) (f : FileRecord) : ((Builder.new fun _ => []).apply
      (VersionSet.snapshot vs.current P)).Known level f ↔ f ∈ vs.current level := by
    rw [(hlevels level).1, or_iff_right (hknown level f), mem_snapshot]
    refine and_iff_right_of_imp fun hf => ?_
    by_contra hlt
    rw [h.files level (not_lt.mp hlt)] at hf
    cases hf
  rw [builderOf, hfold, ManifestRecovery.edit]
  dsimp only
  rw [if_pos hc, if_pos hc]
  refine ⟨⟨List.forall_mem_singleton.mpr hread, hc, ?_, ?_⟩, applyPointers_snapshot hP,
    fun level f => (hmem level f).trans ?_⟩
  · rw [hfold, ManifestRecovery.edit, if_pos hc]
    exact hok
  · rw [hfold, ManifestRecovery.edit, if_pos hc]
    funext level
    refine (Builder.saveTo_sorted hok level).eq_of_mem_iff (h.sorted level) fun f => ?_
    have hdel : f.number ∉ (((Builder.new fun _ => []).apply
        (VersionSet.snapshot vs.current P)).levels level).deletedFiles := by
      rw [(hlevels level).2]
      rintro ⟨hd | hd, -⟩
      · cases hd
      · cases hd
    exact Builder.mem_saveTo.trans ((and_iff_left hdel).trans (hmem level f))
  · simp [Builder.Known, Builder.new]

/-! ## Writing edits -/

/-- The log of the manifest in `file` holds `edits`, each of them written to its end. -/
structure Logged (file : NewFile) (log : Log.Writer) (edits : List VersionEdit) : Prop where
  log_eq : log
    = ((Log.Writer.new file.toWritableFile).addRecords (edits.map VersionEdit.encodeTo)).2
  written : (Log.Writer.new file.toWritableFile).written (edits.map VersionEdit.encodeTo)
    = edits.length

theorem Logged.addRecord {file : NewFile} {log : Log.Writer} {edits : List VersionEdit}
    (h : Logged file log edits) {edit : VersionEdit}
    (hok : (log.addRecord edit.encodeTo).1.ok = true) :
    Logged file (log.addRecord edit.encodeTo).2 (edits ++ [edit]) := by
  obtain ⟨rfl, hw⟩ := h
  refine ⟨?_, ?_⟩
  · rw [List.map_append, Log.Writer.addRecords_append]
    rfl
  · rw [List.map_append, List.length_append, List.length_singleton, List.map_singleton,
      (Log.Writer.written_of_ok (Nat.zero_le _) hok).2, List.length_map]

/-- The first edit of a manifest. -/
theorem logged_singleton (file : NewFile) {edit : VersionEdit}
    (hok : ((Log.Writer.new file.toWritableFile).addRecord edit.encodeTo).1.ok = true) :
    Logged file ((Log.Writer.new file.toWritableFile).addRecord edit.encodeTo).2 [edit] :=
  @Logged.addRecord file _ [] ⟨rfl, rfl⟩ edit hok

theorem openDescriptor_none {env : ManifestEnv} {vs : VersionSet}
    (h : (vs.openDescriptor env).2 = none) : (vs.openDescriptor env).1.ok = false := by
  rw [openDescriptor] at h ⊢
  cases hd : vs.descriptorLog with
  | some w =>
    rw [hd] at h
    cases h
  | none =>
    rw [hd] at h
    dsimp only at h ⊢
    split_ifs at h ⊢ with hnew
    exact Bool.eq_false_iff.mpr hnew

theorem writeRecord_ok {env : ManifestEnv} {record : Bytes} {r : Status × Option Log.Writer}
    (hnone : r.2 = none → r.1.ok = false) (hok : (writeRecord env record r).1.ok = true) :
    ∃ w, r.1.ok = true ∧ r.2 = some w ∧ (w.addRecord record).1.ok = true ∧
      (writeRecord env record r).2 = some (w.addRecord record).2 := by
  rcases r with ⟨s, _ | w⟩
  · exact absurd hok (Bool.eq_false_iff.mp (hnone rfl))
  · cases hs : s.ok with
    | false =>
      rw [writeRecord, hs, if_neg (by decide), hs] at hok
      cases hok
    | true =>
      rw [writeRecord, hs, if_pos rfl] at hok
      refine ⟨w, rfl, rfl, ?_, by rw [writeRecord, hs, if_pos rfl]⟩
      dsimp only at hok
      split_ifs at hok with hw
      · exact hw
      · exact absurd hok hw

/-- **What a successful `LogAndApply` did**: it wrote the edit to the manifest, and installed it. -/
theorem logAndApply_ok {env : ManifestEnv} {edit : VersionEdit} {vs : VersionSet}
    (hok : (vs.logAndApply env edit).1.ok = true) :
    ∃ w, ({ vs with compactPointer := applyPointers vs.compactPointer (vs.fill edit) }.openDescriptor
        env).1.ok = true ∧
      ({ vs with compactPointer := applyPointers vs.compactPointer (vs.fill edit) }.openDescriptor
        env).2 = some w ∧
      (w.addRecord (vs.fill edit).encodeTo).1.ok = true ∧
      (vs.logAndApply env edit).2 = vs.installed edit (w.addRecord (vs.fill edit).encodeTo).2 := by
  rw [logAndApply] at hok ⊢
  dsimp only at hok ⊢
  set r := { vs with
    compactPointer := applyPointers vs.compactPointer (vs.fill edit) }.openDescriptor env with hr
  have hs : (writeRecord env (vs.fill edit).encodeTo r).1.ok = true := by
    by_contra hn
    rw [Bool.not_eq_true] at hn
    simp [hn] at hok
  obtain ⟨w, h1, h2, h3, h4⟩ := writeRecord_ok openDescriptor_none hs
  refine ⟨w, h1, h2, h3, ?_⟩
  rw [h4]
  split_ifs at hok ⊢ with h5 h6 h7
  · rfl
  · exact absurd hok h6
  · exact absurd hok h6
  · rfl

/-! ## Runs -/

/-- One call of `LogAndApply`, with the numbers in use by then. -/
structure ManifestStep where
  env : ManifestEnv
  edit : VersionEdit
  nextFileNumber : ℕ
  lastSequence : ℕ

/-- The version set with the numbers of a step. -/
def numbered (vs : VersionSet) (step : ManifestStep) : VersionSet :=
  { vs with nextFileNumber := step.nextFileNumber, lastSequence := step.lastSequence }

/-- A step. -/
def step (vs : VersionSet) (step : ManifestStep) : Status × VersionSet :=
  (vs.numbered step).logAndApply step.env step.edit

/-- The version set after the steps. -/
def run (vs : VersionSet) (steps : List ManifestStep) : VersionSet :=
  steps.foldl (fun vs step => (vs.step step).2) vs

/-- All steps succeed. -/
def AllOk : VersionSet → List ManifestStep → Prop
  | _, [] => True
  | vs, step :: steps => (vs.step step).1.ok = true ∧ AllOk (vs.step step).2 steps

/-- The edits of the steps, as they are written. -/
def edits : VersionSet → List ManifestStep → List VersionEdit
  | _, [] => []
  | vs, step :: steps => (vs.numbered step).fill step.edit :: edits (vs.step step).2 steps

/-- The snapshot that is written before the edit of a first step. -/
def snapshotAt (vs : VersionSet) (step : ManifestStep) : VersionEdit :=
  snapshot vs.current (applyPointers vs.compactPointer step.edit)

/-- What is in the manifest. -/
def manifest (vs : VersionSet) : Bytes := (vs.descriptorLog.map (·.dest.contents)).getD []

theorem AllOk.take : ∀ {steps : List ManifestStep} {vs : VersionSet}, vs.AllOk steps → ∀ i,
    vs.AllOk (steps.take i)
  | _, _, _, 0 => trivial
  | [], _, h, _ + 1 => h
  | _ :: _, _, ⟨hok, h⟩, i + 1 => ⟨hok, h.take i⟩

theorem edits_take : ∀ (steps : List ManifestStep) (vs : VersionSet) (i : ℕ),
    vs.edits (steps.take i) = (vs.edits steps).take i
  | _, _, 0 => rfl
  | [], _, _ + 1 => rfl
  | _ :: steps, _, i + 1 => congrArg (_ :: ·) (edits_take steps _ i)

theorem length_edits : ∀ (steps : List ManifestStep) (vs : VersionSet),
    (vs.edits steps).length = steps.length
  | [], _ => rfl
  | _ :: steps, _ => congrArg Nat.succ (length_edits steps _)

/-- **The manifest in `file` holds `edits`, which make up the version set.** -/
structure Recorded (file : NewFile) (vs : VersionSet) (edits : List VersionEdit) : Prop where
  made : MadeOf vs edits
  log : ∃ log, vs.descriptorLog = some log ∧ Logged file log edits

theorem Recorded.manifest_eq {file : NewFile} {vs : VersionSet} {edits : List VersionEdit}
    (h : Recorded file vs edits) : vs.manifest
      = ((Log.Writer.new file.toWritableFile).addRecords
          (edits.map VersionEdit.encodeTo)).2.dest.contents := by
  obtain ⟨log, hlog, hl⟩ := h.log
  rw [manifest, hlog, ← hl.log_eq]
  rfl

/-- An edit that can be read has no pointers in levels that do not exist. -/
theorem Wf.pointers_applied {vs : VersionSet} (h : vs.Wf) {step : ManifestStep}
    (hread : ((vs.numbered step).fill step.edit).Readable) {level : ℕ} (hl : kNumLevels ≤ level) :
    applyPointers vs.compactPointer step.edit level = [] := by
  refine ((foldl_setPointer _ _ level).1 fun hm => ?_).trans (h.pointers level hl)
  obtain ⟨p, hp, rfl⟩ := List.mem_map.mp hm
  exact absurd ((decodeFrom_levels (decodeFrom_encodeTo hread.fits)).compactPointers p hp)
    (not_lt.mpr hl)

/-- **The first step writes a snapshot and its edit.** -/
theorem Wf.recorded {vs : VersionSet} (h : vs.Wf) (hnone : vs.descriptorLog = none)
    {step : ManifestStep} (hok : (vs.step step).1.ok = true)
    (hsnap : (vs.snapshotAt step).Readable)
    (hread : ((vs.numbered step).fill step.edit).Readable)
    (hfresh : Builder.Fresh (builderOf [vs.snapshotAt step]).Known step.edit.newFiles) :
    Recorded step.env.file (vs.step step).2
      ([vs.snapshotAt step] ++ [(vs.numbered step).fill step.edit]) := by
  obtain ⟨hbegun, hpointer, -⟩ :=
    h.snapshot (fun level hl => h.pointers_applied hread hl) hsnap
  obtain ⟨w, hs, hw, hadd, heq⟩ := logAndApply_ok hok
  rw [VersionSet.step, heq]
  have hbegun' : Begun (vs.numbered step).current [vs.snapshotAt step] := hbegun
  refine ⟨hbegun'.fill hread hfresh ?_ _, _, rfl, Logged.addRecord ?_ hadd⟩
  · exact (congrArg (applyPointers · _) hpointer).trans (applyPointers_applyPointers _ _)
  · rw [openDescriptor] at hs hw
    simp only [numbered, hnone] at hs hw
    split_ifs at hs hw with hnew
    obtain rfl := Option.some.inj hw
    exact logged_singleton _ hs

/-- **Every other step adds its edit.** -/
theorem Recorded.step {file : NewFile} {vs : VersionSet} {edits : List VersionEdit}
    (h : Recorded file vs edits) {step : ManifestStep} (hok : (vs.step step).1.ok = true)
    (hread : ((vs.numbered step).fill step.edit).Readable)
    (hfresh : Builder.Fresh (builderOf edits).Known step.edit.newFiles) :
    Recorded file (vs.step step).2 (edits ++ [(vs.numbered step).fill step.edit]) := by
  obtain ⟨w, hs, hw, hadd, heq⟩ := logAndApply_ok hok
  obtain ⟨log, hlog, hl⟩ := h.log
  have hbegun : Begun (vs.numbered step).current edits := h.made.toBegun
  rw [VersionSet.step, heq]
  refine ⟨hbegun.fill hread hfresh ?_ _, _, rfl, Logged.addRecord ?_ hadd⟩
  · rw [h.made.compactPointer]
    rfl
  · rw [openDescriptor] at hw
    simp only [numbered, hlog] at hw
    exact Option.some.inj hw ▸ hl

/-- The builder that reads one edit more. -/
theorem Recorded.builderOf_append {file : NewFile} {vs : VersionSet} {edits : List VersionEdit}
    {edit : VersionEdit} (h : Recorded file vs (edits ++ [edit])) :
    builderOf (edits ++ [edit]) = (builderOf edits).apply edit := by
  rw [builderOf, List.foldl_concat, ManifestRecovery.edit]
  exact if_pos (h.made.readable edit (List.mem_append_right _ List.mem_cons_self)).comparator

/-- **The edits of a run are in the manifest**, behind those that were there. -/
theorem Recorded.run {file : NewFile} : ∀ (steps : List ManifestStep) {vs : VersionSet}
    {edits : List VersionEdit}, Recorded file vs edits → vs.AllOk steps →
    (∀ e ∈ vs.edits steps, e.Readable) → (builderOf edits).FreshAll (vs.edits steps) →
    Recorded file (vs.run steps) (edits ++ vs.edits steps)
  | [], _, edits, h, _, _, _ => (List.append_nil edits).symm ▸ h
  | step :: steps, vs, edits, h, ⟨hok, hsteps⟩, hread, ⟨hfresh, hall⟩ => by
      obtain ⟨hr, hreads⟩ := List.forall_mem_cons.mp hread
      have h' := h.step hok hr hfresh
      have hrest := Recorded.run steps h' hsteps hreads (h'.builderOf_append ▸ hall)
      rwa [List.append_assoc, List.singleton_append] at hrest

/-- **What the first `n` bytes of a manifest give back**: the edits that lie in them. -/
theorem Recorded.loop {file : NewFile} {vs : VersionSet} {edits : List VersionEdit}
    (h : Recorded file vs edits) (n : ℕ) : ∃ k ≤ edits.length,
      VersionSet.recover (vs.manifest.take n) = ((edits.take k).foldl ManifestRecovery.edit .new).finish ∧
      ∀ j ≤ edits.length, ((Log.Writer.new file.toWritableFile).addRecords
        ((edits.take j).map VersionEdit.encodeTo)).2.dest.contents.length ≤ n ↔ j ≤ k := by
  obtain ⟨log, -, hl⟩ := h.log
  obtain ⟨k, ⟨hk, hkept⟩, hread, hreports⟩ := Log.readAll_addRecords_take file.toWritableFile
    file.empty (edits.map VersionEdit.encodeTo) true n
  rw [hl.written] at hk hkept
  rw [← h.manifest_eq, ← List.map_take] at hread
  rw [← h.manifest_eq] at hreports
  refine ⟨k, hk, ?_, fun j hj => ?_⟩
  · rw [recover, ManifestRecovery.loop_spec _ rfl
      (fun e he => h.made.readable e ((List.take_sublist k edits).subset he)) hread hreports]
  · have hj' := hkept j hj
    rw [Log.Writer.new, file.empty, List.length_nil, Nat.zero_add, ← List.map_take] at hj'
    exact hj'

/-- **What is in the manifest at the end of a run**: a snapshot, and the edits of the steps. -/
theorem Wf.recorded_run {vs : VersionSet} (h : vs.Wf) (hnone : vs.descriptorLog = none)
    {step : ManifestStep} {steps : List ManifestStep} (hok : vs.AllOk (step :: steps))
    (hsnap : (vs.snapshotAt step).Readable) (hread : ∀ e ∈ vs.edits (step :: steps), e.Readable)
    (hfresh : (Builder.new vs.current).FreshAll (vs.edits (step :: steps))) :
    Recorded step.env.file (vs.run (step :: steps))
      (vs.snapshotAt step :: vs.edits (step :: steps)) := by
  obtain ⟨hr, hreads⟩ := List.forall_mem_cons.mp hread
  obtain ⟨hbegun, -, hknown⟩ := h.snapshot (fun level hl => h.pointers_applied hr hl) hsnap
  have hnew : (Builder.new vs.current).Ok := Builder.ok_new h.sorted
  obtain ⟨hfresh, hall⟩ := hfresh.congr hnew hbegun.builder fun level f => (hknown level f).symm
  have hfirst := h.recorded hnone hok.1 hsnap hr hfresh
  exact Recorded.run steps hfirst hok.2 hreads (hfirst.builderOf_append ▸ hall)

/-- A new version set. -/
def sample : VersionSet := ⟨fun _ => [], 2, 0, 0, 0, fun _ => [], none⟩

/-- A step of a version set with the file 7. -/
def sampleStep (edit : VersionEdit) : ManifestStep :=
  ⟨⟨⟨.new "MANIFEST-000002", rfl⟩, .OK, .OK, .OK⟩, edit, 8, 5⟩

/-- The file comes to level 0. -/
def sampleFlush : ManifestStep :=
  sampleStep { VersionEdit.clear with newFiles := [(0, ⟨7, 100, [], []⟩)] }

/-- The file is moved to level 1. -/
def sampleMove : ManifestStep :=
  sampleStep { VersionEdit.clear with
    deletedFiles := VersionEdit.clear.deletedFiles.insert (0, 7)
    newFiles := [(1, ⟨7, 100, [], []⟩)] }

end VersionSet

end Leveldb.Manifest
