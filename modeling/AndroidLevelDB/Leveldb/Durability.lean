import AndroidLevelDB.Leveldb.LoggedDb

/-!
# Leveldb/Durability — what survives the end of a process

`LoggedDB.Parts` is the invariant: the tables, the memtable being compacted and the memtable hold one
part each of the history, and the logs hold the last two.  So a database that is opened again holds a
front of its history, all of it where no log was cut off (`Parts.open`).  Over a whole run the
database holds the acknowledged writes (`run_holds`).
-/

namespace Leveldb

/-! ## The last sequence number of a log -/

section LastOf

open LogRecovery

theorem later_eq (a b : UInt64) : (later a b).toNat = max a.toNat b.toNat := by
  rw [later]
  split
  · next h => exact (max_eq_right (UInt64.lt_iff_toNat_lt.mp h).le).symm
  · next h => exact (max_eq_left (not_lt.mp (mt UInt64.lt_iff_toNat_lt.mpr h))).symm

/-- The number found is not below that of any write, and not above them all. -/
theorem lastOf_spec (ws : List Write) : ∀ m : UInt64, m.toNat ≤ (lastOf m ws).toNat ∧
    (∀ w ∈ ws, w.last.toNat ≤ (lastOf m ws).toNat) ∧
    ∀ n, m.toNat ≤ n → (∀ w ∈ ws, w.last.toNat ≤ n) → (lastOf m ws).toNat ≤ n := by
  induction ws with
  | nil => exact fun m => ⟨le_rfl, fun w hw => (by cases hw), fun n hn _ => hn⟩
  | cons w ws ih =>
    intro m
    obtain ⟨h1, h2, h3⟩ := ih (later m w.last)
    rw [later_eq] at h1
    refine ⟨(le_max_left _ _).trans h1, fun x hx => ?_, fun n hn hws => h3 n ?_ fun x hx =>
      hws x (List.mem_cons_of_mem _ hx)⟩
    · rcases List.mem_cons.mp hx with rfl | hx
      · exact (le_max_right _ _).trans h1
      · exact h2 x hx
    · rw [later_eq]
      exact max_le hn (hws w List.mem_cons_self)

/-- The last sequence number of a write that does not overflow. -/
theorem Ordered.last_eq {h : List Write} {last : ℕ} (ho : Ordered h last)
    (hl : last ≤ kMaxSequenceNumber) {w : Write} (hw : w ∈ h) :
    w.last.toNat = w.1.toNat + w.2.length - 1 := by
  have h1 := ho.le_last w hw
  have h2 := ho.pos w hw
  have hmax : kMaxSequenceNumber + 2 < 2 ^ 64 := by decide
  have hlen : (UInt64.ofNat w.2.length).toNat = w.2.length :=
    UInt64.toNat_ofNat_of_lt' (lt_of_le_of_lt (b := kMaxSequenceNumber + 1) (by omega) (by decide))
  have hsum : (w.1 + .ofNat w.2.length).toNat = w.1.toNat + w.2.length := by
    rw [UInt64.toNat_add, hlen, Nat.mod_eq_of_lt (by omega)]
  rw [Write.last, UInt64.toNat_sub_of_le, hsum, UInt64.toNat_one]
  rw [UInt64.le_iff_toNat_le, hsum, UInt64.toNat_one]
  omega

end LastOf

namespace LoggedDB

/-- **The parts of the history that the tables, the memtable being compacted and the memtable
hold**, with their logs. -/
structure Parts (L : LoggedDB) (old imm mem : List Write) : Prop where
  built : L.db.Built
  ordered : Ordered (old ++ imm ++ mem) L.db.lastSequence.toNat
  last_le : L.db.lastSequence.toNat ≤ kMaxSequenceNumber
  memStored : L.db.mem.Perm (mem.flatMap Write.entries)
  immStored : (L.db.imm.getD []).Perm (imm.flatMap Write.entries)
  tables : (L.db.tables.flatMap fun src => src.cells.flatMap Cell.stored).Perm
    (old.flatMap Write.entries)
  log : Log.Logs L.log mem
  immLog : ∀ w ∈ L.immLog, Log.Logs w imm
  immLog_none : L.immLog = none → imm = []
  imm_none : L.db.imm = none → L.immLog = none
  manifest : Ordered old L.manifestLast.toNat
  manifest_le : L.manifestLast.toNat ≤ L.db.lastSequence.toNat

variable {L : LoggedDB} {old imm mem : List Write}

theorem Parts.history (h : L.Parts old imm mem) : History L.db (old ++ imm ++ mem) := by
  refine ⟨h.built, ?_, h.ordered, h.last_le⟩
  rw [DBImpl.stored_eq, List.flatMap_append, List.flatMap_append]
  refine (h.memStored.append (h.immStored.append h.tables)).trans ?_
  exact List.perm_append_comm.trans (List.perm_append_comm.append_right _)

theorem parts_create (file : NewFile) : (create file).Parts [] [] [] where
  built := ⟨List.Pairwise.nil, fun _ h => (by cases h), fun _ h => (by cases h)⟩
  ordered := ⟨List.Pairwise.nil, fun _ h => (by cases h), fun _ h => (by cases h)⟩
  last_le := Nat.zero_le _
  memStored := List.Perm.refl _
  immStored := List.Perm.refl _
  tables := List.Perm.refl _
  log := Log.logs_new file
  immLog := fun _ h => (by cases h)
  immLog_none := fun _ => rfl
  imm_none := fun _ => rfl
  manifest := ⟨List.Pairwise.nil, fun _ h => (by cases h), fun _ h => (by cases h)⟩
  manifest_le := le_rfl

/-- Compacting the memtable moves its part to the tables. -/
theorem Parts.compactMemTable (h : L.Parts old imm mem) :
    L.compactMemTable.Parts (old ++ imm) [] mem ∧
      L.compactMemTable.db.lastSequence = L.db.lastSequence ∧ L.compactMemTable.db.imm = none := by
  rw [LoggedDB.compactMemTable]
  cases himm : L.db.imm with
  | none =>
    obtain rfl := h.immLog_none (h.imm_none himm)
    rw [List.append_nil]
    exact ⟨h, rfl, himm⟩
  | some m =>
    have hcompact : L.db.compactMemTable
        = ⟨L.db.mem, none, DBImpl.memSource m :: L.db.tables, L.db.lastSequence⟩ := by
      rw [DBImpl.compactMemTable, himm]
    have hstored := h.immStored
    rw [himm, Option.getD_some] at hstored
    rw [if_neg (by simp), hcompact]
    refine ⟨⟨⟨h.built.mem, fun _ h => (by cases h), ?_⟩, ?_, h.last_le, h.memStored,
      List.Perm.refl _, ?_, h.log, fun _ h => (by cases h), fun _ => rfl, fun _ => rfl, ?_, le_rfl⟩,
      rfl, rfl⟩
    · exact List.forall_mem_cons.mpr ⟨⟨m, rfl, h.built.imm m himm⟩, h.built.tables⟩
    · rw [List.append_nil]
      exact h.ordered
    · rw [List.flatMap_cons, DBImpl.stored_memSource, List.flatMap_append]
      exact (hstored.append h.tables).trans List.perm_append_comm
    · exact h.ordered.sublist (List.sublist_append_left _ _)

/-- Switching to a new memtable. -/
theorem Parts.switch (h : L.Parts old [] mem) (file : NewFile) :
    Parts { L with
      db := { L.db with imm := some L.db.mem, mem := [] }
      log := .new file.toWritableFile
      immLog := some L.log } old mem [] where
  built := ⟨List.Pairwise.nil, fun _ hm => Option.some.inj hm ▸ h.built.mem, h.built.tables⟩
  ordered := by
    have ho := h.ordered
    rw [List.append_nil] at ho ⊢
    exact ho
  last_le := h.last_le
  memStored := List.Perm.refl _
  immStored := h.memStored
  tables := h.tables
  log := Log.logs_new file
  immLog := fun _ hw => Option.some.inj hw ▸ h.log
  immLog_none := fun hn => (by cases hn)
  imm_none := fun hn => (by cases hn)
  manifest := h.manifest
  manifest_le := h.manifest_le

/-- **The database holds the history `h`, and its logs what is not in the tables.** -/
def Holds (L : LoggedDB) (h : List Write) : Prop :=
  ∃ old imm mem, old ++ imm ++ mem = h ∧ L.Parts old imm mem

theorem Holds.history {h : List Write} (H : L.Holds h) : History L.db h := by
  obtain ⟨old, imm, mem, rfl, hp⟩ := H
  exact hp.history

theorem Holds.compactMemTable {h : List Write} (H : L.Holds h) :
    L.compactMemTable.Holds h ∧ L.compactMemTable.db.lastSequence = L.db.lastSequence := by
  obtain ⟨old, imm, mem, rfl, hp⟩ := H
  obtain ⟨hp', hlast, -⟩ := hp.compactMemTable
  exact ⟨⟨old ++ imm, [], mem, by rw [List.append_nil], hp'⟩, hlast⟩

/-- **Making room changes nothing in the history.** -/
theorem Holds.makeRoomForWrite {h : List Write} (H : L.Holds h) (room : Room) (file : NewFile)
    (force : Bool) : (L.makeRoomForWrite room file force).2.Holds h ∧
      (L.makeRoomForWrite room file force).2.db.lastSequence = L.db.lastSequence := by
  obtain ⟨old, imm, mem, rfl, hp⟩ := H
  obtain ⟨hp', hlast, -⟩ := hp.compactMemTable
  rw [LoggedDB.makeRoomForWrite]
  split_ifs
  · exact ⟨⟨old, imm, mem, rfl, hp⟩, rfl⟩
  · exact ⟨⟨old, imm, mem, rfl, hp⟩, rfl⟩
  · exact ⟨⟨old ++ imm, [], mem, by rw [List.append_nil], hp'⟩, hlast⟩
  · exact ⟨⟨old ++ imm, mem, [], by rw [List.append_nil], hp'.switch file⟩, hlast⟩

/-- The record of a batch in the log. -/
theorem logged_setSequence {batch : WriteBatch} {ops : List Op} (hb : batch.Encodes ops)
    (hn : ops.length < 2 ^ 31) (seq : UInt64) :
    Write.Logged (seq, ops) (batch.setSequence seq.toNat).rep := by
  obtain ⟨henc, hseq, -⟩ := hb.setSequence seq.toNat
  refine ⟨henc, ?_, hn⟩
  rw [hseq, Nat.mod_eq_of_lt (UInt64.toNat_lt _), UInt64.ofNat_toNat]

/-- **A write is added to the history if it is acknowledged**, and is not if it is not. -/
theorem Holds.write {h : List Write} (H : L.Holds h) (room : Room) (file : NewFile)
    {batch : WriteBatch} {ops : List Op} (hb : batch.Encodes ops) (hn : ops.length < 2 ^ 31)
    (hmax : L.db.lastSequence.toNat + ops.length ≤ kMaxSequenceNumber) :
    (L.write room file (some batch)).2.1.Holds
        (h ++ if (L.write room file (some batch)).1.ok then [(L.db.lastSequence + 1, ops)] else []) ∧
      (L.write room file (some batch)).2.1.db.lastSequence.toNat
        ≤ L.db.lastSequence.toNat + ops.length := by
  obtain ⟨H₁, hlast⟩ := H.makeRoomForWrite room file false
  rw [LoggedDB.write]
  simp only [Option.isNone_some]
  generalize hmake : L.makeRoomForWrite room file false = made at H₁ hlast
  obtain ⟨status, L₁⟩ := made
  simp only at H₁ hlast ⊢
  cases hok : status.ok with
  | false =>
    simp only [hok, Bool.false_eq_true, if_false, List.append_nil]
    exact ⟨H₁, by rw [hlast]; exact Nat.le_add_right _ _⟩
  | true =>
    obtain ⟨old, imm, mem, rfl, hp⟩ := H₁
    rw [← hlast] at hmax ⊢
    have hbound : kMaxSequenceNumber + 2 < 2 ^ 64 := by decide
    have hlog := logged_setSequence hb hn (L₁.db.lastSequence + 1)
    have hlogs := hp.log.addRecord hlog
    have hiter : WriteBatch.insertInto (batch.setSequence (L₁.db.lastSequence + 1).toNat) L₁.db.mem
        = (.OK, (ops.foldl memTableInserter.apply (L₁.db.lastSequence + 1, L₁.db.mem)).2) := by
      rw [WriteBatch.insertInto, hlog.encodes.iterate hn, hlog.sequence]
    have hcount : UInt64.ofInt (batch.setSequence (L₁.db.lastSequence + 1).toNat).count
        = .ofNat ops.length := by
      rw [WriteBatch.Encodes.count_eq hlog.encodes hn, ofInt_natCast]
    have hlen : (UInt64.ofNat ops.length).toNat = ops.length :=
      UInt64.toNat_ofNat_of_lt' (lt_trans hn (by decide))
    have hnew : (L₁.db.lastSequence + .ofNat ops.length).toNat
        = L₁.db.lastSequence.toNat + ops.length := by
      rw [UInt64.toNat_add, hlen, Nat.mod_eq_of_lt (by omega)]
    have hnext : (L₁.db.lastSequence + 1).toNat = L₁.db.lastSequence.toNat + 1 := by
      rw [UInt64.toNat_add, UInt64.toNat_one, Nat.mod_eq_of_lt (by omega)]
    simp only [if_true, hcount, hiter]
    generalize hadd : L₁.log.addRecord (batch.setSequence (L₁.db.lastSequence + 1).toNat).rep = added
      at hlogs
    obtain ⟨logged, log⟩ := added
    simp only at hlogs ⊢
    cases hl : logged.ok with
    | true =>
      have hperm := memTableInserter_foldl ops (L₁.db.lastSequence + 1, L₁.db.mem)
      have hasc := MemTable.Ascending.foldl (s := (L₁.db.lastSequence + 1, L₁.db.mem)) hp.built.mem
        ops
      rw [hl, if_pos rfl] at hlogs
      simp only [if_true]
      refine ⟨⟨old, imm, mem ++ [(L₁.db.lastSequence + 1, ops)], (List.append_assoc _ _ _).symm,
        ⟨hasc, hp.built.imm, hp.built.tables⟩, ?_, ?_, ?_, hp.immStored, hp.tables, hlogs, hp.immLog,
        hp.immLog_none, hp.imm_none, hp.manifest, ?_⟩, hnew.le⟩
      · have ho := hp.ordered.append (w := (L₁.db.lastSequence + 1, ops)) (by dsimp only; omega)
        rw [← List.append_assoc]
        exact ho.mono (by dsimp only; omega)
      · exact hnew.le.trans hmax
      · rw [List.flatMap_append, List.flatMap_singleton]
        exact hperm.trans (List.perm_append_comm.trans (hp.memStored.append_right _))
      · exact hp.manifest_le.trans (hnew.ge.trans' (Nat.le_add_right _ _))
    | false =>
      rw [hl, if_neg (by decide), List.append_nil] at hlogs
      simp only [Bool.false_eq_true, if_false, hl, List.append_nil]
      refine ⟨⟨old, imm, mem, rfl, ⟨hp.built.mem, hp.built.imm, hp.built.tables⟩, ?_,
        hnew.le.trans hmax, hp.memStored, hp.immStored,
        hp.tables, hlogs, hp.immLog, hp.immLog_none, hp.imm_none, hp.manifest, ?_⟩, hnew.le⟩
      · exact hp.ordered.mono (hnew.ge.trans' (Nat.le_add_right _ _))
      · exact hp.manifest_le.trans (hnew.ge.trans' (Nat.le_add_right _ _))

/-! ## Opening again -/

/-- **The logs give back the writes that are not in the tables**, but for those cut off. -/
theorem Parts.recovered (h : L.Parts old imm mem) {env : RecoveryEnv} (henv : env.Ok)
    (kept : Option ℕ) :
    ∃ k, Recovered (recoverLogs env ((L.crash kept).logs.map fun log => .ok (.new log))
        ⟨.OK, none, L.db.tables, 0⟩) (imm ++ mem.take k) L.db.tables 0 ∧
      (kept = none → mem.length ≤ k) := by
  obtain ⟨k, hws, hrep, hall⟩ := h.log.readAll (kept.getD L.log.dest.contents.length)
  refine ⟨k, ?_, fun hk => hall (by rw [hk]; exact le_rfl)⟩
  cases himm : L.immLog with
  | none =>
    obtain rfl := h.immLog_none himm
    simp only [crash, himm, Option.map_none, Option.toList_none, List.nil_append, List.map_cons,
      List.map_nil, recoverLogs]
    exact recoverLogFile_spec henv hws hrep h.built.tables 0
  | some w =>
    obtain ⟨k', hws', hrep', hall'⟩ := (h.immLog w himm).readAll w.dest.contents.length
    rw [List.take_length] at hws' hrep'
    rw [List.take_of_length_le (hall' le_rfl)] at hws'
    simp only [crash, himm, Option.map_some, Option.toList_some, List.map_cons, List.map_nil,
      List.singleton_append, recoverLogs]
    have hfirst := recoverLogFile_spec henv hws' hrep' h.built.tables 0
    exact hfirst.append (recoverLogFile_spec henv hws hrep hfirst.flushed _)

/-- **A database that is opened again holds a front of its history**, and all of it if its log was
not cut off. -/
theorem Parts.open (h : L.Parts old imm mem) {env : RecoveryEnv} (henv : env.Ok)
    (kept : Option ℕ) (file : NewFile) :
    ∃ k L', (L.crash kept).open env file = .ok L' ∧ L'.Parts (old ++ imm ++ mem.take k) [] [] ∧
      (kept = none → mem.length ≤ k) ∧ L'.db.lastSequence.toNat ≤ L.db.lastSequence.toNat := by
  obtain ⟨k, ⟨hstatus, hflushed, hstored, hmax⟩, hall⟩ := h.recovered henv kept
  set st := recoverLogs env ((L.crash kept).logs.map fun log => .ok (.new log))
    ⟨.OK, none, L.db.tables, 0⟩ with hst
  have hsub : (old ++ imm ++ mem.take k).Sublist (old ++ imm ++ mem) :=
    (List.take_sublist k mem).append_left _
  have ho := h.ordered.sublist hsub
  obtain ⟨-, hge, hle⟩ := lastOf_spec (imm ++ mem.take k) 0
  rw [← hmax] at hge hle
  -- the last sequence number of the logs is that of a write, which is not above the last one
  have hmaxle : st.maxSequence.toNat ≤ L.db.lastSequence.toNat := by
    refine hle _ (Nat.zero_le _) fun w hw => ?_
    have hw' : w ∈ old ++ imm ++ mem.take k := by
      rw [List.append_assoc]
      exact List.mem_append_right _ hw
    rw [ho.last_eq h.last_le hw']
    have := ho.le_last w hw'
    omega
  have hlast : (if L.manifestLast < st.maxSequence then st.maxSequence else L.manifestLast).toNat
      = max L.manifestLast.toNat st.maxSequence.toNat := later_eq ..
  set last := if L.manifestLast < st.maxSequence then st.maxSequence else L.manifestLast with hlast'
  have hlastle : last.toNat ≤ L.db.lastSequence.toNat := hlast ▸ max_le h.manifest_le hmaxle
  have hordered : Ordered (old ++ imm ++ mem.take k) last.toNat := by
    refine ⟨ho.ascend, fun w hw => ?_, ho.pos⟩
    have hw' := hw
    rw [List.append_assoc] at hw'
    rcases List.mem_append.mp hw' with hold | hnew
    · have := h.manifest.le_last w hold
      have := le_max_left L.manifestLast.toNat st.maxSequence.toNat
      omega
    · have := hge w hnew
      have hlw := ho.last_eq h.last_le hw
      have := ho.pos w hw
      have := le_max_right L.manifestLast.toNat st.maxSequence.toNat
      omega
  have hopen : (L.crash kept).open env file = .ok ⟨⟨[], none, st.tables, last⟩,
      .new file.toWritableFile, none, last⟩ := by
    rw [Disk.open]
    simp only [show (L.crash kept).tables = L.db.tables from rfl,
      show (L.crash kept).lastSequence = L.manifestLast from rfl, ← hst, hstatus, if_true]
    rfl
  refine ⟨k, _, hopen, ?_, hall, hlastle⟩
  refine ⟨⟨List.Pairwise.nil, fun _ h => (by cases h), hflushed⟩, ?_, hlastle.trans h.last_le,
    List.Perm.refl _, List.Perm.refl _, ?_, Log.logs_new file, fun _ h => (by cases h),
    fun _ => rfl, fun _ => rfl, hordered, le_rfl⟩
  · rw [List.append_nil, List.append_nil]
    exact hordered
  · refine hstored.trans ?_
    have hsplit : (old ++ (imm ++ mem.take k)).flatMap Write.entries
        = old.flatMap Write.entries ++ (imm ++ mem.take k).flatMap Write.entries :=
      List.flatMap_append
    rw [List.append_assoc old, hsplit]
    exact List.perm_append_comm.trans (h.tables.append_right _)

/-! ## Runs -/

/-- What happens to a database. -/
inductive Step
  /-- A batch is written. -/
  | write (room : Room) (file : NewFile) (batch : RecordedBatch)
  /-- A writer asks for a new memtable. -/
  | force (room : Room) (file : NewFile)
  /-- The memtable that was switched is written out in the background. -/
  | compactMemTable
  /-- The process ends, in the middle of a record or not, and the database is opened again. -/
  | reopen (env : RecoveryEnv) (kept : Option ℕ) (file : NewFile)

namespace Step

/-- The number of operations. -/
def size : Step → ℕ
  | write _ _ batch => batch.ops.length
  | _ => 0

/-- Opening can write its tables. -/
def Fine : Step → Prop
  | reopen env _ _ => env.Ok
  | _ => True

/-- The current log is not cut off. -/
def Whole : Step → Prop
  | reopen _ kept _ => kept = none
  | _ => True

/-- A step, with the writes it acknowledges. -/
def apply (L : LoggedDB) : Step → Except Status (List Write × LoggedDB)
  | write room file batch =>
    let (status, L', _) := L.write room file (some batch.toWriteBatch)
    .ok (if status.ok then [(L.db.lastSequence + 1, batch.ops)] else [], L')
  | force room file => .ok ([], (L.write room file none).2.1)
  | compactMemTable => .ok ([], L.compactMemTable)
  | reopen env kept file => ((L.crash kept).open env file).map fun L' => ([], L')

end Step

/-- A run, with the writes it acknowledges; it ends where the database cannot be opened again. -/
def run : List Step → LoggedDB → Except Status (List Write × LoggedDB)
  | [], L => .ok ([], L)
  | step :: steps, L =>
    match step.apply L with
    | .error s => .error s
    | .ok (ws, L) =>
      match run steps L with
      | .error s => .error s
      | .ok (ws', L) => .ok (ws ++ ws', L)

/-- **A step keeps the history, but for a suffix that a cut log lost**, and adds what it
acknowledges. -/
theorem Holds.step {h : List Write} (H : L.Holds h) {step : Step} (hstep : step.Fine)
    (hmax : L.db.lastSequence.toNat + step.size ≤ kMaxSequenceNumber) :
    ∃ k ws L', step.apply L = .ok (ws, L') ∧ L'.Holds (h.take k ++ ws) ∧
      (step.Whole → h.length ≤ k) ∧
      L'.db.lastSequence.toNat ≤ L.db.lastSequence.toNat + step.size := by
  have hall : h.take h.length = h := List.take_length
  cases step with
  | write room file batch =>
    obtain ⟨H', hlast⟩ := H.write room file batch.encodes batch.count_lt hmax
    exact ⟨h.length, _, _, rfl, hall.symm ▸ H', fun _ => le_rfl, hlast⟩
  | force room file =>
    obtain ⟨H', hlast⟩ := H.makeRoomForWrite room file true
    refine ⟨h.length, _, _, rfl, ?_, fun _ => le_rfl, (congrArg UInt64.toNat hlast).le⟩
    rw [hall, List.append_nil]
    exact H'
  | compactMemTable =>
    obtain ⟨H', hlast⟩ := H.compactMemTable
    refine ⟨h.length, _, _, rfl, ?_, fun _ => le_rfl, (congrArg UInt64.toNat hlast).le⟩
    rw [hall, List.append_nil]
    exact H'
  | reopen env kept file =>
    obtain ⟨old, imm, mem, rfl, hp⟩ := H
    obtain ⟨k, L', hopen, hp', hk, hlast⟩ := hp.open hstep kept file
    refine ⟨(old ++ imm).length + k, [], L', ?_, ⟨_, _, _, ?_, hp'⟩, fun hw => ?_, hlast⟩
    · rw [Step.apply, hopen]
      rfl
    · rw [List.take_length_add_append, List.append_nil, List.append_nil]
    · rw [List.length_append]
      exact Nat.add_le_add_left (hk hw) _

/-- **A run holds acknowledged writes, each of them whole and in order**; all of them, if no log was
cut off. -/
theorem Holds.run {h : List Write} (steps : List Step) (H : L.Holds h)
    (hsteps : ∀ step ∈ steps, step.Fine)
    (hmax : L.db.lastSequence.toNat + (steps.map Step.size).sum ≤ kMaxSequenceNumber) :
    ∃ ws L' h', LoggedDB.run steps L = .ok (ws, L') ∧ L'.Holds h' ∧ h'.Sublist (h ++ ws) ∧
      ((∀ step ∈ steps, step.Whole) → h' = h ++ ws) := by
  induction steps generalizing L h with
  | nil => exact ⟨[], L, h, rfl, H, by simp, fun _ => (List.append_nil h).symm⟩
  | cons step steps ih =>
    rw [List.map_cons, List.sum_cons] at hmax
    obtain ⟨k, ws, L₁, happly, H₁, hk, hlast⟩ := H.step (hsteps step List.mem_cons_self) (by omega)
    obtain ⟨ws', L₂, h₂, hrun, H₂, hsub, hwhole⟩ :=
      ih H₁ (fun s hs => hsteps s (List.mem_cons_of_mem _ hs)) (by omega)
    refine ⟨ws ++ ws', L₂, h₂, ?_, H₂, ?_, fun hw => ?_⟩
    · rw [LoggedDB.run, happly]
      simp only [hrun]
    · rw [← List.append_assoc]
      exact hsub.trans (((List.take_sublist k h).append_right ws).append_right ws')
    · rw [hwhole fun s hs => hw s (List.mem_cons_of_mem _ hs),
        List.take_of_length_le (hk (hw step List.mem_cons_self)), List.append_assoc]

end LoggedDB

end Leveldb
