import Mathlib.Logic.Relation
import AndroidLevelDB.Java.Methods
import AndroidLevelDB.Java.Cursor

/-!
# Java/Runs — what a client can do

A client makes one call after another on the objects created so far.  What the native side meets may
differ from call to call, but `new` returns memory where nothing lives.  After an exception the
client goes on; undefined behaviour ends the process, and with it the run.

Not every run keeps the invariant of the wrapper.  The calls of a *tidy* run close no handle twice,
pass a snapshot to the database that made it, and open no database again that was closed; those of
an *orderly* run do not use what could not be released either.  These keep it (`Inv.step`,
`Inv.run`), and so do tidy runs in which nothing fails and no released snapshot is used
(`Inv.of_undisturbed`).
-/

open Leveldb Jni Function

namespace Java

/-- The override of `closeNativeObject`. -/
def closeNativeObject (env : Env) : ObjId → ℕ → JavaM Unit
  | .db d => DB.closeNativeObject env d
  | .snapshot s => Snapshot.closeNativeObject env s
  | .iterator i => Iterator.closeNativeObject env i
  | .batch _ => WriteBatch.closeNativeObject

/-- `close` of any handle. -/
def close (env : Env) (o : ObjId) : JavaM Unit := NativeObject.close (closeNativeObject env o) o

/-- The public methods, as called. -/
inductive Call
  | newDB (path : Option String)
  | openDB (d : ℕ)
  | close (o : ObjId)
  | put (d : ℕ) (key value : Option Bytes)
  | get (d : ℕ) (snapshot : Option ℕ) (key : Option Bytes)
  | getBB (d : ℕ) (snapshot : Option ℕ) (key : Option ByteBuffer)
  | delete (d : ℕ) (key : Option Bytes)
  | write (d : ℕ) (batch : Option ℕ)
  | iterator (d : ℕ) (snapshot : Option ℕ)
  | getSnapshot (d : ℕ)
  | destroy (d : ℕ)
  | destroyPath (path : String)
  | newBatch
  | batchPut (b : ℕ) (key value : Option ByteBuffer)
  | batchDelete (b : ℕ) (key : Option ByteBuffer)
  | batchClear (b : ℕ)
  | cursor (i : ℕ) (call : CursorCall)

namespace Call

/-- The call, without its result. -/
def run (env : Env) : Call → JavaM Unit
  | newDB path => do let _ ← DB.new path
  | openDB d => DB.open env d
  | close o => Java.close env o
  | put d key value => DB.put env d key value
  | get d snapshot key => do let _ ← DB.get d snapshot key
  | getBB d snapshot key => do let _ ← DB.getBB d snapshot key
  | delete d key => DB.delete env d key
  | write d batch => DB.write env d batch
  | iterator d snapshot => do let _ ← DB.iterator env d snapshot
  | getSnapshot d => do let _ ← DB.getSnapshot env d
  | destroy d => DB.destroy env d
  | destroyPath path => DB.destroyPath env path
  | newBatch => do let _ ← WriteBatch.new env
  | batchPut b key value => WriteBatch.put b key value
  | batchDelete b key => WriteBatch.delete b key
  | batchClear b => WriteBatch.clear b
  | cursor i call => call.run i

/-- The objects the call is made on and given. -/
def objects : Call → List ObjId
  | newDB _ => []
  | openDB d => [.db d]
  | close o => [o]
  | put d _ _ => [.db d]
  | get d snapshot _ => iteratorRefs d snapshot
  | getBB d snapshot _ => iteratorRefs d snapshot
  | delete d _ => [.db d]
  | write d batch => .db d :: batch.toList.map .batch
  | iterator d snapshot => iteratorRefs d snapshot
  | getSnapshot d => [.db d]
  | destroy d => [.db d]
  | destroyPath _ => []
  | newBatch => []
  | batchPut b _ _ => [.batch b]
  | batchDelete b _ => [.batch b]
  | batchClear b => [.batch b]
  | cursor i _ => [.iterator i]

/-- The objects it takes a reference to. -/
def taken : Call → List ObjId
  | iterator d snapshot => iteratorRefs d snapshot
  | getSnapshot d => [.db d]
  | _ => []

end Call

/-- The objects, and the handles that the client has closed. -/
structure Client where
  world : World
  closed : Finset ObjId

namespace Client

def start : Client := ⟨.empty, ∅⟩

/-- The handles closed after a call that ended in `w`.  To close an object without a native object
does nothing, and a database that was opened is not closed any more. -/
def closedAfter (σ : Client) (returned : Bool) (w : World) : Call → Finset ObjId
  | .close o => if σ.world.ptr o = 0 then σ.closed else insert o σ.closed
  | .openDB d =>
    if returned && w.ptr (.db d) ≠ 0 then σ.closed.erase (.db d) else σ.closed
  | _ => σ.closed

/-- The state after a call, unless it ends the process. -/
def after (σ : Client) (env : Env) (c : Call) : Option Client :=
  match c.run env σ.world with
  | .ok _ w => some ⟨w, σ.closedAfter true w c⟩
  | .error (.thrown _) w => some ⟨w, σ.closedAfter false w c⟩
  | .error .crash _ => none

end Client

/-- A call on objects that exist, of which `P` holds. -/
def Step (P : Env → Client → Call → Prop) (σ σ' : Client) : Prop :=
  ∃ env c, (∀ o ∈ c.objects, o ∈ σ.world.created) ∧ Fresh env σ.world ∧ P env σ c ∧
    σ.after env c = some σ'

/-- Calls of which `P` holds, one after another. -/
abbrev Run (P : Env → Client → Call → Prop) : Client → Client → Prop :=
  Relation.ReflTransGen (Step P)

abbrev Reachable (P : Env → Client → Call → Prop) (σ : Client) : Prop := Run P .start σ

theorem run_mono {P Q : Env → Client → Call → Prop} {σ σ' : Client}
    (h : ∀ env σ c, P env σ c → Q env σ c) (hr : Run P σ σ') : Run Q σ σ' := by
  induction hr with
  | refl => exact .refl
  | tail _ hs ih =>
    obtain ⟨env, c, hobj, hfree, hc, hafter⟩ := hs
    exact ih.tail ⟨env, c, hobj, hfree, h _ _ _ hc, hafter⟩

/-! ## Tidy and orderly calls -/

structure Tidy (env : Env) (σ : Client) (c : Call) : Prop where
  /-- No handle is closed twice. -/
  close_once : ∀ o, c = .close o → o ∉ σ.closed ∨ σ.world.ptr o = 0
  /-- A snapshot is passed to the database that made it. -/
  own_snapshot : ∀ d s, c = .iterator d (some s) → σ.world.snapshotDB s = d
  /-- A database that was closed is not opened again. -/
  open_once : ∀ d, c = .openDB d → (σ.world.openStatus env d).ok = true →
    0 < σ.world.count (.db d)

structure Orderly (env : Env) (σ : Client) (c : Call) : Prop extends Tidy env σ c where
  /-- No reference is taken to an object whose release failed, which keeps its pointer. -/
  not_failed : ∀ o ∈ c.taken, σ.world.ptr o ≠ 0 → 0 < σ.world.count o

/-- The call does not make an iterator of a released snapshot. -/
def Unreleased (σ : Client) (c : Call) : Prop :=
  ∀ d s, c = .iterator d (some s) → σ.world.ptr (.db d) = 0 ∨ σ.world.ptr (.snapshot s) ≠ 0

/-- The call closes a database that is to be destroyed, and that fails. -/
def FailsToDestroy (env : Env) (σ : Client) (c : Call) : Prop :=
  ∃ o, c = .close o ∧ σ.world.ptr o ≠ 0 ∧ σ.world.Fails env (σ.world.givesBack o)

/-! ## The invariant -/

/-- The invariant of the wrapper holds, and the client owns the handles it has not closed. -/
structure Inv (σ : Client) (revived stale : Finset ObjId) : Prop where
  held : Held σ.world (σ.world.created \ σ.closed) revived stale []
  closed_created : σ.closed ⊆ σ.world.created

theorem Inv.start : Inv .start ∅ ∅ where
  closed_created := Finset.Subset.refl _
  held :=
    { counted := ⟨fun o => rfl,
        fun o => by simp [World.live, World.count, Client.start, World.empty]⟩
      number_lt := fun o ho => by cases ho
      own_created := Finset.Subset.refl _
      ptr_uncreated := fun o _ => rfl
      kind := fun o ho => by cases ho
      ptr_inj := fun o ho => by cases ho
      owner := fun p hp => absurd rfl hp
      locked := fun p path hk => by cases hk
      lock_inj := fun p p' path hk => by cases hk
      ptr_dead := fun o _ => .inl rfl
      db_open := fun o ho => by cases ho
      ptr_disowned := fun o ho => by cases ho
      revived_live := fun o ho => by cases ho
      revived_disowned := fun o ho => by cases ho
      same_db := fun i s hi => by cases hi
      lifetime := .nil
      closings_nodup := List.nodup_nil
      closings_dead := fun c hc => by cases hc
      dead_closed := fun o ho => by cases ho }

section Close

variable {env : Env} {w : World} {own revived stale : Finset ObjId} {o : ObjId}
  {Q : Unit → World → Prop} {E : Abrupt → World → Prop}

theorem ends_close :
    Ends (close env o) w Q E ↔ (w.ptr o = 0 → Q () w) ∧
      (w.ptr o ≠ 0 → Ends (NativeObject.unref (closeNativeObject env o) o) w Q E) := by
  rw [close, NativeObject.close, ends_bind, ends_getPtr, ends_ite, ends_pure]
  exact and_comm.trans (and_congr_left fun _ => by rw [not_not])

/-- **Giving back a reference**, whatever it is to. -/
theorem Held.ends_unref_any {π : List ObjId} (h : Held w own revived stale (o :: π)) :
    Ends (NativeObject.unref (closeNativeObject env o) o) w
      (fun _ w' => Held w' own revived stale π ∧ GaveBack w w' (w.givesBack o) ∧
        ¬ w.Fails env (w.givesBack o))
      fun e w' => Failed env w own revived π (w.givesBack o) e w' ∨
        (e = .crash ∧ revived.Nonempty) := by
  cases o with
  | db d => exact h.ends_unref_db.mono (fun _ _ hw => hw) fun _ _ hf => .inl hf
  | snapshot s =>
    exact h.ends_unref_snapshot.mono (fun _ _ hw => hw) fun _ _ hf =>
      hf.imp_right fun hc => ⟨hc.1, _, hc.2⟩
  | iterator i =>
    refine h.ends_unref_iterator.mono (fun _ _ hw => hw) fun _ _ hf => hf.imp_right ?_
    rintro ⟨he, s, -, hs⟩
    exact ⟨he, _, hs⟩
  | batch b => exact h.ends_unref_batch.mono (fun _ _ hw => hw) fun _ _ hf => hf.elim

/-- **Closing a handle** that has a native object. -/
theorem Held.ends_close_own (h : Held w own revived stale []) (ho : o ∈ own) (hp : w.ptr o ≠ 0) :
    Ends (close env o) w
      (fun _ w' => Held w' (own.erase o) revived stale [] ∧ GaveBack w w' (w.givesBack o) ∧
        ¬ w.Fails env (w.givesBack o))
      fun e w' => Failed env w (own.erase o) revived [] (w.givesBack o) e w' ∨
        (e = .crash ∧ revived.Nonempty) :=
  ends_close.mpr ⟨fun h0 => absurd h0 hp, fun _ => (h.disown ho hp).ends_unref_any⟩

end Close

/-! ## One call -/

/-- A call that neither creates nor frees, nor notes that a database is to be destroyed. -/
def Call.Quiet : Call → Prop
  | .put .. => True
  | .get .. => True
  | .getBB .. => True
  | .delete .. => True
  | .write .. => True
  | .batchPut .. => True
  | .batchDelete .. => True
  | .batchClear .. => True
  | .cursor .. => True
  | _ => False

/-- **The quiet calls.** -/
theorem MethodSteps.run {env : Env} {P : ∀ {α : Type}, JavaM α → Prop} (h : MethodSteps env P)
    {c : Call} (hc : c.Quiet) : P (c.run env) := by
  cases c with
  | put d key value => exact h.put d key value
  | get d snapshot key => exact h.bind (h.dbGet d snapshot key) fun _ => h.pure _
  | getBB d snapshot key => exact h.bind (h.getBB d snapshot key) fun _ => h.pure _
  | delete d key => exact h.delete d key
  | write d batch => exact h.write d batch
  | batchPut b key value => exact h.batchPut b key value
  | batchDelete b key => exact h.batchDelete b key
  | batchClear b => exact h.batchClear b
  | cursor i call =>
    cases call with
    | seekToFirst => exact h.method (fun _ => .move ..) i
    | seekToLast => exact h.method (fun _ => .move ..) i
    | seek target => exact h.seek i target
    | next => exact h.method (fun _ => .move ..) i
    | prev => exact h.method (fun _ => .move ..) i
    | getKey => exact h.bind (h.method (fun _ => .read ..) i) fun _ => h.pure _
    | getValue => exact h.bind (h.method (fun _ => .read ..) i) fun _ => h.pure _
    | isValid => exact h.bind (h.method (fun _ => .read ..) i) fun _ => h.pure _
  | _ => exact hc.elim

/-- **A call that neither closes nor opens.** -/
theorem leaves_call {env : Env} {σ : Client} {own revived stale : Finset ObjId} {c : Call}
    (h : Held σ.world own revived stale []) (hobj : ∀ o ∈ c.objects, o ∈ σ.world.created)
    (hfree : Fresh env σ.world) (ho : Orderly env σ c) (hclose : ∀ o, c ≠ .close o)
    (hopen : ∀ d, c ≠ .openDB d) :
    Leaves (c.run env) σ.world fun w' => ∃ revived',
      (Unreleased σ c → revived' = revived) ∧ Continues σ.world own revived' stale w' := by
  have hmono {m : JavaM Unit} (hm : Leaves m σ.world (Continues σ.world own revived stale)) :
      Leaves m σ.world fun w' => ∃ revived',
        (Unreleased σ c → revived' = revived) ∧ Continues σ.world own revived' stale w' :=
    hm.mono (fun _ _ hc => ⟨revived, fun _ => rfl, hc⟩)
      fun _ _ hc hne => ⟨revived, fun _ => rfl, hc hne⟩
  have hquiet (hc : c.Quiet) : Leaves (c.run env) σ.world fun w' => ∃ revived',
      (Unreleased σ c → revived' = revived) ∧ Continues σ.world own revived' stale w' :=
    hmono (leaves_native h ((methodSteps_onNative (keptByNatives_skeleton env).quiet).run hc))
  cases c with
  | newDB path =>
    refine hmono ?_
    rw [Leaves, Call.run, ends_bind]
    exact leaves_newDB h path
  | openDB d => exact absurd rfl (hopen d)
  | close o => exact absurd rfl (hclose o)
  | iterator d snapshot =>
    rw [Leaves, Call.run, ends_bind]
    refine (leaves_iterator h hfree hobj ho.not_failed fun s hs => ?_).mono ?_ ?_
    · exact ho.own_snapshot d s (by rw [hs])
    · rintro _ w' ⟨revived', hrev, hc⟩
      exact ⟨revived', fun hu => hrev fun s hs => hu d s (by rw [hs]), hc⟩
    · intro _ w' hc hne
      obtain ⟨revived', hrev, hc⟩ := hc hne
      exact ⟨revived', fun hu => hrev fun s hs => hu d s (by rw [hs]), hc⟩
  | getSnapshot d =>
    refine hmono ?_
    rw [Leaves, Call.run, ends_bind]
    exact leaves_getSnapshot h hfree (ho.not_failed _ List.mem_cons_self)
  | destroy d => exact hmono (leaves_destroy h)
  | destroyPath path => exact hmono (leaves_destroyPath h path)
  | newBatch =>
    refine hmono ?_
    rw [Leaves, Call.run, ends_bind]
    exact leaves_newBatch h hfree
  | _ => exact hquiet trivial

namespace Client

variable {σ σ' : Client} {env : Env} {c : Call}

/-- A call returns, or throws. -/
theorem after_cases (h : σ.after env c = some σ') :
    (∃ w, c.run env σ.world = .ok () w ∧ σ' = ⟨w, σ.closedAfter true w c⟩) ∨
    (∃ t w, c.run env σ.world = .error (.thrown t) w ∧ σ' = ⟨w, σ.closedAfter false w c⟩) := by
  rw [after] at h
  split at h
  · next w hrun => exact .inl ⟨w, hrun, (Option.some_inj.mp h).symm⟩
  · next t w hrun => exact .inr ⟨t, w, hrun, (Option.some_inj.mp h).symm⟩
  · cases h

/-- Where a call leaves the client, and which handles are closed then. -/
theorem after_leaves {P : World → Prop} (h : σ.after env c = some σ')
    (hl : Leaves (c.run env) σ.world P) :
    P σ'.world ∧ ∃ returned, σ'.closed = σ.closedAfter returned σ'.world c := by
  rcases after_cases h with ⟨w, hrun, rfl⟩ | ⟨t, w, hrun, rfl⟩
  · exact ⟨hl.of_ok hrun, true, rfl⟩
  · exact ⟨hl.of_error hrun (by simp), false, rfl⟩

end Client

namespace Inv

variable {σ σ' : Client} {env : Env} {c : Call} {revived stale : Finset ObjId}

/-- New objects are owned. -/
theorem of_continues (h : Inv σ revived stale) {revived' : Finset ObjId} {w : World}
    (hc : Continues σ.world (σ.world.created \ σ.closed) revived' stale w) :
    Inv ⟨w, σ.closed⟩ revived' stale := by
  have hown : (σ.world.created \ σ.closed) ∪ w.created \ σ.world.created
      = w.created \ σ.closed := by
    ext o
    simp only [Finset.mem_union, Finset.mem_sdiff]
    constructor
    · rintro (⟨hin, hno⟩ | ⟨hin, hno⟩)
      · exact ⟨hc.created hin, hno⟩
      · exact ⟨hin, fun hcl => hno (h.closed_created hcl)⟩
    · rintro ⟨hin, hno⟩
      by_cases hold : o ∈ σ.world.created
      · exact .inl ⟨hold, hno⟩
      · exact .inr ⟨hin, hold⟩
  exact ⟨hown ▸ hc.held, h.closed_created.trans hc.created⟩

/-- A handle was closed. -/
theorem of_closed (h : Inv σ revived stale) {o : ObjId} {w : World} {stale' : Finset ObjId}
    (ho : o ∈ σ.world.created) (hcr : w.created = σ.world.created)
    (hw : Held w ((σ.world.created \ σ.closed).erase o) revived stale' []) :
    Inv ⟨w, insert o σ.closed⟩ revived stale' := by
  refine ⟨?_, ?_⟩
  · rwa [hcr, Finset.sdiff_insert]
  · rw [hcr]
    exact Finset.insert_subset ho h.closed_created

/-- **An orderly call keeps the invariant.**  It revives nothing unless it makes an iterator of a
released snapshot, and leaves no pointer behind unless a database fails to be destroyed. -/
theorem step (h : Inv σ revived stale) (hobj : ∀ o ∈ c.objects, o ∈ σ.world.created)
    (hfree : Fresh env σ.world) (ho : Orderly env σ c) (hs : σ.after env c = some σ') :
    ∃ revived' stale', (Unreleased σ c → revived' = revived) ∧
      (¬ FailsToDestroy env σ c → stale' = stale) ∧ Inv σ' revived' stale' := by
  by_cases hclose : ∃ o, c = .close o
  · obtain ⟨o, rfl⟩ := hclose
    have hcr : o ∈ σ.world.created := hobj o List.mem_cons_self
    by_cases hp : σ.world.ptr o = 0
    · have hrun : Ends (close env o) σ.world (fun _ w' => w' = σ.world) fun _ _ => False :=
        ends_close.mpr ⟨fun _ => rfl, fun hne => absurd hp hne⟩
      rcases Client.after_cases hs with ⟨w, hok, rfl⟩ | ⟨t, w, herr, rfl⟩
      · obtain rfl : w = σ.world := hrun.of_ok hok
        refine ⟨revived, stale, fun _ => rfl, fun _ => rfl, ?_⟩
        rwa [Client.closedAfter, if_pos hp]
      · exact (hrun.of_error herr).elim
    · have hown : o ∈ σ.world.created \ σ.closed :=
        Finset.mem_sdiff.mpr ⟨hcr, (ho.close_once o rfl).resolve_right hp⟩
      have hrun : Ends (close env o) σ.world _ _ := h.held.ends_close_own hown hp
      rcases Client.after_cases hs with ⟨w, hok, rfl⟩ | ⟨t, w, herr, rfl⟩
      · obtain ⟨hheld, hgave, -⟩ := hrun.of_ok hok
        refine ⟨revived, stale, fun _ => rfl, fun _ => rfl, ?_⟩
        rw [Client.closedAfter, if_neg hp]
        exact h.of_closed hcr hgave.created hheld
      · rcases hrun.of_error herr with ⟨-, hfails, hgave, d, stale', -, -, -, hheld⟩ | ⟨he, -⟩
        · refine ⟨revived, stale', fun _ => rfl, fun hno => absurd ⟨o, rfl, hp, hfails⟩ hno, ?_⟩
          rw [Client.closedAfter, if_neg hp]
          exact h.of_closed hcr hgave.created hheld
        · cases he
  · by_cases hopen : ∃ d, c = .openDB d
    · obtain ⟨d, rfl⟩ := hopen
      have hrun := ends_open_held h.held hfree (ho.open_once d rfl)
      rcases Client.after_cases hs with ⟨w, hok, rfl⟩ | ⟨t, w, herr, rfl⟩
      · obtain ⟨hc, hown⟩ := hrun.of_ok hok
        refine ⟨revived, stale, fun _ => rfl, fun _ => rfl, ?_⟩
        -- the handle of a database that is opened was not closed
        have hclosed : σ.closedAfter true w (.openDB d) = σ.closed := by
          rw [Client.closedAfter]
          split
          · next hptr =>
            have hp : w.ptr (.db d) ≠ 0 := by simpa using hptr
            exact Finset.erase_eq_of_notMem (Finset.mem_sdiff.mp (hown hp)).2
          · rfl
        rw [hclosed]
        exact h.of_continues hc
      · have hc := hrun.of_error herr (by simp)
        exact ⟨revived, stale, fun _ => rfl, fun _ => rfl, h.of_continues hc⟩
    · have hclose := not_exists.mp hclose
      have hopen := not_exists.mp hopen
      obtain ⟨⟨revived', hrev, hc⟩, returned, hclosed⟩ :=
        Client.after_leaves hs (leaves_call h.held hobj hfree ho hclose hopen)
      refine ⟨revived', stale, hrev, fun _ => rfl, ?_⟩
      have hsame : σ'.closed = σ.closed := by
        rw [hclosed]
        cases c with
        | close o => exact absurd rfl (hclose o)
        | openDB d => exact absurd rfl (hopen d)
        | _ => rfl
      obtain ⟨w, closed⟩ := σ'
      obtain rfl : closed = σ.closed := hsame
      exact h.of_continues hc

/-- **A run of orderly calls keeps the invariant.** -/
theorem run {P : Env → Client → Call → Prop} (h : Inv σ revived stale)
    (hP : ∀ env σ c, P env σ c → Orderly env σ c) (hr : Run P σ σ') :
    ∃ revived' stale', ((∀ env σ c, P env σ c → Unreleased σ c) → revived' = revived) ∧
      Inv σ' revived' stale' := by
  induction hr with
  | refl => exact ⟨revived, stale, fun _ => rfl, h⟩
  | tail _ hs ih =>
    obtain ⟨revived₁, stale₁, hrev₁, h₁⟩ := ih
    obtain ⟨env, c, hobj, hfree, hc, hafter⟩ := hs
    obtain ⟨revived₂, stale₂, hrev₂, -, h₂⟩ := h₁.step hobj hfree (hP _ _ _ hc) hafter
    exact ⟨revived₂, stale₂, fun hu => (hrev₂ (hu _ _ _ hc)).trans (hrev₁ hu), h₂⟩

end Inv

/-- An orderly call that makes no iterator of a released snapshot. -/
structure Careful (env : Env) (σ : Client) (c : Call) : Prop extends Orderly env σ c where
  unreleased : Unreleased σ c

/-- After careful calls nothing was revived. -/
theorem Inv.of_careful {P : Env → Client → Call → Prop} {σ : Client}
    (hP : ∀ env σ c, P env σ c → Careful env σ c) (hr : Reachable P σ) :
    ∃ stale, Inv σ ∅ stale := by
  obtain ⟨revived, stale, hrev, h⟩ :=
    Inv.start.run (fun env σ c hc => (hP env σ c hc).toOrderly) hr
  obtain rfl := hrev fun env σ c hc => (hP env σ c hc).unreleased
  exact ⟨stale, h⟩

/-- A tidy call that makes no iterator of a released snapshot, and after which no pointer is left
behind. -/
structure Undisturbed (env : Env) (σ : Client) (c : Call) : Prop extends Tidy env σ c where
  unreleased : Unreleased σ c
  not_fails : ¬ FailsToDestroy env σ c

section Undisturbed

variable {σ : Client} {env : Env} {c : Call}

/-- As long as nothing failed, what has a pointer can be used. -/
theorem Undisturbed.careful (hc : Undisturbed env σ c) (h : Inv σ ∅ ∅) : Careful env σ c := by
  refine ⟨⟨hc.toTidy, fun o _ hp => ?_⟩, hc.unreleased⟩
  rw [← h.held.counted.live_iff]
  by_contra hdead
  exact (h.held.ptr_dead o hdead).elim hp (Finset.notMem_empty o)

theorem Inv.of_undisturbed (hr : Reachable Undisturbed σ) : Inv σ ∅ ∅ := by
  induction hr with
  | refl => exact .start
  | tail _ hs ih =>
    obtain ⟨env, c, hobj, hfree, hc, hafter⟩ := hs
    obtain ⟨revived, stale, hrev, hstale, h⟩ :=
      ih.step hobj hfree (hc.careful ih).toOrderly hafter
    obtain rfl := hrev hc.unreleased
    obtain rfl := hstale hc.not_fails
    exact h

theorem reachable_careful (hr : Reachable Undisturbed σ) : Reachable Careful σ := by
  induction hr with
  | refl => exact .refl
  | tail hr hs ih =>
    obtain ⟨env, c, hobj, hfree, hc, hafter⟩ := hs
    exact ih.tail ⟨env, c, hobj, hfree, hc.careful (Inv.of_undisturbed hr), hafter⟩

end Undisturbed

end Java
