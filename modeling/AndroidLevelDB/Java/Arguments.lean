import AndroidLevelDB.Java.Acquisition

/-!
# Java/Arguments — handles passed as arguments

Four methods of a database take another handle.  They assert that the database is open, but not the
handle: the pointer 0 of a released one is passed on, and means the latest state to a read, and no
updates to a write.  So a method checks its argument exactly if it is not released, or if the call
is refused for another reason (`checked_iff`).
-/

open Leveldb Jni Function

namespace Java

/-- The calls of a database with a handle as argument. -/
inductive PassCall
  | get (s : ℕ) (key : Option Bytes)
  | getBB (s : ℕ) (key : Option ByteBuffer)
  | iterator (s : ℕ)
  | write (b : ℕ)

namespace PassCall

def argument : PassCall → ObjId
  | get s _ => .snapshot s
  | getBB s _ => .snapshot s
  | iterator s => .snapshot s
  | write b => .batch b

/-- The call, with the result of a lookup. -/
def run (env : Env) (d : ℕ) : PassCall → JavaM (Option Bytes)
  | get s key => DB.get d (some s) key
  | getBB s key => DB.getBB d (some s) key
  | iterator s => do
    let _ ← DB.iterator env d (some s)
    pure none
  | write b => do
    DB.write env d (some b)
    pure none

/-- The key is null. -/
def NullKey : PassCall → Prop
  | get _ key => key = none
  | getBB _ key => key = none
  | _ => False

/-- What a call does with its argument: a read is one of the snapshot's state, and a write is one of
the batch. -/
def Uses (env : Env) (w : World) (d : ℕ) (r : Option Bytes) (w' : World) : PassCall → Prop
  | get s key => ∃ path db db' n k, w.heap (w.ptr (.db d)) = some (.db path db) ∧
      w.heap (w.ptr (.snapshot s)) = some (.snapshot db' n) ∧ key = some k ∧
      r = lookup db (some n) k
  | getBB s key => ∃ path db db' n b k, w.heap (w.ptr (.db d)) = some (.db path db) ∧
      w.heap (w.ptr (.snapshot s)) = some (.snapshot db' n) ∧ key = some b ∧
      bufferSlice b = .ok k ∧ r = lookup db (some n) k
  | iterator s => ∃ path db db' n, w.heap (w.ptr (.db d)) = some (.db path db) ∧
      w.heap (w.ptr (.snapshot s)) = some (.snapshot db' n) ∧
      w'.heap env.newPtr
        = some (.iterator (w.ptr (.db d)) (w.ptr (.snapshot s)) (db.newIterator (some n)))
  | write b => ∃ path db batch, w.heap (w.ptr (.db d)) = some (.db path db) ∧
      w.heap (w.ptr (.batch b)) = some (.batch batch) ∧
      w'.heap (w.ptr (.db d)) = some (.db path (db.write env.room (some batch)).2.1)

end PassCall

/-- The call rejects a released argument and leaves everything, and uses its argument whenever it
returns. -/
structure Checked (env : Env) (w : World) (d : ℕ) (call : PassCall) : Prop where
  rejects : w.ptr call.argument = 0 → ∃ t, call.run env d w = .error (.thrown t) w
  uses : ∀ r w', call.run env d w = .ok r w' → call.Uses env w d r w'

section Checked

variable {env : Env} {w : World} {d : ℕ}

/-- A call on a closed database is refused. -/
theorem ends_closed {call : PassCall} (hp : w.ptr (.db d) = 0) :
    Ends (call.run env d) w (fun _ _ => False) fun e w' => (∃ t, e = .thrown t) ∧ w' = w := by
  have hclosed : ∀ {α : Type} (m : JavaM α) {Q : α → World → Prop},
      Ends (NativeObject.assertOpen (.db d) "Database is closed" >>= fun _ => m) w Q
        fun e w' => (∃ t, e = .thrown t) ∧ w' = w := by
    intro α m Q
    rw [ends_bind, ends_assertOpen]
    exact ⟨fun _ => ⟨⟨_, rfl⟩, rfl⟩, fun hne => absurd hp hne⟩
  cases call with
  | get s key => exact hclosed _
  | getBB s key => exact hclosed _
  | iterator s =>
    rw [PassCall.run, ends_bind]
    exact hclosed _
  | write b =>
    rw [PassCall.run, ends_bind]
    exact hclosed _

/-- So is a call with a null key. -/
theorem ends_nullKey {call : PassCall} (hp : w.ptr (.db d) ≠ 0) (hk : call.NullKey) :
    Ends (call.run env d) w (fun _ _ => False) fun e w' => (∃ t, e = .thrown t) ∧ w' = w := by
  cases call with
  | get s key =>
    obtain rfl : key = none := hk
    rw [PassCall.run, DB.get, ends_bind, ends_assertOpen]
    exact ⟨fun h0 => absurd h0 hp, fun _ => ⟨⟨_, rfl⟩, rfl⟩⟩
  | getBB s key =>
    obtain rfl : key = none := hk
    rw [PassCall.run, DB.getBB, ends_bind, ends_assertOpen]
    exact ⟨fun h0 => absurd h0 hp, fun _ => ⟨⟨_, rfl⟩, rfl⟩⟩
  | iterator s => cases hk
  | write b => cases hk

theorem run_refused {call : PassCall} (h : w.ptr (.db d) = 0 ∨ call.NullKey) :
    ∃ t, call.run env d w = .error (.thrown t) w := by
  have hends : Ends (call.run env d) w (fun _ _ => False)
      fun e w' => (∃ t, e = .thrown t) ∧ w' = w := by
    by_cases hp : w.ptr (.db d) = 0
    · exact ends_closed hp
    · exact ends_nullKey hp (h.resolve_left hp)
  cases hrun : call.run env d w with
  | ok r w' => exact (hends.of_ok hrun).elim
  | error e w' =>
    obtain ⟨⟨t, rfl⟩, rfl⟩ := hends.of_error hrun
    exact ⟨t, rfl⟩

/-- How a lookup by a byte array runs. -/
theorem ends_dbGet {s : ℕ} {key : Bytes} {Q : Option Bytes → World → Prop}
    {E : Abrupt → World → Prop} (hp : w.ptr (.db d) ≠ 0) :
    Ends (DB.get d (some s) (some key)) w Q E ↔
      Ends (Jni.DB.nativeGet (w.ptr (.db d)) (w.ptr (.snapshot s)) key) w.toNative
        (fun r n => Q r { w with toNative := n }) fun e n => E e { w with toNative := n } := by
  simp [DB.get, nonNull, DB.snapshotPtr, hp]

theorem ends_dbGetBB {s : ℕ} {key : ByteBuffer} {Q : Option Bytes → World → Prop}
    {E : Abrupt → World → Prop} (hp : w.ptr (.db d) ≠ 0) :
    Ends (DB.getBB d (some s) (some key)) w Q E ↔
      Ends (Jni.DB.nativeGetBB (w.ptr (.db d)) (w.ptr (.snapshot s)) key) w.toNative
        (fun r n => Q r { w with toNative := n }) fun e n => E e { w with toNative := n } := by
  simp [DB.getBB, nonNull, DB.snapshotPtr, hp]

theorem ends_dbWrite {b : ℕ} {Q : Unit → World → Prop} {E : Abrupt → World → Prop}
    (hp : w.ptr (.db d) ≠ 0) :
    Ends (DB.write env d (some b)) w Q E ↔
      Ends (Jni.DB.nativeWrite env (w.ptr (.db d)) (w.ptr (.batch b))) w.toNative
        (fun r n => Q r { w with toNative := n }) fun e n => E e { w with toNative := n } := by
  simp [DB.write, nonNull, hp]

/-- A world with a further native call is another one. -/
theorem ne_of_calls {n : Native} {c : NativeCall} (h : n.calls = c :: w.calls) :
    { w with toNative := n } ≠ w := by
  intro heq
  have hcalls : n.calls = w.calls := congrArg (fun w' : World => w'.calls) heq
  rw [h] at hcalls
  exact List.cons_ne_self _ _ hcalls

/-- The pointer of a released argument is passed on. -/
theorem ends_pass_zero {call : PassCall} (hp : w.ptr (.db d) ≠ 0) (hk : ¬ call.NullKey)
    (h0 : w.ptr call.argument = 0) :
    Ends (call.run env d) w (fun _ _ => True) fun e w' => e = .crash ∨ w' ≠ w := by
  cases call with
  | get s key =>
    obtain ⟨k, rfl⟩ := Option.ne_none_iff_exists'.mp hk
    have h0 : w.ptr (.snapshot s) = 0 := h0
    rw [PassCall.run, ends_dbGet hp, h0, Jni.DB.nativeGet, ends_bind, ends_record, ends_bind,
      derefDB, ends_deref]
    exact ⟨fun _ _ => trivial, fun _ => .inl rfl⟩
  | getBB s key =>
    obtain ⟨k, rfl⟩ := Option.ne_none_iff_exists'.mp hk
    have h0 : w.ptr (.snapshot s) = 0 := h0
    rw [PassCall.run, ends_dbGetBB hp, h0, Jni.DB.nativeGetBB, ends_bind, ends_record, ends_bind,
      takeBuffer]
    cases bufferSlice k with
    | error e => exact .inr (ne_of_calls rfl)
    | ok bytes =>
      rw [ends_pure, ends_bind, derefDB, ends_deref]
      exact ⟨fun _ _ => trivial, fun _ => .inl rfl⟩
  | iterator s =>
    rw [PassCall.run, ends_bind]
    refine ends_iterator.mpr ⟨fun hz => absurd hz hp, fun _ => ?_⟩
    by_cases hu : Usable w d (some s)
    · refine (ends_nativeIterator hu.1.choose_spec hu.2).mono ?_ fun _ _ h => h.elim
      rintro r n ⟨rfl, -⟩
      refine ⟨fun _ => .inr fun heq => ?_, fun _ => trivial⟩
      have hcount := congrArg (fun w' : World => w'.count (.db d)) heq
      simp [count_refAll, iteratorRefs] at hcount
    · exact (ends_nativeIterator_undefined hu).mono (fun _ _ h => h.elim) fun _ _ h => .inl h
  | write b =>
    have h0 : w.ptr (.batch b) = 0 := h0
    rw [PassCall.run, ends_bind, ends_dbWrite hp, h0, Jni.DB.nativeWrite, ends_bind, ends_record,
      ends_bind, derefDB, ends_deref]
    refine ⟨fun x _ => ?_, fun _ => .inl rfl⟩
    simp only [if_true, ends_bind, ends_store, ends_raise]
    exact ⟨fun _ => trivial, fun _ _ => .inr (ne_of_calls rfl)⟩

theorem ends_uses {call : PassCall} (hp : w.ptr (.db d) ≠ 0) (hk : ¬ call.NullKey)
    (h0 : w.ptr call.argument ≠ 0) :
    Ends (call.run env d) w (fun r w' => call.Uses env w d r w') fun _ _ => True := by
  cases call with
  | get s key =>
    obtain ⟨k, rfl⟩ := Option.ne_none_iff_exists'.mp hk
    have h0 : w.ptr (.snapshot s) ≠ 0 := h0
    rw [PassCall.run, ends_dbGet hp, Jni.DB.nativeGet, ends_bind, ends_record, ends_bind, derefDB,
      ends_deref]
    refine ⟨fun x hx => ?_, fun _ => trivial⟩
    rw [ends_bind, readOptions, if_neg h0, ends_bind, ends_deref]
    refine ⟨fun y hy => ?_, fun _ => trivial⟩
    exact ⟨x.1, x.2, y.1, y.2, k, heap_of_asDB hx, heap_of_asSnapshot hy, rfl, rfl⟩
  | getBB s key =>
    obtain ⟨b, rfl⟩ := Option.ne_none_iff_exists'.mp hk
    have h0 : w.ptr (.snapshot s) ≠ 0 := h0
    rw [PassCall.run, ends_dbGetBB hp, Jni.DB.nativeGetBB, ends_bind, ends_record, ends_bind,
      takeBuffer]
    cases hb : bufferSlice b with
    | error e => trivial
    | ok k =>
      rw [ends_pure, ends_bind, derefDB, ends_deref]
      refine ⟨fun x hx => ?_, fun _ => trivial⟩
      rw [ends_bind, readOptions, if_neg h0, ends_bind, ends_deref]
      refine ⟨fun y hy => ?_, fun _ => trivial⟩
      exact ⟨x.1, x.2, y.1, y.2, b, k, heap_of_asDB hx, heap_of_asSnapshot hy, rfl, hb, rfl⟩
  | iterator s =>
    have h0 : w.ptr (.snapshot s) ≠ 0 := h0
    rw [PassCall.run, ends_bind]
    refine ends_iterator.mpr ⟨fun _ => trivial, fun _ => ?_⟩
    rw [Jni.DB.nativeIterator, ends_bind, derefDB, ends_deref]
    refine ⟨fun x hx => ?_, fun _ => trivial⟩
    rw [ends_bind, World.snapshotArg, readOptions, if_neg h0, ends_bind, ends_deref]
    refine ⟨fun y hy => ?_, fun _ => trivial⟩
    by_cases hnew : env.newPtr = 0
    · have hskip : ¬ env.newPtr ≠ 0 := not_not.mpr hnew
      simp only [ends_pure, allocate, ends_bind, if_neg hskip, ends_record]
      exact ⟨fun _ => trivial, fun hne => absurd hnew hne⟩
    · simp only [ends_pure, allocate, ends_bind, if_pos hnew, ends_modify, ends_record]
      refine ⟨fun _ => trivial, fun _ => ?_⟩
      exact ⟨x.1, x.2, y.1, y.2, heap_of_asDB hx, heap_of_asSnapshot hy, update_self ..⟩
  | write b =>
    have h0 : w.ptr (.batch b) ≠ 0 := h0
    rw [PassCall.run, ends_bind, ends_dbWrite hp, Jni.DB.nativeWrite, ends_bind, ends_record,
      ends_bind, derefDB, ends_deref]
    refine ⟨fun x hx => ?_, fun _ => trivial⟩
    have hx := heap_of_asDB hx
    simp only [if_neg h0]
    rw [ends_bind, derefBatch, ends_deref]
    refine ⟨fun batch hb => ?_, fun _ => trivial⟩
    have hb := heap_of_asBatch hb
    have hxw : w.heap (w.ptr (.db d)) = some (.db x.1 x.2) := hx
    have hbw : w.heap (w.ptr (.batch b)) = some (.batch batch) := hb
    have hne : w.ptr (.db d) ≠ w.ptr (.batch b) := by
      intro heq
      rw [heq, hbw] at hxw
      cases hxw
    simp only [ends_bind, ends_store, ends_raise]
    refine ⟨fun _ => ⟨x.1, x.2, batch, hx, hb, ?_⟩, fun _ _ => trivial⟩
    exact (update_of_ne hne _ _).trans (update_self ..)

end Checked

end Java
