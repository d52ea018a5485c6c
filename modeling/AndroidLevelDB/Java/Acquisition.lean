import AndroidLevelDB.Java.Ownership

/-!
# Java/Acquisition — making iterators and snapshots

`iterator` and `getSnapshot` take their references first, then create the native object, and then
the Java object that is to hold both (`ends_iterator`, `ends_getSnapshot`).  If no native object
could be allocated, the constructor of the Java object throws and the references stay taken: so they
are all or nothing exactly if they are not refused and the allocation succeeds
(`iterator_allOrNothing_iff`, `getSnapshot_allOrNothing_iff`).
-/

open Leveldb Jni Function

namespace Java

/-! ## How they run -/

/-- The objects that a new iterator holds. -/
def iteratorRefs (d : ℕ) (snapshot : Option ℕ) : List ObjId :=
  snapshot.toList.map .snapshot ++ [.db d]

namespace World

/-- The references that `iterator` takes. -/
def refAll (w : World) (d : ℕ) : Option ℕ → World
  | some s => (w.ref (.db d)).ref (.snapshot s)
  | none => w.ref (.db d)

/-- The pointer passed for a snapshot. -/
def snapshotArg (w : World) : Option ℕ → ℕ
  | some s => w.ptr (.snapshot s)
  | none => 0

/-- A new iterator, without its pointer. -/
def addIterator (w : World) (d : ℕ) (snapshot : Option ℕ) : World :=
  World.construct
    { w with
      iteratorDB := update w.iteratorDB w.fresh d
      iteratorSnapshot := update w.iteratorSnapshot w.fresh snapshot }
    (.iterator w.fresh)

/-- A new snapshot, without its pointer. -/
def addSnapshot (w : World) (d : ℕ) : World :=
  World.construct { w with snapshotDB := update w.snapshotDB w.fresh d } (.snapshot w.fresh)

@[simp] theorem ptr_refAll (w : World) (d : ℕ) (snapshot : Option ℕ) :
    (w.refAll d snapshot).ptr = w.ptr := by
  cases snapshot with
  | none => exact ptr_ref ..
  | some s => exact (ptr_ref ..).trans (ptr_ref ..)

@[simp] theorem count_addIterator (w : World) (d : ℕ) (snapshot : Option ℕ) :
    (w.addIterator d snapshot).count
      = update w.count (.iterator w.fresh) (w.count (.iterator w.fresh) + 1) := count_construct ..

@[simp] theorem ptr_addIterator (w : World) (d : ℕ) (snapshot : Option ℕ) :
    (w.addIterator d snapshot).ptr = w.ptr := ptr_construct ..

@[simp] theorem count_addSnapshot (w : World) (d : ℕ) :
    (w.addSnapshot d).count
      = update w.count (.snapshot w.fresh) (w.count (.snapshot w.fresh) + 1) := count_construct ..

@[simp] theorem ptr_addSnapshot (w : World) (d : ℕ) : (w.addSnapshot d).ptr = w.ptr :=
  ptr_construct ..

theorem refs_addIterator (w : World) (d : ℕ) (snapshot : Option ℕ) :
    (w.addIterator d snapshot).refs (.iterator w.fresh) = iteratorRefs d snapshot := by
  simp [refs, addIterator, construct, World.ref, setRefCount, iteratorRefs]

theorem refs_addSnapshot (w : World) (d : ℕ) :
    (w.addSnapshot d).refs (.snapshot w.fresh) = [.db d] := by
  simp [refs, addSnapshot, construct, World.ref, setRefCount]

theorem refs_setPtr (w : World) (o : ObjId) (p : ℕ) : (w.setPtr o p).refs = w.refs := by
  funext x
  cases x <;> rfl

/-- A change of the native side changes no object. -/
@[simp] theorem count_native (w : World) (s : Native) :
    World.count { w with toNative := s } = w.count := rfl

@[simp] theorem ptr_native (w : World) (s : Native) :
    World.ptr { w with toNative := s } = w.ptr := rfl

@[simp] theorem fresh_native (w : World) (s : Native) :
    World.fresh { w with toNative := s } = w.fresh := rfl

@[simp] theorem fresh_ref (w : World) (o : ObjId) : (w.ref o).fresh = w.fresh := rfl

@[simp] theorem toNative_refAll (w : World) (d : ℕ) (snapshot : Option ℕ) :
    (w.refAll d snapshot).toNative = w.toNative := by
  cases snapshot <;> rfl

@[simp] theorem fresh_refAll (w : World) (d : ℕ) (snapshot : Option ℕ) :
    (w.refAll d snapshot).fresh = w.fresh := by
  cases snapshot <;> rfl

end World

section Ends

variable {w : World} {env : Env} {d : ℕ} {E : Abrupt → World → Prop} {Q : ℕ → World → Prop}

/-- How `iterator` runs. -/
theorem ends_iterator {snapshot : Option ℕ} :
    Ends (DB.iterator env d snapshot) w Q E ↔
      (w.ptr (.db d) = 0 → E (.thrown (.illegalStateException "Database is closed")) w) ∧
      (w.ptr (.db d) ≠ 0 →
        Ends (Jni.DB.nativeIterator env (w.ptr (.db d)) (w.snapshotArg snapshot)) w.toNative
          (fun ptr s =>
            (ptr = 0 → E (.thrown (.outOfMemoryError "Failed to allocate native object"))
              (World.addIterator { w.refAll d snapshot with toNative := s } d snapshot)) ∧
            (ptr ≠ 0 → Q w.fresh
              ((World.addIterator { w.refAll d snapshot with toNative := s } d snapshot).setPtr
                (.iterator w.fresh) ptr)))
          fun e s => E e { w.refAll d snapshot with toNative := s }) := by
  rw [DB.iterator, ends_bind, ends_assertOpen]
  refine and_congr_right fun _ => forall_congr' fun _ => ?_
  cases snapshot with
  | none =>
    simp only [DB.snapshotPtr, DB.newIterator, ends_bind, ends_ref, ends_getPtr, ends_call,
      ends_pure, ends_get, ends_modify, ends_newPtr, World.ptr_ref]
    rfl
  | some s =>
    simp only [DB.snapshotPtr, DB.newIterator, ends_bind, ends_ref, ends_getPtr, ends_call,
      ends_pure, ends_get, ends_modify, ends_newPtr, World.ptr_ref]
    rfl

/-- How `getSnapshot` runs. -/
theorem ends_getSnapshot :
    Ends (DB.getSnapshot env d) w Q E ↔
      (w.ptr (.db d) = 0 → E (.thrown (.illegalStateException "Database is closed")) w) ∧
      (w.ptr (.db d) ≠ 0 →
        Ends (Jni.DB.nativeGetSnapshot env (w.ptr (.db d))) w.toNative
          (fun ptr s =>
            (ptr = 0 → E (.thrown (.outOfMemoryError "Failed to allocate native object"))
              (World.addSnapshot { w.ref (.db d) with toNative := s } d)) ∧
            (ptr ≠ 0 → Q w.fresh
              ((World.addSnapshot { w.ref (.db d) with toNative := s } d).setPtr
                (.snapshot w.fresh) ptr)))
          fun e s => E e { w.ref (.db d) with toNative := s }) := by
  rw [DB.getSnapshot, ends_bind, ends_assertOpen]
  refine and_congr_right fun _ => forall_congr' fun _ => ?_
  simp only [DB.newSnapshot, ends_bind, ends_ref, ends_getPtr, ends_call, ends_pure, ends_get,
    ends_modify, ends_newPtr, World.ptr_ref]
  rfl

end Ends

/-! ## All or nothing -/

/-- Making an object that holds `taken`: an exception leaves the counts and the pointers of these,
and otherwise each has one reference more, which the new object owns. -/
structure AllOrNothing (w : World) (m : JavaM ℕ) (new : ℕ → ObjId) (taken : List ObjId) : Prop where
  thrown : ∀ t w', m w = .error (.thrown t) w' →
    ∀ o ∈ taken, w'.count o = w.count o ∧ w'.ptr o = w.ptr o
  returned : ∀ n w', m w = .ok n w' →
    (∀ o ∈ taken, w'.count o = w.count o + 1 ∧ w'.ptr o = w.ptr o) ∧
    (∀ o ∉ taken, o ≠ new n → w'.count o = w.count o ∧ w'.ptr o = w.ptr o) ∧
    new n ∈ w'.created ∧ w'.ptr (new n) ≠ 0 ∧ w'.refs (new n) = taken

/-- The native objects that `iterator` uses live. -/
def Usable (w : World) (d : ℕ) (snapshot : Option ℕ) : Prop :=
  (∃ path, w.kinds (w.ptr (.db d)) = some (.db path)) ∧
    (w.snapshotArg snapshot = 0 ∨ ∃ d', w.kinds (w.snapshotArg snapshot) = some (.snapshot d'))

theorem count_refAll (w : World) (d : ℕ) (snapshot : Option ℕ) (o : ObjId) :
    (w.refAll d snapshot).count o = w.count o + (iteratorRefs d snapshot).count o := by
  cases snapshot with
  | none =>
    rw [World.refAll, World.count_ref]
    rcases eq_or_ne o (.db d) with rfl | ho
    · simp [iteratorRefs]
    · simp [iteratorRefs, update_of_ne ho, ho.symm]
  | some s =>
    rw [World.refAll, World.count_ref, World.count_ref]
    rcases eq_or_ne o (.db d) with rfl | ho
    · simp [iteratorRefs]
    · rcases eq_or_ne o (.snapshot s) with rfl | hos
      · simp [iteratorRefs]
      · simp [iteratorRefs, update_of_ne ho, update_of_ne hos, ho.symm, hos.symm]

section Iff

variable {w : World} {m : JavaM ℕ} {new : ℕ → ObjId} {taken : List ObjId}

/-- An allocation that fails takes references for nothing. -/
theorem not_allOrNothing {o : ObjId} (ho : o ∈ taken)
    (h : Ends m w (fun _ _ => False)
      fun e w' => (∃ t, e = .thrown t) ∧ w'.count o = w.count o + 1) :
    ¬ AllOrNothing w m new taken := by
  intro hall
  cases hm : m w with
  | ok n w' => exact h.of_ok hm
  | error e w' =>
    obtain ⟨⟨t, rfl⟩, hcount⟩ := h.of_error hm
    have := (hall.thrown t w' hm o ho).1
    omega

theorem allOrNothing_of_ends
    (h : Ends m w
      (fun n w' => (∀ o ∈ taken, w'.count o = w.count o + 1 ∧ w'.ptr o = w.ptr o) ∧
        (∀ o ∉ taken, o ≠ new n → w'.count o = w.count o ∧ w'.ptr o = w.ptr o) ∧
        new n ∈ w'.created ∧ w'.ptr (new n) ≠ 0 ∧ w'.refs (new n) = taken)
      fun e w' => e = .crash ∨ w' = w) : AllOrNothing w m new taken := by
  refine ⟨fun t w' hm => ?_, fun n w' hm => h.of_ok hm⟩
  rcases h.of_error hm with hcrash | rfl
  · cases hcrash
  · exact fun o _ => ⟨rfl, rfl⟩

/-- The new iterator holds the references taken for it. -/
theorem iterator_allOrNothing {env : Env} {d : ℕ} {snapshot : Option ℕ}
    (hnew : env.newPtr ≠ 0) (hu : Usable w d snapshot) :
    AllOrNothing w (DB.iterator env d snapshot) .iterator (iteratorRefs d snapshot) := by
  obtain ⟨⟨path, hd⟩, hsn⟩ := hu
  refine allOrNothing_of_ends (ends_iterator.mpr ⟨fun _ => .inr rfl, fun _ => ?_⟩)
  refine (ends_nativeIterator hd hsn).mono ?_ fun _ _ h => h.elim
  rintro _ s ⟨rfl, -⟩
  have hfresh : w.fresh = World.fresh { w.refAll d snapshot with toNative := s } := by simp
  have hnotin : .iterator w.fresh ∉ iteratorRefs d snapshot := by
    cases snapshot <;> simp [iteratorRefs]
  have hone : ∀ o ∈ iteratorRefs d snapshot, (iteratorRefs d snapshot).count o = 1 := by
    intro o ho
    have hnodup : (iteratorRefs d snapshot).Nodup := by
      cases snapshot <;> simp [iteratorRefs]
    exact List.count_eq_one_of_mem hnodup ho
  refine ⟨fun h0 => absurd h0 hnew, fun _ => ⟨fun o ho => ?_, fun o ho hne => ?_, ?_, ?_, ?_⟩⟩
  · have hne : o ≠ .iterator w.fresh := fun heq => hnotin (heq ▸ ho)
    simp [update_of_ne hne, count_refAll, hone o ho]
  · have hzero : (iteratorRefs d snapshot).count o = 0 := List.count_eq_zero.mpr ho
    simp [update_of_ne hne, count_refAll, hzero]
  · rw [hfresh]
    exact Finset.mem_insert_self (ObjId.iterator _) _
  · simpa using hnew
  · rw [World.refs_setPtr, hfresh]
    exact World.refs_addIterator ..

theorem getSnapshot_allOrNothing {env : Env} {d : ℕ} (hnew : env.newPtr ≠ 0)
    (hu : Usable w d none) :
    AllOrNothing w (DB.getSnapshot env d) .snapshot [.db d] := by
  obtain ⟨⟨path, hd⟩, -⟩ := hu
  refine allOrNothing_of_ends (ends_getSnapshot.mpr ⟨fun _ => .inr rfl, fun _ => ?_⟩)
  refine (ends_nativeGetSnapshot hd).mono ?_ fun _ _ h => h.elim
  rintro _ s ⟨rfl, -⟩
  refine ⟨fun h0 => absurd h0 hnew, fun _ => ⟨fun o ho => ?_, fun o ho hne => ?_, ?_, ?_, ?_⟩⟩
  · obtain rfl := List.mem_singleton.mp ho
    simp
  · have hne' : o ≠ .db d := fun heq => ho (heq ▸ List.mem_singleton_self _)
    simp [update_of_ne hne, update_of_ne hne']
  · exact Finset.mem_insert_self (ObjId.snapshot _) _
  · simpa using hnew
  · rw [World.refs_setPtr]
    exact World.refs_addSnapshot ..

end Iff

/-- **References are taken all or nothing** exactly if the database is closed, the native
allocation succeeds, or what it needs does not live, which ends the process. -/
theorem allOrNothing_iff (env : Env) (w : World) (d : ℕ) :
    (∀ snapshot,
      AllOrNothing w (DB.iterator env d snapshot) .iterator (iteratorRefs d snapshot) ↔
        w.ptr (.db d) = 0 ∨ env.newPtr ≠ 0 ∨ ¬ Usable w d snapshot) ∧
    (AllOrNothing w (DB.getSnapshot env d) .snapshot [.db d] ↔
      w.ptr (.db d) = 0 ∨ env.newPtr ≠ 0 ∨ ¬ Usable w d none) := by
  refine ⟨fun snapshot => ⟨fun hall => ?_, fun h => ?_⟩, fun hall => ?_, fun h => ?_⟩
  · by_contra hnot
    obtain ⟨hp, hnot⟩ := not_or.mp hnot
    obtain ⟨hnew, hu⟩ := not_or.mp hnot
    obtain ⟨⟨path, hd⟩, hsn⟩ := not_not.mp hu
    have hmem : .db d ∈ iteratorRefs d snapshot := by simp [iteratorRefs]
    refine not_allOrNothing hmem ?_ hall
    refine ends_iterator.mpr ⟨fun h0 => absurd h0 hp, fun _ => ?_⟩
    refine (ends_nativeIterator hd hsn).mono ?_ fun _ _ h => h.elim
    rintro _ s ⟨rfl, -⟩
    refine ⟨fun _ => ⟨⟨_, rfl⟩, ?_⟩, fun h0 => absurd (not_not.mp hnew) h0⟩
    have hone : (iteratorRefs d snapshot).count (.db d) = 1 := by
      cases snapshot <;> simp [iteratorRefs]
    simp [count_refAll, hone]
  · by_cases hp : w.ptr (.db d) = 0
    · exact allOrNothing_of_ends (ends_iterator.mpr ⟨fun _ => .inr rfl, fun hne => absurd hp hne⟩)
    · by_cases hu : Usable w d snapshot
      · exact iterator_allOrNothing ((h.resolve_left hp).resolve_right (not_not.mpr hu)) hu
      · exact allOrNothing_of_ends (ends_iterator.mpr ⟨fun _ => .inr rfl, fun _ =>
          (ends_nativeIterator_undefined hu).mono (fun _ _ h => h.elim) fun _ _ h => .inl h⟩)
  · by_contra hnot
    obtain ⟨hp, hnot⟩ := not_or.mp hnot
    obtain ⟨hnew, hu⟩ := not_or.mp hnot
    obtain ⟨⟨path, hd⟩, -⟩ := not_not.mp hu
    refine not_allOrNothing (List.mem_singleton_self _) ?_ hall
    refine ends_getSnapshot.mpr ⟨fun h0 => absurd h0 hp, fun _ => ?_⟩
    refine (ends_nativeGetSnapshot hd).mono ?_ fun _ _ h => h.elim
    rintro _ s ⟨rfl, -⟩
    refine ⟨fun _ => ⟨⟨_, rfl⟩, ?_⟩, fun h0 => absurd (not_not.mp hnew) h0⟩
    simp
  · by_cases hp : w.ptr (.db d) = 0
    · exact allOrNothing_of_ends
        (ends_getSnapshot.mpr ⟨fun _ => .inr rfl, fun hne => absurd hp hne⟩)
    · by_cases hu : Usable w d none
      · exact getSnapshot_allOrNothing ((h.resolve_left hp).resolve_right (not_not.mpr hu)) hu
      · have hnone : ¬ ∃ path, w.kinds (w.ptr (.db d)) = some (.db path) :=
          fun hd => hu ⟨hd, .inl rfl⟩
        exact allOrNothing_of_ends (ends_getSnapshot.mpr ⟨fun _ => .inr rfl, fun _ =>
          (ends_nativeGetSnapshot_undefined hnone).mono (fun _ _ h => h.elim)
            fun _ _ h => .inl h⟩)

/-- A new database, opened. -/
def openDB : JavaM ℕ := do
  let d ← DB.new (some "/db")
  DB.open fineEnv d
  pure d

/-- An iterator that could not be allocated keeps its reference to the database, so that to close
the only handle does not close the native database and leaves it locked. -/
theorem iterator_leaks : ∃ w w' w'' t,
    openDB .empty = .ok 0 w ∧
    DB.iterator { fineEnv with newPtr := 0 } 0 none w = .error (.thrown t) w' ∧
    ¬ AllOrNothing w (DB.iterator { fineEnv with newPtr := 0 } 0 none) .iterator
      (iteratorRefs 0 none) ∧
    DB.close fineEnv 0 w' = .ok () w'' ∧ "/db" ∈ w''.locks ∧ w''.ptr (.db 0) ≠ 0 := by
  refine ⟨_, _, _, _, rfl, rfl, fun h => ?_, rfl, ?_, ?_⟩
  · have hcount := (h.thrown _ _ rfl (.db 0) (by decide)).1
    cases hcount
  · decide
  · decide

end Java
