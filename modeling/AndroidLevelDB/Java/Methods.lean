import AndroidLevelDB.Java.Release
import AndroidLevelDB.Java.Acquisition
import AndroidLevelDB.Java.Opening
import AndroidLevelDB.Java.Creation
import AndroidLevelDB.Java.Steps

/-!
# Java/Methods — what the methods do to the invariant

However a method ends, the invariant holds again and the objects it created are owned
(`Continues`): for the methods that create, for `open`, and for those that leave the objects as they
are.
-/

open Leveldb Jni Function

namespace Java

/-! ## Methods that work on the native side only -/

/-- Only the native side has changed, and that by `R`. -/
def OnNative (R : Native → Native → Prop) (w w' : World) : Prop :=
  ∃ s, w' = { w with toNative := s } ∧ R w.toNative s

section OnNative

variable {R : Native → Native → Prop}

instance instReflOnNative [Std.Refl R] : Std.Refl (OnNative R) :=
  ⟨fun w => ⟨w.toNative, rfl, Std.Refl.refl _⟩⟩

instance instTransOnNative [IsTrans Native R] : IsTrans World (OnNative R) := by
  refine ⟨?_⟩
  rintro w _ _ ⟨s, rfl, hs⟩ ⟨s', rfl, hs'⟩
  exact ⟨s', rfl, Trans.trans hs hs'⟩

theorem keeps_call {α : Type} {m : JniM α} (h : Keeps R m) : Keeps (OnNative R) (call m) := by
  intro w
  rw [ends_call]
  exact (h w.toNative).mono (fun _ s hs => ⟨s, rfl, hs⟩) fun _ s hs => ⟨s, rfl, hs⟩

variable [Std.Refl R] [IsTrans Native R] {env : Env}

/-- `R` is kept by the native functions that neither create nor free. -/
structure KeptByNatives (R : Native → Native → Prop) (env : Env) : Prop where
  nativeGet : ∀ ptr snapshot key, Keeps R (Jni.DB.nativeGet ptr snapshot key)
  nativeGetBB : ∀ ptr snapshot key, Keeps R (Jni.DB.nativeGetBB ptr snapshot key)
  nativePut : ∀ ptr key value, Keeps R (Jni.DB.nativePut env ptr key value)
  nativeDelete : ∀ ptr key, Keeps R (Jni.DB.nativeDelete env ptr key)
  nativeWrite : ∀ ptr batch, Keeps R (Jni.DB.nativeWrite env ptr batch)
  move : ∀ valid f ptr, Keeps R (Jni.Iterator.move valid f ptr)
  read : ∀ {α : Type} (valid : Bool) (f : DBIter InternalIterator → α) (ptr : ℕ),
    Keeps R (Jni.Iterator.read valid f ptr)
  batchPut : ∀ ptr key value, Keeps R (Jni.WriteBatch.nativePut ptr key value)
  batchDelete : ∀ ptr key, Keeps R (Jni.WriteBatch.nativeDelete ptr key)
  batchClear : ∀ ptr, Keeps R (Jni.WriteBatch.nativeClear ptr)

omit [Std.Refl R] [IsTrans Native R] in
theorem KeptByNatives.quiet {α : Type} {m : JniM α} (h : KeptByNatives R env)
    (hm : Jni.Quiet env m) : Keeps R m := by
  cases hm with
  | nativeGet dbPtr snapshotPtr key => exact h.nativeGet dbPtr snapshotPtr key
  | nativeGetBB dbPtr snapshotPtr keyObj => exact h.nativeGetBB dbPtr snapshotPtr keyObj
  | nativePut dbPtr key value => exact h.nativePut dbPtr key value
  | nativeDelete dbPtr key => exact h.nativeDelete dbPtr key
  | nativeWrite dbPtr batchPtr => exact h.nativeWrite dbPtr batchPtr
  | move valid f iterPtr => exact h.move valid f iterPtr
  | read valid f iterPtr => exact h.read valid f iterPtr
  | batchPut ptr keyObj valObj => exact h.batchPut ptr keyObj valObj
  | batchDelete ptr buffer => exact h.batchDelete ptr buffer
  | batchClear ptr => exact h.batchClear ptr

/-- **A method that uses an object does to the objects what its native function does.** -/
theorem methodSteps_onNative (h : ∀ {α : Type} {m : JniM α}, Jni.Quiet env m → Keeps R m) :
    MethodSteps env (Keeps (OnNative R)) where
  toCompositional := Keeps.compositional
  throw _ := Keeps.throw _
  quiet hm := keeps_call (h hm)

end OnNative

/-! ## Methods that create -/

/-- `w'` comes after `w`: the invariant holds, and new objects are owned. -/
structure Continues (w : World) (own revived stale : Finset ObjId) (w' : World) : Prop where
  created : w.created ⊆ w'.created
  held : Held w' (own ∪ w'.created \ w.created) revived stale []

/-- However `m` ends, unless it ends the process, `P` holds. -/
def Leaves {α : Type} (m : JavaM α) (w : World) (P : World → Prop) : Prop :=
  Ends m w (fun _ => P) fun e w' => e ≠ .crash → P w'

namespace Continues

variable {w w' : World} {own revived stale : Finset ObjId} {j : ObjId}

theorem of_created_eq (hcr : w'.created = w.created) (h : Held w' own revived stale []) :
    Continues w own revived stale w' := by
  refine ⟨hcr.ge, ?_⟩
  rwa [hcr, Finset.sdiff_self, Finset.union_empty]

theorem of_insert (hcr : w'.created = insert j w.created) (hj : j ∉ w.created)
    (h : Held w' (insert j own) revived stale []) : Continues w own revived stale w' := by
  refine ⟨hcr ▸ Finset.subset_insert _ _, ?_⟩
  rwa [hcr, Finset.insert_sdiff_cancel hj, Finset.union_comm, ← Finset.insert_eq]

end Continues

/-- `new` returns memory where nothing lives. -/
def Fresh (env : Env) (w : World) : Prop := env.newPtr ≠ 0 → w.heap env.newPtr = none

theorem Fresh.kinds {env : Env} {w : World} (h : Fresh env w) (hp : env.newPtr ≠ 0) :
    w.kinds env.newPtr = none := by
  rw [Native.kinds, h hp]
  rfl

namespace World

variable (w : World) (d : ℕ)

theorem kindOf_addSnapshot :
    (w.addSnapshot d).kindOf (.snapshot w.fresh) = .snapshot (w.ptr (.db d)) := by
  have hdb : (w.addSnapshot d).snapshotDB w.fresh = d := update_self ..
  rw [kindOf, hdb, ptr_addSnapshot]

theorem kindOf_addIterator (snapshot : Option ℕ) :
    (w.addIterator d snapshot).kindOf (.iterator w.fresh)
      = .iterator (w.ptr (.db d)) (w.snapshotArg snapshot) := by
  have hdb : (w.addIterator d snapshot).iteratorDB w.fresh = d := update_self ..
  have hsn : (w.addIterator d snapshot).iteratorSnapshot w.fresh = snapshot := update_self ..
  rw [kindOf, hdb, hsn, ptr_addIterator]
  cases snapshot <;> rfl

theorem snapshotArg_refAll (snapshot sn : Option ℕ) :
    (w.refAll d snapshot).snapshotArg sn = w.snapshotArg sn := by
  cases sn with
  | none => rfl
  | some s => exact congrFun (ptr_refAll w d snapshot) _

end World

section Makes

variable {env : Env} {w : World} {own revived stale : Finset ObjId} {d : ℕ}

theorem leaves_newDB (h : Held w own revived stale []) (path : Option String) :
    Leaves (DB.new path) w (Continues w own revived stale) := by
  have hnew : .db w.fresh ∉ w.created := h.notMem_created rfl
  have hmade {w' : World} (hc : Constructs w (.db w.fresh) w') :
      Continues w own revived stale w' :=
    .of_insert hc.created hnew
      (h.construct rfl hc (fun _ hd => by cases hd) fun _ _ hj => by cases hj)
  rw [Leaves, DB.new]
  simp only [ends_bind, ends_get, ends_new]
  cases path with
  | none =>
    exact fun _ => hmade ⟨rfl, World.count_construct .., World.ptr_construct .., rfl, rfl,
      fun _ _ => rfl, fun _ _ => rfl, fun _ _ => rfl, fun _ _ => rfl⟩
  | some path =>
    exact hmade ⟨rfl, World.count_construct .., World.ptr_construct .., rfl, rfl,
      fun _ hd => update_of_ne (fun heq => hd (congrArg ObjId.db heq)) .., fun _ _ => rfl,
      fun _ _ => rfl, fun _ _ => rfl⟩

theorem leaves_newBatch (h : Held w own revived stale []) (hfree : Fresh env w) :
    Leaves (WriteBatch.new env) w (Continues w own revived stale) := by
  have hnew : .batch w.fresh ∉ w.created := h.notMem_created rfl
  have hc : Constructs w (.batch w.fresh) (w.construct (.batch w.fresh)) :=
    ⟨rfl, World.count_construct .., World.ptr_construct .., rfl, rfl, fun _ _ => rfl,
      fun _ _ => rfl, fun _ _ => rfl, fun _ _ => rfl⟩
  rw [Leaves, WriteBatch.new]
  simp only [ends_bind, ends_call, ends_get, ends_newPtr, ends_pure]
  refine ends_batchCreate.mono ?_ fun _ _ hf => hf.elim
  rintro _ s ⟨rfl, hs⟩
  obtain ⟨hnull, hptr⟩ := h.make rfl hc (fun _ hd => by cases hd) (fun _ _ hj => by cases hj) hs
    hfree.kinds fun _ hk => by cases hk
  exact ⟨fun h0 _ => .of_insert rfl hnew (hnull h0), fun h0 => .of_insert rfl hnew (hptr h0)⟩

/-- A live database with a pointer has a native database there. -/
theorem Held.kind_db (h : Held w own revived stale []) (hlive : 0 < w.count (.db d))
    (hp : w.ptr (.db d) ≠ 0) : w.kinds (w.ptr (.db d)) = some (.db (w.mPath d)) :=
  h.kind _ ((h.counted.live_iff _).mpr hlive) hp

theorem leaves_getSnapshot (h : Held w own revived stale []) (hfree : Fresh env w)
    (hlive : w.ptr (.db d) ≠ 0 → 0 < w.count (.db d)) :
    Leaves (DB.getSnapshot env d) w (Continues w own revived stale) := by
  rw [Leaves, ends_getSnapshot]
  refine ⟨fun _ _ => .of_created_eq rfl h, fun hp => ?_⟩
  have hd := hlive hp
  refine (ends_nativeGetSnapshot (h.kind_db hd hp)).mono ?_ fun _ _ hf => hf.elim
  rintro _ s ⟨rfl, hs⟩
  have href : Held (w.ref (.db d)) own revived stale [.db d] :=
    h.acquire ((h.counted.live_iff _).mpr hd)
  have hnew := h.notMem_created (j := .snapshot w.fresh) rfl
  have hc : Constructs (w.ref (.db d)) (.snapshot w.fresh) ((w.ref (.db d)).addSnapshot d) :=
    ⟨rfl, World.count_addSnapshot .., World.ptr_addSnapshot .., rfl, rfl, fun _ _ => rfl,
      fun _ hs => update_of_ne (fun heq => hs (congrArg ObjId.snapshot heq)) .., fun _ _ => rfl,
      fun _ _ => rfl⟩
  have hrefs : ((w.ref (.db d)).addSnapshot d).refs (.snapshot w.fresh) = [.db d] :=
    World.refs_addSnapshot ..
  have hkind : ((w.ref (.db d)).addSnapshot d).kindOf (.snapshot w.fresh)
      = .snapshot (w.ptr (.db d)) := by
    rw [← World.ptr_ref w (.db d)]
    exact World.kindOf_addSnapshot ..
  obtain ⟨hnull, hptr⟩ := Held.make (by rwa [hrefs]) rfl hc
    (fun d' hd' => by
      obtain rfl : d' = d := by simpa [hrefs] using hd'
      rwa [World.ptr_ref])
    (fun _ _ hj => by cases hj) (hkind ▸ hs) hfree.kinds (by simp [hkind])
  exact ⟨fun h0 _ => .of_insert rfl hnew (hnull h0), fun h0 => .of_insert rfl hnew (hptr h0)⟩

/-- **The references that `iterator` takes.**  Those to live objects are counted; a released
snapshot is revived. -/
theorem Held.refAll (h : Held w own revived stale []) {snapshot : Option ℕ}
    (hp : w.ptr (.db d) ≠ 0) (hcr : ∀ o ∈ iteratorRefs d snapshot, o ∈ w.created)
    (hlive : ∀ o ∈ iteratorRefs d snapshot, w.ptr o ≠ 0 → 0 < w.count o) :
    ∃ revived', ((∀ s, snapshot = some s → w.ptr (.snapshot s) ≠ 0) → revived' = revived) ∧
      Held (w.refAll d snapshot) own revived' stale (iteratorRefs d snapshot) := by
  have hd : .db d ∈ w.live :=
    (h.counted.live_iff _).mpr (hlive (.db d) (by simp [iteratorRefs]) hp)
  have href : Held (w.ref (.db d)) own revived stale [.db d] := h.acquire hd
  cases snapshot with
  | none => exact ⟨revived, fun _ => rfl, href⟩
  | some s =>
    have hcount : (w.ref (.db d)).count (.snapshot s) = w.count (.snapshot s) := by
      rw [World.count_ref]
      exact update_of_ne (by simp) ..
    have hlive_iff : .snapshot s ∈ (w.ref (.db d)).live ↔ 0 < w.count (.snapshot s) := by
      rw [href.counted.live_iff, hcount]
    by_cases hs : 0 < w.count (.snapshot s)
    · exact ⟨revived, fun _ => rfl, href.acquire (hlive_iff.mpr hs)⟩
    · have h0 : w.ptr (.snapshot s) = 0 := by
        by_contra hps
        exact hs (hlive (.snapshot s) (by simp [iteratorRefs]) hps)
      refine ⟨insert (.snapshot s) revived, fun hst => absurd h0 (hst s rfl), ?_⟩
      refine href.revive (hcr (.snapshot s) (by simp [iteratorRefs])) (fun hl => hs ?_) ?_
      · exact hlive_iff.mp hl
      · rwa [World.ptr_ref]

theorem leaves_iterator (h : Held w own revived stale []) {snapshot : Option ℕ}
    (hfree : Fresh env w) (hcr : ∀ o ∈ iteratorRefs d snapshot, o ∈ w.created)
    (hlive : ∀ o ∈ iteratorRefs d snapshot, w.ptr o ≠ 0 → 0 < w.count o)
    (hsame : ∀ s, snapshot = some s → w.snapshotDB s = d) :
    Leaves (DB.iterator env d snapshot) w fun w' => ∃ revived',
      ((∀ s, snapshot = some s → w.ptr (.db d) = 0 ∨ w.ptr (.snapshot s) ≠ 0) →
        revived' = revived) ∧ Continues w own revived' stale w' := by
  rw [Leaves, ends_iterator]
  refine ⟨fun _ _ => ⟨revived, fun _ => rfl, .of_created_eq rfl h⟩, fun hp => ?_⟩
  obtain ⟨revived', hrev, href⟩ := h.refAll hp hcr hlive
  set w₁ := w.refAll d snapshot with hw₁
  have hptr₁ : w₁.ptr = w.ptr := World.ptr_refAll ..
  have hfresh : w₁.fresh = w.fresh := World.fresh_refAll ..
  have hnat : w₁.toNative = w.toNative := World.toNative_refAll ..
  have hcr₁ : w₁.created = w.created := by
    rw [hw₁]
    cases snapshot <;> rfl
  have hsdb : w₁.snapshotDB = w.snapshotDB := by
    rw [hw₁]
    cases snapshot <;> rfl
  have hdb := h.kind_db (hlive (.db d) (by simp [iteratorRefs]) hp) hp
  have hsn : w.snapshotArg snapshot = 0 ∨
      ∃ d', w.kinds (w.snapshotArg snapshot) = some (.snapshot d') := by
    cases snapshot with
    | none => exact .inl rfl
    | some s =>
      refine or_iff_not_imp_left.mpr fun hps => ?_
      have hsl := hlive (.snapshot s) (by simp [iteratorRefs]) hps
      exact ⟨_, h.kind _ ((h.counted.live_iff _).mpr hsl) hps⟩
  refine (ends_nativeIterator hdb hsn).mono ?_ fun _ _ hf => hf.elim
  rintro _ s ⟨rfl, hs⟩
  have hnew := href.notMem_created (j := .iterator w₁.fresh) rfl
  have hc : Constructs w₁ (.iterator w₁.fresh) (w₁.addIterator d snapshot) :=
    ⟨rfl, World.count_addIterator .., World.ptr_addIterator .., rfl, rfl, fun _ _ => rfl,
      fun _ _ => rfl, fun _ hi => update_of_ne (fun heq => hi (congrArg ObjId.iterator heq)) ..,
      fun _ hi => update_of_ne (fun heq => hi (congrArg ObjId.iterator heq)) ..⟩
  have hrefs : (w₁.addIterator d snapshot).refs (.iterator w₁.fresh) = iteratorRefs d snapshot :=
    World.refs_addIterator ..
  have hkind : (w₁.addIterator d snapshot).kindOf (.iterator w₁.fresh)
      = .iterator (w.ptr (.db d)) (w.snapshotArg snapshot) := by
    rw [World.kindOf_addIterator, hptr₁, hw₁, World.snapshotArg_refAll]
  obtain ⟨hnull, hptr⟩ := Held.make (by rwa [hrefs, List.append_nil]) rfl hc
    (fun d' hd' => by
      obtain rfl : d' = d := by simpa [hrefs, iteratorRefs] using hd'
      rwa [hptr₁])
    (fun i sn hi hsn => by
      obtain rfl : w₁.fresh = i := ObjId.iterator.inj hi
      have hsn' : (w₁.addIterator d snapshot).iteratorSnapshot w₁.fresh = snapshot := update_self ..
      have hdb' : (w₁.addIterator d snapshot).iteratorDB w₁.fresh = d := update_self ..
      rw [hdb', ← hsame sn (hsn'.symm.trans hsn), ← hsdb]
      rfl)
    (hkind ▸ hnat ▸ hs) (by rw [hnat]; exact hfree.kinds) (by simp [hkind])
  have hstrict : (∀ s, snapshot = some s → w.ptr (.db d) = 0 ∨ w.ptr (.snapshot s) ≠ 0) →
      revived' = revived := fun hst => hrev fun s hs => (hst s hs).resolve_left hp
  rw [hfresh] at hnew hnull hptr
  have hcr' : (w₁.addIterator d snapshot).created = insert (.iterator w.fresh) w.created := by
    rw [hc.created, hfresh, hcr₁]
  rw [hcr₁] at hnew
  exact ⟨fun h0 _ => ⟨revived', hstrict, .of_insert hcr' hnew (hnull h0)⟩,
    fun h0 => ⟨revived', hstrict, .of_insert hcr' hnew (hptr h0)⟩⟩

/-! ## Opening -/

/-- The objects that are not live may keep their addresses. -/
theorem Held.mono_stale {stale' : Finset ObjId} (h : Held w own revived stale [])
    (hs : stale ⊆ stale') : Held w own revived stale' [] :=
  h.transfer (.of_ptr rfl rfl rfl rfl rfl rfl rfl rfl) rfl h.counted Finset.Subset.rfl
    h.ptr_disowned fun o ho => (h.ptr_dead o ho).imp_right fun hmem => hs hmem

/-- Where no native database lies at its address, the address of a database may be set to 0. -/
theorem Held.setPtr_zero (h : Held w own revived stale [])
    (hp : .db d ∈ w.live → w.ptr (.db d) = 0) :
    Held (w.setPtr (.db d) 0) own revived stale [] := by
  by_cases hd : .db d ∈ w.live
  · have hset : w.setPtr (.db d) 0 = w := by
      have hobj : { w.object (.db d) with mPtr := 0 } = w.object (.db d) := by
        rw [← hp hd]
        rfl
      rw [World.setPtr, hobj, update_eq_self]
    rwa [hset]
  · exact (h.mono_stale (Finset.subset_insert _ _)).clear hd

/-- The database of a live object that has a pointer cannot be opened again. -/
theorem Held.openStatus_of_ptr (h : Held w own revived stale []) (env : Env) (hd : .db d ∈ w.live)
    (hp : w.ptr (.db d) ≠ 0) :
    w.openStatus env d = .ioError ("lock " ++ w.mPath d ++ "/LOCK") "already held by process" :=
  openStatus_of_locked env (h.locked _ _ (h.kind _ hd hp))

/-- **Opening keeps the invariant**, unless it succeeds for a database that counts no holder. -/
theorem ends_open_held (h : Held w own revived stale []) (hfree : Fresh env w)
    (hreopen : (w.openStatus env d).ok = true → 0 < w.count (.db d)) :
    Ends (DB.open env d) w
      (fun _ w' => Continues w own revived stale w' ∧ (w'.ptr (.db d) ≠ 0 → .db d ∈ own))
      fun e w' => e ≠ .crash → Continues w own revived stale w' := by
  rw [DB.open, ends_bind, ends_get, ends_bind, ends_call]
  by_cases hnew : env.newPtr = 0
  · rw [Jni.DB.nativeOpen, if_pos hnew]
    exact fun hne => absurd rfl hne
  refine (ends_nativeOpen hnew (w.mPath d)).mono ?_ ?_
  · rintro r s (⟨hok, hlock, rfl, hs⟩ | ⟨hok, hthrow, rfl, hsame⟩)
    · have hcount := hreopen hok
      have hd : .db d ∈ w.live := (h.counted.live_iff _).mpr hcount
      have h0 : w.ptr (.db d) = 0 := by
        by_contra hp
        exact hlock (h.locked _ _ (h.kind _ hd hp))
      -- without a native database there are no children
      have hno : ∀ o ∈ w.live, .db d ∉ w.held revived o := fun o ho hmem =>
        h.db_open o ho d hmem h0
      have hr : .db d ∉ revived := fun hr => by
        obtain ⟨-, -, s, hs⟩ := h.revived_live _ hr
        cases hs
      have hown : .db d ∈ own := by
        by_contra hown
        exact h.ptr_disowned _ hd hown hr h0
      refine ⟨.of_created_eq rfl (h.attach hd hr h0 hno (hfree.kinds hnew) hs ?_), fun _ => hown⟩
      rintro path hpath hmem
      obtain rfl : w.mPath d = path := Kind.db.inj hpath
      exact hlock hmem
    · refine ⟨.of_created_eq rfl ?_, fun hp => absurd ?_ hp⟩
      · refine (h.native hsame).setPtr_zero fun hd => ?_
        by_contra hp
        have hstatus := h.openStatus_of_ptr env hd hp
        simp only [World.openStatus] at hstatus
        rw [hstatus] at hthrow
        cases hthrow
      · rw [World.ptr_setPtr, update_self]
  · rintro e s ⟨-, -, hsame⟩ -
    exact .of_created_eq rfl (h.native hsame)

/-! ## Methods that create and free no objects -/

theorem leaves_destroyPath (h : Held w own revived stale []) (path : String) :
    Leaves (DB.destroyPath env path) w (Continues w own revived stale) := by
  refine Held.ends_destroyPath.mono ?_ ?_
  · rintro _ _ ⟨-, s, rfl, hsame⟩
    exact .of_created_eq rfl (h.native hsame)
  · rintro _ _ ⟨-, s, rfl, hsame⟩ -
    exact .of_created_eq rfl (h.native hsame)

theorem leaves_destroy (h : Held w own revived stale []) :
    Leaves (DB.destroy env d) w (Continues w own revived stale) := by
  have hflag : Held { w with mDestroyOnClose := update w.mDestroyOnClose d true }
      own revived stale [] :=
    h.transfer (.of_ptr rfl rfl rfl rfl rfl rfl rfl rfl) rfl h.counted Finset.Subset.rfl
      h.ptr_disowned h.ptr_dead
  rw [Leaves, DB.destroy, ends_bind, ends_modify, ends_bind, ends_get, ends_ite]
  refine ⟨fun _ => ?_, fun _ => .of_created_eq rfl hflag⟩
  exact (leaves_destroyPath hflag _).mono (fun _ _ hc => ⟨hc.created, hc.held⟩)
    fun _ _ hc hne => ⟨(hc hne).created, (hc hne).held⟩

theorem keptByNatives_skeleton (env : Env) : KeptByNatives SameSkeleton env where
  nativeGet := Jni.DB.keeps_nativeGet
  nativeGetBB := Jni.DB.keeps_nativeGetBB
  nativePut := Jni.DB.keeps_nativePut env
  nativeDelete := Jni.DB.keeps_nativeDelete env
  nativeWrite := Jni.DB.keeps_nativeWrite env
  move := Jni.Iterator.keeps_move
  read := Jni.Iterator.keeps_read
  batchPut := Jni.WriteBatch.keeps_nativePut
  batchDelete := Jni.WriteBatch.keeps_nativeDelete
  batchClear := Jni.WriteBatch.keeps_nativeClear

theorem leaves_native {α : Type} {m : JavaM α} (h : Held w own revived stale [])
    (hm : Keeps (OnNative SameSkeleton) m) : Leaves m w (Continues w own revived stale) := by
  refine (hm w).mono ?_ ?_
  · rintro _ _ ⟨s, rfl, hs⟩
    exact .of_created_eq rfl (h.native hs)
  · rintro _ _ ⟨s, rfl, hs⟩ -
    exact .of_created_eq rfl (h.native hs)

end Makes

end Java
