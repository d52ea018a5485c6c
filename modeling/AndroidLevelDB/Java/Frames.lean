import AndroidLevelDB.Java.Runs

/-!
# Java/Frames — what every call keeps

What holds of the steps of a call, and of a program if it holds of the parts, holds of every call
but `close` (`CallSteps.run`).  What the elementary steps on the objects keep is kept by every call,
however it ends (`KeptBySteps.keeps_run`), and so by every run.
-/

open Leveldb Jni Function

namespace Java

/-! ## Calls that do not close -/

/-- `P` holds of the steps of a call that does not close. -/
structure CallSteps (env : Env) (c : Call) (P : ∀ {α : Type}, JavaM α → Prop) : Prop
    extends MethodSteps env P where
  nativeOpen : ∀ path, P (call (Jni.DB.nativeOpen env path))
  nativeDestroy : ∀ path, P (call (Jni.DB.nativeDestroy env path))
  nativeIterator : ∀ dbPtr snapshotPtr, P (call (Jni.DB.nativeIterator env dbPtr snapshotPtr))
  nativeGetSnapshot : ∀ dbPtr, P (call (Jni.DB.nativeGetSnapshot env dbPtr))
  batchCreate : P (call (Jni.WriteBatch.nativeCreate env))
  ref : ∀ o, P (NativeObject.ref o)
  created : ∀ o, P (modify fun w => { w with created := insert o w.created } : JavaM PUnit)
  setPtr : ∀ o p, P (modify fun w => w.setPtr o p : JavaM PUnit)
  mPath : ∀ d path, P (modify fun w => { w with mPath := update w.mPath d path } : JavaM PUnit)
  mDestroyOnClose : ∀ d, P (modify fun w =>
    { w with mDestroyOnClose := update w.mDestroyOnClose d true } : JavaM PUnit)
  snapshotDB : ∀ s d, P (modify fun w =>
    { w with snapshotDB := update w.snapshotDB s d } : JavaM PUnit)
  newIterator : ∀ i d snapshot, c = .iterator d snapshot → P (modify fun w =>
    { w with
      iteratorDB := update w.iteratorDB i d
      iteratorSnapshot := update w.iteratorSnapshot i snapshot } : JavaM PUnit)

namespace CallSteps

variable {env : Env} {c : Call} {P : ∀ {α : Type}, JavaM α → Prop}

theorem newPtr (h : CallSteps env c P) (o : ObjId) (p : ℕ) : P (NativeObject.newPtr o p) :=
  h.bind (h.bind (h.created o) fun _ => h.ref o) fun _ => h.ite (h.throw nofun) (h.setPtr o p)

theorem iterator {d : ℕ} {snapshot : Option ℕ} (h : CallSteps env (.iterator d snapshot) P) :
    P (DB.iterator env d snapshot) := by
  have hmake : P (do
      let ptr ← call (Jni.DB.nativeIterator env (← NativeObject.getPtr (.db d))
        (← DB.snapshotPtr snapshot))
      DB.newIterator d snapshot ptr) := by
    refine h.bind (h.getPtr _) fun _ => h.bind (h.snapshotPtr _) fun _ => ?_
    refine h.bind (h.nativeIterator _ _) fun _ => h.bind h.get fun _ => ?_
    refine h.bind (h.newIterator _ d snapshot rfl) fun _ => ?_
    exact h.bind (h.newPtr _ _) fun _ => h.pure _
  refine h.bind (h.assertOpen _ (by decide)) fun _ => h.bind (h.ref _) fun _ => ?_
  cases snapshot with
  | none => exact hmake
  | some s => exact h.bind (h.ref _) fun _ => hmake

theorem getSnapshot (h : CallSteps env c P) (d : ℕ) : P (DB.getSnapshot env d) := by
  refine h.bind (h.assertOpen _ (by decide)) fun _ => h.bind (h.ref _) fun _ => ?_
  refine h.bind (h.getPtr _) fun _ => h.bind (h.nativeGetSnapshot _) fun _ => ?_
  refine h.bind h.get fun _ => h.bind (h.snapshotDB _ _) fun _ => ?_
  exact h.bind (h.newPtr _ _) fun _ => h.pure _

/-- **Every call but `close`.** -/
theorem run (h : CallSteps env c P) (hc : ∀ o, c ≠ .close o) : P (c.run env) := by
  cases c with
  | newDB path =>
    refine h.bind (h.bind h.get fun _ => ?_) fun _ => h.pure _
    refine h.bind (h.bind (h.created _) fun _ => h.ref _) fun _ => ?_
    exact h.bind (h.nonNull _ _) fun _ => h.bind (h.mPath _ _) fun _ => h.pure _
  | openDB d =>
    exact h.bind h.get fun _ => h.bind (h.nativeOpen _) fun _ => h.setPtr _ _
  | close o => exact absurd rfl (hc o)
  | iterator d snapshot => exact h.bind h.iterator fun _ => h.pure _
  | getSnapshot d => exact h.bind (h.getSnapshot d) fun _ => h.pure _
  | destroy d =>
    exact h.bind (h.mDestroyOnClose d) fun _ => h.bind h.get fun _ =>
      h.ite (h.nativeDestroy _) (h.pure _)
  | destroyPath path => exact h.nativeDestroy path
  | newBatch =>
    refine h.bind (h.bind h.batchCreate fun _ => h.bind h.get fun _ => ?_) fun _ => h.pure _
    exact h.bind (h.newPtr _ _) fun _ => h.pure _
  | _ => exact h.toMethodSteps.run trivial

end CallSteps

/-! ## What a call keeps -/

/-- `R` is kept by the elementary steps of a call. -/
structure KeptBySteps (R : World → World → Prop) (c : Call) : Prop where
  native : ∀ w s, R w { w with toNative := s }
  setPtr : ∀ w o p, R w (w.setPtr o p)
  setRefCount : ∀ w o n, R w (w.setRefCount o n)
  created : ∀ w o, R w { w with created := insert o w.created }
  closing : ∀ w o p, R w { w with closings := (o, p) :: w.closings }
  mPath : ∀ w mPath, R w { w with mPath := mPath }
  mDestroyOnClose : ∀ w flags, R w { w with mDestroyOnClose := flags }
  snapshotDB : ∀ w snapshotDB, R w { w with snapshotDB := snapshotDB }
  newIterator : ∀ w i d snapshot, c = .iterator d snapshot →
    R w { w with
      iteratorDB := update w.iteratorDB i d
      iteratorSnapshot := update w.iteratorSnapshot i snapshot }

namespace KeptBySteps

variable {R : World → World → Prop} [Std.Refl R] [IsTrans World R] {env : Env} {c : Call}

omit [Std.Refl R] [IsTrans World R] in
theorem call {α : Type} (h : KeptBySteps R c) (m : JniM α) : Keeps R (Java.call m) := by
  intro w
  rw [ends_call, Ends]
  split <;> exact h.native _ _

theorem callSteps (h : KeptBySteps R c) : CallSteps env c (Keeps R) where
  toCompositional := Keeps.compositional
  throw _ := Keeps.throw _
  quiet _ := h.call _
  nativeOpen _ := h.call _
  nativeDestroy _ := h.call _
  nativeIterator _ _ := h.call _
  nativeGetSnapshot _ := h.call _
  batchCreate := h.call _
  ref _ := Keeps.modify fun _ => h.setRefCount ..
  created _ := Keeps.modify fun _ => h.created ..
  setPtr _ _ := Keeps.modify fun _ => h.setPtr ..
  mPath _ _ := Keeps.modify fun _ => h.mPath ..
  mDestroyOnClose _ := Keeps.modify fun _ => h.mDestroyOnClose ..
  snapshotDB _ _ := Keeps.modify fun _ => h.snapshotDB ..
  newIterator _ d snapshot hc := Keeps.modify fun _ => h.newIterator _ _ d snapshot hc

omit [IsTrans World R] in
theorem keeps_getPtr (o : ObjId) : Keeps R (NativeObject.getPtr o) := fun w => Std.Refl.refl w

theorem unref (h : KeptBySteps R c) {f : ℕ → JavaM Unit} {o : ObjId} (hf : ∀ p, Keeps R (f p)) :
    Keeps R (NativeObject.unref f o) := by
  refine Keeps.bind Keeps.get fun _ => Keeps.ite (Keeps.throw _) ?_
  refine Keeps.bind (Keeps.modify fun _ => h.setRefCount ..) fun _ => Keeps.ite ?_ (Keeps.pure _)
  refine Keeps.bind (Keeps.modify fun _ => h.closing ..) fun _ => ?_
  exact Keeps.bind (hf _) fun _ => Keeps.modify fun _ => h.setPtr ..

theorem closeNativeObject (h : KeptBySteps R c) (o : ObjId) (p : ℕ) :
    Keeps R (closeNativeObject env o p) := by
  have hdb (d p : ℕ) : Keeps R (DB.closeNativeObject env d p) :=
    Keeps.bind (h.call _) fun _ => Keeps.bind Keeps.get fun _ =>
      Keeps.ite (h.call _) (Keeps.pure _)
  have hsnapshot (s p : ℕ) : Keeps R (Snapshot.closeNativeObject env s p) :=
    Keeps.bind Keeps.get fun _ => Keeps.bind (keeps_getPtr _) fun _ =>
      Keeps.bind (keeps_getPtr _) fun _ => Keeps.bind (h.call _) fun _ => h.unref (hdb _)
  cases o with
  | db d => exact hdb d p
  | snapshot s => exact hsnapshot s p
  | iterator i =>
    refine Keeps.bind (h.call _) fun _ => Keeps.bind Keeps.get fun _ => ?_
    split
    · exact Keeps.bind (h.unref (hsnapshot _)) fun _ => h.unref (hdb _)
    · exact h.unref (hdb _)
  | batch b => exact h.call _

/-- **Every call keeps what its steps keep.** -/
theorem keeps_run (h : KeptBySteps R c) : Keeps R (c.run env) := by
  by_cases hc : ∃ o, c = .close o
  · obtain ⟨o, rfl⟩ := hc
    exact Keeps.bind (keeps_getPtr o) fun _ =>
      Keeps.ite (h.unref (h.closeNativeObject o)) (Keeps.pure _)
  · exact h.callSteps.run (not_exists.mp hc)

/-- **A run keeps what the steps of its calls keep.** -/
theorem of_run {P : Env → Client → Call → Prop} {σ σ' : Client}
    (h : ∀ env σ c, P env σ c → KeptBySteps R c) (hr : Run P σ σ') : R σ.world σ'.world := by
  induction hr with
  | refl => exact Std.Refl.refl _
  | @tail σ₁ σ₂ _ hs ih =>
    obtain ⟨env, c, -, -, hc, hafter⟩ := hs
    have hleaves : Leaves (c.run env) σ₁.world (R σ₁.world) :=
      ((h _ _ _ hc).keeps_run _).mono (fun _ _ hR => hR) fun _ _ hR _ => hR
    exact IsTrans.trans _ _ _ ih (Client.after_leaves hafter hleaves).1

end KeptBySteps

/-- What was closed so far stays closed. -/
def MoreClosings (w w' : World) : Prop := w.closings <:+ w'.closings

instance instReflMoreClosings : Std.Refl MoreClosings := ⟨fun _ => List.suffix_rfl⟩

instance instTransMoreClosings : IsTrans World MoreClosings := ⟨fun _ _ _ h h' => h.trans h'⟩

theorem keptBySteps_moreClosings (c : Call) : KeptBySteps MoreClosings c where
  native _ _ := List.suffix_rfl
  setPtr _ _ _ := List.suffix_rfl
  setRefCount _ _ _ := List.suffix_rfl
  created _ _ := List.suffix_rfl
  closing _ _ _ := List.suffix_cons ..
  mPath _ _ := List.suffix_rfl
  mDestroyOnClose _ _ := List.suffix_rfl
  snapshotDB _ _ := List.suffix_rfl
  newIterator _ _ _ _ _ := List.suffix_rfl

/-- No iterator is made with a snapshot. -/
def NoIteratorSnapshots (w w' : World) : Prop :=
  (∀ i, w.iteratorSnapshot i = none) → ∀ i, w'.iteratorSnapshot i = none

instance instReflNoIteratorSnapshots : Std.Refl NoIteratorSnapshots := ⟨fun _ h => h⟩

instance instTransNoIteratorSnapshots : IsTrans World NoIteratorSnapshots :=
  ⟨fun _ _ _ h h' hw => h' (h hw)⟩

theorem keptBySteps_noIteratorSnapshots {c : Call} (hc : ∀ d s, c ≠ .iterator d (some s)) :
    KeptBySteps NoIteratorSnapshots c where
  native _ _ h := h
  setPtr _ _ _ h := h
  setRefCount _ _ _ h := h
  created _ _ h := h
  closing _ _ _ h := h
  mPath _ _ h := h
  mDestroyOnClose _ _ h := h
  snapshotDB _ _ h := h
  newIterator w i d snapshot hcall h i' := by
    cases snapshot with
    | some s => exact absurd hcall (hc d s)
    | none =>
      rcases eq_or_ne i' i with rfl | hne
      · exact update_self ..
      · exact (update_of_ne hne ..).trans (h i')

end Java
