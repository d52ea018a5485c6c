import AndroidLevelDB.Lib.Deferred
import AndroidLevelDB.Jni.DataCalls
import AndroidLevelDB.Java.Runs

/-!
# Java/LastRelease — the calls that closing a handle makes

The events of a database are its native calls: it is acquired by `nativeOpen`, released by
`nativeClose`, and a request to destroy it is served by `nativeDestroy`.  To close a handle gives
back some references to the database (`World.given`); if these are the last ones, it is closed, and
right after that destroyed if the flag is set (`leaves_close`).

There is one database here, the first object made.
-/

open Leveldb Jni Function

namespace Java

/-- What a native call means for the database at `path`. -/
def signal (path : String) : NativeCall → Deferred.Event
  | .nativeOpen _ result => if result = 0 then .other else .acquire
  | .nativeClose _ => .release
  | .nativeDestroy dbpath => if dbpath = path then .serve else .other
  | _ => .other

theorem signal_of_isData {path : String} {call : NativeCall} (h : call.isData = true) :
    signal path call = .other := by
  cases call with
  | nativeOpen => cases h
  | nativeClose => cases h
  | nativeDestroy => cases h
  | _ => rfl

theorem DataCalls.around {s s' : Native} (h : DataCalls s s') (path : String) :
    ∃ new, s'.calls = new ++ s.calls ∧ Deferred.Around [] (new.reverse.map (signal path)) := by
  obtain ⟨-, new, hnew, hdata⟩ := h
  refine ⟨new, hnew, Deferred.Around.nil_iff.mpr fun e he => ?_⟩
  obtain ⟨call, hcall, rfl⟩ := List.mem_map.mp he
  exact signal_of_isData (hdata call (List.mem_reverse.mp hcall))

/-- The native calls made since mean the events `l`, and other ones; nothing was created. -/
structure Emits (l : List Deferred.Event) (w w' : World) : Prop where
  created : w'.created = w.created
  mPath : w'.mPath = w.mPath
  mDestroyOnClose : w'.mDestroyOnClose = w.mDestroyOnClose
  snapshotDB : w'.snapshotDB = w.snapshotDB
  iteratorDB : w'.iteratorDB = w.iteratorDB
  calls : ∃ new, w'.calls = new ++ w.calls ∧
    Deferred.Around l (new.reverse.map (signal (w.mPath 0)))

namespace Emits

variable {w w' w'' : World} {k l l' : List Deferred.Event}

/-- One part after the other, where `k` comes of `l` and then `l'`. -/
theorem append (h : Emits l w w') (h' : Emits l' w' w'')
    (hk : ∀ events events', Deferred.Around l events → Deferred.Around l' events' →
      Deferred.Around k (events ++ events')) : Emits k w w'' := by
  obtain ⟨new, hnew, haround⟩ := h.calls
  obtain ⟨new', hnew', haround'⟩ := h'.calls
  refine ⟨h'.created.trans h.created, h'.mPath.trans h.mPath,
    h'.mDestroyOnClose.trans h.mDestroyOnClose, h'.snapshotDB.trans h.snapshotDB,
    h'.iteratorDB.trans h.iteratorDB, new' ++ new, ?_, ?_⟩
  · rw [hnew', hnew, List.append_assoc]
  · rw [h.mPath] at haround'
    rw [List.reverse_append, List.map_append]
    exact hk _ _ haround haround'

theorem append_left (h : Emits [] w w') (h' : Emits l w' w'') : Emits l w w'' :=
  h.append h' fun _ _ hother hl => hother.append_left hl

theorem append_right (h : Emits l w w') (h' : Emits [] w' w'') : Emits l w w'' :=
  h.append h' fun _ _ hl hother => hl.append_right hother

/-- No call at all. -/
theorem of_calls_eq (hcr : w'.created = w.created) (hpath : w'.mPath = w.mPath)
    (hflag : w'.mDestroyOnClose = w.mDestroyOnClose) (hs : w'.snapshotDB = w.snapshotDB)
    (hi : w'.iteratorDB = w.iteratorDB) (hc : w'.calls = w.calls) : Emits [] w w' :=
  ⟨hcr, hpath, hflag, hs, hi, [], hc, .self []⟩

end Emits

/-! ## Giving references back -/

namespace World

/-- To give `n` references to the database back takes the last one. -/
def Last (w : World) (n : ℕ) : Prop := 0 < w.count (.db 0) ∧ w.count (.db 0) ≤ n

instance instDecidableLast (w : World) (n : ℕ) : Decidable (w.Last n) := instDecidableAnd

/-- What `closeNativeObject` does with the database. -/
def lastEvents (w : World) : List Deferred.Event :=
  .release :: if w.mDestroyOnClose 0 then [.serve] else []

end World

/-- `n` references to the database were given back, as far as there were any. -/
structure GivenUp (n : ℕ) (w w' : World) : Prop where
  emits : Emits (if w.Last n then w.lastEvents else []) w w'
  count : w'.count (.db 0)
    = if w.count (.db 0) ≤ n then min (w.count (.db 0)) 0 else w.count (.db 0) - n
  ptr : w'.ptr (.db 0) = if w.Last n then 0 else w.ptr (.db 0)
  locks : ¬ w.Last n → w'.locks = w.locks

namespace GivenUp

variable {n m : ℕ} {w w' w'' : World}

/-- Something else happened. -/
theorem zero (h : Emits [] w w') (hc : w'.count (.db 0) = w.count (.db 0))
    (hp : w'.ptr (.db 0) = w.ptr (.db 0)) (hl : w'.locks = w.locks) : GivenUp 0 w w' := by
  have hlast : ¬ w.Last 0 := fun hlast => by
    obtain ⟨hpos, hle⟩ := hlast
    rw [Nat.cast_zero] at hle
    omega
  refine ⟨by rwa [if_neg hlast], ?_, by rw [if_neg hlast, hp], fun _ => hl⟩
  rw [hc, Nat.cast_zero]
  split_ifs <;> omega

theorem refl (w : World) : GivenUp 0 w w :=
  zero (.of_calls_eq rfl rfl rfl rfl rfl rfl) rfl rfl rfl

/-- There was nothing to give back. -/
theorem of_count_nonpos (h : GivenUp n w w') (hc : w.count (.db 0) ≤ 0) (m : ℕ) :
    GivenUp m w w' := by
  have hlast (k : ℕ) : ¬ w.Last k := fun hlast => by
    obtain ⟨hpos, -⟩ := hlast
    omega
  refine ⟨?_, ?_, ?_, fun _ => h.locks (hlast n)⟩
  · have hemits := h.emits
    rw [if_neg (hlast n)] at hemits
    rwa [if_neg (hlast m)]
  · have hcount := h.count
    split_ifs at hcount ⊢ <;> omega
  · have hptr := h.ptr
    rw [if_neg (hlast n)] at hptr
    rw [if_neg (hlast m), hptr]

/-- **References are given back one after another.** -/
theorem trans (h : GivenUp n w w') (h' : GivenUp m w' w'') : GivenUp (n + m) w w'' := by
  have hcount := h.count
  have hcount' := h'.count
  have hflag : w'.lastEvents = w.lastEvents := by
    rw [World.lastEvents, h.emits.mDestroyOnClose, World.lastEvents]
  by_cases hn : w.Last n
  · have hm : ¬ w'.Last m := fun hm => by
      obtain ⟨hpos, hle⟩ := hn
      obtain ⟨hpos', -⟩ := hm
      rw [if_pos hle] at hcount
      omega
    have hnm : w.Last (n + m) := by
      obtain ⟨hpos, hle⟩ := hn
      exact ⟨hpos, by push_cast; omega⟩
    have he := h.emits
    have he' := h'.emits
    rw [if_pos hn] at he
    rw [if_neg hm] at he'
    refine ⟨?_, ?_, ?_, fun hno => absurd hnm hno⟩
    · rw [if_pos hnm]
      exact he.append_right he'
    · push_cast
      split_ifs at hcount hcount' ⊢ <;> omega
    · rw [h'.ptr, if_neg hm, h.ptr, if_pos hn, if_pos hnm]
  · have hiff : w'.Last m ↔ w.Last (n + m) := by
      simp only [World.Last] at hn ⊢
      push_cast
      split_ifs at hcount <;> omega
    have he := h.emits
    rw [if_neg hn] at he
    refine ⟨?_, ?_, ?_, fun hno => ?_⟩
    · have he' := h'.emits
      simp only [hiff, hflag] at he'
      exact he.append_left he'
    · push_cast
      split_ifs at hcount hcount' ⊢ <;> omega
    · rw [h'.ptr, h.ptr, if_neg hn]
      simp only [hiff]
    · rw [h'.locks (fun hm => hno (hiff.mp hm)), h.locks hn]

end GivenUp

/-! ## What gives them back -/

namespace World

/-- The references to the database that `unref` of a snapshot gives back. -/
def givenSnapshot (w : World) (s : ℕ) : ℕ := if w.count (.snapshot s) = 1 then 1 else 0

/-- The references to the database that `unref` gives back.  An iterator does not come to its
database if its snapshot has no references left, which throws. -/
def given (w : World) : ObjId → ℕ
  | .db _ => 1
  | .snapshot s => w.givenSnapshot s
  | .iterator i =>
    if w.count (.iterator i) = 1 then
      match w.iteratorSnapshot i with
      | some s => if w.count (.snapshot s) ≤ 0 then 0 else w.givenSnapshot s + 1
      | none => 1
    else 0
  | .batch _ => 0

end World

section Unref

variable {env : Env} {w : World} {o : ObjId}

theorem GivenUp.setRefCount (w : World) (ho : o ≠ .db 0) (n : ℤ) (closings : List (ObjId × ℕ)) :
    GivenUp 0 w { w.setRefCount o n with closings := closings } := by
  refine .zero (.of_calls_eq rfl rfl rfl rfl rfl rfl) ?_ ?_ rfl
  · exact (congrFun (World.count_setRefCount w o n) _).trans (update_of_ne ho.symm ..)
  · exact congrFun (World.ptr_setRefCount w o n) _

theorem GivenUp.setPtr (ho : o ≠ .db 0) (p : ℕ) : GivenUp 0 w (w.setPtr o p) := by
  refine .zero (.of_calls_eq rfl rfl rfl rfl rfl rfl) ?_ ?_ rfl
  · rw [World.count_setPtr]
  · rw [World.ptr_setPtr, update_of_ne ho.symm]

theorem Emits.native {s : Native} (h : DataCalls w.toNative s) :
    Emits [] w { w with toNative := s } := ⟨rfl, rfl, rfl, rfl, rfl, DataCalls.around h _⟩

theorem GivenUp.native {s : Native} (h : DataCalls w.toNative s) :
    GivenUp 0 w { w with toNative := s } := .zero (.native h) rfl rfl h.locks

/-- `unref` of another object than the database, given what `closeNativeObject` does where that
object has lost its last reference. -/
theorem ends_unref_other {closeNativeObject : ℕ → JavaM Unit} {n : ℕ}
    {E : Abrupt → World → Prop} (ho : o ≠ .db 0)
    (hlast : w.count o = 1 → ∀ w₁, GivenUp 0 w w₁ → (∀ x ≠ o, w₁.count x = w.count x) →
      w₁.iteratorSnapshot = w.iteratorSnapshot →
      Ends (closeNativeObject (w.ptr o)) w₁ (fun _ w' => GivenUp n w w') E) :
    Ends (NativeObject.unref closeNativeObject o) w
      (fun _ w' => 0 < w.count o ∧ GivenUp (if w.count o = 1 then n else 0) w w')
      fun e w' => w.count o ≤ 0 ∧ w' = w ∨ w.count o = 1 ∧ E e w' := by
  rw [ends_unref]
  refine ⟨fun h0 => .inl ⟨h0, rfl⟩, fun h1 => ⟨by omega, ?_⟩, fun h1 => ?_⟩
  · rw [if_neg h1.ne']
    exact .setRefCount w ho _ w.closings
  · refine (hlast h1 _ (.setRefCount w ho 0 _) (fun x hx => ?_) rfl).mono
      (fun _ w' hw' => ⟨by omega, ?_⟩) fun e w' he => .inr ⟨h1, he⟩
    · exact (congrFun (World.count_setRefCount w o 0) x).trans (update_of_ne hx ..)
    · rw [if_pos h1]
      exact hw'.trans (.setPtr ho 0)

/-- **Giving back a reference to the database.** -/
theorem ends_unref_theDB (hdestroy : throwUnlessOk env.destroyStatus = none) :
    Ends (DB.unref env 0) w (fun _ w' => GivenUp 1 w w')
      fun e w' => e = .crash ∨ w.count (.db 0) ≤ 0 ∧ w' = w := by
  rw [DB.unref, ends_unref]
  refine ⟨fun h0 => .inr ⟨h0, rfl⟩, fun h1 => ?_, fun h1 => ?_⟩
  · have hlast : ¬ w.Last 1 := fun hlast => by
      have := hlast.2
      omega
    refine ⟨?_, ?_, ?_, fun _ => rfl⟩
    · rw [if_neg hlast]
      exact .of_calls_eq rfl rfl rfl rfl rfl rfl
    · have hne : ¬ w.count (.db 0) ≤ 1 := by omega
      simp [hne]
    · rw [if_neg hlast, World.ptr_setRefCount]
  have hlast : w.Last 1 := ⟨by omega, by rw [h1]; rfl⟩
  -- whatever is called in between, the object is released
  have hgiven (s : Native) (new : List NativeCall) (hs : s.calls = new ++ w.calls)
      (haround : Deferred.Around w.lastEvents (new.reverse.map (signal (w.mPath 0)))) :
      GivenUp 1 w (World.setPtr { w.setRefCount (.db 0) 0 with
        toNative := s
        closings := (.db 0, w.ptr (.db 0)) :: w.closings } (.db 0) 0) := by
    refine ⟨?_, ?_, ?_, fun hno => absurd hlast hno⟩
    · rw [if_pos hlast]
      exact ⟨rfl, rfl, rfl, rfl, rfl, new, hs, haround⟩
    · have hc : World.count { w.setRefCount (.db 0) 0 with
          toNative := s
          closings := (.db 0, w.ptr (.db 0)) :: w.closings } (.db 0) = 0 :=
        (congrFun (World.count_setRefCount w (.db 0) 0) _).trans (update_self ..)
      rw [World.count_setPtr, hc, h1]
      simp
    · rw [World.ptr_setPtr, update_self, if_pos hlast]
  rw [DB.closeNativeObject, ends_bind, ends_call]
  refine (Jni.DB.ends_nativeClose_calls _ _).mono ?_ fun _ _ he => .inl he
  intro _ s hs
  rw [ends_bind, ends_get, ends_ite]
  refine ⟨fun hflag => ?_, fun hflag => ?_⟩
  · rw [DB.destroyPath, ends_call, Jni.DB.nativeDestroy, ends_bind, ends_record, ends_raise]
    refine ⟨fun _ => ?_, fun t ht => ?_⟩
    · refine hgiven _ [.nativeDestroy (w.mPath 0), .nativeClose (w.ptr (.db 0))]
        (congrArg (_ :: ·) hs) ?_
      have hflag : w.mDestroyOnClose 0 = true := hflag
      simp [World.lastEvents, hflag, signal, Deferred.Around.self]
    · rw [hdestroy] at ht
      cases ht
  · refine hgiven _ [.nativeClose (w.ptr (.db 0))] hs ?_
    have hflag : w.mDestroyOnClose 0 = false := Bool.eq_false_iff.mpr hflag
    simp [World.lastEvents, hflag, signal, Deferred.Around.self]

/-- **Giving back a reference to a snapshot of it.** -/
theorem ends_unref_itsSnapshot (hdestroy : throwUnlessOk env.destroyStatus = none) {s : ℕ}
    (hs : w.snapshotDB s = 0) :
    Ends (Snapshot.unref env s) w
      (fun _ w' => 0 < w.count (.snapshot s) ∧ GivenUp (w.givenSnapshot s) w w')
      fun e w' => e = .crash ∨
        (w.count (.snapshot s) ≤ 0 ∨ w.count (.db 0) ≤ 0) ∧ GivenUp 0 w w' := by
  have ho : ObjId.snapshot s ≠ .db 0 := fun h => by cases h
  refine (ends_unref_other (n := 1) (E := fun e w' => e = .crash ∨
    w.count (.db 0) ≤ 0 ∧ GivenUp 0 w w') ho ?_).mono (fun _ _ hw => hw) ?_
  · intro _ w₁ hw₁ hcount _
    have hsdb : w₁.snapshotDB s = 0 := by rw [hw₁.emits.snapshotDB, hs]
    simp only [Snapshot.closeNativeObject, ends_bind, ends_get, ends_getPtr, ends_call, hsdb]
    refine ((nativeSteps_dataCalls.nativeReleaseSnapshot _ _ _).and
      (Jni.DB.crashes_nativeReleaseSnapshot _ _ _)).mono ?_ fun _ _ he => .inl he.2
    rintro _ n ⟨hn, -⟩
    have hw₁ := hw₁.trans (.native hn)
    refine (ends_unref_theDB hdestroy).mono (fun _ w' hw' => hw₁.trans hw') ?_
    rintro e w' (hcrash | ⟨h0, rfl⟩)
    · exact .inl hcrash
    · exact .inr ⟨hcount _ ho.symm ▸ h0, hw₁⟩
  · rintro e w' (⟨h0, rfl⟩ | ⟨-, hcrash | ⟨h0, hw⟩⟩)
    · exact .inr ⟨.inl h0, .refl w'⟩
    · exact .inl hcrash
    · exact .inr ⟨.inr h0, hw⟩

/-- **Giving back a reference to an iterator over it.** -/
theorem leaves_unref_itsIterator (hdestroy : throwUnlessOk env.destroyStatus = none) {i : ℕ}
    (hs : ∀ s, w.snapshotDB s = 0) (hi : w.iteratorDB i = 0) :
    Leaves (NativeObject.unref (Iterator.closeNativeObject env i) (.iterator i)) w
      (GivenUp (w.given (.iterator i)) w) := by
  have ho : ObjId.iterator i ≠ .db 0 := fun h => by cases h
  refine (ends_unref_other (n := w.given (.iterator i)) (E := fun e w' => e ≠ .crash →
    GivenUp (w.given (.iterator i)) w w') ho ?_).mono ?_ ?_
  · intro h1 w₁ hw₁ hcount hsn
    have hi₁ : w₁.iteratorDB i = 0 := by rw [hw₁.emits.iteratorDB, hi]
    refine ends_iteratorClose (((nativeSteps_dataCalls.iteratorDestroy _ _).and
      (Jni.Iterator.crashes_nativeDestroy _ _)).mono ?_ fun _ _ he hne => absurd he.2 hne)
    rintro _ n ⟨hn, -⟩ w₂ hw₂
    have hgiven : GivenUp 0 w w₂ := hw₂ ▸ hw₁.trans (.native hn)
    have hcount₂ (x : ObjId) (hx : x ≠ .iterator i) : w₂.count x = w.count x := by
      rw [hw₂]
      exact hcount x hx
    -- the last part, after whatever was given back before
    have hdb {m : ℕ} {w₃ : World} (h₃ : GivenUp m w w₃) :
        Leaves (DB.unref env 0) w₃ (GivenUp (m + 1) w) := by
      refine (ends_unref_theDB hdestroy).mono (fun _ w' hw' => h₃.trans hw') ?_
      rintro e w' (hcrash | ⟨h0, rfl⟩) hne
      · exact absurd hcrash hne
      · exact h₃.trans ((GivenUp.refl w').of_count_nonpos h0 1)
    rw [hi₁, hsn, World.given, if_pos h1]
    refine ⟨fun hnone => ?_, fun s hsome => ?_⟩
    · rw [hnone]
      exact hdb hgiven
    · rw [hsome]
      have hs₂ : w₂.snapshotDB s = 0 := by rw [hgiven.emits.snapshotDB, hs]
      have hcs : w₂.count (.snapshot s) = w.count (.snapshot s) :=
        hcount₂ _ fun h => by cases h
      have hgs : w₂.givenSnapshot s = w.givenSnapshot s := by
        rw [World.givenSnapshot, hcs, World.givenSnapshot]
      refine (ends_unref_itsSnapshot hdestroy hs₂).mono ?_ ?_
      · rintro _ w₃ ⟨hpos, h₃⟩
        have hpos : ¬ w.count (.snapshot s) ≤ 0 := by omega
        simp only [if_neg hpos]
        have h₃ := hgiven.trans h₃
        rw [hgs, Nat.zero_add] at h₃
        exact hdb h₃
      · rintro e w₃ (hcrash | ⟨h0, h₃⟩) hne
        · exact absurd hcrash hne
        have h₃ := hgiven.trans h₃
        rw [hcs, hcount₂ _ ho.symm] at h0
        rcases h0 with h0 | h0
        · simp only [if_pos h0]
          exact h₃
        · exact h₃.of_count_nonpos h0 _
  · rintro _ w' ⟨-, hw⟩
    by_cases h1 : w.count (.iterator i) = 1
    · rwa [if_pos h1] at hw
    · rw [if_neg h1] at hw
      rwa [World.given, if_neg h1]
  · rintro e w' (⟨h0, rfl⟩ | ⟨-, hw⟩) hne
    · have h1 : w'.count (.iterator i) ≠ 1 := by omega
      rw [World.given, if_neg h1]
      exact .refl w'
    · exact hw hne

/-- **Closing a handle** gives back references to the database, and calls what that takes. -/
theorem leaves_close (hdestroy : throwUnlessOk env.destroyStatus = none)
    (hd : ∀ d, o = .db d → d = 0) (hs : ∀ s, w.snapshotDB s = 0) (hi : ∀ i, w.iteratorDB i = 0) :
    Leaves (close env o) w (GivenUp (if w.ptr o = 0 then 0 else w.given o) w) := by
  rw [Leaves, ends_close]
  refine ⟨fun h0 => ?_, fun hp => ?_⟩
  · rw [if_pos h0]
    exact .refl w
  rw [if_neg hp]
  cases o with
  | db d =>
    obtain rfl := hd d rfl
    refine (ends_unref_theDB hdestroy).mono (fun _ _ hw => hw) ?_
    rintro e w' (hcrash | ⟨h0, rfl⟩) hne
    · exact absurd hcrash hne
    · exact (GivenUp.refl w').of_count_nonpos h0 1
  | snapshot s =>
    refine (ends_unref_itsSnapshot hdestroy (hs s)).mono (fun _ _ hw => hw.2) ?_
    rintro e w' (hcrash | ⟨h0 | h0, hw⟩) hne
    · exact absurd hcrash hne
    · have h1 : w.count (.snapshot s) ≠ 1 := by omega
      rwa [World.given, World.givenSnapshot, if_neg h1]
    · exact hw.of_count_nonpos h0 _
  | iterator i => exact leaves_unref_itsIterator hdestroy hs (hi i)
  | batch b =>
    have ho : ObjId.batch b ≠ .db 0 := fun h => by cases h
    refine (ends_unref_other (n := 0) (E := fun e _ => e = .crash) ho ?_).mono ?_ ?_
    · intro _ w₁ hw₁ _ _
      rw [closeNativeObject, WriteBatch.closeNativeObject, ends_call]
      refine ((nativeSteps_dataCalls.batchDestroy _ _).and
        (Jni.WriteBatch.crashes_nativeDestroy _ _)).mono (fun _ n hn => ?_) fun _ _ he => he.2
      exact hw₁.trans (.native hn.1)
    · rintro _ w' ⟨-, hw⟩
      rwa [ite_self] at hw
    · rintro e w' (⟨-, rfl⟩ | ⟨-, hcrash⟩) hne
      · exact .refl w'
      · exact absurd hcrash hne

end Unref

end Java
