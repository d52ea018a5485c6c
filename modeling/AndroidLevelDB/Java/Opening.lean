import AndroidLevelDB.Java.Acquisition

/-!
# Java/Opening — what `open` tells

`nativeOpen` returns the address of the database for an OK status; for another one it returns 0 and
leaves it to `throwException` to say so, which raises nothing for two of the codes.  So `open` tells
the truth exactly for the others (`open_truthful_iff`).
-/

open Leveldb Jni Function

namespace Java

/-- The status of `DB::Open` for the path of `d`. -/
def World.openStatus (env : Env) (w : World) (d : ℕ) : Leveldb.Status :=
  Jni.openStatus env w.toNative (w.mPath d)

/-- **How `open` ends.** -/
theorem ends_open {env : Env} {w : World} {d : ℕ} (hp : env.newPtr ≠ 0) :
    Ends (DB.open env d) w
      (fun _ w' => ∃ s, w' = World.setPtr { w with toNative := s } (.db d)
          (if (w.openStatus env d).ok then env.newPtr else 0) ∧
        throwUnlessOk (w.openStatus env d) = none)
      fun e w' => ∃ s, w' = { w with toNative := s } ∧
        ∃ t, throwUnlessOk (w.openStatus env d) = some t ∧ e = .thrown t := by
  rw [DB.open, ends_bind, ends_get, ends_bind, ends_call]
  refine (ends_nativeOpen hp (w.mPath d)).mono ?_ ?_
  · rintro r s (⟨hok, -, rfl, -⟩ | ⟨hok, hthrow, rfl, -⟩)
    · have hok : (w.openStatus env d).ok = true := hok
      exact ⟨s, by rw [if_pos hok], throwUnlessOk_of_ok hok⟩
    · have hok : ¬ (w.openStatus env d).ok = true := Bool.eq_false_iff.mp hok
      exact ⟨s, by rw [if_neg hok], hthrow⟩
  · rintro e s ⟨-, ht, -⟩
    exact ⟨s, rfl, ht⟩

/-- `open` returns exactly for an OK status, with the new pointer, and otherwise throws and leaves
the Java objects. -/
structure Truthful (env : Env) (w : World) (d : ℕ) : Prop where
  returns_iff : Returns (DB.open env d) w () ↔ (w.openStatus env d).ok = true
  returned : ∀ w', DB.open env d w = .ok () w' →
    w'.ptr (.db d) = env.newPtr ∧ w'.ptr (.db d) ≠ 0
  thrown : (w.openStatus env d).ok = false →
    ∃ t w', DB.open env d w = .error (.thrown t) w' ∧ w'.object = w.object ∧
      w'.mDestroyOnClose = w.mDestroyOnClose

/-- The codes that raise nothing. -/
def Silent (status : Leveldb.Status) : Prop :=
  status.code = some .kNotSupported ∨ status.code = some .kInvalidArgument

/-- **`open` tells the truth** exactly if the status of `DB::Open` is neither `NotSupported` nor
`InvalidArgument`. -/
theorem open_truthful_iff {env : Env} (hp : env.newPtr ≠ 0) (w : World) (d : ℕ) :
    Truthful env w d ↔ ¬ Silent (w.openStatus env d) := by
  have hends := ends_open (w := w) (d := d) hp
  cases hok : (w.openStatus env d).ok with
  | true =>
    have hnone := throwUnlessOk_of_ok hok
    have hcode : (w.openStatus env d).code = none := by rw [Status.ok_iff.mp hok]; rfl
    refine iff_of_true ⟨?_, fun w' hw' => ?_, fun hbad => ?_⟩ ?_
    · have hret : Ends (DB.open env d) w (fun _ _ => True) fun _ _ => False := by
        refine hends.mono (fun _ _ _ => trivial) ?_
        rintro e w' ⟨-, -, t, ht, -⟩
        rw [hnone] at ht
        cases ht
      obtain ⟨⟨⟩, w', hw', -⟩ := hret.exists_ok
      exact iff_of_true ⟨w', hw'⟩ hok
    · obtain ⟨s, rfl, -⟩ := hends.of_ok hw'
      rw [if_pos hok, World.ptr_setPtr, update_self]
      exact ⟨rfl, hp⟩
    · rw [hok] at hbad
      cases hbad
    · simp [Silent, hcode]
  | false =>
    have hsilent : throwUnlessOk (w.openStatus env d) = none ↔ Silent (w.openStatus env d) := by
      rw [throwUnlessOk, hok]
      exact throwException_eq_none_iff hok
    constructor
    · intro h hs
      obtain ⟨t, w', hthrow, -⟩ := h.thrown hok
      obtain ⟨-, -, t', ht', -⟩ := hends.of_error hthrow
      rw [hsilent.mpr hs] at ht'
      cases ht'
    · intro hs
      have hret : ∀ w', DB.open env d w ≠ .ok () w' := by
        intro w' hw'
        obtain ⟨-, -, hnone⟩ := hends.of_ok hw'
        exact hs (hsilent.mp hnone)
      have hno : ¬ Returns (DB.open env d) w () := fun h => h.elim hret
      refine ⟨iff_of_false hno (by simp [hok]), fun w' hw' => absurd hw' (hret w'), fun _ => ?_⟩
      cases hrun : DB.open env d w with
      | ok a w' => exact absurd hrun (hret w')
      | error e w' =>
        obtain ⟨s, rfl, t, -, rfl⟩ := hends.of_error hrun
        exact ⟨t, _, rfl, rfl, rfl⟩

/-- A directory written with another comparator. -/
def foreignEnv : Env :=
  { fineEnv with
    directory :=
      { fineEnv.directory with
        manifest := [.ok ⟨some "another.Comparator", some 2, none, some 3, some 0⟩] } }

theorem open_truthful_iff_example :
    ∃ w, DB.new (some "/db") .empty = .ok 0 w ∧ Truthful fineEnv w 0 := by
  refine ⟨_, rfl, (open_truthful_iff (by decide) _ 0).mpr ?_⟩
  rintro (h | h) <;> cases h

/-- `open` returns for a database written with another comparator, and leaves no pointer. -/
theorem open_foreign : ∃ w w', DB.new (some "/db") .empty = .ok 0 w ∧
    (w.openStatus foreignEnv 0).ok = false ∧ DB.open foreignEnv 0 w = .ok () w' ∧
    w'.ptr (.db 0) = 0 ∧ ¬ Truthful foreignEnv w 0 := by
  refine ⟨_, _, rfl, by decide, rfl, by decide, fun h => ?_⟩
  obtain ⟨t, w', hthrow, -⟩ := h.thrown (by decide)
  cases hthrow

end Java
