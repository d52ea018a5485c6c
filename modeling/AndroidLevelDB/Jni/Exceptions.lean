import AndroidLevelDB.Jni.Steps

/-!
# Jni/Exceptions — what native code throws

The native functions raise what `throwException` makes of a status, and never an
`IllegalStateException`.
-/

open Leveldb Function

namespace Jni

/-- Native code may end so. -/
def Raised (e : Abrupt) : Prop := ∀ msg, e ≠ .thrown (.illegalStateException msg)

theorem raised_crash : Raised .crash := nofun

theorem raised_throwUnlessOk {status : Leveldb.Status} {t : Throwable}
    (h : throwUnlessOk status = some t) : Raised (.thrown t) := by
  rintro msg ⟨⟩
  unfold throwUnlessOk throwException at h
  split_ifs at h <;> cases h

/-- **The steps of native code raise what `throwException` makes of a status.** -/
theorem nativeSteps_raised : NativeSteps (Throws Raised) where
  toCompositional := Throws.compositional
  record _ _ := Throws.modify _
  crash := Throws.throw raised_crash
  raise status := by
    intro s
    rw [ends_raise]
    exact ⟨fun _ => trivial, fun t ht => raised_throwUnlessOk ht⟩
  takeBuffer buffer := by
    rw [takeBuffer]
    cases hb : bufferSlice buffer with
    | ok bytes => exact Throws.pure _
    | error e =>
      refine Throws.throw ?_
      rintro msg rfl
      exact bufferSlice_ne_thrown buffer _ hb
  deref view ptr := by
    intro s
    rw [ends_deref]
    exact ⟨fun _ _ => trivial, fun _ => raised_crash⟩
  store _ _ := Throws.modify _
  free _ := Throws.modify _
  allocate env a := by
    rw [allocate]
    split
    · exact Throws.bind (Throws.modify _) fun _ => Throws.pure _
    · exact Throws.pure _

namespace DB

theorem throws_nativeOpen (env : Env) (path : String) : Throws Raised (nativeOpen env path) := by
  have h := nativeSteps_raised
  refine Throws.ite h.crash (Throws.bind Throws.get fun s => ?_)
  dsimp only
  split
  · exact Throws.bind (Throws.modify _) fun _ => Throws.bind (h.allocate _ _) fun _ =>
      Throws.bind (Throws.modify _) fun _ => Throws.bind (h.raise _) fun _ => Throws.pure _
  · exact Throws.bind (Throws.pure _) fun _ => Throws.bind (Throws.modify _) fun _ =>
      Throws.bind (h.raise _) fun _ => Throws.pure _

theorem throws_nativeDestroy (env : Env) (path : String) :
    Throws Raised (nativeDestroy env path) :=
  Throws.bind (Throws.modify _) fun _ => nativeSteps_raised.raise _

end DB

end Jni
