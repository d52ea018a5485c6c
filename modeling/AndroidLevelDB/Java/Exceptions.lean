import AndroidLevelDB.Jni.Exceptions
import AndroidLevelDB.Java.Frames

/-!
# Java/Exceptions — which calls complain of a count

Only `close` gives references back, and so only `close` can find an object without references
(`throws_run`).
-/

open Leveldb Jni

namespace Java

variable {env : Env}

theorem throws_call {α : Type} {m : JniM α} (h : Throws Raised m) : Throws Uncounted (call m) := by
  intro w
  rw [ends_call]
  exact (h w.toNative).mono (fun _ _ ht => ht) fun _ _ he => he _

theorem callSteps_uncounted (c : Call) : CallSteps env c (Throws Uncounted) where
  toCompositional := Throws.compositional
  throw h := Throws.throw h
  quiet hm := throws_call (nativeSteps_raised.quiet hm)
  nativeOpen _ := throws_call (Jni.DB.throws_nativeOpen _ _)
  nativeDestroy _ := throws_call (Jni.DB.throws_nativeDestroy _ _)
  nativeIterator _ _ := throws_call (nativeSteps_raised.nativeIterator _ _ _)
  nativeGetSnapshot _ := throws_call (nativeSteps_raised.nativeGetSnapshot _ _)
  batchCreate := throws_call (nativeSteps_raised.batchCreate _)
  ref _ := Throws.modify _
  created _ := Throws.modify _
  setPtr _ _ := Throws.modify _
  mPath _ _ := Throws.modify _
  mDestroyOnClose _ := Throws.modify _
  snapshotDB _ _ := Throws.modify _
  newIterator _ _ _ _ := Throws.modify _

/-- **Only `close` gives references back.** -/
theorem throws_run {c : Call} (hc : ∀ o, c ≠ .close o) : Throws Uncounted (c.run env) :=
  (callSteps_uncounted c).run hc

end Java
