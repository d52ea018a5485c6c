import AndroidLevelDB.Jni.Steps
import AndroidLevelDB.Java.Classes

/-!
# Java/Steps — methods, step by step

What holds of the steps of a method, and of a program if it holds of the parts, holds of the methods
that use an object without creating or freeing one.
-/

open Leveldb Jni

namespace Java

/-- Not the exception of `unref` for an object without references. -/
def Uncounted (e : Abrupt) : Prop :=
  e ≠ .thrown (.illegalStateException "Reference count is already 0")

/-- `P` holds of the steps of the methods that use an object. -/
structure MethodSteps (env : Env) (P : ∀ {α : Type}, JavaM α → Prop) : Prop
    extends Compositional P where
  throw : ∀ {α : Type} {t : Throwable}, Uncounted (.thrown t) →
    P (MonadExcept.throw (.thrown t) : JavaM α)
  quiet : ∀ {α : Type} {m : JniM α}, Jni.Quiet env m → P (call m)

namespace MethodSteps

variable {env : Env} {P : ∀ {α : Type}, JavaM α → Prop}

theorem getPtr (h : MethodSteps env P) (o : ObjId) : P (NativeObject.getPtr o) :=
  h.bind h.get fun _ => h.pure _

theorem assertOpen (h : MethodSteps env P) (o : ObjId) {message : String}
    (hm : message ≠ "Reference count is already 0") : P (NativeObject.assertOpen o message) :=
  h.bind (h.getPtr o) fun _ => h.ite (h.throw fun heq => hm (by simpa using heq)) (h.pure _)

theorem nonNull {α : Type} (h : MethodSteps env P) (message : Option String) (a : Option α) :
    P (Java.nonNull message a) := by
  cases a with
  | none => exact h.throw nofun
  | some a => exact h.pure a

theorem snapshotPtr (h : MethodSteps env P) (snapshot : Option ℕ) :
    P (DB.snapshotPtr snapshot) := by
  cases snapshot with
  | none => exact h.pure 0
  | some s => exact h.getPtr _

/-! ## The methods -/

theorem put (h : MethodSteps env P) (d : ℕ) (key value : Option Bytes) :
    P (DB.put env d key value) :=
  h.bind (h.assertOpen _ (by decide)) fun _ => h.bind (h.nonNull _ _) fun _ =>
    h.bind (h.nonNull _ _) fun _ => h.bind (h.getPtr _) fun _ => h.quiet (.nativePut ..)

theorem dbGet (h : MethodSteps env P) (d : ℕ) (snapshot : Option ℕ) (key : Option Bytes) :
    P (DB.get d snapshot key) :=
  h.bind (h.assertOpen _ (by decide)) fun _ => h.bind (h.nonNull _ _) fun _ =>
    h.bind (h.getPtr _) fun _ => h.bind (h.snapshotPtr _) fun _ => h.quiet (.nativeGet ..)

theorem getBB (h : MethodSteps env P) (d : ℕ) (snapshot : Option ℕ) (key : Option ByteBuffer) :
    P (DB.getBB d snapshot key) :=
  h.bind (h.assertOpen _ (by decide)) fun _ => h.bind (h.nonNull _ _) fun _ =>
    h.bind (h.getPtr _) fun _ => h.bind (h.snapshotPtr _) fun _ => h.quiet (.nativeGetBB ..)

theorem delete (h : MethodSteps env P) (d : ℕ) (key : Option Bytes) : P (DB.delete env d key) :=
  h.bind (h.assertOpen _ (by decide)) fun _ => h.bind (h.nonNull _ _) fun _ =>
    h.bind (h.getPtr _) fun _ => h.quiet (.nativeDelete ..)

theorem write (h : MethodSteps env P) (d : ℕ) (batch : Option ℕ) : P (DB.write env d batch) :=
  h.bind (h.assertOpen _ (by decide)) fun _ => h.bind (h.nonNull _ _) fun _ =>
    h.bind (h.getPtr _) fun _ => h.bind (h.getPtr _) fun _ => h.quiet (.nativeWrite ..)

theorem batchPut (h : MethodSteps env P) (b : ℕ) (key value : Option ByteBuffer) :
    P (WriteBatch.put b key value) :=
  h.bind (h.assertOpen _ (by decide)) fun _ => h.bind (h.nonNull _ _) fun _ =>
    h.bind (h.nonNull _ _) fun _ => h.bind (h.getPtr _) fun _ => h.quiet (.batchPut ..)

theorem batchDelete (h : MethodSteps env P) (b : ℕ) (key : Option ByteBuffer) :
    P (WriteBatch.delete b key) :=
  h.bind (h.assertOpen _ (by decide)) fun _ => h.bind (h.nonNull _ _) fun _ =>
    h.bind (h.getPtr _) fun _ => h.quiet (.batchDelete ..)

theorem batchClear (h : MethodSteps env P) (b : ℕ) : P (WriteBatch.clear b) :=
  h.bind (h.assertOpen _ (by decide)) fun _ => h.bind (h.getPtr _) fun _ => h.quiet (.batchClear ..)

/-- The methods of an iterator. -/
theorem method {α : Type} {native : ℕ → JniM α} (h : MethodSteps env P)
    (hn : ∀ ptr, Jni.Quiet env (native ptr)) (i : ℕ) : P (Iterator.method native i) :=
  h.bind (h.assertOpen _ (by decide)) fun _ => h.bind (h.getPtr _) fun _ => h.quiet (hn _)

theorem seek (h : MethodSteps env P) (i : ℕ) (target : Option Bytes) :
    P (Iterator.seek i target) := by
  refine h.bind (h.assertOpen _ (by decide)) fun _ => ?_
  cases target with
  | none => exact h.throw nofun
  | some target => exact h.bind (h.getPtr _) fun _ => h.quiet (.move ..)

end MethodSteps

end Java
