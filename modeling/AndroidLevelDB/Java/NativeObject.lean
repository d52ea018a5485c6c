import AndroidLevelDB.Lib.RefCount
import AndroidLevelDB.Jni.Natives

/-!
# Java/NativeObject — counted wrappers of native objects

A Java object that wraps a native one holds its address and counts the references to it: the Java
wrapper itself counts as one, which `close` gives back, and other wrappers may hold more.  With the
last reference the native object is closed by `closeNativeObject`, which each class overrides.
-/

open Jni Function

namespace Java

/-- The objects of the wrapper's classes, numbered as they are created. -/
inductive ObjId
  | db (n : ℕ)
  | snapshot (n : ℕ)
  | iterator (n : ℕ)
  | batch (n : ℕ)
deriving DecidableEq

def ObjId.number : ObjId → ℕ
  | .db n => n
  | .snapshot n => n
  | .iterator n => n
  | .batch n => n

structure NativeObject where
  mPtr : ℕ
  mRefCount : ℤ
deriving DecidableEq

/-- The Java objects, and the native side. -/
structure World extends Native where
  object : ObjId → NativeObject
  created : Finset ObjId
  mPath : ℕ → String
  mDestroyOnClose : ℕ → Bool
  /-- The database that made a snapshot, `DB.this`. -/
  snapshotDB : ℕ → ℕ
  /-- The database that made an iterator. -/
  iteratorDB : ℕ → ℕ
  /-- The snapshot an iterator was made with. -/
  iteratorSnapshot : ℕ → Option ℕ
  /-- The runs of `closeNativeObject`, with their argument, the last one first. -/
  closings : List (ObjId × ℕ)

abbrev JavaM := EStateM Abrupt World

/-- A native call. -/
def call {α : Type} (m : JniM α) : JavaM α := fun w =>
  match m w.toNative with
  | .ok a s => .ok a { w with toNative := s }
  | .error e s => .error e { w with toNative := s }

namespace World

/-- No object yet. -/
def empty : World where
  toNative := .empty
  object := fun _ => ⟨0, 0⟩
  created := ∅
  mPath := fun _ => ""
  mDestroyOnClose := fun _ => false
  snapshotDB := fun _ => 0
  iteratorDB := fun _ => 0
  iteratorSnapshot := fun _ => none
  closings := []

def setPtr (w : World) (o : ObjId) (ptr : ℕ) : World :=
  { w with object := update w.object o { w.object o with mPtr := ptr } }

def setRefCount (w : World) (o : ObjId) (n : ℤ) : World :=
  { w with object := update w.object o { w.object o with mRefCount := n } }

def count (w : World) (o : ObjId) : ℤ := (w.object o).mRefCount

def ptr (w : World) (o : ObjId) : ℕ := (w.object o).mPtr

/-- `o` with a further reference. -/
def ref (w : World) (o : ObjId) : World := w.setRefCount o (w.count o + 1)

/-- A further object `o`, with one reference. -/
def construct (w : World) (o : ObjId) : World :=
  World.ref { w with created := insert o w.created } o

/-- The number of a new object. -/
def fresh (w : World) : ℕ := w.created.card

@[simp] theorem count_setRefCount (w : World) (o : ObjId) (n : ℤ) :
    (w.setRefCount o n).count = update w.count o n := by
  funext x
  rcases eq_or_ne x o with rfl | hx
  · simp [count, setRefCount]
  · simp [count, setRefCount, update_of_ne hx]

@[simp] theorem ptr_setRefCount (w : World) (o : ObjId) (n : ℤ) :
    (w.setRefCount o n).ptr = w.ptr := by
  funext x
  rcases eq_or_ne x o with rfl | hx
  · simp [ptr, setRefCount]
  · simp [ptr, setRefCount, update_of_ne hx]

@[simp] theorem count_setPtr (w : World) (o : ObjId) (p : ℕ) :
    (w.setPtr o p).count = w.count := by
  funext x
  rcases eq_or_ne x o with rfl | hx
  · simp [count, setPtr]
  · simp [count, setPtr, update_of_ne hx]

@[simp] theorem ptr_setPtr (w : World) (o : ObjId) (p : ℕ) :
    (w.setPtr o p).ptr = update w.ptr o p := by
  funext x
  rcases eq_or_ne x o with rfl | hx
  · simp [ptr, setPtr]
  · simp [ptr, setPtr, update_of_ne hx]

@[simp] theorem count_ref (w : World) (o : ObjId) :
    (w.ref o).count = update w.count o (w.count o + 1) := count_setRefCount ..

@[simp] theorem ptr_ref (w : World) (o : ObjId) : (w.ref o).ptr = w.ptr := ptr_setRefCount ..

@[simp] theorem count_construct (w : World) (o : ObjId) :
    (w.construct o).count = update w.count o (w.count o + 1) := count_ref ..

@[simp] theorem ptr_construct (w : World) (o : ObjId) : (w.construct o).ptr = w.ptr := ptr_ref ..

end World

/-! ## `NativeObject.java` -/

namespace NativeObject

def getPtr (o : ObjId) : JavaM ℕ := do
  pure ((← get).object o).mPtr

def assertOpen (o : ObjId) (message : String) : JavaM Unit := do
  if (← getPtr o) = 0 then throw (.thrown (.illegalStateException message))
  else pure ()

def ref (o : ObjId) : JavaM Unit :=
  modify fun w => w.setRefCount o ((w.object o).mRefCount + 1)

/-- `unref`, with the override of `closeNativeObject`. -/
def unref (closeNativeObject : ℕ → JavaM Unit) (o : ObjId) : JavaM Unit := do
  let x := (← get).object o
  if x.mRefCount ≤ 0 then
    throw (.thrown (.illegalStateException "Reference count is already 0"))
  else
    modify fun w => w.setRefCount o (x.mRefCount - 1)
    if x.mRefCount - 1 = 0 then
      modify fun w => { w with closings := (o, x.mPtr) :: w.closings }
      closeNativeObject x.mPtr
      modify fun w => w.setPtr o 0
    else pure ()

def close (closeNativeObject : ℕ → JavaM Unit) (o : ObjId) : JavaM Unit := do
  if (← getPtr o) ≠ 0 then unref closeNativeObject o
  else pure ()

/-- `NativeObject()`: the Java wrapper counts as one reference. -/
def new (o : ObjId) : JavaM Unit := do
  modify fun w => { w with created := insert o w.created }
  ref o

/-- `NativeObject(long)`. -/
def newPtr (o : ObjId) (ptr : ℕ) : JavaM Unit := do
  new o
  if ptr = 0 then throw (.thrown (.outOfMemoryError "Failed to allocate native object"))
  else modify fun w => w.setPtr o ptr

end NativeObject

/-! ## Running the elementary steps -/

section Ends

variable {α : Type} {w : World} {E : Abrupt → World → Prop}

@[simp] theorem ends_call {m : JniM α} {Q : α → World → Prop} :
    Ends (call m) w Q E ↔ Ends m w.toNative (fun a s => Q a { w with toNative := s })
      fun e s => E e { w with toNative := s } := by
  simp only [Ends, call]
  cases m w.toNative <;> rfl

@[simp] theorem ends_getPtr {o : ObjId} {Q : ℕ → World → Prop} :
    Ends (NativeObject.getPtr o) w Q E ↔ Q (w.ptr o) w := Iff.rfl

@[simp] theorem ends_ref {o : ObjId} {Q : Unit → World → Prop} :
    Ends (NativeObject.ref o) w Q E ↔ Q () (w.ref o) := Iff.rfl

@[simp] theorem ends_assertOpen {o : ObjId} {message : String} {Q : Unit → World → Prop} :
    Ends (NativeObject.assertOpen o message) w Q E ↔
      (w.ptr o = 0 → E (.thrown (.illegalStateException message)) w) ∧ (w.ptr o ≠ 0 → Q () w) := by
  simp [NativeObject.assertOpen, ends_ite]

@[simp] theorem ends_new {o : ObjId} {Q : Unit → World → Prop} :
    Ends (NativeObject.new o) w Q E ↔ Q () (w.construct o) := Iff.rfl

@[simp] theorem ends_newPtr {o : ObjId} {ptr : ℕ} {Q : Unit → World → Prop} :
    Ends (NativeObject.newPtr o ptr) w Q E ↔
      (ptr = 0 → E (.thrown (.outOfMemoryError "Failed to allocate native object"))
        (w.construct o)) ∧
      (ptr ≠ 0 → Q () ((w.construct o).setPtr o ptr)) := by
  simp [NativeObject.newPtr, ends_ite]

theorem ends_unref {closeNativeObject : ℕ → JavaM Unit} {o : ObjId} {Q : Unit → World → Prop} :
    Ends (NativeObject.unref closeNativeObject o) w Q E ↔
      (w.count o ≤ 0 →
        E (.thrown (.illegalStateException "Reference count is already 0")) w) ∧
      (1 < w.count o → Q () (w.setRefCount o (w.count o - 1))) ∧
      (w.count o = 1 →
        Ends (closeNativeObject (w.ptr o))
          { w.setRefCount o 0 with closings := (o, w.ptr o) :: w.closings }
          (fun _ w' => Q () (w'.setPtr o 0)) E) := by
  simp only [World.count, World.ptr, NativeObject.unref, ends_bind, ends_get, ends_ite, ends_throw,
    ends_modify, ends_pure]
  refine and_congr_right fun _ => ?_
  rcases lt_trichotomy (w.object o).mRefCount 1 with h | h | h
  · constructor
    · intro _
      exact ⟨fun h' => by omega, fun h' => by omega⟩
    · intro _ h'
      omega
  · simp [h]
    rfl
  · have h1 : ¬ (w.object o).mRefCount - 1 = 0 := by omega
    have h2 : ¬ (w.object o).mRefCount = 1 := by omega
    have h3 : ¬ (w.object o).mRefCount ≤ 0 := by omega
    simp [h, h1, h2, h3]

end Ends

end Java
