import AndroidLevelDB.Jni.Lifetimes
import AndroidLevelDB.Jni.Steps

/-!
# Jni/DataCalls — calls that open and close no database

All native functions but `nativeOpen`, `nativeClose` and `nativeDestroy` leave the locks, and make
no call of these (`DataCalls`).
-/

open Leveldb Function

namespace Jni

/-- Such calls were made only, and the locks are what they were. -/
structure DataCalls (s s' : Native) : Prop where
  locks : s'.locks = s.locks
  calls : ∃ new, s'.calls = new ++ s.calls ∧ ∀ call ∈ new, call.isData = true

instance instReflDataCalls : Std.Refl DataCalls := ⟨fun _ => ⟨rfl, [], rfl, nofun⟩⟩

instance instTransDataCalls : IsTrans Native DataCalls := by
  refine ⟨?_⟩
  rintro s s' s'' ⟨hlocks, new, hnew, hdata⟩ ⟨hlocks', new', hnew', hdata'⟩
  refine ⟨hlocks'.trans hlocks, new' ++ new, ?_, fun call hc => ?_⟩
  · rw [hnew', hnew, List.append_assoc]
  · exact (List.mem_append.mp hc).elim (hdata' call) (hdata call)

/-- No call was made at all. -/
theorem DataCalls.of_heap (s : Native) (heap : ℕ → Option Allocation) :
    DataCalls s { s with heap := heap } := ⟨rfl, [], rfl, nofun⟩

/-- **The steps of native code open and close no database.** -/
theorem nativeSteps_dataCalls : NativeSteps (Keeps DataCalls) where
  toCompositional := Keeps.compositional
  record call h :=
    Keeps.modify fun _ => ⟨rfl, [call], rfl, fun _ hc => List.mem_singleton.mp hc ▸ h⟩
  crash := Keeps.throw _
  raise status := by
    cases throwUnlessOk status with
    | none => exact Keeps.pure _
    | some t => exact Keeps.throw _
  takeBuffer buffer := by
    rw [takeBuffer]
    cases bufferSlice buffer with
    | ok bytes => exact Keeps.pure _
    | error e => exact Keeps.throw _
  deref view ptr := by
    intro s
    rw [ends_deref]
    exact ⟨fun _ _ => Std.Refl.refl s, fun _ => Std.Refl.refl s⟩
  store ptr a := Keeps.modify fun _ => DataCalls.of_heap _ _
  free ptr := Keeps.modify fun _ => DataCalls.of_heap _ _
  allocate env a := by
    rw [allocate]
    split
    · exact Keeps.bind (Keeps.modify fun _ => DataCalls.of_heap _ _) fun _ => Keeps.pure _
    · exact Keeps.pure _

/-! ## Releases -/

/-- The error is undefined behaviour. -/
abbrev Crashes (e : Abrupt) : Prop := e = .crash

theorem crashes_deref {α : Type} (view : Allocation → Option α) (ptr : ℕ) :
    Throws Crashes (deref view ptr) := by
  intro s
  rw [ends_deref]
  exact ⟨fun _ _ => trivial, fun _ => rfl⟩

namespace DB

theorem crashes_nativeReleaseSnapshot (ptr snapshot : ℕ) :
    Throws Crashes (nativeReleaseSnapshot ptr snapshot) :=
  Throws.bind (Throws.modify _) fun _ => Throws.bind (crashes_deref _ _) fun _ =>
    Throws.bind (crashes_deref _ _) fun _ => Throws.ite (Throws.modify _) (Throws.throw rfl)

/-- `nativeClose` is noted, whatever it does. -/
theorem ends_nativeClose_calls (ptr : ℕ) (s : Native) :
    Ends (nativeClose ptr) s (fun _ s' => s'.calls = .nativeClose ptr :: s.calls)
      fun e _ => e = .crash := by
  rw [nativeClose, ends_bind, ends_record, ends_ite]
  refine ⟨fun _ => ?_, fun _ => rfl⟩
  simp only [derefDB, free, ends_bind, ends_deref, ends_modify]
  exact ⟨fun _ _ => rfl, fun _ => trivial⟩

/-- **`nativeOpen` is noted with its result**, which is an address only if the database was not
locked; it is after that. -/
theorem ends_nativeOpen_calls (env : Env) (path : String) (s : Native) :
    Ends (nativeOpen env path) s
      (fun ptr s' => s'.calls = .nativeOpen path ptr :: s.calls ∧ path ∉ s.locks ∧
        (ptr ≠ 0 ↔ (openStatus env s path).ok = true) ∧ (ptr ≠ 0 → path ∈ s'.locks))
      fun e s' => e = .crash ∨
        (s'.calls = .nativeOpen path 0 :: s.calls ∧ s'.locks = s.locks) := by
  by_cases hp : env.newPtr = 0
  · rw [nativeOpen, if_pos hp]
    exact .inl rfl
  rw [nativeOpen, if_neg hp, ends_bind, ends_get]
  have hsnd := Directory.dbOpen_snd env.directory path (decide (path ∈ s.locks))
  change _ = if (openStatus env s path).ok then _ else none at hsnd
  cases hok : (openStatus env s path).ok with
  | true =>
    have hlock : path ∉ s.locks := by
      intro hmem
      rw [openStatus_of_locked env hmem] at hok
      cases hok
    have hraise : throwUnlessOk (openStatus env s path) = none := throwUnlessOk_of_ok hok
    rw [openStatus] at hraise
    rw [hok, if_pos rfl] at hsnd
    simp only [hsnd, hraise, allocate, if_pos hp, ends_bind, ends_modify, ends_pure, ends_record,
      raise]
    exact ⟨rfl, hlock, iff_of_true hp trivial, fun _ => Finset.mem_insert_self _ _⟩
  | false =>
    rw [hok, if_neg (by decide)] at hsnd
    simp only [hsnd, ends_bind, ends_pure, ends_record, ends_raise]
    refine ⟨fun hnone => ?_, fun t _ => .inr ⟨rfl, rfl⟩⟩
    refine ⟨rfl, fun hmem => ?_, iff_of_false (fun h => h rfl) (by decide), fun h => absurd rfl h⟩
    -- a locked database is refused with an error that is raised
    have hstatus := openStatus_of_locked env hmem
    rw [openStatus] at hstatus
    rw [hstatus] at hnone
    cases hnone

end DB

namespace Iterator

theorem crashes_nativeDestroy (ptr : ℕ) : Throws Crashes (nativeDestroy ptr) :=
  Throws.bind (Throws.modify _) fun _ => Throws.ite
    (Throws.bind (Throws.bind (crashes_deref _ _) fun _ => Throws.bind (crashes_deref _ _) fun _ =>
      Throws.pure _) fun _ => Throws.modify _) (Throws.pure _)

end Iterator

namespace WriteBatch

theorem crashes_nativeDestroy (ptr : ℕ) : Throws Crashes (nativeDestroy ptr) :=
  Throws.bind (Throws.modify _) fun _ => Throws.ite
    (Throws.bind (crashes_deref _ _) fun _ => Throws.modify _) (Throws.pure _)

end WriteBatch

end Jni
