import AndroidLevelDB.Leveldb.Slice
import AndroidLevelDB.Leveldb.Status

/-!
# Leveldb/Env — files

The files of `env_posix.cc`.  A device may take no more than so many bytes, and a file may end in an
error of the medium.
-/

namespace Leveldb

/-- A file that is written. -/
structure WritableFile where
  filename : String
  contents : Bytes
  /-- How many more bytes the device takes, if it is limited. -/
  room : Option ℕ
  /-- The text of the error when it takes no more. -/
  error : String
deriving DecidableEq

namespace WritableFile

/-- `NewWritableFile`, on a device without limit. -/
def new (filename : String) : WritableFile := ⟨filename, [], none, ""⟩

/-- `Append`: what fits is written, also if it is not all. -/
def append (f : WritableFile) (data : Bytes) : Status × WritableFile :=
  match f.room with
  | none => (.OK, { f with contents := f.contents ++ data })
  | some n =>
    (if data.length ≤ n then .OK else .ioError f.filename f.error,
      { f with contents := f.contents ++ data.take n, room := some (n - data.length) })

/-- `Flush`. -/
def flush (f : WritableFile) : Status × WritableFile := (.OK, f)

theorem append_nil (f : WritableFile) : f.append [] = (.OK, f) := by
  obtain ⟨filename, contents, room, error⟩ := f
  cases room <;> simp [append]

/-- **Writing two pieces is writing them as one**, unless the first one did not fit. -/
theorem append_append (f : WritableFile) (a b : Bytes) :
    f.append (a ++ b) = if (f.append a).1.ok then (f.append a).2.append b else f.append a := by
  obtain ⟨filename, contents, room, error⟩ := f
  cases room with
  | none => simp [append]
  | some n =>
    by_cases h : a.length ≤ n
    · have hsub : n - a.length - b.length = n - (a.length + b.length) := by omega
      have hle : b.length ≤ n - a.length ↔ a.length + b.length ≤ n := by omega
      simp [append, h, hsub, hle, List.take_append, List.take_of_length_le h]
    · have hsum : ¬ a.length + b.length ≤ n := by omega
      have hsub : n - a.length = 0 := by omega
      have hsub' : n - (a.length + b.length) = 0 := by omega
      simp [append, h, hsum, hsub, hsub', List.take_append, Status.ioError, Status.make, Status.ok]

/-- A file that did not take all of the first piece reports the same for the second one. -/
theorem append_append_of_ne_nil (f : WritableFile) (a : Bytes) {b : Bytes} (hb : b ≠ []) :
    f.append (a ++ b) = (f.append a).2.append b := by
  rw [append_append]
  split
  · rfl
  · next h =>
    obtain ⟨filename, contents, room, error⟩ := f
    cases room with
    | none => exact absurd rfl h
    | some n =>
      have ha : ¬ a.length ≤ n := fun hle => h (by simp [append, hle])
      have hsub : n - a.length = 0 := by omega
      have hpos : ¬ b.length ≤ 0 := by simpa using hb
      simp [append, ha, hsub, hb]

/-- An append to a limited file reports whether it fitted. -/
theorem ok_append (f : WritableFile) (data : Bytes) :
    (f.append data).1.ok = true ↔ ∀ n ∈ f.room, data.length ≤ n := by
  obtain ⟨filename, contents, room, error⟩ := f
  cases room with
  | none => simp [append]
  | some n =>
    by_cases h : data.length ≤ n
    · simp [append, h]
    · simp [append, h, Status.ioError, Status.make, Status.ok]

end WritableFile

/-- A file that is read from front to back. -/
structure SequentialFile where
  /-- What was not read yet. -/
  rest : Bytes
  /-- The status of a read that comes short. -/
  ending : Status
  /-- The status of a skip. -/
  skipping : Status
deriving DecidableEq

namespace SequentialFile

/-- `NewSequentialFile`, without errors of the medium. -/
def new (contents : Bytes) : SequentialFile := ⟨contents, .OK, .OK⟩

/-- `Read`. -/
def read (f : SequentialFile) (n : ℕ) : Status × Bytes × SequentialFile :=
  (if f.rest.length < n then f.ending else .OK, f.rest.take n, { f with rest := f.rest.drop n })

/-- `Skip`, which may go past the end. -/
def skip (f : SequentialFile) (n : ℕ) : Status × SequentialFile :=
  (f.skipping, { f with rest := f.rest.drop n })

end SequentialFile

end Leveldb
