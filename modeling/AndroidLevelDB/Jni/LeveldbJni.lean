import AndroidLevelDB.Leveldb.Status

/-!
# Jni/LeveldbJni — exceptions

How a call from Java ends if it does not return: with an exception, or with the death of the
process where native code does what is undefined.  `throwException` turns a status into an
exception; it knows three of the five codes (`throwException_eq_none_iff`).
-/

/-- The exceptions and errors the wrapper raises, with their messages. -/
inductive Throwable
  | notFoundException (msg : String)
  | databaseCorruptException (msg : String)
  | ioException (msg : String)
  | illegalStateException (msg : String)
  | illegalArgumentException
  | nullPointerException (msg : Option String)
  | outOfMemoryError (msg : String)
deriving DecidableEq

/-- How a call ends that does not return. -/
inductive Abrupt
  | thrown (t : Throwable)
  | crash
deriving DecidableEq

namespace Jni

open Leveldb

/-- `throwException`; a status of another kind raises nothing. -/
def throwException (status : Status) : Option Throwable :=
  if status.isNotFound then some (.notFoundException status.toString)
  else if status.isCorruption then some (.databaseCorruptException status.toString)
  else if status.isIOError then some (.ioException status.toString)
  else none

/-- `if (!status.ok()) throwException(env, status);` -/
def throwUnlessOk (status : Status) : Option Throwable :=
  if !status.ok then throwException status else none

/-- **The two kinds of error that raise no exception.** -/
theorem throwException_eq_none_iff {status : Status} (h : status.ok = false) :
    throwException status = none ↔
      status.code = some .kNotSupported ∨ status.code = some .kInvalidArgument := by
  obtain ⟨c, hc⟩ := Status.ok_eq_false_iff.mp h
  cases c <;>
    simp [throwException, Status.isNotFound, Status.isCorruption, Status.isIOError, hc]

theorem throwUnlessOk_of_ok {status : Status} (h : status.ok = true) :
    throwUnlessOk status = none := by
  simp [throwUnlessOk, h]

end Jni
