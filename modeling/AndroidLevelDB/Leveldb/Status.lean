/-!
# Leveldb/Status — the result of an operation

A `Status` is success or an error code with a message (`include/leveldb/status.h`).
-/

namespace Leveldb

namespace Status

/-- The error codes; `kOk` is the status without a state. -/
inductive Code
  | kNotFound
  | kCorruption
  | kNotSupported
  | kInvalidArgument
  | kIOError
deriving DecidableEq

end Status

/-- `state_ == NULL` is success. -/
structure Status where
  state : Option (Status.Code × String)
deriving DecidableEq

namespace Status

/-- `Status::OK()`. -/
def OK : Status := ⟨none⟩

/-- `Status(code, msg, msg2)`: a non-empty second message is put after `": "`. -/
def make (code : Code) (msg : String) (msg2 : String) : Status :=
  ⟨some (code, if msg2 = "" then msg else msg ++ ": " ++ msg2)⟩

def corruption (msg : String) (msg2 : String := "") : Status := make .kCorruption msg msg2
def invalidArgument (msg : String) (msg2 : String := "") : Status := make .kInvalidArgument msg msg2
def ioError (msg : String) (msg2 : String := "") : Status := make .kIOError msg msg2

def ok (s : Status) : Bool := s.state.isNone

/-- The code of an error, nothing for `kOk`. -/
def code (s : Status) : Option Code := s.state.map Prod.fst

def isNotFound (s : Status) : Bool := s.code = some .kNotFound
def isCorruption (s : Status) : Bool := s.code = some .kCorruption
def isIOError (s : Status) : Bool := s.code = some .kIOError

/-- `Status::ToString`. -/
def toString (s : Status) : String :=
  match s.state with
  | none => "OK"
  | some (code, msg) =>
    (match code with
      | .kNotFound => "NotFound: "
      | .kCorruption => "Corruption: "
      | .kNotSupported => "Not implemented: "
      | .kInvalidArgument => "Invalid argument: "
      | .kIOError => "IO error: ") ++ msg

/-- `SaveError` of the iterators: the first error is kept. -/
def saveError (s e : Status) : Status := if s.ok && !e.ok then e else s

@[simp] theorem ok_OK : OK.ok = true := rfl

theorem ok_iff {s : Status} : s.ok = true ↔ s = OK := by
  obtain ⟨state⟩ := s
  cases state <;> simp [ok, OK]

@[simp] theorem ok_saveError (s e : Status) : (s.saveError e).ok = (s.ok && e.ok) := by
  unfold saveError
  cases hs : s.ok <;> cases he : e.ok <;> simp [hs, he]

/-- An error carries one of the five codes. -/
theorem ok_eq_false_iff {s : Status} : s.ok = false ↔ ∃ c, s.code = some c := by
  obtain ⟨state⟩ := s
  cases state <;> simp [ok, code]

end Status

end Leveldb
