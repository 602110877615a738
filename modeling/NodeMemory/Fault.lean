import NodeMemory.Text.Quoted
/-!
# Faults

Everything that can stop the reading of memory figures, as causes. The wording is
in `Fault.message` alone.
-/

namespace NodeMemory

inductive LineFault where
  /-- The number of fields, or the unit, fits no line of a memory table. -/
  | unknownShape
  /-- A line of a table of counts has exactly two fields. -/
  | notTwoFields
  deriving DecidableEq, Repr

def LineFault.message : LineFault → String
  | .unknownShape => "invalid line in meminfo"
  | .notTwoFields => "line scan did not return 2 fields"

/-- Why a path cannot be opened, made or written. -/
inductive FileFault where
  | missing
  | alreadyExists
  | notDirectory
  | isDirectory
  | nameTooLong
  deriving DecidableEq, Repr

/-- The system's number and words for a file fault. -/
def FileFault.code : FileFault → Nat × String
  | .missing => (2, "No such file or directory")
  | .alreadyExists => (17, "File exists")
  | .notDirectory => (20, "Not a directory")
  | .isDirectory => (21, "Is a directory")
  | .nameTooLong => (36, "File name too long")

inductive Fault where
  /-- A value token of a table that is no number. -/
  | badValue (table token : String)
  /-- A word that stands for a number, spelt with a letter that only compares as
  one of the word's letters. -/
  | misspeltValue (token : String)
  | badLine (what : LineFault) (line : String)
  | badNodePath (path : String)
  /-- A query of the native host that failed, with the status it returned. -/
  | nativeQuery (query : String) (status : Int)
  | libraryMissing
  | undecodable (what : Text.Utf8.Fault)
  | file (what : FileFault) (path : String)
  /-- A path with a NUL in it cannot be handed to the system. -/
  | nulInPath
  | integerTooLarge
  deriving DecidableEq, Repr

namespace Fault

def message : Fault → String
  | badValue table token => "invalid value in " ++ table ++ ": " ++ Text.quote token
  | misspeltValue token => "could not convert string to float: " ++ Text.quote token
  | badLine what line => what.message ++ ": " ++ line
  | badNodePath path => "device node string didn't match regexp: " ++ path
  | nativeQuery query status => "couldn't get " ++ query ++ ", native call returned " ++ toString status
  | libraryMissing => "libc not found"
  | undecodable what => what.message
  | file what path =>
    "[Errno " ++ toString what.code.1 ++ "] " ++ what.code.2 ++ ": " ++ Text.quote path
  | nulInPath => "embedded null byte"
  | integerTooLarge => "int too large to convert to float"

end Fault

/-! ## Steps that go through -/

theorem map_eq_ok_iff {ε α β : Type} {x : Except ε α} {make : α → β} {b : β} :
    x.map make = .ok b ↔ ∃ a, x = .ok a ∧ make a = b := by
  cases x <;> simp [Except.map]

theorem bind_eq_ok_iff {ε α β : Type} {x : Except ε α} {next : α → Except ε β} {b : β} :
    (x >>= next) = .ok b ↔ ∃ a, x = .ok a ∧ next a = .ok b := by
  cases x <;> simp [bind, Except.bind]

end NodeMemory
