/-!
# Paths

A path is kept in its normal form: the names in it, without empty ones and without
dots, and where it starts. Two leading slashes are kept apart from one; more than
two count as one. A parent step `..` is kept, for what it means depends on the
file tree.
-/

namespace NodeMemory

inductive Anchor where
  /-- At the current directory. -/
  | here
  /-- At the root. -/
  | root
  /-- At the root, written with two slashes. -/
  | doubleRoot
  deriving DecidableEq, Repr

def Anchor.text : Anchor → String
  | .here => ""
  | .root => "/"
  | .doubleRoot => "//"

structure Path where
  anchor : Anchor
  names : List String
  deriving DecidableEq, Repr

namespace Path

def anchorOf : List Char → Anchor
  | '/' :: '/' :: '/' :: _ => .root
  | '/' :: '/' :: _ => .doubleRoot
  | '/' :: _ => .root
  | _ => .here

def ofText (text : String) : Path where
  anchor := anchorOf text.toList
  names := ((text.toList.splitOn '/').map String.ofList).filter fun name => name ≠ "" && name ≠ "."

/-- The text of a path in normal form. -/
def text (p : Path) : String :=
  if p.anchor = .here ∧ p.names = [] then "." else p.anchor.text ++ "/".intercalate p.names

/-- A path seen from another one: a path that starts at the root is itself. -/
def join (p q : Path) : Path :=
  if q.anchor = .here then { p with names := p.names ++ q.names } else q

def parent (p : Path) : Path := { p with names := p.names.dropLast }

def child (p : Path) (name : String) : Path := { p with names := p.names ++ [name] }

/-- No path with a NUL in it can be handed to the system. -/
def hasNul (p : Path) : Bool := p.names.any fun name => name.toList.contains '\x00'

end Path

end NodeMemory
