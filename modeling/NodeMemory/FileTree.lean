import NodeMemory.Fault
import NodeMemory.Keyed
import NodeMemory.Path
/-!
# File trees

A file tree is a directory with files and directories in it, and a current directory
inside. A location is the list of names that leads to an entry from the root. A walk
along a path follows its names one by one and stops at the first that cannot be
followed; it keeps the way it came, for a parent step goes back on it.
-/

namespace NodeMemory

inductive Entry where
  | file (bytes : List UInt8)
  | directory (inside : List (String × Entry))

namespace Entry

def empty : Entry := .directory []

/-- The entries directly inside, by their names; nothing is inside a file. -/
def inside : Entry → List (String × Entry)
  | file _ => []
  | directory inside => inside

def isDirectory : Entry → Bool
  | file _ => false
  | directory _ => true

/-- What is at a location, seen from an entry. -/
def at? : Entry → List String → Option Entry
  | e, [] => some e
  | e, name :: names =>
    match Entries.find? name e.inside with
    | none => none
    | some below => below.at? names

/-- Another entry at a location. Directories on the way are made if they are missing;
entries elsewhere stay. -/
def put : Entry → List String → Entry → Entry
  | _, [], new => new
  | e, name :: names, new =>
    let below := (Entries.find? name e.inside).getD empty
    .directory (Entries.insert name (below.put names new) e.inside)

/-- Two entries are not the same, apart from what is inside them. -/
def differs : Entry → Entry → Bool
  | file a, file b => a ≠ b
  | directory _, directory _ => false
  | _, _ => true

mutual

/-- An entry and all below it, with their locations seen from it. -/
def all : Entry → List (List String × Entry)
  | file bytes => [([], file bytes)]
  | directory inside => ([], directory inside) :: allInside inside

def allInside : List (String × Entry) → List (List String × Entry)
  | [] => []
  | (name, e) :: rest => (all e).map (fun x => (name :: x.1, x.2)) ++ allInside rest

end

end Entry

structure FileTree where
  root : Entry
  /-- The location of the current directory. -/
  current : List String

namespace FileTree

/-- A tree with a current directory, and nothing in it. -/
def empty (current : List String) : FileTree := ⟨Entry.empty.put current .empty, current⟩

def entry? (t : FileTree) (location : List String) : Option Entry := t.root.at? location

/-! ## Changes -/

/-- An entry at one location; entries elsewhere stay. -/
def set (t : FileTree) (location : List String) (e : Entry) : FileTree :=
  { t with root := t.root.put location e }

/-- The entries of a tree that are not the same in another. -/
def changesSince (t before : FileTree) : List (List String × Entry) :=
  t.root.all.filter fun x => (before.entry? x.1).all x.2.differs

/-! ## Walking -/

/-- The longest name, in bytes. -/
def nameLimit : Nat := 255

/-- The longest text of a path, in bytes. -/
def textLimit : Nat := 4095

/-- The way of a walk: the entries it came through, each with its name, the last one
first. -/
abbrev Way := List (String × Entry)

def Way.entry (way : Way) (root : Entry) : Entry :=
  match way with
  | [] => root
  | (_, e) :: _ => e

def Way.location (way : Way) : List String := (way.map Prod.fst).reverse

/-- One name of a walk. The root is above itself. -/
def step (t : FileTree) (way : Way) (name : String) : Except FileFault Way :=
  match way.entry t.root with
  | .file _ => .error .notDirectory
  | .directory inside =>
    if name = ".." then .ok way.tail
    else if nameLimit < name.utf8ByteSize then .error .nameTooLong
    else
      match Entries.find? name inside with
      | some e => .ok ((name, e) :: way)
      | none => .error .missing

def walk (t : FileTree) (way : Way) : List String → Except FileFault Way
  | [] => .ok way
  | name :: names =>
    match t.step way name with
    | .ok further => t.walk further names
    | .error f => .error f

/-- The names that lead to where a path starts. -/
def start (t : FileTree) (p : Path) : List String :=
  if p.anchor = .here then t.current else []

def follow (t : FileTree) (p : Path) : Except FileFault Way :=
  if textLimit < p.text.utf8ByteSize then .error .nameTooLong else t.walk [] (t.start p ++ p.names)

def find (t : FileTree) (p : Path) : Except FileFault Entry :=
  (t.follow p).map fun way => way.entry t.root

def locate (t : FileTree) (p : Path) : Except FileFault (List String) := (t.follow p).map Way.location

/-- A path leads to something. -/
def isThere (t : FileTree) (p : Path) : Bool :=
  !p.hasNul && (t.find p).toOption.isSome

def isDirectory (t : FileTree) (p : Path) : Bool :=
  match t.find p with
  | .ok e => e.isDirectory
  | .error _ => false

/-! ## Reading -/

/-- The bytes of the file that a path leads to. -/
def readAt (t : FileTree) (p : Path) : Except FileFault (List UInt8) :=
  match t.find p with
  | .error f => .error f
  | .ok (.file bytes) => .ok bytes
  | .ok (.directory _) => .error .isDirectory

def read (t : FileTree) (p : Path) : Except Fault (List UInt8) :=
  if p.hasNul then .error .nulInPath
  else (t.readAt p).mapError fun f => .file f p.text

/-- The names in the directory that a path leads to; none if it leads nowhere. -/
def list (t : FileTree) (p : Path) : List String :=
  match t.find p with
  | .ok e => e.inside.map Prod.fst
  | .error _ => []

/-! ## Writing -/

/-- Where a new entry would be: in a directory, which has to be there. -/
def slot (t : FileTree) (p : Path) (name : String) : Except FileFault (List String) :=
  match t.follow p.parent with
  | .error f => .error f
  | .ok way =>
    if !(way.entry t.root).isDirectory then .error .notDirectory
    else if nameLimit < name.utf8ByteSize then .error .nameTooLong
    else .ok (way.location ++ [name])

/-- A path that ends in no name of its own leads to a directory, if anywhere. -/
def endsInDirectory (t : FileTree) (p : Path) (found : FileFault) : FileFault :=
  match t.follow p with
  | .error f => f
  | .ok _ => found

def makeDirectoryAt (t : FileTree) (p : Path) : Except FileFault FileTree :=
  if textLimit < p.text.utf8ByteSize then .error .nameTooLong
  else
    match p.names.getLast? with
    | none => .error .alreadyExists
    | some name =>
      if name = ".." then .error (t.endsInDirectory p .alreadyExists)
      else
        match t.slot p name with
        | .error f => .error f
        | .ok location =>
          if (t.entry? location).isSome then .error .alreadyExists else .ok (t.set location .empty)

/-- A new directory, or one that was there before. -/
def makeDirectory (t : FileTree) (p : Path) : Except FileFault FileTree :=
  match t.makeDirectoryAt p with
  | .ok t => .ok t
  | .error .missing => .error .missing
  | .error f => if t.isDirectory p then .ok t else .error f

/-- A directory and those above it that are missing; `fuel` bounds how many. What was
made stays, whatever goes wrong after it. -/
def makeDirectoriesAt (t : FileTree) : Nat → Path → FileTree × Option Fault
  | fuel, p =>
    if p.hasNul then (t, some .nulInPath)
    else
      match t.makeDirectory p, fuel with
      | .ok made, _ => (made, none)
      | .error .missing, fuel + 1 =>
        match makeDirectoriesAt t fuel p.parent with
        | (above, some f) => (above, some f)
        | (above, none) =>
          match above.makeDirectory p with
          | .ok made => (made, none)
          | .error f => (above, some (.file f p.text))
      | .error f, _ => (t, some (.file f p.text))

/-- A directory and those above it that are missing: the tree afterwards, and what went
wrong. -/
def makeDirectories (t : FileTree) (p : Path) : FileTree × Option Fault :=
  t.makeDirectoriesAt p.names.length p

/-- A file with the given bytes, in place of a file that was there before. -/
def writeAt (t : FileTree) (p : Path) (bytes : List UInt8) : Except FileFault FileTree :=
  if textLimit < p.text.utf8ByteSize then .error .nameTooLong
  else
    match p.names.getLast? with
    | none => .error .isDirectory
    | some name =>
      if name = ".." then .error (t.endsInDirectory p .isDirectory)
      else
        match t.slot p name with
        | .error f => .error f
        | .ok location =>
          if (t.entry? location).any Entry.isDirectory then .error .isDirectory
          else .ok (t.set location (.file bytes))

def write (t : FileTree) (p : Path) (bytes : List UInt8) : Except Fault FileTree :=
  if p.hasNul then .error .nulInPath
  else (t.writeAt p bytes).mapError fun f => .file f p.text

end FileTree

end NodeMemory
