import NodeMemory.Number.Numeral
import NodeMemory.Sorting
import NodeMemory.Text.Utf8
/-!
# JSON values and how they are written

A document is written on one line without spaces, the members of every object in
ascending order of their names, characters beyond ASCII as they are. Besides the
JSON values there are two kinds of value that are only shown as text, a path and a
failure; whether they may stand in a document is for its writer to decide.
-/

namespace NodeMemory

/-- What a value that is shown as text is. -/
inductive Foreign where
  | path
  | failure
  deriving DecidableEq, Repr

inductive Json where
  | null
  | bool (b : Bool)
  | integer (n : Int)
  | number (x : Binary64)
  | string (s : String)
  | array (items : List Json)
  | object (members : List (String × Json))
  | shown (what : Foreign) (text : String)

namespace Json

/-! ## Strings -/

def escape (c : Char) : List Char :=
  if c = '"' then ['\\', '"']
  else if c = '\\' then ['\\', '\\']
  else if c = '\n' then ['\\', 'n']
  else if c = '\r' then ['\\', 'r']
  else if c = '\t' then ['\\', 't']
  else if c = '\x08' then ['\\', 'b']
  else if c = '\x0c' then ['\\', 'f']
  else if c.toNat < 0x20 then '\\' :: 'u' :: (Text.Utf8.hex 4 c.toNat).toList
  else [c]

/-- A string between its quotes. -/
def writeString (s : String) : List Char :=
  '"' :: s.toList.flatMap escape ++ ['"']

/-! ## Values -/

def commas : List (List Char) → List Char
  | [] => []
  | [x] => x
  | x :: xs => x ++ ',' :: commas xs

def memberLe (a b : String × List Char) : Bool := Sorting.textLe a.1 b.1

/-- The members of an object, each with its value already written. -/
def writeObject (members : List (String × List Char)) : List Char :=
  '\x7b' :: commas ((Sorting.sortBy memberLe members).map fun (name, text) => writeString name ++ ':' :: text) ++
    ['\x7d']

mutual

def write : Json → List Char
  | null => ['n', 'u', 'l', 'l']
  | bool b => if b then ['t', 'r', 'u', 'e'] else ['f', 'a', 'l', 's', 'e']
  | integer n => (toString n).toList
  | number x => (Numeral.json.render x).toList
  | string s => writeString s
  | array items => '[' :: commas (writeItems items) ++ [']']
  | object members => writeObject (writeMembers members)
  | shown _ text => writeString text

def writeItems : List Json → List (List Char)
  | [] => []
  | x :: xs => write x :: writeItems xs

def writeMembers : List (String × Json) → List (String × List Char)
  | [] => []
  | (name, x) :: rest => (name, write x) :: writeMembers rest

end

def render (x : Json) : String := String.ofList (write x)

/-! ## Foreign values -/

def foreignLe (a b : String × Option Foreign) : Bool := Sorting.textLe a.1 b.1

/-- The first that is there. -/
def firstForeign : List (Option Foreign) → Option Foreign
  | [] => none
  | some f :: _ => some f
  | none :: rest => firstForeign rest

mutual

/-- The first foreign value, in the order in which the values are written. -/
def foreign? : Json → Option Foreign
  | shown what _ => some what
  | array items => firstForeign (foreignItems items)
  | object members =>
    firstForeign ((Sorting.sortBy foreignLe (foreignMembers members)).map Prod.snd)
  | _ => none

def foreignItems : List Json → List (Option Foreign)
  | [] => []
  | x :: xs => foreign? x :: foreignItems xs

def foreignMembers : List (String × Json) → List (String × Option Foreign)
  | [] => []
  | (name, x) :: rest => (name, foreign? x) :: foreignMembers rest

end

end Json

end NodeMemory
