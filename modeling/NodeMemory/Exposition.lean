import NodeMemory.Family
import NodeMemory.Number.Numeral
import NodeMemory.Sorting
/-!
# The exposition text

For every family a line about it, a line with its kind, and a line for each of its
samples. Characters that have no place in a name are written as underscores; help
texts and label values are escaped.
-/

namespace NodeMemory.Exposition

/-! ## Names -/

/-- What may stand in a name. -/
inductive NameClass where
  | metric
  | label
  deriving DecidableEq, Repr

/-- A character may begin a name. -/
def NameClass.allowsFirst (k : NameClass) (c : Char) : Bool :=
  ('a' ≤ c && c ≤ 'z') || ('A' ≤ c && c ≤ 'Z') || c == '_' || (c == ':' && k == .metric)

/-- A character may stand after the first of a name. -/
def NameClass.allows (k : NameClass) (c : Char) : Bool :=
  k.allowsFirst c || ('0' ≤ c && c ≤ '9')

/-- Every character of a name is allowed in its place. -/
def NameClass.accepts (k : NameClass) : List Char → Bool
  | [] => false
  | c :: cs => k.allowsFirst c && cs.all k.allows

/-- A name, with every character that is not allowed in its place replaced. -/
def NameClass.replace (k : NameClass) : List Char → List Char
  | [] => []
  | c :: cs => (if k.allowsFirst c then c else '_') :: cs.map fun d => if k.allows d then d else '_'

/-- A name is kept for the inside of the program that reads the text: a label that
begins with two underscores. -/
def NameClass.reserves (k : NameClass) (cs : List Char) : Bool :=
  k == .label && cs.take 2 == ['_', '_']

/-- A name is written as it is. One line feed after a name that is fine is let pass,
unless the name is reserved. -/
def NameClass.passes (k : NameClass) (cs : List Char) : Bool :=
  k.accepts cs || (cs.getLast? == some '\n' && k.accepts cs.dropLast && !k.reserves cs)

def NameClass.write (k : NameClass) (name : String) : String :=
  if k.passes name.toList then name else String.ofList (k.replace name.toList)

/-! ## Escapes -/

def escapeHelp (c : Char) : List Char :=
  if c = '\\' then ['\\', '\\'] else if c = '\n' then ['\\', 'n'] else [c]

def escapeLabel (c : Char) : List Char :=
  if c = '"' then ['\\', '"'] else escapeHelp c

def escaped (escape : Char → List Char) (text : String) : String :=
  String.ofList (text.toList.flatMap escape)

/-! ## Lines -/

def label (l : String × String) : String :=
  NameClass.label.write l.1 ++ "=\"" ++ escaped escapeLabel l.2 ++ "\""

def labelLe (a b : String × String) : Bool := Sorting.textLe a.1 b.1

/-- The labels of a sample, by name; without labels there are no braces. -/
def labels (ls : List (String × String)) : String :=
  if ls.isEmpty then ""
  else "\x7b" ++ ",".intercalate ((Sorting.sortBy labelLe ls).map label) ++ "\x7d"

def sample (s : Sample) : String :=
  NameClass.metric.write s.name ++ labels s.labels ++ " " ++ Numeral.exposition.render s.value ++ "\n"

/-- The lines of a family. Its metric is named like its samples. -/
def family (f : Family) : String :=
  let name := NameClass.metric.write f.sampleName
  "# HELP " ++ name ++ " " ++ escaped escapeHelp f.documentation ++ "\n" ++
    "# TYPE " ++ name ++ " " ++ f.kind.name ++ "\n" ++ String.join (f.samples.map sample)

def render (families : List Family) : String := String.join (families.map family)

end NodeMemory.Exposition
