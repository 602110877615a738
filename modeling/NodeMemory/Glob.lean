import NodeMemory.FileTree
/-!
# Path patterns

A pattern is a path whose names may hold `*` for any characters, `?` for one, and
`[...]` for one of a set, which a leading `!` turns into the others. A name that
starts with a dot is only met by a pattern that does. Names without such signs stand
for themselves.
-/

namespace NodeMemory.Glob

/-- The characters that a pair of brackets stands for. -/
structure CharSet where
  negated : Bool
  singles : List Char
  ranges : List (Char × Char)
  deriving DecidableEq, Repr

def CharSet.contains (s : CharSet) (c : Char) : Bool :=
  (s.singles.contains c || s.ranges.any fun r => r.1 ≤ c && c ≤ r.2) != s.negated

/-- One sign of a pattern. -/
inductive Sign where
  | star
  | any
  | oneOf (set : CharSet)
  | char (c : Char)
  deriving DecidableEq, Repr

/-! ## Reading a pattern -/

/-- The text between brackets, cut at the hyphens that make a range; a hyphen
among the first `least` characters of a piece makes none. -/
def pieces : Nat → Nat → List Char → List (List Char)
  | 0, _, cs => [cs]
  | fuel + 1, least, cs =>
    match (cs.drop least).span (· ≠ '-') with
    | (_, []) => [cs]
    | (between, _ :: rest) => (cs.take least ++ between) :: pieces fuel 2 rest

/-- A hyphen at the end makes no range. -/
def closeLast : List (List Char) → List (List Char)
  | [] => []
  | [a, []] => [a ++ ['-']]
  | a :: rest => a :: closeLast rest

/-- A range whose ends are the wrong way round is empty, and so are its ends. -/
def dropEmptyRanges : List (List Char) → List (List Char)
  | [] => []
  | a :: rest =>
    match dropEmptyRanges rest with
    | [] => [a]
    | b :: later =>
      match a.getLast?, b.head? with
      | some lo, some hi => if hi < lo then (a.dropLast ++ b.tail) :: later else a :: b :: later
      | _, _ => a :: b :: later

/-- The ranges between the end of each piece and the beginning of the next. -/
def rangesBetween : List (List Char) → List (Char × Char)
  | a :: b :: rest =>
    match a.getLast?, b.head? with
    | some lo, some hi => (lo, hi) :: rangesBetween (b :: rest)
    | _, _ => rangesBetween (b :: rest)
  | _ => []

/-- The set that pieces stand for. A set that begins with `!`, once the empty ranges
are gone, is of the others; a range that would begin there has no beginning, and its
hyphen stands for itself. -/
def CharSet.ofPieces : List (List Char) → CharSet
  | ['!'] :: a :: rest => ⟨true, '-' :: (a :: rest).flatten, rangesBetween (a :: rest)⟩
  | ('!' :: a) :: rest => ⟨true, (a :: rest).flatten, rangesBetween (a :: rest)⟩
  | ps => ⟨false, ps.flatten, rangesBetween ps⟩

/-- The set that the text between brackets stands for. A leading `!` belongs to the
first piece with the character after it. -/
def CharSet.ofText (cs : List Char) : CharSet :=
  let least := if cs.head? = some '!' then 2 else 1
  .ofPieces (dropEmptyRanges (closeLast (pieces cs.length least cs)))

/-- The text up to the closing bracket and what follows it. A bracket in the first
place of the set belongs to it. -/
def takeSet? (cs : List Char) : Option (List Char × List Char) :=
  let (lead, rest) :=
    match cs with
    | '!' :: ']' :: cs => (['!', ']'], cs)
    | '!' :: cs => (['!'], cs)
    | ']' :: cs => ([']'], cs)
    | cs => ([], cs)
  match rest.span (· ≠ ']') with
  | (_, []) => none
  | (inside, _ :: after) => some (lead ++ inside, after)

/-- The signs of a pattern. A bracket that is never closed stands for itself. -/
def signs : Nat → List Char → List Sign
  | 0, _ => []
  | _, [] => []
  | fuel + 1, c :: cs =>
    if c = '*' then .star :: signs fuel cs
    else if c = '?' then .any :: signs fuel cs
    else if c = '[' then
      match takeSet? cs with
      | some (inside, after) => .oneOf (.ofText inside) :: signs fuel after
      | none => .char c :: signs fuel cs
    else .char c :: signs fuel cs

/-- The signs of the name of a pattern. -/
def signsOf (name : String) : List Sign := signs name.length name.toList

/-! ## Matching

Signs are compared with a text from the last sign to the first. Each sign turns the
places of the text from which the later signs meet the rest into the places from which
it and the later ones do, so that a text takes no more than its length for each sign.
The equations of `matchSigns` say what that comes to.
-/

/-- A sign that is no star stands for a character. -/
def Sign.accepts : Sign → Char → Bool
  | .star, _ => false
  | .any, _ => true
  | .oneOf set, c => set.contains c
  | .char d, c => c == d

/-- The places that are marked or have a marked place after them. -/
def onward : List Bool → List Bool
  | [] => []
  | b :: bs =>
    let later := onward bs
    (b || later.headD false) :: later

/-- The places from which a sign and those after it meet the rest of a text, by the
places from which those after it do. -/
def Sign.places (cs : List Char) : Sign → List Bool → List Bool
  | .star, after => onward after
  | s, after => List.zipWith (fun c marked => s.accepts c && marked) cs after.tail ++ [false]

/-- The only place from which no signs at all meet the rest of a text is its end. -/
def lastPlace (cs : List Char) : List Bool := cs.map (fun _ => false) ++ [true]

/-- The places from which signs meet the rest of a text. -/
def places (ss : List Sign) (cs : List Char) : List Bool :=
  ss.foldr (Sign.places cs) (lastPlace cs)

/-- Signs stand for the whole of a text. -/
def matchSigns (ss : List Sign) (cs : List Char) : Bool := (places ss cs).headD false

theorem length_onward (bs : List Bool) : (onward bs).length = bs.length := by
  induction bs with
  | nil => rfl
  | cons b bs ih => simp [onward, ih]

theorem tail_onward (bs : List Bool) : (onward bs).tail = onward bs.tail := by
  cases bs <;> rfl

theorem length_places (ss : List Sign) (cs : List Char) : (places ss cs).length = cs.length + 1 := by
  induction ss with
  | nil => simp [places, lastPlace]
  | cons s ss ih =>
    have h : places (s :: ss) cs = s.places cs (places ss cs) := rfl
    rw [h]
    cases s <;> simp [Sign.places, length_onward, ih]

/-- The later places of a text are the places of its rest. -/
theorem tail_places (ss : List Sign) (c : Char) (cs : List Char) :
    (places ss (c :: cs)).tail = places ss cs := by
  induction ss with
  | nil => rfl
  | cons s ss ih =>
    have h (text : List Char) : places (s :: ss) text = s.places text (places ss text) := rfl
    rw [h, h, ← ih]
    have hlen : 0 < (places ss (c :: cs)).tail.length := by simp [ih, length_places]
    cases s with
    | star => exact tail_onward _
    | any | oneOf _ | char _ =>
      match ht : (places ss (c :: cs)).tail, hlen with
      | _ :: _, _ => simp [Sign.places, ht]

theorem places_cons (ss : List Sign) (c : Char) (cs : List Char) :
    places ss (c :: cs) = matchSigns ss (c :: cs) :: places ss cs := by
  have hlen := length_places ss (c :: cs)
  rw [← tail_places ss c cs, matchSigns]
  cases h : places ss (c :: cs) with
  | nil => simp [h] at hlen
  | cons b bs => rfl

theorem places_nil (ss : List Sign) : places ss [] = [matchSigns ss []] := by
  have hlen := length_places ss []
  rw [matchSigns]
  match h : places ss [], hlen with
  | [b], _ => rfl

theorem matchSigns_nil (cs : List Char) : matchSigns [] cs = cs.isEmpty := by cases cs <;> rfl

theorem matchSigns_star_nil (ss : List Sign) : matchSigns (.star :: ss) [] = matchSigns ss [] := by
  have h : places (.star :: ss) [] = onward (places ss []) := rfl
  rw [matchSigns, h, places_nil]
  simp [onward]

/-- A star stands for nothing, or for the next character and what it stands for after. -/
theorem matchSigns_star_cons (ss : List Sign) (c : Char) (cs : List Char) :
    matchSigns (.star :: ss) (c :: cs) = (matchSigns ss (c :: cs) || matchSigns (.star :: ss) cs) := by
  have h (text : List Char) : places (.star :: ss) text = onward (places ss text) := rfl
  rw [matchSigns, h, places_cons, matchSigns.eq_def (.star :: ss) cs, h]
  rfl

/-- Any other sign needs a character. -/
theorem matchSigns_cons_nil {s : Sign} (hs : s ≠ .star) (ss : List Sign) : matchSigns (s :: ss) [] = false := by
  have h : places (s :: ss) [] = s.places [] (places ss []) := rfl
  rw [matchSigns, h]
  cases s with
  | star => exact absurd rfl hs
  | any | oneOf _ | char _ => simp [Sign.places]

/-- Any other sign stands for the first character, and the later ones for the rest. -/
theorem matchSigns_cons_cons {s : Sign} (hs : s ≠ .star) (ss : List Sign) (c : Char) (cs : List Char) :
    matchSigns (s :: ss) (c :: cs) = (s.accepts c && matchSigns ss cs) := by
  have h : places (s :: ss) (c :: cs) = s.places (c :: cs) (places ss (c :: cs)) := rfl
  have hlen := length_places ss cs
  rw [matchSigns, h, matchSigns]
  cases s with
  | star => exact absurd rfl hs
  | any | oneOf _ | char _ =>
    simp only [Sign.places, tail_places]
    cases hp : places ss cs with
    | nil => simp [hp] at hlen
    | cons b bs => simp

/-! ## Names -/

/-- Signs meet a name of a directory. -/
def meetsSigns (ss : List Sign) (name : String) : Bool :=
  let cs := name.toList
  let hidden := cs.head? == some '.' && ss.head? != some (.char '.')
  !hidden && matchSigns ss cs

/-- A pattern name meets a name of a directory. -/
def meets (pattern name : String) : Bool := meetsSigns (signsOf pattern) name

/-- A pattern name holds a sign. -/
def isPattern (name : String) : Bool :=
  name.toList.any fun c => c == '*' || c == '?' || c == '['

/-! ## Expanding a pattern -/

/-- The names of a directory that a pattern name meets, and the directories alone
where more names follow. -/
def meeting (t : FileTree) (followed : Bool) (pattern : String) (p : Path) : List Path :=
  let ss := signsOf pattern
  ((t.list p).filter fun name => meetsSigns ss name && (!followed || t.isDirectory (p.child name))).map p.child

/-- The paths that go on from a list of paths by one name of a pattern. -/
def extend (t : FileTree) (followed : Bool) (name : String) (found : List Path) : Except Fault (List Path) :=
  if isPattern name then
    if found.any Path.hasNul then .error .nulInPath else .ok (found.flatMap (meeting t followed name))
  else .ok ((found.map fun p => p.child name).filter t.isThere)

/-- The paths that go on from a list of paths by all names of a pattern. -/
def expandFrom (t : FileTree) (found : List Path) : List String → Except Fault (List Path)
  | [] => .ok found
  | name :: names =>
    match extend t (!names.isEmpty) name found with
    | .error f => .error f
    | .ok found => expandFrom t found names

/-- The paths of a file tree that a pattern meets. The names before the first sign
are taken as they are. -/
def expand (t : FileTree) (pattern : Path) : Except Fault (List Path) :=
  let (plain, rest) := pattern.names.span fun name => !isPattern name
  if rest.isEmpty then .ok ([pattern].filter t.isThere)
  else expandFrom t [{ pattern with names := plain }] rest

end NodeMemory.Glob
