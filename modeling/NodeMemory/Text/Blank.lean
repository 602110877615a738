/-!
# Blanks and fields

The blank characters, the fields of a line (its maximal runs of other
characters), and a line without the blanks around it. `fields` is what every
table of this library is read through.
-/

namespace NodeMemory.Text

/-- A code point lies in one of the closed ranges. -/
def inRanges (ranges : List (Nat × Nat)) (n : Nat) : Bool :=
  ranges.any fun r => r.1 ≤ n && n ≤ r.2

/-- The blanks: the Unicode white space characters and the four information
separators U+001C to U+001F. -/
def blankRanges : List (Nat × Nat) :=
  [(0x09, 0x0D), (0x1C, 0x20), (0x85, 0x85), (0xA0, 0xA0), (0x1680, 0x1680), (0x2000, 0x200A),
   (0x2028, 0x2029), (0x202F, 0x202F), (0x205F, 0x205F), (0x3000, 0x3000)]

def isBlank (c : Char) : Bool := inRanges blankRanges c.toNat

/-! ## Fields -/

/-- A run joins the runs after it, unless it is empty. -/
def consRun (run : List Char) (later : List (List Char)) : List (List Char) :=
  if run.isEmpty then later else run :: later

/-- The run that starts at the front, and the runs after it. -/
def runs : List Char → List Char × List (List Char)
  | [] => ([], [])
  | c :: cs =>
    let (run, later) := runs cs
    if isBlank c then ([], consRun run later) else (c :: run, later)

/-- The maximal runs of characters that are not blank, in order. -/
def fieldsOf (cs : List Char) : List (List Char) :=
  consRun (runs cs).1 (runs cs).2

/-- The fields of a line. -/
def fields (line : String) : List String :=
  (fieldsOf line.toList).map String.ofList

/-! ## Trimming -/

/-- Characters with a property are dropped at the end only. -/
def dropEnd (p : Char → Bool) (cs : List Char) : List Char :=
  (cs.reverse.dropWhile p).reverse

/-- A line without the blanks around it. -/
def strip (line : String) : String :=
  String.ofList (dropEnd isBlank (line.toList.dropWhile isBlank))

/-- A line without the line feeds that end it. -/
def chomp (line : String) : String :=
  String.ofList (dropEnd (· == '\n') line.toList)

/-- A blank never stands in a run. -/
theorem not_isBlank_of_mem_runs (cs : List Char) :
    (∀ c ∈ (runs cs).1, isBlank c = false) ∧ ∀ run ∈ (runs cs).2, ∀ c ∈ run, isBlank c = false := by
  induction cs with
  | nil => simp [runs]
  | cons c cs ih =>
    obtain ⟨ih1, ih2⟩ := ih
    by_cases hc : isBlank c = true
    · simp only [runs, hc, if_true, consRun]
      refine ⟨by simp, ?_⟩
      split
      · exact ih2
      · intro run hr
        rcases List.mem_cons.1 hr with rfl | hr
        · exact ih1
        · exact ih2 run hr
    · simp only [runs, hc]
      refine ⟨?_, ih2⟩
      intro d hd
      rcases List.mem_cons.1 hd with rfl | hd
      · simpa using hc
      · exact ih1 d hd

end NodeMemory.Text
