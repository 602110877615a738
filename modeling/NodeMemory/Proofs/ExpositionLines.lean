import NodeMemory.Proofs.ExposedNames
import NodeMemory.Proofs.Numerals
/-!
# The lines of the exposition text

The text read line by line, as whoever scrapes it does: the name on a line with a kind
(`typeNames`), and what stands on a line with a sample before its value, the name and the labels
(`series`). A text that was written from families gives back the written names of the families
and of their samples (`typeNames_render`, `series_render`), for no name, help text or label
breaks a line.
-/

namespace NodeMemory.Exposition

/-! ## Reading -/

def lines (text : String) : List (List Char) := text.toList.splitOn '\n'

/-- What a line with a kind begins with. -/
def typeSign : List Char := ['#', ' ', 'T', 'Y', 'P', 'E', ' ']

/-- The name on a line with a kind. -/
def typeName? (line : List Char) : Option (List Char) :=
  if typeSign.isPrefixOf line then some ((line.drop typeSign.length).takeWhile (· ≠ ' ')) else none

/-- What stands before the last blank of a line with a sample. -/
def seriesOf? : List Char → Option (List Char)
  | [] => none
  | '#' :: _ => none
  | c :: cs => some (((c :: cs).reverse.dropWhile (· ≠ ' ')).drop 1).reverse

def typeNames (text : String) : List (List Char) := (lines text).filterMap typeName?

def series (text : String) : List (List Char) := (lines text).filterMap seriesOf?

/-- Lines that hold no end of a line are read as they are, and nothing after the last. -/
theorem lines_eq {text : String} {ls : List (List Char)} (h : ∀ l ∈ ls, '\n' ∉ l)
    (ht : text.toList = ls.flatMap (· ++ ['\n'])) : lines text = ls ++ [[]] := by
  rw [lines, ht]
  clear ht
  induction ls with
  | nil => rfl
  | cons l ls ih =>
    obtain ⟨hl, hls⟩ := List.forall_mem_cons.1 h
    rw [List.flatMap_cons, List.append_assoc, List.singleton_append, List.splitOn_append_cons_self_of_not_mem hl,
      ih hls, List.cons_append]

/-! ## What is on the lines -/

/-- The name and the labels of a sample. -/
def seriesOf (s : Sample) : List Char := (NameClass.metric.write s.name).toList ++ (labels s.labels).toList

def helpSign : List Char := ['#', ' ', 'H', 'E', 'L', 'P', ' ']

def helpLine (f : Family) : List Char :=
  helpSign ++ (NameClass.metric.write f.sampleName).toList ++ ' ' :: f.documentation.toList.flatMap escapeHelp

def typeLine (f : Family) : List Char :=
  typeSign ++ (NameClass.metric.write f.sampleName).toList ++ ' ' :: f.kind.name.toList

def sampleLine (s : Sample) : List Char := seriesOf s ++ ' ' :: (Numeral.exposition.render s.value).toList

def familyLines (f : Family) : List (List Char) := helpLine f :: typeLine f :: f.samples.map sampleLine

theorem toList_newline : "\n".toList = ['\n'] := rfl

theorem toList_blank : " ".toList = [' '] := rfl

theorem toList_sample (s : Sample) : (sample s).toList = sampleLine s ++ ['\n'] := by
  simp only [sample, sampleLine, seriesOf, String.toList_append, toList_newline, toList_blank, List.append_assoc,
    List.cons_append, List.nil_append]

theorem toList_family (f : Family) : (family f).toList = (familyLines f).flatMap (· ++ ['\n']) := by
  have hs : (String.join (f.samples.map sample)).toList = (f.samples.map sampleLine).flatMap (· ++ ['\n']) := by
    rw [String.toList_join, List.flatMap_map, List.flatMap_map]
    exact congrArg (List.flatMap · f.samples) (funext toList_sample)
  have hhelp : "# HELP ".toList = helpSign := rfl
  have htype : "# TYPE ".toList = typeSign := rfl
  unfold family familyLines helpLine typeLine
  rw [← hhelp, ← htype]
  -- The two signs are long texts, which must not be taken apart.
  generalize "# HELP " = help, "# TYPE " = type
  rw [String.toList_append, hs]
  simp only [String.toList_append, escaped, String.toList_ofList, List.flatMap_cons, List.append_assoc]
  rw [toList_newline, toList_blank]
  rfl

theorem toList_render (families : List Family) :
    (render families).toList = (families.flatMap familyLines).flatMap (· ++ ['\n']) := by
  rw [render, String.toList_join, List.flatMap_map, List.flatMap_assoc]
  exact congrArg (List.flatMap · families) (funext toList_family)

/-! ## Names and labels on a line -/

/-- There is one label at most, and its name is one that the program gives. -/
inductive AreLabels : List (String × String) → Prop
  | none : AreLabels []
  | one {name : String} (value : String) : name ∈ ["node", "collector"] → AreLabels [(name, value)]

/-- The names and labels of a family as the program makes them. -/
structure Whole (f : Family) : Prop where
  name : Fits f.sampleName
  samples : ∀ s ∈ f.samples, s.name = f.sampleName ∧ AreLabels s.labels

variable {name value : String} {s t : Sample} {f : Family} {families : List Family}

theorem ne_of_mem_write (h : Fits name) {c d : Char} (hc : c ∈ (NameClass.metric.write name).toList)
    (hd : NameClass.metric.allows d = false) : c ≠ d := by
  rintro rfl
  rw [NameClass.allows_of_mem_write h.last hc] at hd
  cases hd

theorem exists_cons_write (h : Fits name) :
    ∃ c cs, (NameClass.metric.write name).toList = c :: cs ∧ NameClass.metric.allows c := by
  have hne : (NameClass.metric.write name).toList ≠ [] := by
    rw [NameClass.toList_write h.last]
    obtain ⟨c, cs, hc⟩ := List.exists_cons_of_ne_nil (mt String.toList_eq_nil_iff.1 h.ne_empty)
    simp [hc, NameClass.replace]
  obtain ⟨c, cs, hc⟩ := List.exists_cons_of_ne_nil hne
  exact ⟨c, cs, hc, NameClass.allows_of_mem_write h.last (hc ▸ List.mem_cons_self)⟩

theorem toList_labels_one (h : name ∈ ["node", "collector"]) : (labels [(name, value)]).toList =
    '\x7b' :: (name.toList ++ ('=' :: '"' :: (value.toList.flatMap escapeLabel ++ ['"', '\x7d']))) := by
  have hname : NameClass.label.write name = name := by
    have all : ∀ name ∈ ["node", "collector"], NameClass.label.write name = name := by decide
    exact all _ h
  have hone : labels [(name, value)] = "\x7b" ++ label (name, value) ++ "\x7d" := rfl
  rw [hone, label, hname]
  simp only [String.toList_append, escaped, String.toList_ofList, List.append_assoc]
  rfl

theorem AreLabels.toList_eq {ls : List (String × String)} (h : AreLabels ls) :
    (labels ls).toList = [] ∨ ∃ cs, (labels ls).toList = '\x7b' :: cs := by
  cases h with
  | none => exact .inl rfl
  | one value hn => exact .inr ⟨_, toList_labels_one hn⟩

theorem AreLabels.newline_notMem {ls : List (String × String)} (h : AreLabels ls) : '\n' ∉ (labels ls).toList := by
  cases h with
  | none => decide
  | one value hn =>
    have all : ∀ name ∈ ["node", "collector"], '\n' ∉ name.toList := by decide
    have hv := newline_notMem_escapeLabels value.toList
    rw [toList_labels_one hn]
    simp only [List.mem_cons, List.mem_append, all _ hn, hv, List.not_mem_nil, or_false, false_or]
    decide

/-- Labels are told apart by their texts. -/
theorem AreLabels.eq_of_text {ls ms : List (String × String)} (hl : AreLabels ls) (hm : AreLabels ms)
    (h : (labels ls).toList = (labels ms).toList) : ls = ms := by
  cases hl with
  | none =>
    cases hm with
    | none => rfl
    | one value hn =>
      rw [toList_labels_one hn] at h
      cases h
  | @one name value hn =>
    rw [toList_labels_one hn] at h
    cases hm with
    | none => cases h
    | @one name' value' hn' =>
      rw [toList_labels_one hn'] at h
      have h := (List.cons.inj h).2
      -- The two names have different first letters.
      have some_head : ∀ n ∈ ["node", "collector"], n.toList.head?.isSome := by decide
      have inj : ∀ n ∈ ["node", "collector"], ∀ n' ∈ ["node", "collector"],
          n.toList.head? = n'.toList.head? → n = n' := by decide
      have hname : name = name' := by
        apply inj name hn name' hn'
        have hh := congrArg List.head? h
        rwa [List.head?_append, List.head?_append, Option.or_of_isSome (some_head _ hn),
          Option.or_of_isSome (some_head _ hn')] at hh
      subst hname
      have hvalue := List.append_cancel_right (List.cons.inj (List.cons.inj (List.append_cancel_left h)).2).2
      rw [String.toList_inj.1 (escapeLabels_injective hvalue)]

/-- Samples are written with one text for name and labels just when they have the same labels and names
that are written alike. -/
theorem seriesOf_eq_iff (hs : Fits s.name) (hsl : AreLabels s.labels) (ht : Fits t.name) (htl : AreLabels t.labels) :
    seriesOf s = seriesOf t ↔
      NameClass.metric.write s.name = NameClass.metric.write t.name ∧ s.labels = t.labels := by
  -- No brace stands in a name, so the labels begin at the first one.
  have name {u : Sample} (hu : Fits u.name) (hl : AreLabels u.labels) :
      (seriesOf u).takeWhile (· ≠ '\x7b') = (NameClass.metric.write u.name).toList := by
    rw [seriesOf, List.takeWhile_append_of_pos fun c hc => by simpa using ne_of_mem_write hu hc (by decide)]
    rcases hl.toList_eq with h | ⟨cs, h⟩ <;> simp [h]
  constructor
  · intro h
    have hname : (NameClass.metric.write s.name).toList = (NameClass.metric.write t.name).toList := by
      rw [← name hs hsl, ← name ht htl, h]
    unfold seriesOf at h
    rw [hname, List.append_right_inj] at h
    exact ⟨String.toList_inj.1 hname, hsl.eq_of_text htl h⟩
  · rintro ⟨hname, hlabels⟩
    rw [seriesOf, seriesOf, hname, hlabels]

/-! ## Reading what was written -/

theorem notMem_render_value {c : Char} (hc : c = ' ' ∨ c = '\n') (x : Binary64) :
    c ∉ (Numeral.exposition.render x).toList := by
  intro h
  cases x with
  | finite negative rank =>
    have hn := (Numeral.isNumber_render .exposition negative rank).isNumeral h
    rcases hc with rfl | rfl
    · exact hn.ne (by decide) (by decide) rfl
    · exact hn.ne (by decide) (by decide) rfl
  | nan => rcases hc with rfl | rfl <;> exact absurd h (by decide)
  | infinite negative => rcases hc with rfl | rfl <;> cases negative <;> exact absurd h (by decide)

theorem exists_cons_sampleLine (h : Fits s.name) :
    ∃ c cs, sampleLine s = c :: cs ∧ NameClass.metric.allows c := by
  obtain ⟨c, cs, hc, ha⟩ := exists_cons_write h
  exact ⟨c, _, by rw [sampleLine, seriesOf, hc, List.cons_append, List.cons_append], ha⟩

theorem seriesOf?_sampleLine (h : Fits s.name) : seriesOf? (sampleLine s) = some (seriesOf s) := by
  obtain ⟨c, cs, hc, ha⟩ := exists_cons_sampleLine h
  have hsharp : c ≠ '#' := by
    rintro rfl
    cases ha
  have hread : seriesOf? (c :: cs) = some (((c :: cs).reverse.dropWhile (· ≠ ' ')).drop 1).reverse := by
    unfold seriesOf?
    split
    · next heq => cases heq
    · next heq =>
      cases heq
      exact absurd rfl hsharp
    · next heq => rw [heq]
  have hblank : ∀ d ∈ (Numeral.exposition.render s.value).toList.reverse, decide (d ≠ ' ') := by
    intro d hd
    rw [List.mem_reverse] at hd
    simpa using fun he => notMem_render_value (.inl he) s.value hd
  rw [hc, hread, ← hc, sampleLine, List.reverse_append, List.reverse_cons, List.append_assoc,
    List.dropWhile_append_of_pos hblank]
  simp

theorem typeName?_sampleLine (h : Fits s.name) : typeName? (sampleLine s) = none := by
  obtain ⟨c, cs, hc, ha⟩ := exists_cons_sampleLine h
  have hsharp : ¬ '#' = c := by
    rintro rfl
    cases ha
  have hprefix : typeSign.isPrefixOf (c :: cs) = false := by
    show ('#' == c && _) = false
    rw [beq_false_of_ne hsharp, Bool.false_and]
  rw [hc, typeName?, hprefix]
  rfl

theorem typeName?_typeLine (h : Fits f.sampleName) :
    typeName? (typeLine f) = some (NameClass.metric.write f.sampleName).toList := by
  have hprefix : typeSign.isPrefixOf (typeLine f) := by
    rw [List.isPrefixOf_iff_prefix, typeLine, List.append_assoc]
    exact List.prefix_append _ _
  have hname : ∀ c ∈ (NameClass.metric.write f.sampleName).toList, decide (c ≠ ' ') := by
    intro c hc
    simpa using ne_of_mem_write h hc (by decide)
  rw [typeName?, if_pos hprefix, typeLine, List.append_assoc, List.drop_left, List.takeWhile_append_of_pos hname]
  simp

theorem typeName?_helpLine (f : Family) : typeName? (helpLine f) = none := rfl

theorem seriesOf?_helpLine (f : Family) : seriesOf? (helpLine f) = none := rfl

theorem seriesOf?_typeLine (f : Family) : seriesOf? (typeLine f) = none := rfl

theorem newline_notMem_familyLines (hf : Whole f) : ∀ l ∈ familyLines f, '\n' ∉ l := by
  have hname : '\n' ∉ (NameClass.metric.write f.sampleName).toList :=
    fun hc => ne_of_mem_write hf.name hc (by decide) rfl
  intro l hl
  rcases List.mem_cons.1 hl with rfl | hl
  · have hdoc := newline_notMem_escapeHelps f.documentation.toList
    unfold helpLine
    simp only [List.mem_append, List.mem_cons, hname, hdoc, or_false]
    decide
  rcases List.mem_cons.1 hl with rfl | hl
  · have hkind : '\n' ∉ f.kind.name.toList := by cases f.kind <;> decide
    unfold typeLine
    simp only [List.mem_append, List.mem_cons, hname, hkind, or_false]
    decide
  · obtain ⟨s, hs, rfl⟩ := List.mem_map.1 hl
    obtain ⟨he, ha⟩ := hf.samples s hs
    have hvalue := notMem_render_value (.inr rfl) s.value
    unfold sampleLine seriesOf
    rw [he]
    simp only [List.mem_append, List.mem_cons, hname, ha.newline_notMem, hvalue, or_false]
    decide

theorem lines_render (h : ∀ f ∈ families, Whole f) : lines (render families) = families.flatMap familyLines ++ [[]] := by
  refine lines_eq (fun l hl => ?_) (toList_render families)
  obtain ⟨f, hf, hl⟩ := List.mem_flatMap.1 hl
  exact newline_notMem_familyLines (h f hf) l hl

/-- The lines with kinds are those of the families. -/
theorem typeNames_render (h : ∀ f ∈ families, Whole f) :
    typeNames (render families) = families.map fun f => (NameClass.metric.write f.sampleName).toList := by
  have hend : List.filterMap typeName? [[]] = [] := rfl
  rw [typeNames, lines_render h, List.filterMap_append, hend, List.append_nil]
  induction families with
  | nil => rfl
  | cons f families ih =>
    obtain ⟨hf, hfamilies⟩ := List.forall_mem_cons.1 h
    have hsamples : (f.samples.map sampleLine).filterMap typeName? = [] := by
      rw [List.filterMap_map, List.filterMap_eq_nil_iff]
      intro s hs
      exact typeName?_sampleLine ((hf.samples s hs).1 ▸ hf.name)
    rw [List.flatMap_cons, List.filterMap_append, ih hfamilies, familyLines, List.filterMap_cons, typeName?_helpLine,
      List.filterMap_cons, typeName?_typeLine hf.name, hsamples]
    rfl

/-- The lines with samples are those of the families' samples. -/
theorem series_render (h : ∀ f ∈ families, Whole f) :
    series (render families) = families.flatMap fun f => f.samples.map seriesOf := by
  have hend : List.filterMap seriesOf? [[]] = [] := rfl
  rw [series, lines_render h, List.filterMap_append, hend, List.append_nil]
  induction families with
  | nil => rfl
  | cons f families ih =>
    obtain ⟨hf, hfamilies⟩ := List.forall_mem_cons.1 h
    have hsamples : (f.samples.map sampleLine).filterMap seriesOf? = f.samples.map seriesOf := by
      rw [List.filterMap_map, ← List.filterMap_eq_map]
      refine List.filterMap_congr fun s hs => ?_
      exact seriesOf?_sampleLine ((hf.samples s hs).1 ▸ hf.name)
    rw [List.flatMap_cons, List.filterMap_append, ih hfamilies, familyLines, List.filterMap_cons, seriesOf?_helpLine,
      List.filterMap_cons, seriesOf?_typeLine, hsamples, List.flatMap_cons]

end NodeMemory.Exposition
