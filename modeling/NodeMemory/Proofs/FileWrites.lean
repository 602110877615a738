import NodeMemory.Program
import NodeMemory.Proofs.Patterns
/-!
# What was written can be read

A file that was written holds its bytes under the path it was written to, whatever parent steps
are in the path (`read_of_write`). The way to a file comes through directories alone, and a new
file in place of something that was none leaves all directories where they are
(`isDirectory_put`); so the same walk leads to the file afterwards.
-/

namespace NodeMemory

namespace Entry

theorem at?_append (e : Entry) (a b : List String) : e.at? (a ++ b) = (e.at? a).bind fun below => below.at? b := by
  induction a generalizing e with
  | nil => rfl
  | cons name names ih =>
    rw [List.cons_append, at?, at?]
    cases Entries.find? name e.inside with
    | none => rfl
    | some below => exact ih below

theorem at?_put_self (e : Entry) (location : List String) (new : Entry) :
    (e.put location new).at? location = some new := by
  induction location generalizing e with
  | nil => simp [put, at?]
  | cons name names ih => simp only [put, at?, inside, Entries.find?_insert_self, ih]

/-- There is a directory at a location. -/
def HasDirectory (e : Entry) (location : List String) : Prop := (e.at? location).any isDirectory

theorem hasDirectory_cons {e : Entry} {name : String} {names : List String} :
    e.HasDirectory (name :: names) ↔ ∃ below, Entries.find? name e.inside = some below ∧ below.HasDirectory names := by
  unfold HasDirectory
  rw [at?]
  cases Entries.find? name e.inside <;> simp

/-- What is put in place of something that is no directory leaves all directories. -/
theorem hasDirectory_put {e : Entry} {location other : List String} (new : Entry) (hl : ¬ e.HasDirectory location)
    (ho : e.HasDirectory other) : (e.put location new).HasDirectory other := by
  induction location generalizing e other with
  | nil =>
    cases e with
    | file bytes => cases other <;> simp [HasDirectory, at?, inside, Entries.find?, isDirectory] at ho
    | directory inside => exact absurd rfl hl
  | cons name names ih =>
    cases other with
    | nil => rfl
    | cons n ns =>
      obtain ⟨below, hf, hb⟩ := hasDirectory_cons.1 ho
      rw [put, hasDirectory_cons]
      by_cases hn : n = name
      · subst hn
        rw [hf]
        refine ⟨_, Entries.find?_insert_self n _ _, ih (fun hd => hl (hasDirectory_cons.2 ⟨below, hf, hd⟩)) hb⟩
      · exact ⟨below, by rw [inside, Entries.find?_insert_ne hn, hf], hb⟩

end Entry

namespace FileTree

/-! ## Ways in a tree -/

/-- Every entry of a way is inside the one before it. -/
def Way.IsIn (root : Entry) : Way → Prop
  | [] => True
  | (name, e) :: way => Entries.find? name (Way.entry way root).inside = some e ∧ Way.IsIn root way

theorem Way.IsIn.at? {root : Entry} {way : Way} (h : way.IsIn root) :
    root.at? way.location = some (way.entry root) := by
  induction way with
  | nil => rfl
  | cons x way ih =>
    obtain ⟨name, e⟩ := x
    have hl : Way.location ((name, e) :: way) = Way.location way ++ [name] := by simp [Way.location]
    rw [hl, Entry.at?_append, ih h.2, Option.bind_some, Entry.at?, h.1]
    rfl

theorem Way.IsIn.hasDirectory {root : Entry} {way : Way} (h : way.IsIn root) :
    root.HasDirectory way.location ↔ (way.entry root).isDirectory := by
  rw [Entry.HasDirectory, h.at?, Option.any_some]

variable {t t' : FileTree} {way way' further : Way}

/-- The steps that can be made from a directory. -/
theorem step_eq_ok {name : String} (hd : (way.entry t.root).isDirectory) :
    t.step way name = .ok further ↔ (name = ".." ∧ further = way.tail) ∨ (name ≠ ".." ∧
      name.utf8ByteSize ≤ nameLimit ∧
        ∃ e, Entries.find? name (way.entry t.root).inside = some e ∧ further = (name, e) :: way) := by
  unfold step
  cases he : way.entry t.root with
  | file bytes => simp [he, Entry.isDirectory] at hd
  | directory inside =>
    simp only [Entry.inside]
    by_cases hn : name = ".."
    · rw [if_pos hn]
      constructor
      · intro h
        cases h
        exact .inl ⟨hn, rfl⟩
      · rintro (⟨-, rfl⟩ | ⟨h, -⟩)
        · rfl
        · exact absurd hn h
    rw [if_neg hn]
    by_cases hl : nameLimit < name.utf8ByteSize
    · rw [if_pos hl]
      constructor
      · intro h
        cases h
      · rintro (⟨h, -⟩ | ⟨-, h, -⟩)
        · exact absurd h hn
        · omega
    rw [if_neg hl]
    cases Entries.find? name inside with
    | none => simp [hn]
    | some e => simp [hn, Nat.le_of_not_lt hl, eq_comm]

theorem Way.IsIn.step {name : String} (h : way.IsIn t.root) (hs : t.step way name = .ok further) :
    further.IsIn t.root := by
  rcases (step_eq_ok (isDirectory_of_step hs)).1 hs with ⟨-, rfl⟩ | ⟨-, -, e, he, rfl⟩
  · cases way with
    | nil => exact h
    | cons x way => exact h.2
  · exact ⟨he, h⟩

/-! ## The same walk in two trees -/

/-- Two ways have the same names, each in its own tree. -/
structure Alike (t t' : FileTree) (way way' : Way) : Prop where
  isIn : way.IsIn t.root
  isIn' : way'.IsIn t'.root
  names_eq : way'.map Prod.fst = way.map Prod.fst

/-- All directories of a tree are in another tree too. -/
def Keeps (t t' : FileTree) : Prop := ∀ location, t.root.HasDirectory location → t'.root.HasDirectory location

theorem Alike.isDirectory (h : Alike t t' way way') (hk : Keeps t t') (hd : (way.entry t.root).isDirectory) :
    (way'.entry t'.root).isDirectory := by
  rw [← h.isIn'.hasDirectory, Way.location, h.names_eq]
  exact hk _ (h.isIn.hasDirectory.2 hd)

theorem Alike.step {name : String} (h : Alike t t' way way') (hk : Keeps t t')
    (hs : t.step way name = .ok further) (hd : (further.entry t.root).isDirectory) :
    ∃ further', t'.step way' name = .ok further' ∧ Alike t t' further further' := by
  have hway := isDirectory_of_step hs
  have hway' := h.isDirectory hk hway
  have hfurther := h.isIn.step hs
  rcases (step_eq_ok hway).1 hs with ⟨hn, rfl⟩ | ⟨hn, hl, e, he, rfl⟩
  · have hs' : t'.step way' name = .ok way'.tail := (step_eq_ok hway').2 (.inl ⟨hn, rfl⟩)
    exact ⟨_, hs', hfurther, h.isIn'.step hs', by rw [List.map_tail, List.map_tail, h.names_eq]⟩
  · -- The directory below has another one in its place in the second tree.
    have hb := hk _ (hfurther.hasDirectory.2 hd)
    have hloc : Way.location ((name, e) :: way) = Way.location way' ++ [name] := by
      simp [Way.location, h.names_eq]
    rw [hloc, Entry.HasDirectory, Entry.at?_append, h.isIn'.at?, Option.bind_some] at hb
    obtain ⟨e', he', -⟩ := Entry.hasDirectory_cons.1 hb
    have hs' : t'.step way' name = .ok ((name, e') :: way') := (step_eq_ok hway').2 (.inr ⟨hn, hl, e', he', rfl⟩)
    exact ⟨_, hs', hfurther, h.isIn'.step hs', by simp [h.names_eq]⟩

/-- A walk that ends in a directory can be made in every tree that has the same directories. -/
theorem Alike.walk {names : List String} {last : Way} (h : Alike t t' way way') (hk : Keeps t t')
    (hw : t.walk way names = .ok last) (hd : (last.entry t.root).isDirectory) :
    ∃ last', t'.walk way' names = .ok last' ∧ Alike t t' last last' := by
  induction names generalizing way way' with
  | nil =>
    cases hw
    exact ⟨way', rfl, h⟩
  | cons name names ih =>
    rw [FileTree.walk] at hw
    cases hs : t.step way name with
    | error f => simp [hs] at hw
    | ok further =>
      simp only [hs] at hw
      have hf : (further.entry t.root).isDirectory := by
        cases names with
        | nil =>
          cases hw
          exact hd
        | cons next names =>
          rw [FileTree.walk] at hw
          cases hs : t.step further next with
          | error f => simp [hs] at hw
          | ok _ => exact isDirectory_of_step hs
      obtain ⟨further', hs', ha⟩ := h.step hk hs hf
      obtain ⟨last', hw', hl⟩ := ih ha hw
      exact ⟨last', by rw [FileTree.walk, hs']; exact hw', hl⟩

/-! ## Reading what was written -/

variable {p : Path} {bytes : List UInt8}

theorem slot_eq_ok {name : String} {location : List String} (h : t.slot p name = .ok location) :
    ∃ way, t.walk [] (t.start p.parent ++ p.parent.names) = .ok way ∧ (way.entry t.root).isDirectory ∧
      name.utf8ByteSize ≤ nameLimit ∧ location = way.location ++ [name] := by
  unfold slot at h
  split at h
  · cases h
  next way hway =>
    unfold follow at hway
    split at hway
    · cases hway
    split at h
    · cases h
    next hdir =>
      split at h
      · cases h
      next hl =>
        cases h
        exact ⟨way, hway, by simpa using hdir, Nat.le_of_not_lt hl, rfl⟩

/-- The same walk and one step more lead to a file at the end of the way. -/
theorem walk_concat {names : List String} {name : String} (hk : Keeps t t') (hw : t.walk [] names = .ok way)
    (hd : (way.entry t.root).isDirectory) (hn : name ≠ "..") (hl : name.utf8ByteSize ≤ nameLimit)
    (hf : t'.root.at? (way.location ++ [name]) = some (.file bytes)) :
    ∃ last, t'.walk [] (names ++ [name]) = .ok last ∧ last.entry t'.root = .file bytes := by
  have hstart : Alike t t' [] [] := ⟨trivial, trivial, rfl⟩
  obtain ⟨way', hw', ha⟩ := hstart.walk hk hw hd
  rw [Way.location, ← ha.names_eq, ← Way.location, Entry.at?_append, ha.isIn'.at?, Option.bind_some, Entry.at?] at hf
  cases he : Entries.find? name (way'.entry t'.root).inside with
  | none => simp [he] at hf
  | some e =>
    have hs : t'.step way' name = .ok ((name, e) :: way') :=
      (step_eq_ok (ha.isDirectory hk hd)).2 (.inr ⟨hn, hl, e, he, rfl⟩)
    rw [he] at hf
    refine ⟨(name, e) :: way', ?_, Option.some.inj hf⟩
    rw [walk_append, hw']
    simp only [Except.bind, FileTree.walk, hs]

theorem readAt_of_writeAt (h : t.writeAt p bytes = .ok t') : t'.readAt p = .ok bytes := by
  unfold writeAt at h
  split at h
  · cases h
  next htext =>
  split at h
  · cases h
  next name hname =>
  split at h
  · cases h
  next hn =>
  split at h
  · cases h
  next location hslot =>
  split at h
  · cases h
  next hnone =>
  obtain ⟨way, hw, hd, hl, rfl⟩ := slot_eq_ok hslot
  have hnames : t.start p ++ p.names = t.start p.parent ++ p.parent.names ++ [name] := by
    rw [List.append_assoc, ← List.dropLast_append_getLast? _ hname]
    rfl
  have hk : Keeps t (t.set (way.location ++ [name]) (.file bytes)) := fun _ => Entry.hasDirectory_put _ hnone
  obtain ⟨last, hlast, he⟩ := walk_concat hk hw hd hn hl (t.root.at?_put_self _ _)
  cases h
  have hfind : (t.set (way.location ++ [name]) (.file bytes)).find p = .ok (.file bytes) := by
    rw [← hnames] at hlast
    unfold find follow
    rw [if_neg htext]
    exact (congrArg (Except.map _) hlast).trans (congrArg Except.ok he)
  rw [readAt, hfind]

/-- A file has the bytes that were written last, under the path they were written to. -/
theorem read_of_write (h : t.write p bytes = .ok t') : t'.read p = .ok bytes := by
  unfold write at h
  split at h
  · cases h
  next hnul =>
    unfold read
    rw [if_neg hnul]
    cases hw : t.writeAt p bytes with
    | error f => simp [hw, Except.mapError] at h
    | ok written =>
      simp only [hw, Except.mapError, Except.ok.injEq] at h
      rw [← h, readAt_of_writeAt hw, Except.mapError]

end FileTree

/-- A file that the program writes, in a directory made for it, has the text it was given. -/
theorem Program.read_of_writeFile {t t' : FileTree} {p : Path} {text : String}
    (h : Program.writeFile t p text = (t', none)) : t'.read p = .ok (Text.Utf8.encode text) := by
  unfold writeFile at h
  split at h
  · cases h
  · next made _ =>
    cases hw : made.write p (Text.Utf8.encode text) with
    | error fault => simp [hw] at h
    | ok files =>
      simp only [hw, Prod.mk.injEq, and_true] at h
      exact h ▸ FileTree.read_of_write hw

end NodeMemory
