import NodeMemory.Numa
import NodeMemory.Proofs.Fields
/-!
# Node ids

The id of a node directory is what its path ends in: digits right after the marker. The search tries
the places before the marker from the last one to the first and gives digits back where the end does
not follow, but a text has only one place for the marker and one run of digits that will do
(`Splits.unique`). So it comes to a condition on the text (`nodeId_eq_ok_iff`), and that is not quite
the one wanted: what is before the marker has to be one line, and a line feed after the digits is let
pass. On all other texts the id is told exactly, and in one directory two entries have the same id only
if they differ in such a line feed (`id_told_iff`).
-/

namespace NodeMemory.Numa

/-! ## Texts with an id -/

/-- ASCII digits, at least one. -/
def IsId (id : List Char) : Prop := id ≠ [] ∧ ∀ c ∈ id, Value.isDigit c

instance : DecidablePred IsId := fun id =>
  @instDecidableAnd _ _ inferInstance (List.decidableBAll (fun c => Value.isDigit c) id)

/-- A text has an id right after the marker, and other text before and after the two. -/
structure Splits (text lead id tail : List Char) : Prop where
  isId : IsId id
  text_eq : text = lead ++ marker.toList ++ id ++ tail

theorem atEnd_iff {cs : List Char} : atEnd cs ↔ cs = [] ∨ cs = ['\n'] := by
  rcases cs with _ | ⟨c, _ | ⟨d, cs⟩⟩ <;> simp [atEnd]

/-- Where a text is at its end, no digit is left of it. -/
theorem isDigit_eq_false_of_atEnd {tail : List Char} (ht : atEnd tail) : ∀ c ∈ tail, Value.isDigit c = false := by
  rcases atEnd_iff.1 ht with rfl | rfl
  · simp
  · simpa using (by decide : Value.isDigit '\n' = false)

theorem notMem_id_tail {a : Char} (ha : Value.isDigit a = false) (hn : a ≠ '\n') {id tail : List Char} (hid : IsId id)
    (ht : atEnd tail) : a ∉ id ++ tail := by
  intro hm
  rcases List.mem_append.1 hm with hm | hm
  · exact absurd (hid.2 a hm) (by simp [ha])
  · rcases atEnd_iff.1 ht with rfl | rfl
    · cases hm
    · exact hn (List.mem_singleton.1 hm)

/-- The marker ends in a letter that cannot be in an id, so there is only one way to take a text apart. -/
theorem Splits.unique {text lead id tail lead' id' tail' : List Char} (h : Splits text lead id tail) (ht : atEnd tail)
    (h' : Splits text lead' id' tail') (ht' : atEnd tail') : lead = lead' ∧ id = id' ∧ tail = tail' := by
  have hmarker : marker.toList = "devices/system/node/nod".toList ++ ['e'] := by decide
  have hcut : (lead ++ "devices/system/node/nod".toList) ++ 'e' :: (id ++ tail) =
      (lead' ++ "devices/system/node/nod".toList) ++ 'e' :: (id' ++ tail') := by
    have heq := h.text_eq.symm.trans h'.text_eq
    rw [hmarker] at heq
    simpa only [List.append_assoc, List.cons_append, List.nil_append] using heq
  obtain ⟨hlead, hrest⟩ := Text.last_unique hcut (notMem_id_tail (by decide) (by decide) h.isId ht)
    (notMem_id_tail (by decide) (by decide) h'.isId ht')
  -- The id is the digits that what is left begins with.
  have digits {id tail : List Char} (hid : IsId id) (ht : atEnd tail) :
      (id ++ tail).takeWhile Value.isDigit = id := by
    rw [List.takeWhile_append_of_pos hid.2, List.takeWhile_eq_nil_iff.2, List.append_nil]
    intro hl
    simp [isDigit_eq_false_of_atEnd ht]
  have hid : id = id' := by
    rw [← digits h.isId ht, hrest, digits h'.isId ht']
  subst hid
  exact ⟨List.append_cancel_right hlead, rfl, List.append_cancel_left hrest⟩

/-! ## What the search finds -/

theorem digitsToEnd?_eq_some_iff {cs id : List Char} :
    digitsToEnd? cs = some id ↔ IsId id ∧ ∃ tail, atEnd tail ∧ cs = id ++ tail := by
  induction cs generalizing id with
  | nil =>
    simp only [digitsToEnd?, reduceCtorEq, false_iff]
    rintro ⟨hid, tail, -, he⟩
    exact hid.1 (List.append_eq_nil_iff.1 he.symm).1
  | cons c cs ih =>
    rw [digitsToEnd?]
    constructor
    · intro h
      split at h
      · next hc =>
        split at h
        · next digits hd =>
          cases h
          obtain ⟨hid, tail, ht, rfl⟩ := ih.1 hd
          exact ⟨⟨by simp, List.forall_mem_cons.2 ⟨hc, hid.2⟩⟩, tail, ht, rfl⟩
        · split at h
          · next ht =>
            cases h
            exact ⟨⟨by simp, by simpa using hc⟩, cs, ht, rfl⟩
          · cases h
      · cases h
    · rintro ⟨hid, tail, ht, he⟩
      rcases id with _ | ⟨d, id⟩
      · exact absurd rfl hid.1
      · obtain ⟨rfl, rfl⟩ := List.cons.inj he
        obtain ⟨hc, hds⟩ := List.forall_mem_cons.1 hid.2
        rw [if_pos hc]
        by_cases hne : id = []
        · -- The last digit: the search for one more ends without a result.
          subst hne
          have hnone : digitsToEnd? tail = none := by
            rcases atEnd_iff.1 ht with rfl | rfl <;> rfl
          simp [hnone, ht]
        · rw [ih.2 ⟨⟨hne, hds⟩, tail, ht, rfl⟩]

theorem markedId?_eq_some_iff {cs id : List Char} :
    markedId? cs = some id ↔ ∃ tail, atEnd tail ∧ Splits cs [] id tail := by
  unfold markedId?
  constructor
  · intro h
    split at h
    · next hp =>
      obtain ⟨rest, rfl⟩ := List.isPrefixOf_iff_prefix.1 hp
      rw [← String.length_toList, List.drop_left] at h
      obtain ⟨hid, tail, ht, rfl⟩ := digitsToEnd?_eq_some_iff.1 h
      exact ⟨tail, ht, hid, by simp⟩
    · cases h
  · rintro ⟨tail, ht, hid, rfl⟩
    rw [List.nil_append, List.append_assoc, if_pos (by simp), ← String.length_toList, List.drop_left]
    exact digitsToEnd?_eq_some_iff.2 ⟨hid, tail, ht, rfl⟩

theorem splits_of_idFrom? {cs id : List Char} (h : idFrom? cs = some id) :
    ∃ lead tail, Splits cs lead id tail ∧ '\n' ∉ lead ∧ atEnd tail := by
  induction cs with
  | nil => cases h
  | cons c cs ih =>
    rw [idFrom?] at h
    split at h
    · next found hf =>
      cases h
      split at hf
      · cases hf
      · next hc =>
        obtain ⟨lead, tail, ⟨hid, rfl⟩, hl, ht⟩ := ih hf
        refine ⟨c :: lead, tail, ⟨hid, rfl⟩, ?_, ht⟩
        exact List.not_mem_cons_of_ne_of_not_mem (Ne.symm hc) hl
    · obtain ⟨tail, ht, hs⟩ := markedId?_eq_some_iff.1 h
      exact ⟨[], tail, hs, by simp, ht⟩

/-- Where there is an id to find, the search does not end without one. -/
theorem exists_idFrom? {cs lead id tail : List Char} (h : Splits cs lead id tail) (hl : '\n' ∉ lead) (ht : atEnd tail) :
    ∃ found, idFrom? cs = some found := by
  induction lead generalizing cs with
  | nil =>
    have hm := markedId?_eq_some_iff.2 ⟨tail, ht, h⟩
    cases cs with
    | nil =>
      have hnone : markedId? [] = none := rfl
      simp [hnone] at hm
    | cons c cs =>
      rw [idFrom?]
      split
      · exact ⟨_, rfl⟩
      · exact ⟨id, hm⟩
  | cons c lead ih =>
    obtain ⟨hc, hl⟩ := not_or.1 (List.mem_cons.not.1 hl)
    obtain ⟨hid, rfl⟩ := h
    obtain ⟨found, hf⟩ := ih ⟨hid, rfl⟩ hl
    refine ⟨found, ?_⟩
    simp only [List.cons_append, idFrom?, if_neg (Ne.symm hc)]
    rw [hf]

theorem idFrom?_eq_some_iff {cs id : List Char} :
    idFrom? cs = some id ↔ ∃ lead tail, Splits cs lead id tail ∧ '\n' ∉ lead ∧ atEnd tail := by
  constructor
  · exact splits_of_idFrom?
  · rintro ⟨lead, tail, h, hl, ht⟩
    obtain ⟨found, hf⟩ := exists_idFrom? h hl ht
    obtain ⟨lead', tail', h', -, ht'⟩ := splits_of_idFrom? hf
    rw [hf, (h.unique ht h' ht').2.1]

/-! ## Path texts -/

/-- A path text has an id: what is before the marker is one line, and nothing follows the id but
perhaps a line feed. -/
def HasId (text id : String) : Prop :=
  ∃ lead tail, Splits text.toList lead id.toList tail ∧ '\n' ∉ lead ∧ (tail = [] ∨ tail = ['\n'])

theorem nodeId_eq_ok_iff {text id : String} : nodeId text = .ok id ↔ HasId text id := by
  have hid : nodeId text = .ok id ↔ idFrom? text.toList = some id.toList := by
    unfold nodeId idOf?
    cases idFrom? text.toList with
    | none => simp
    | some found => simp [String.ext_iff]
  rw [hid, idFrom?_eq_some_iff]
  simp only [atEnd_iff, HasId]

theorem nodeId_eq_error_iff {text : String} {fault : Fault} :
    nodeId text = .error fault ↔ fault = .badNodePath text ∧ ∀ id, ¬ HasId text id := by
  simp only [← nodeId_eq_ok_iff]
  unfold nodeId
  cases idOf? text with
  | none => simp [eq_comm]
  | some id => simp

-- The search stays in the first line.
example : nodeId "host\n/sys/devices/system/node/node0" =
    .error (.badNodePath "host\n/sys/devices/system/node/node0") := rfl

/-- A path text ends in the marker and these digits, with at most a line feed after them. -/
structure EndsInId (text id : String) : Prop where
  ne_empty : id ≠ ""
  digits : ∀ c ∈ id.toList, Value.isDigit c
  ends : ∃ lead, ∃ tail ∈ [[], ['\n']], text.toList = lead ++ marker.toList ++ id.toList ++ tail

theorem endsInId_of_nodeId {text id : String} (h : nodeId text = .ok id) : EndsInId text id := by
  obtain ⟨lead, tail, ⟨⟨hne, hdigits⟩, heq⟩, -, ht⟩ := nodeId_eq_ok_iff.1 h
  exact ⟨by simpa using hne, hdigits, lead, tail, by simpa using ht, heq⟩

/-! ## Entries of one directory -/

/-- An entry has an id just if its directory is the nodes' one, on one line, and its name is a node's
with nothing after the digits but perhaps a line feed. -/
theorem nodeId_entry_iff {directory name id : String} (hname : '/' ∉ name.toList) :
    nodeId (directory ++ "/" ++ name) = .ok id ↔
      (∃ lead, directory.toList = lead ++ ("/".intercalate directoryNames).toList ∧ '\n' ∉ lead) ∧
        IsId id.toList ∧ (name = nodeName ++ id ∨ name = nodeName ++ id ++ "\n") := by
  have hmarker : marker.toList = ("/".intercalate directoryNames).toList ++ '/' :: nodeName.toList := by decide
  have hentry : (directory ++ "/" ++ name).toList = directory.toList ++ '/' :: name.toList := by simp
  have hline (tail : List Char) (ht : tail = [] ∨ tail = ['\n']) :
      name.toList = nodeName.toList ++ id.toList ++ tail → name = nodeName ++ id ∨ name = nodeName ++ id ++ "\n" := by
    intro he
    rcases ht with rfl | rfl
    · exact .inl (String.toList_inj.1 (by simpa using he))
    · exact .inr (String.toList_inj.1 (by simpa using he))
  rw [nodeId_eq_ok_iff, HasId, hentry]
  constructor
  · rintro ⟨lead, tail, ⟨hid, heq⟩, hl, ht⟩
    -- The last slash of the text is the last one of the marker, for an id has none.
    have hcut : directory.toList ++ '/' :: name.toList =
        (lead ++ ("/".intercalate directoryNames).toList) ++ '/' :: (nodeName.toList ++ (id.toList ++ tail)) := by
      rw [heq, hmarker]
      simp only [List.append_assoc, List.cons_append]
    have hrest : '/' ∉ nodeName.toList ++ (id.toList ++ tail) := by
      intro hm
      rcases List.mem_append.1 hm with hm | hm
      · exact absurd hm (by decide)
      · exact notMem_id_tail (by decide) (by decide) hid (atEnd_iff.2 ht) hm
    obtain ⟨hdir, hnm⟩ := Text.last_unique hcut hname hrest
    exact ⟨⟨lead, hdir, hl⟩, hid, hline tail ht (by simpa using hnm)⟩
  · rintro ⟨⟨lead, hdir, hl⟩, hid, hnm⟩
    rw [hdir]
    rcases hnm with rfl | rfl
    · refine ⟨lead, [], ⟨hid, ?_⟩, hl, .inl rfl⟩
      simp [hmarker]
    · refine ⟨lead, ['\n'], ⟨hid, ?_⟩, hl, .inr rfl⟩
      simp [hmarker]

/-- The two names of one id are that of a node and the same with a line feed after it. -/
theorem same_id_iff {directory a b : String} (ha : '/' ∉ a.toList) (hb : '/' ∉ b.toList) (hne : a ≠ b) :
    (∃ id, nodeId (directory ++ "/" ++ a) = .ok id ∧ nodeId (directory ++ "/" ++ b) = .ok id) ↔
      ∃ id, (a = nodeName ++ id ∧ b = a ++ "\n" ∧ nodeId (directory ++ "/" ++ a) = .ok id) ∨
        (b = nodeName ++ id ∧ a = b ++ "\n" ∧ nodeId (directory ++ "/" ++ b) = .ok id) := by
  constructor
  · rintro ⟨id, hia, hib⟩
    refine ⟨id, ?_⟩
    rcases ((nodeId_entry_iff ha).1 hia).2.2 with rfl | rfl
    · rcases ((nodeId_entry_iff hb).1 hib).2.2 with rfl | rfl
      · exact absurd rfl hne
      · exact .inl ⟨rfl, rfl, hia⟩
    · rcases ((nodeId_entry_iff hb).1 hib).2.2 with rfl | rfl
      · exact .inr ⟨rfl, rfl, hib⟩
      · exact absurd rfl hne
  · rintro ⟨id, ⟨rfl, rfl, hia⟩ | ⟨rfl, rfl, hib⟩⟩
    · obtain ⟨hdir, hid, -⟩ := (nodeId_entry_iff ha).1 hia
      exact ⟨id, hia, (nodeId_entry_iff hb).2 ⟨hdir, hid, .inr rfl⟩⟩
    · obtain ⟨hdir, hid, -⟩ := (nodeId_entry_iff hb).1 hib
      exact ⟨id, (nodeId_entry_iff ha).2 ⟨hdir, hid, .inr rfl⟩, hib⟩

/-! ## Which ids are told -/

/-- The id of a path text is told exactly: it is the digits after a marker that end the text, and
without such digits the text is refused. -/
structure TellsId (text : String) : Prop where
  found : ∀ id, nodeId text = .ok id ↔ ∃ lead, Splits text.toList lead id.toList []
  refused : (∀ lead id, ¬ Splits text.toList lead id []) → nodeId text = .error (.badNodePath text)

theorem tellsId_iff {text : String} : TellsId text ↔ ∀ lead id,
    (Splits text.toList lead id [] → '\n' ∉ lead) ∧ (Splits text.toList lead id ['\n'] → '\n' ∈ lead) := by
  have hend : atEnd [] ∧ atEnd ['\n'] := by decide
  constructor
  · intro h lead id
    have hfound := h.found (String.ofList id)
    rw [nodeId_eq_ok_iff, HasId, String.toList_ofList] at hfound
    constructor
    · intro hs
      obtain ⟨lead', tail, hs', hl, ht⟩ := hfound.2 ⟨lead, hs⟩
      rw [(hs.unique hend.1 hs' (atEnd_iff.2 ht)).1]
      exact hl
    · intro hs
      by_contra hl
      obtain ⟨lead', hs'⟩ := hfound.1 ⟨lead, ['\n'], hs, hl, .inr rfl⟩
      exact absurd (hs.unique hend.2 hs' hend.1).2.2 (by simp)
  · intro h
    refine ⟨fun id => ?_, fun hnone => ?_⟩
    · rw [nodeId_eq_ok_iff]
      constructor
      · rintro ⟨lead, tail, hs, hl, rfl | rfl⟩
        · exact ⟨lead, hs⟩
        · exact absurd ((h lead id.toList).2 hs) hl
      · rintro ⟨lead, hs⟩
        exact ⟨lead, [], hs, (h lead id.toList).1 hs, .inl rfl⟩
    · refine nodeId_eq_error_iff.2 ⟨rfl, ?_⟩
      rintro id ⟨lead, tail, hs, hl, rfl | rfl⟩
      · exact hnone lead id.toList hs
      · exact hl ((h lead id.toList).2 hs)

/-- **Which ids are told.** A path text has an id if it is one line up to the marker, the marker, the
id, and then nothing or a line feed. Any other text is refused, and the fault carries it. So the digits
that end a text are told, and nothing else is, except where more than one line is before their marker,
and where a line feed follows digits that have one line before theirs. Two entries of one directory have
the same id if and only if one has the name of a node and the other has that name with a line feed
after it. -/
theorem id_told_iff (text directory : String) :
    (∀ id, nodeId text = .ok id ↔ HasId text id) ∧
    (∀ fault, nodeId text = .error fault ↔ fault = .badNodePath text ∧ ∀ id, ¬ HasId text id) ∧
    (TellsId text ↔ ∀ lead id,
      (Splits text.toList lead id [] → '\n' ∉ lead) ∧ (Splits text.toList lead id ['\n'] → '\n' ∈ lead)) ∧
    ∀ a b, '/' ∉ a.toList → '/' ∉ b.toList → a ≠ b →
      ((∃ id, nodeId (directory ++ "/" ++ a) = .ok id ∧ nodeId (directory ++ "/" ++ b) = .ok id) ↔
        ∃ id, (a = nodeName ++ id ∧ b = a ++ "\n" ∧ nodeId (directory ++ "/" ++ a) = .ok id) ∨
          (b = nodeName ++ id ∧ a = b ++ "\n" ∧ nodeId (directory ++ "/" ++ b) = .ok id)) :=
  ⟨fun _ => nodeId_eq_ok_iff, fun _ => nodeId_eq_error_iff, tellsId_iff, fun _ _ ha hb hne => same_id_iff ha hb hne⟩

/-- A path with two markers has the id after the last of them, and a node shares its id with the
entry that has a line feed more. -/
theorem id_told_iff_twoMarkers :
    TellsId "devices/system/node/node7/devices/system/node/node12" ∧
      nodeId "devices/system/node/node7/devices/system/node/node12" = .ok "12" ∧
      '/' ∉ "node0".toList ∧ '/' ∉ "node0\n".toList ∧ "node0" ≠ "node0\n" ∧
      ∃ id, nodeId ("/sys/devices/system/node" ++ "/" ++ "node0") = .ok id ∧
        nodeId ("/sys/devices/system/node" ++ "/" ++ "node0\n") = .ok id := by
  obtain ⟨-, -, htells, hsame⟩ :=
    id_told_iff "devices/system/node/node7/devices/system/node/node12" "/sys/devices/system/node"
  have hline : '\n' ∉ "devices/system/node/node7/devices/system/node/node12".toList := by decide
  have h := htells.2 fun lead id =>
    ⟨fun hs hm => hline (by simp [hs.text_eq, hm]), fun hs => absurd (by simp [hs.text_eq]) hline⟩
  refine ⟨h, (h.found "12").2 ⟨"devices/system/node/node7/".toList, by decide, by decide⟩, by decide, by decide, by decide,
    (hsame _ _ (by decide) (by decide) (by decide)).2 ⟨"0", .inl ⟨rfl, rfl, rfl⟩⟩⟩

/-- With a line feed after its name, an entry that is no node has the id of one. -/
theorem not_tellsId_lineFeed :
    nodeId "/sys/devices/system/node/node0\n" = .ok "0" ∧ (¬ ∀ text, TellsId text) ∧
      ¬ ∀ directory a b, '/' ∉ a.toList → '/' ∉ b.toList → a ≠ b →
        ∀ id, nodeId (directory ++ "/" ++ a) = .ok id → nodeId (directory ++ "/" ++ b) ≠ .ok id := by
  have hfound : nodeId "/sys/devices/system/node/node0\n" = .ok "0" := rfl
  refine ⟨hfound, fun h => ?_, fun h => ?_⟩
  · obtain ⟨lead, hs⟩ := ((h _).found "0").1 hfound
    have hlast := congrArg List.getLast? hs.text_eq
    simp at hlast
  · exact h "/sys/devices/system/node" "node0" "node0\n" (by decide) (by decide) (by decide) "0" rfl hfound

end NodeMemory.Numa
