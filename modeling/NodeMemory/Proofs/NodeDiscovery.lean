import Mathlib.Data.List.Nodup
import Mathlib.Data.List.TakeDrop
import Mathlib.Data.List.TakeWhile
import NodeMemory.Proofs.NodePass
import NodeMemory.Proofs.Patterns
import NodeMemory.Proofs.SortedLists
/-!
# Which directories are taken for nodes

Below a root without signs, what is found are the entries of one directory whose names begin as a
node's does, in the order of their paths, and a pass reads every one of them (`nodes_discovered`).
The root is part of the pattern, though: signs in it stand for other names, so that a root with a
pair of brackets in its name can have nodes and a pass over it no records (`not_findsNodes_bracketed`).
-/

namespace NodeMemory

namespace Glob

theorem matchSigns_star (cs : List Char) : matchSigns [.star] cs = true := by
  induction cs with
  | nil => rw [matchSigns_star_nil, matchSigns_nil, List.isEmpty_nil]
  | cons c cs ih => rw [matchSigns_star_cons, ih, Bool.or_true]

end Glob

namespace Numa

/-- The name of a node's directory, and perhaps more: the word, and a digit. -/
def IsNodeName (name : String) : Prop :=
  ∃ d rest, name.toList = 'n' :: 'o' :: 'd' :: 'e' :: d :: rest ∧ '0' ≤ d ∧ d ≤ '9'

theorem signsOf_nodeName : Glob.signsOf (nodeName ++ "[0-9]*") =
    [.char 'n', .char 'o', .char 'd', .char 'e', .oneOf ⟨false, ['0', '9'], [('0', '9')]⟩, .star] := by decide

theorem accepts_digit (d : Char) :
    Glob.Sign.accepts (.oneOf ⟨false, ['0', '9'], [('0', '9')]⟩) d ↔ '0' ≤ d ∧ d ≤ '9' := by
  simp only [Glob.Sign.accepts, Glob.CharSet.contains, List.contains_cons, List.any_cons, List.any_nil]
  constructor
  · intro h
    by_cases h0 : d = '0'
    · subst h0
      decide
    · by_cases h9 : d = '9'
      · subst h9
        decide
      · simpa [h0, h9] using h
  · intro h
    simp [h]

theorem meets_nodeName_iff (name : String) : Glob.meets (nodeName ++ "[0-9]*") name ↔ IsNodeName name := by
  unfold Glob.meets Glob.meetsSigns IsNodeName
  rw [signsOf_nodeName]
  generalize name.toList = cs
  -- Letter by letter; a name that ends early is met by no sign.
  have letter (c : Char) (ss : List Glob.Sign) (cs : List Char) :
      Glob.matchSigns (.char c :: ss) cs ↔ ∃ rest, cs = c :: rest ∧ Glob.matchSigns ss rest := by
    cases cs with
    | nil => simp [Glob.matchSigns_cons_nil]
    | cons x xs =>
      rw [Glob.matchSigns_cons_cons (by simp)]
      simp [Glob.Sign.accepts]
  have digit (cs : List Char) :
      Glob.matchSigns [.oneOf ⟨false, ['0', '9'], [('0', '9')]⟩, .star] cs ↔
        ∃ d rest, cs = d :: rest ∧ '0' ≤ d ∧ d ≤ '9' := by
    cases cs with
    | nil => simp [Glob.matchSigns_cons_nil]
    | cons x xs =>
      rw [Glob.matchSigns_cons_cons (by simp), Glob.matchSigns_star, Bool.and_true, accepts_digit]
      simp
  simp only [Bool.and_eq_true, letter, digit]
  constructor
  · rintro ⟨-, _, rfl, _, rfl, _, rfl, _, rfl, d, rest, rfl, hd⟩
    exact ⟨d, rest, rfl, hd⟩
  · rintro ⟨d, rest, rfl, hd⟩
    exact ⟨by simp, _, rfl, _, rfl, _, rfl, _, rfl, d, rest, rfl, hd⟩

instance : DecidablePred IsNodeName := fun name => decidable_of_iff _ (meets_nodeName_iff name)

/-- The directory that the nodes have below a root. -/
def nodeDirectory (root : Path) : Path := { root with names := root.names ++ directoryNames }

section Discovery
variable {t : FileTree} {root : Path}

/-- The names up to the first with a sign are taken together, and the others one by one. -/
theorem expand_pattern (t : FileTree) (root : Path) :
    Glob.expand t (pattern root) =
      Glob.expandFrom t
        [{ root with names := (nodeDirectory root).names.takeWhile fun name => !Glob.isPattern name }]
        ((nodeDirectory root).names.dropWhile (fun name => !Glob.isPattern name) ++ [nodeName ++ "[0-9]*"]) := by
  have hlast : (!Glob.isPattern (nodeName ++ "[0-9]*")) = false := by decide
  have split (l : List String) (p : String → Bool) (last : String) (h : p last = false) :
      (l ++ [last]).takeWhile p = l.takeWhile p ∧ (l ++ [last]).dropWhile p = l.dropWhile p ++ [last] := by
    induction l with
    | nil => simp [h]
    | cons a l ih => cases ha : p a <;> simp [ha, ih]
  obtain ⟨htake, hdrop⟩ := split (nodeDirectory root).names (fun name => !Glob.isPattern name) _ hlast
  unfold Glob.expand pattern
  rw [List.span_eq_takeWhile_dropWhile]
  simp only [nodeDirectory] at htake hdrop ⊢
  rw [htake, hdrop, if_neg (by simp)]

theorem pathLe_trans (a b c : Path) : pathLe a b → pathLe b c → pathLe a c := Sorting.textLe_trans

theorem pathLe_total (a b : Path) : pathLe a b || pathLe b a := Sorting.textLe_total a.text b.text

theorem discover_eq_ok {found : List Path} (h : discover t root = .ok found) :
    ∃ paths, Glob.expand t (pattern root) = .ok paths ∧ found.Perm paths ∧
      found.Pairwise fun p q => p.text ≤ q.text := by
  obtain ⟨paths, hx, rfl⟩ := map_eq_ok_iff.1 h
  refine ⟨paths, hx, Sorting.sortBy_perm _ _, ?_⟩
  simpa [pathLe, Sorting.textLe] using Sorting.sortBy_pairwise pathLe_trans pathLe_total paths

/-- Whatever the root, an entry is found if its name is a node's, and its directory has for each
name of the root that name, or one that it meets. -/
theorem mem_discover_iff {found : List Path} (h : discover t root = .ok found) (p : Path) :
    p ∈ found ↔ ∃ d n, Glob.Meets t ⟨root.anchor, []⟩ (nodeDirectory root).names d ∧ d.hasNul = false ∧
      n ∈ t.list d ∧ IsNodeName n ∧ p = d.child n := by
  obtain ⟨paths, hx, hp, -⟩ := discover_eq_ok h
  rw [expand_pattern] at hx
  rw [hp.mem_iff, Glob.mem_expandFrom (by decide) hx]
  have hplain : ∀ name ∈ (nodeDirectory root).names.takeWhile (fun name => !Glob.isPattern name),
      Glob.isPattern name = false := by
    intro name hn
    simpa using List.mem_takeWhile_imp hn
  have hmeets (d : Path) : Glob.Meets t ⟨root.anchor, []⟩ (nodeDirectory root).names d ↔ Glob.Meets t
      { root with names := (nodeDirectory root).names.takeWhile fun name => !Glob.isPattern name }
      ((nodeDirectory root).names.dropWhile fun name => !Glob.isPattern name) d := by
    have hm := Glob.meets_of_plain (t := t) (p := ⟨root.anchor, []⟩) (q := d) hplain
      ((nodeDirectory root).names.dropWhile fun name => !Glob.isPattern name)
    rwa [List.takeWhile_append_dropWhile] at hm
  simp only [List.mem_singleton, exists_eq_left, meets_nodeName_iff, hmeets]

/-- Below a root without signs there is one directory to list. -/
theorem discover_of_plain (t : FileTree) (h : ∀ name ∈ root.names, Glob.isPattern name = false) :
    discover t root =
      if root.hasNul then .error .nulInPath
      else .ok (Sorting.sortBy pathLe
        (((t.list (nodeDirectory root)).filter IsNodeName).map (nodeDirectory root).child)) := by
  have hnames : ∀ name ∈ (nodeDirectory root).names, (!Glob.isPattern name) = true := by
    intro name hn
    rcases List.mem_append.1 hn with hn | hn
    · rw [h name hn]
      rfl
    · exact (by decide : ∀ name ∈ directoryNames, (!Glob.isPattern name) = true) name hn
  have htake := List.takeWhile_eq_self_iff.2 hnames
  have hdrop := List.dropWhile_eq_nil_iff.2 hnames
  have hnul : (nodeDirectory root).hasNul = root.hasNul := by
    simp [Path.hasNul, nodeDirectory, directoryNames]
  have hlist : Glob.meeting t false (nodeName ++ "[0-9]*") (nodeDirectory root) =
      ((t.list (nodeDirectory root)).filter IsNodeName).map (nodeDirectory root).child := by
    unfold Glob.meeting
    dsimp only
    congr 1
    refine List.filter_congr fun name _ => ?_
    rw [Bool.eq_iff_iff]
    simpa [Glob.meets] using meets_nodeName_iff name
  unfold discover
  rw [expand_pattern, htake, hdrop]
  change (Glob.expandFrom t [nodeDirectory root] [nodeName ++ "[0-9]*"]).map _ = _
  rw [Glob.expandFrom, Glob.extend, if_pos (by decide)]
  simp only [List.any_cons, List.any_nil, Bool.or_false, hnul]
  cases root.hasNul with
  | true => rfl
  | false => simp [Glob.expandFrom, hlist, Except.map]

/-! ## What a pass over a root reads -/

/-- The nodes below a root are found: the entries of the one directory that have a node's name, as
they are listed there, in the order of their paths. -/
structure FindsNodes (t : FileTree) (root : Path) (found : List Path) : Prop where
  entries : found.Perm (((t.list (nodeDirectory root)).filter IsNodeName).map (nodeDirectory root).child)
  sorted : found.Pairwise fun p q => p.text ≤ q.text

theorem FindsNodes.nodup {found : List Path} (h : FindsNodes t root found) (hl : (t.list (nodeDirectory root)).Nodup) :
    found.Nodup :=
  h.entries.nodup_iff.2 ((hl.filter _).map (nodeDirectory root).child_injective)

/-- A pass that gives records has read all that was found. -/
theorem gives_of_readNodes {ds : List Path} {records : List Record} (h : readNodes t ds = .ok records) :
    ∀ d ∈ ds, ∃ gauges counters, Gives t d gauges counters ∧ gauges ++ counters ⊆ records := by
  obtain ⟨parts, hp, rfl⟩ := readNodes_eq_ok_iff.1 h
  clear h
  induction hp with
  | nil => simp
  | @cons d p ds parts hd _ ih =>
    intro x hx
    rw [List.flatMap_cons]
    rcases List.mem_cons.1 hx with rfl | hx
    · exact ⟨p.1, p.2, hd, List.subset_append_left _ _⟩
    · obtain ⟨gauges, counters, hg, hs⟩ := ih x hx
      exact ⟨gauges, counters, hg, List.Subset.trans hs (List.subset_append_right _ _)⟩

/-- **Which nodes are found.** Whatever the root, what is found is in the order of the paths, and an
entry is found if it has a node's name and the names of its directory are met by those of the root.
Below a root without signs and without a NUL this comes to the one directory that the root says,
and a pass that goes through has read each of its nodes. -/
theorem nodes_discovered (t : FileTree) (root : Path) :
    (∀ found, discover t root = .ok found → found.Pairwise (fun p q => p.text ≤ q.text) ∧
      ∀ p, p ∈ found ↔ ∃ d n, Glob.Meets t ⟨root.anchor, []⟩ (root.names ++ directoryNames) d ∧ d.hasNul = false ∧
        n ∈ t.list d ∧ IsNodeName n ∧ p = d.child n) ∧
    (∀ f, discover t root = .error f → f = .nulInPath) ∧
    ((∀ name ∈ root.names, Glob.isPattern name = false) →
      (root.hasNul → discover t root = .error .nulInPath) ∧
      (root.hasNul = false →
        (∃ found, discover t root = .ok found ∧ FindsNodes t root found ∧
          ((t.list (nodeDirectory root)).Nodup → found.Nodup)) ∧
        ∀ records, read t root = .ok records → ∀ n ∈ t.list (nodeDirectory root), IsNodeName n →
          ∃ gauges counters, Gives t ((nodeDirectory root).child n) gauges counters ∧ gauges ++ counters ⊆ records)) := by
  refine ⟨fun found h => ?_, fun f h => ?_, fun hplain => ⟨fun hn => ?_, fun hn => ?_⟩⟩
  · obtain ⟨paths, -, -, hs⟩ := discover_eq_ok h
    exact ⟨hs, mem_discover_iff h⟩
  · unfold discover at h
    rw [expand_pattern] at h
    cases hx : Glob.expandFrom t _ _ with
    | error g =>
      rw [hx] at h
      cases h
      exact Glob.expandFrom_eq_error hx
    | ok paths => simp [hx, Except.map] at h
  · rw [discover_of_plain t hplain, if_pos hn]
  · have hd := discover_of_plain t hplain
    rw [hn, if_neg (by simp)] at hd
    obtain ⟨-, -, -, hs⟩ := discover_eq_ok hd
    have hf : FindsNodes t root _ := ⟨Sorting.sortBy_perm _ _, hs⟩
    refine ⟨⟨_, hd, hf, hf.nodup⟩, fun records hr n hl hnode => ?_⟩
    simp only [read, bind, Except.bind, hd] at hr
    refine gives_of_readNodes hr _ (hf.entries.mem_iff.2 ?_)
    exact List.mem_map_of_mem (List.mem_filter.2 ⟨hl, by simpa using hnode⟩)

end Discovery

/-! ## Trees to look at -/

/-- Entries below `/sys` in no order, not all of them nodes. -/
def mixedNodes : FileTree :=
  nodeTree [("node1", .empty), ("online", .file []), ("node10", .empty), ("nodes", .empty), ("node0", .empty)]

/-- Three of them are found, in the order of their paths. -/
theorem nodes_discovered_mixedNodes :
    ∃ found, discover mixedNodes ⟨.root, ["sys"]⟩ = .ok found ∧ FindsNodes mixedNodes ⟨.root, ["sys"]⟩ found ∧
      found.Nodup ∧ found = [nodePath "node0", nodePath "node1", nodePath "node10"] := by
  obtain ⟨found, hd, hf, hnodup⟩ := (((nodes_discovered mixedNodes ⟨.root, ["sys"]⟩).2.2 (by decide)).2 (by decide)).1
  refine ⟨found, hd, hf, hnodup (by decide +kernel), ?_⟩
  have he : discover mixedNodes ⟨.root, ["sys"]⟩ = .ok [nodePath "node0", nodePath "node1", nodePath "node10"] := by
    decide +kernel
  rw [hd] at he
  exact Except.ok.inj he

/-- A root with brackets in its name. -/
def bracketedRoot : Path := ⟨.here, ["sys[1]"]⟩

/-- One node below that root. -/
def bracketed : FileTree :=
  ⟨.directory [("sys[1]", .directory [("devices", .directory [("system", .directory [("node",
    .directory [("node0", nodeEntry "Node 0 MemFree: 1 kB\n" "numa_hit 1\n")])])])])], []⟩

/-- The brackets stand for another name: the node is not found, and the pass goes through without a
record. -/
theorem not_findsNodes_bracketed :
    read bracketed bracketedRoot = .ok [] ∧
      ¬ ∀ t root, root.hasNul = false → ∃ found, discover t root = .ok found ∧ FindsNodes t root found := by
  refine ⟨by decide +kernel, fun h => ?_⟩
  obtain ⟨found, hd, hf⟩ := h bracketed bracketedRoot (by decide)
  have he : discover bracketed bracketedRoot = .ok [] := by decide +kernel
  rw [hd] at he
  cases he
  have hlength := hf.entries.length_eq
  exact absurd hlength (by decide +kernel)

end Numa

end NodeMemory
