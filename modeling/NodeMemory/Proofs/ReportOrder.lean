import Mathlib.Data.Option.Basic
import NodeMemory.Proofs.LastValues
import NodeMemory.Proofs.ReportContents
/-!
# The order in which a report is put together

The text of a report does not depend on order (`render_eq_of_perm`): not on that of the subsystems,
nor on that of the records in one, nor on that of the members of any object in what is known of the
pass. The order of records is by node and name, so it is fixed where no two records of a subsystem
have both in common. Values need not be finite for that.
-/

namespace NodeMemory

namespace Json

/-! ## Values that differ in order -/

/-- Two JSON values are alike: the members of an object may come in another order, at any depth. -/
inductive Alike : Json → Json → Prop
  | null : Alike .null .null
  | bool {b : Bool} : Alike (.bool b) (.bool b)
  | integer {n : Int} : Alike (.integer n) (.integer n)
  | number {x : Binary64} : Alike (.number x) (.number x)
  | string {s : String} : Alike (.string s) (.string s)
  | array {items others : List Json} : List.Forall₂ Alike items others → Alike (.array items) (.array others)
  | object {members ordered others : List (String × Json)} : (members.map Prod.fst).Nodup → ordered.Perm others →
      members.map Prod.fst = ordered.map Prod.fst → List.Forall₂ Alike (members.map Prod.snd) (ordered.map Prod.snd) →
      Alike (.object members) (.object others)

/-- Two values that may stand in a report give the same text. -/
structure Agree (x y : Json) : Prop where
  text : write x = write y
  left : foreigns x = []
  right : foreigns y = []

theorem agree_array {items others : List Json} (h : List.Forall₂ Agree items others) :
    Agree (.array items) (.array others) := by
  have hitems : writeItems items = writeItems others ∧ foreignsOfItems items = [] ∧ foreignsOfItems others = [] := by
    induction h with
    | nil => exact ⟨rfl, rfl, rfl⟩
    | cons hx _ ih => simp [writeItems, foreignsOfItems, hx.text, hx.left, hx.right, ih]
  exact ⟨by rw [write, write, hitems.1], hitems.2.1, hitems.2.2⟩

theorem writeMembers_eq (members : List (String × Json)) :
    writeMembers members = members.map fun (name, x) => (name, write x) := by
  induction members with
  | nil => rfl
  | cons m rest ih => rw [writeMembers, ih, List.map_cons]

theorem memberLe_trans (a b c : String × List Char) : memberLe a b → memberLe b c → memberLe a c :=
  Sorting.textLe_trans

theorem memberLe_total (a b : String × List Char) : memberLe a b || memberLe b a := Sorting.textLe_total _ _

/-- Members with distinct names are written in one order, whichever they come in. -/
theorem write_object_of_perm {members others : List (String × Json)} (hn : (members.map Prod.fst).Nodup)
    (hp : members.Perm others) : write (.object members) = write (.object others) := by
  have hwritten : (writeMembers members).Perm (writeMembers others) := by
    rw [writeMembers_eq, writeMembers_eq]
    exact hp.map _
  have hnames : ((writeMembers members).map Prod.fst).Nodup := by
    rwa [writeMembers_eq, List.map_map]
  have hsorted : Sorting.sortBy memberLe (writeMembers members) = Sorting.sortBy memberLe (writeMembers others) := by
    refine Sorting.sortBy_eq_of_perm memberLe_trans memberLe_total hwritten fun a b ha hb hab hba => ?_
    exact List.inj_on_of_nodup_map hnames ha hb (Sorting.textLe_antisymm hab hba)
  rw [write, write, writeObject, writeObject, hsorted]

theorem agree_object {members ordered others : List (String × Json)} (hn : (members.map Prod.fst).Nodup)
    (hp : ordered.Perm others) (hnames : members.map Prod.fst = ordered.map Prod.fst)
    (hvalues : List.Forall₂ Agree (members.map Prod.snd) (ordered.map Prod.snd)) :
    Agree (.object members) (.object others) := by
  have hordered : writeMembers members = writeMembers ordered ∧ foreignsOfMembers members = [] ∧
      foreignsOfMembers ordered = [] := by
    rw [← List.forall₂_eq_eq_eq, List.forall₂_map_left_iff, List.forall₂_map_right_iff] at hnames
    rw [List.forall₂_map_left_iff, List.forall₂_map_right_iff] at hvalues
    have h := List.Forall₂.mp (fun m o (hname : m.1 = o.1) (hvalue : Agree m.2 o.2) => And.intro hname hvalue)
      hnames hvalues
    clear hn hp hnames hvalues
    induction h with
    | nil => exact ⟨rfl, rfl, rfl⟩
    | @cons m o _ _ hm _ ih => simp [writeMembers, foreignsOfMembers, hm.1, hm.2.text, hm.2.left, hm.2.right, ih]
  have htext : write (.object members) = write (.object ordered) := by rw [write, write, hordered.1]
  refine ⟨htext.trans (write_object_of_perm (hnames ▸ hn) hp), hordered.2.1, ?_⟩
  rw [foreigns, foreignsOfMembers_eq_nil]
  exact fun m hm => foreignsOfMembers_eq_nil.1 hordered.2.2 m (hp.mem_iff.2 hm)

mutual

theorem agree_of_alike : (x : Json) → {y : Json} → Alike x y → Agree x y
  | null, _, .null => ⟨rfl, rfl, rfl⟩
  | bool _, _, .bool => ⟨rfl, rfl, rfl⟩
  | integer _, _, .integer => ⟨rfl, rfl, rfl⟩
  | number _, _, .number => ⟨rfl, rfl, rfl⟩
  | string _, _, .string => ⟨rfl, rfl, rfl⟩
  | array items, _, .array h => agree_array (agree_of_alikeItems items h)
  | object members, _, .object hn hp hnames h => agree_object hn hp hnames (agree_of_alikeMembers members h)

theorem agree_of_alikeItems : (items : List Json) → {others : List Json} → List.Forall₂ Alike items others →
    List.Forall₂ Agree items others
  | [], _, .nil => .nil
  | x :: xs, _, .cons hx hxs => .cons (agree_of_alike x hx) (agree_of_alikeItems xs hxs)

theorem agree_of_alikeMembers : (members : List (String × Json)) → {others : List Json} →
    List.Forall₂ Alike (members.map Prod.snd) others → List.Forall₂ Agree (members.map Prod.snd) others
  | [], _, .nil => .nil
  | (_, x) :: rest, _, .cons hx hrest => .cons (agree_of_alike x hx) (agree_of_alikeMembers rest hrest)

end

end Json

/-! ## Reports -/

namespace Report

theorem arrange_eq_of_perm {records others : List Record} (hn : (records.map fun r => (r.name, r.node)).Nodup)
    (hp : records.Perm others) : arrange records = arrange others := by
  refine Sorting.sortBy_eq_of_perm recordLe_trans recordLe_total hp fun r s hr hs hle hge => ?_
  have hkey := Sorting.pairLe_antisymm hle hge
  exact List.inj_on_of_nodup_map hn hr hs (Prod.ext (congrArg Prod.snd hkey) (congrArg Prod.fst hkey))

/-- The subsystems of a document, each with its records in order. -/
def arrangedEntries (subsystems : Keyed (List Record)) : List (String × List Record) :=
  subsystems.entries.map fun entry => (entry.1, arrange entry.2)

theorem names_arrangedEntries (subsystems : Keyed (List Record)) :
    (arrangedEntries subsystems).map Prod.fst = subsystems.names := by
  rw [arrangedEntries, List.map_map]
  rfl

theorem mem_arrangedEntries {subsystems : Keyed (List Record)} {name : String} {arranged : List Record} :
    (name, arranged) ∈ arrangedEntries subsystems ↔
      ∃ records, subsystems.get? name = some records ∧ arrange records = arranged := by
  simp [arrangedEntries, ← Keyed.mem_entries_iff]

theorem arrangedEntries_perm {subsystems others : Keyed (List Record)}
    (hsame : ∀ name, Option.Rel List.Perm (subsystems.get? name) (others.get? name))
    (hdistinct : ∀ entry ∈ subsystems.entries, (entry.2.map fun r => (r.name, r.node)).Nodup) :
    (arrangedEntries subsystems).Perm (arrangedEntries others) := by
  have hnodup (t : Keyed (List Record)) : (arrangedEntries t).Nodup :=
    .of_map Prod.fst (by rw [names_arrangedEntries]; exact t.nodup)
  rw [List.perm_ext_iff_of_nodup (hnodup _) (hnodup _)]
  rintro ⟨name, arranged⟩
  rw [mem_arrangedEntries, mem_arrangedEntries]
  have h := hsame name
  generalize hs : subsystems.get? name = records at h
  generalize others.get? name = more at h
  cases h with
  | none => simp
  | some hp => simp [arrange_eq_of_perm (hdistinct _ (Keyed.mem_entries_iff.2 hs)) hp]

theorem parts_perm {subsystems others : Keyed (List Record)}
    (hsame : ∀ name, Option.Rel List.Perm (subsystems.get? name) (others.get? name))
    (hdistinct : ∀ entry ∈ subsystems.entries, (entry.2.map fun r => (r.name, r.node)).Nodup) :
    (parts subsystems).Perm (parts others) := by
  have h := (arrangedEntries_perm hsame hdistinct).map fun entry => (entry.1, Json.array (entry.2.map ofRecord))
  rwa [arrangedEntries, arrangedEntries, List.map_map, List.map_map] at h

theorem nodup_parts (subsystems : Keyed (List Record)) : ((parts subsystems).map Prod.fst).Nodup := by
  rw [parts, List.map_map]
  exact subsystems.nodup

/-- **The order of a report's parts does not matter.** Two calls give the same text if they have the same subsystems,
each with the same records, no two of them with one name and node, and if what is known of the pass is the same
but for the order of the members of its objects. -/
theorem render_eq_of_perm {subsystems others : Keyed (List Record)} {about known : List (String × Json)}
    (hsame : ∀ name, Option.Rel List.Perm (subsystems.get? name) (others.get? name))
    (hdistinct : ∀ entry ∈ subsystems.entries, (entry.2.map fun r => (r.name, r.node)).Nodup)
    (hknown : Json.Alike (.object about) (.object known)) :
    ∃ text, render subsystems about = .ok text ∧ render others known = .ok text := by
  have hagree := Json.agree_of_alike _ hknown
  refine ⟨_, render_eq_ok hagree.left, (render_eq_ok hagree.right).trans ?_⟩
  have hrecords : Json.write (.object (parts subsystems)) = Json.write (.object (parts others)) :=
    Json.write_object_of_perm (nodup_parts subsystems) (parts_perm hsame hdistinct)
  rw [Json.render, Json.render, document_eq, document_eq, Json.write, Json.write]
  simp only [Json.writeMembers, hrecords, hagree.text]

/-- Two subsystems and two records change places, and so do two members in the depth of what is known. -/
theorem render_eq_of_perm_swapped :
    let a : Record := ⟨"A", .gauge, .nan, "1"⟩
    let b : Record := ⟨"é", .counter, .infinite true, "0"⟩
    let inner : List (String × Json) := [("x", .null), ("y", .bool true)]
    ∃ text, render ⟨[("memory", [a, b]), ("numa", [])], by decide⟩ [("in", .array [.object inner]), ("n", .integer 1)] =
        .ok text ∧
      render ⟨[("numa", []), ("memory", [b, a])], by decide⟩
        [("n", .integer 1), ("in", .array [.object inner.reverse])] = .ok text := by
  refine render_eq_of_perm (fun name => ?_) (by decide) ?_
  · simp only [Keyed.get?, Entries.find?]
    by_cases hm : "memory" = name
    · have hn : "numa" ≠ name := hm ▸ (by decide)
      rw [if_pos hm, if_neg hn, if_pos hm]
      exact .some (.swap _ _ _)
    · by_cases hn : "numa" = name
      · rw [if_neg hm, if_pos hn, if_pos hn]
        exact .some (.refl _)
      · rw [if_neg hm, if_neg hn, if_neg hn, if_neg hm]
        exact .none
  · have hinner : Json.Alike (.object [("x", .null), ("y", .bool true)]) (.object [("y", .bool true), ("x", .null)]) :=
      .object (by decide) (.swap _ _ _) rfl (.cons .null (.cons .bool .nil))
    exact .object (by decide) (.swap _ _ _) rfl (.cons (.array (.cons hinner .nil)) (.cons .integer .nil))

end Report

end NodeMemory
