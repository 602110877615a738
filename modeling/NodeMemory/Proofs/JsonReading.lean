import NodeMemory.Proofs.JsonReader
/-!
# What is read of JSON texts

The reader reads exactly what the grammar with contents admits (`read?_eq_some_iff`), so it is a
reader of JSON, and no text holds two things. One way is by induction on how the text holds its
content, for texts with anything behind them that a number cannot go on in; the other by induction
on the reader's fuel.
-/

namespace NodeMemory.JsonText

/-! ## Blanks -/

theorem isBlankChar_iff {c : Char} : isBlankChar c ↔ c ∈ [' ', '\t', '\n', '\r'] := decide_eq_true_iff

/-- Blanks are cut off the front of a text. -/
theorem exists_blanks (cs : List Char) : ∃ blank, IsBlank blank ∧ cs = blank ++ skipBlanks cs :=
  ⟨cs.takeWhile isBlankChar, fun _ hc => isBlankChar_iff.1 (List.mem_takeWhile_imp hc),
    List.takeWhile_append_dropWhile.symm⟩

theorem skipBlanks_append {blank : List Char} (hb : IsBlank blank) (rest : List Char) :
    skipBlanks (blank ++ rest) = skipBlanks rest :=
  List.dropWhile_append_of_pos fun c hc => isBlankChar_iff.2 (hb c hc)

theorem skipBlanks_cons {c : Char} (hc : c ∉ [' ', '\t', '\n', '\r']) (cs : List Char) :
    skipBlanks (c :: cs) = c :: cs := by
  rw [skipBlanks, List.dropWhile_cons_of_neg]
  rwa [isBlankChar_iff]

theorem endsNumber_append {blank rest : List Char} (hb : IsBlank blank) (hr : EndsNumber rest) :
    EndsNumber (blank ++ rest) := by
  cases blank with
  | nil => exact hr
  | cons c blank =>
    intro d hd
    obtain rfl : c = d := by simpa using hd
    have hc := hb c List.mem_cons_self
    intro hn
    have hne {b : Char} (hb : b.isDigit = false ∧ b ∉ ['-', '+', '.', 'e', 'E']) : c ≠ b := hn.ne hb.1 hb.2
    simp only [List.mem_cons, List.not_mem_nil, or_false] at hc
    rcases hc with h | h | h | h <;> exact hne (by decide) h

/-! ## Values -/

/-- A number begins with a minus or a digit. -/
theorem IsNumber.head {text : List Char} (h : IsNumber text) :
    ∃ c cs, text = c :: cs ∧ ∀ {b : Char}, b ≠ '-' ∧ b.isDigit = Bool.false → c ≠ b := by
  obtain ⟨sign, whole, fraction, exponent, hs, hw, -, -, rfl⟩ := h
  obtain ⟨d, ds, rfl⟩ := List.exists_cons_of_ne_nil hw.isDigits.1
  rcases List.mem_pair.1 hs with rfl | rfl
  · refine ⟨d, _, rfl, ?_⟩
    rintro b ⟨-, hb⟩ rfl
    rw [hw.isDigits.2 d List.mem_cons_self] at hb
    cases hb
  · exact ⟨'-', _, rfl, fun hb he => hb.1 he.symm⟩

/-- A value begins with no blank, and with nothing that ends an array or an object. -/
theorem HoldsValue.head {text : List Char} {c : Content} (h : HoldsValue text c) :
    ∃ d ds, text = d :: ds ∧ d ∉ [' ', '\t', '\n', '\r'] ∧ d ≠ ']' ∧ d ≠ '\x7d' := by
  cases h with
  | number h =>
    obtain ⟨d, ds, hd, hne⟩ := h.head
    refine ⟨d, ds, hd, ?_⟩
    simp only [List.mem_cons, List.not_mem_nil, or_false, not_or]
    exact ⟨⟨hne (by decide), hne (by decide), hne (by decide), hne (by decide)⟩, hne (by decide), hne (by decide)⟩
  | string h =>
    obtain ⟨spellings, -, rfl⟩ := h
    exact ⟨_, _, rfl, by decide⟩
  | _ => exact ⟨_, _, rfl, by decide⟩

theorem skipBlanks_value {blank text : List Char} {c : Content} (hb : IsBlank blank) (h : HoldsValue text c)
    (rest : List Char) : skipBlanks (blank ++ (text ++ rest)) = text ++ rest := by
  obtain ⟨d, ds, rfl, hd, -, -⟩ := h.head
  rw [skipBlanks_append hb, List.cons_append, skipBlanks_cons hd]

theorem value?_of_isNumber {token rest : List Char} (ht : IsNumber token) (hr : EndsNumber rest) (fuel : Nat) :
    value? (fuel + 1) (token ++ rest) = some (.number (String.ofList token), rest) := by
  have hnumber := number?_append ht hr
  obtain ⟨c, cs, rfl, hne⟩ := ht.head
  unfold value?
  split
  case h_7 => rw [hnumber, Option.map_some]
  all_goals
    next heq => exact absurd (List.cons.inj heq).1 (hne (by decide))

theorem value?_array {cs : List Char} {c : Char} {rest : List Char} (h : skipBlanks cs = c :: rest) (hc : c ≠ ']')
    (fuel : Nat) : value? (fuel + 1) ('[' :: cs) = (items? fuel cs).map fun (items, cs) => (.array items, cs) := by
  simp only [value?, h]
  split
  · next heq => exact absurd (List.cons.inj heq).1 hc
  · rfl

theorem value?_object {cs : List Char} {c : Char} {rest : List Char} (h : skipBlanks cs = c :: rest)
    (hc : c ≠ '\x7d') (fuel : Nat) :
    value? (fuel + 1) ('\x7b' :: cs) = (members? fuel cs).map fun (members, cs) => (.object members, cs) := by
  simp only [value?, h]
  split
  · next heq => exact absurd (List.cons.inj heq).1 hc
  · rfl

theorem value?_string (fuel : Nat) (cs : List Char) :
    value? (fuel + 1) ('"' :: cs) = (string? ('"' :: cs)).map fun (s, cs) => (.string s, cs) := rfl

theorem IsBlank.endsNumber {blank : List Char} (hb : IsBlank blank) {c : Char}
    (hc : c.isDigit = Bool.false ∧ c ∉ ['-', '+', '.', 'e', 'E']) (rest : List Char) :
    EndsNumber (blank ++ c :: rest) := by
  refine endsNumber_append hb fun d hd hn => ?_
  obtain rfl : c = d := by simpa using hd
  exact hn.ne hc.1 hc.2 rfl

theorem skipBlanks_point {blank : List Char} (hb : IsBlank blank) {c : Char} (hc : c ∉ [' ', '\t', '\n', '\r'])
    (rest : List Char) : skipBlanks (blank ++ c :: rest) = c :: rest := by
  rw [skipBlanks_append hb, skipBlanks_cons hc]

theorem name?_append {before name behind : List Char} {s : String} (hb : IsBlank before) (hn : HoldsString name s)
    (hh : IsBlank behind) (rest : List Char) :
    name? (before ++ (name ++ (behind ++ ':' :: rest))) = some (s, rest) := by
  have hread := hn.string?_append (behind ++ ':' :: rest)
  rw [name?, skipBlanks_value hb (.string hn), hread, Option.bind_some]
  simp only [skipBlanks_point hh (show ':' ∉ [' ', '\t', '\n', '\r'] by decide)]

/-- Behind its blanks a value begins, and with it neither the end of an array nor that of an object. -/
theorem exists_skipBlanks_value {blank text : List Char} {c : Content} (hb : IsBlank blank) (h : HoldsValue text c)
    (rest : List Char) : ∃ d ds, skipBlanks (blank ++ (text ++ rest)) = d :: ds ∧ d ≠ ']' ∧ d ≠ '\x7d' := by
  obtain ⟨d, ds, hd, -, hends⟩ := h.head
  refine ⟨d, ds ++ rest, ?_, hends⟩
  rw [skipBlanks_value hb h, hd, List.cons_append]

theorem HoldsItems.head {text : List Char} {cs : List Content} (h : HoldsItems text cs) (rest : List Char) :
    ∃ d ds, skipBlanks (text ++ rest) = d :: ds ∧ d ≠ ']' := by
  cases h with
  | last hb hv _ | more hb hv _ _ =>
    rw [List.append_assoc, List.append_assoc]
    obtain ⟨d, ds, hd, hne, -⟩ := exists_skipBlanks_value hb hv _
    exact ⟨d, ds, hd, hne⟩

theorem HoldsMembers.head {text : List Char} {cs : List (String × Content)} (h : HoldsMembers text cs)
    (rest : List Char) : ∃ d ds, skipBlanks (text ++ rest) = d :: ds ∧ d ≠ '\x7d' := by
  cases h with
  | last hb hn _ _ _ _ | more hb hn _ _ _ _ _ =>
    rw [List.append_assoc, List.append_assoc]
    obtain ⟨d, ds, hd, -, hne⟩ := exists_skipBlanks_value hb (.string hn) _
    exact ⟨d, ds, hd, hne⟩

mutual

/-- What a value holds is read at the front of every text, unless it is a number that goes on. -/
theorem value?_append {text : List Char} {c : Content} : HoldsValue text c → ∀ {fuel : Nat} {rest : List Char},
    text.length < fuel → EndsNumber rest → value? fuel (text ++ rest) = some (c, rest)
  | .null, fuel + 1, _, _, _ => rfl
  | .true, fuel + 1, _, _, _ => rfl
  | .false, fuel + 1, _, _, _ => rfl
  | .number h, fuel + 1, _, _, hr => by rw [value?_of_isNumber h hr, String.ofList_toList]
  | .string h, fuel + 1, rest, _, _ => by
    have hread := h.string?_append rest
    obtain ⟨spellings, -, rfl⟩ := h
    rw [List.cons_append] at hread ⊢
    rw [value?_string, hread, Option.map_some]
  | .emptyArray hb, fuel + 1, rest, _, _ => by
    have hclose := skipBlanks_point hb (show ']' ∉ [' ', '\t', '\n', '\r'] by decide) rest
    simp only [List.cons_append, List.append_assoc, List.nil_append, value?, hclose]
  | @HoldsValue.array items _ h, fuel + 1, rest, hf, _ => by
    obtain ⟨d, ds, hd, hne⟩ := h.head (']' :: rest)
    have hlength : items.length + 1 < fuel := by simpa using hf
    rw [List.cons_append, List.append_assoc, List.singleton_append, value?_array hd hne, items?_append h rest hlength,
      Option.map_some]
  | .emptyObject hb, fuel + 1, rest, _, _ => by
    have hclose := skipBlanks_point hb (show '\x7d' ∉ [' ', '\t', '\n', '\r'] by decide) rest
    simp only [List.cons_append, List.append_assoc, List.nil_append, value?, hclose]
  | @HoldsValue.object members _ h, fuel + 1, rest, hf, _ => by
    obtain ⟨d, ds, hd, hne⟩ := h.head ('\x7d' :: rest)
    have hlength : members.length + 1 < fuel := by simpa using hf
    rw [List.cons_append, List.append_assoc, List.singleton_append, value?_object hd hne,
      members?_append h rest hlength, Option.map_some]

theorem items?_append {text : List Char} {cs : List Content} : HoldsItems text cs → ∀ {fuel : Nat} (rest : List Char),
    text.length + 1 < fuel → items? fuel (text ++ ']' :: rest) = some (cs, rest)
  | .last hb hv ha, fuel + 1, rest, hf => by
    simp only [List.length_append] at hf
    have hread := value?_append hv (show _ < fuel by omega) (ha.endsNumber (c := ']') (by decide) rest)
    rw [List.append_assoc, List.append_assoc, items?, skipBlanks_value hb hv, hread, Option.bind_some]
    simp only [skipBlanks_point ha (show ']' ∉ [' ', '\t', '\n', '\r'] by decide)]
  | @HoldsItems.more _ _ _ items _ _ hb hv ha hi, fuel + 1, rest, hf => by
    simp only [List.length_append, List.length_cons] at hf
    have hread := value?_append hv (show _ < fuel by omega)
      (ha.endsNumber (c := ',') (by decide) (items ++ ']' :: rest))
    have hitems := items?_append hi rest (show _ < fuel by omega)
    rw [List.append_assoc, List.append_assoc, List.append_assoc, List.cons_append, items?, skipBlanks_value hb hv,
      hread, Option.bind_some]
    simp only [skipBlanks_point ha (show ',' ∉ [' ', '\t', '\n', '\r'] by decide), hitems, Option.map_some]

theorem members?_append {text : List Char} {cs : List (String × Content)} : HoldsMembers text cs →
    ∀ {fuel : Nat} (rest : List Char), text.length + 1 < fuel → members? fuel (text ++ '\x7d' :: rest) = some (cs, rest)
  | .last hb hn hh he hv ha, fuel + 1, rest, hf => by
    simp only [List.length_append, List.length_cons] at hf
    have hread := value?_append hv (show _ < fuel by omega) (ha.endsNumber (c := '\x7d') (by decide) rest)
    simp only [List.append_assoc, List.cons_append]
    rw [members?, name?_append hb hn hh, Option.bind_some]
    simp only [skipBlanks_value he hv, hread, Option.bind_some,
      skipBlanks_point ha (show '\x7d' ∉ [' ', '\t', '\n', '\r'] by decide)]
  | @HoldsMembers.more _ _ _ _ _ _ members _ _ _ hb hn hh he hv ha hm, fuel + 1, rest, hf => by
    simp only [List.length_append, List.length_cons] at hf
    have hread := value?_append hv (show _ < fuel by omega)
      (ha.endsNumber (c := ',') (by decide) (members ++ '\x7d' :: rest))
    have hmembers := members?_append hm rest (show _ < fuel by omega)
    simp only [List.append_assoc, List.cons_append]
    rw [members?, name?_append hb hn hh, Option.bind_some]
    simp only [skipBlanks_value he hv, hread, Option.bind_some,
      skipBlanks_point ha (show ',' ∉ [' ', '\t', '\n', '\r'] by decide), hmembers, Option.map_some]

end

/-! ## What is read is there -/

theorem name?_eq_some {cs rest : List Char} {s : String} (h : name? cs = some (s, rest)) :
    ∃ before name behind, IsBlank before ∧ HoldsString name s ∧ IsBlank behind ∧
      cs = before ++ (name ++ (behind ++ ':' :: rest)) := by
  obtain ⟨⟨s, more⟩, hs, h⟩ := Option.bind_eq_some_iff.1 h
  obtain ⟨before, hb, hcs⟩ := exists_blanks cs
  obtain ⟨behind, hh, hmore⟩ := exists_blanks more
  obtain ⟨name, hn, hname⟩ := string?_eq_some hs
  simp only at h
  split at h
  · next more' hcolon =>
    obtain ⟨rfl, rfl⟩ := Prod.mk.inj (Option.some.inj h)
    refine ⟨before, name, behind, hb, hn, hh, ?_⟩
    rw [hcs, hname, ← hcolon, ← hmore]
  · cases h

/-- What the reader finds at the front of a text with so much fuel is in the grammar. -/
structure Finds (fuel : Nat) : Prop where
  value : ∀ {cs c rest}, value? fuel cs = some (c, rest) → ∃ text, HoldsValue text c ∧ cs = text ++ rest
  items : ∀ {cs contents rest}, items? fuel cs = some (contents, rest) →
    ∃ text, HoldsItems text contents ∧ cs = text ++ ']' :: rest
  members : ∀ {cs contents rest}, members? fuel cs = some (contents, rest) →
    ∃ text, HoldsMembers text contents ∧ cs = text ++ '\x7d' :: rest

theorem value?_eq_some {fuel : Nat} (ih : Finds fuel) {cs rest : List Char} {c : Content}
    (h : value? (fuel + 1) cs = some (c, rest)) : ∃ text, HoldsValue text c ∧ cs = text ++ rest := by
  unfold value? at h
  split at h
  · obtain ⟨rfl, rfl⟩ := Prod.mk.inj (Option.some.inj h)
    exact ⟨_, .null, rfl⟩
  · obtain ⟨rfl, rfl⟩ := Prod.mk.inj (Option.some.inj h)
    exact ⟨_, .true, rfl⟩
  · obtain ⟨rfl, rfl⟩ := Prod.mk.inj (Option.some.inj h)
    exact ⟨_, .false, rfl⟩
  · obtain ⟨⟨s, more⟩, hs, h⟩ := Option.map_eq_some_iff.1 h
    obtain ⟨rfl, rfl⟩ := Prod.mk.inj h
    obtain ⟨text, ht, hcs⟩ := string?_eq_some hs
    exact ⟨text, .string ht, hcs⟩
  · next cs =>
    obtain ⟨blank, hb, hcs⟩ := exists_blanks cs
    split at h
    · next more hclose =>
      obtain ⟨rfl, rfl⟩ := Prod.mk.inj (Option.some.inj h)
      exact ⟨_, .emptyArray hb, by rw [hcs, hclose]; simp⟩
    · obtain ⟨⟨contents, more⟩, hread, h⟩ := Option.map_eq_some_iff.1 h
      obtain ⟨rfl, rfl⟩ := Prod.mk.inj h
      obtain ⟨items, hi, rfl⟩ := ih.items hread
      exact ⟨_, .array hi, by simp⟩
  · next cs =>
    obtain ⟨blank, hb, hcs⟩ := exists_blanks cs
    split at h
    · next more hclose =>
      obtain ⟨rfl, rfl⟩ := Prod.mk.inj (Option.some.inj h)
      exact ⟨_, .emptyObject hb, by rw [hcs, hclose]; simp⟩
    · obtain ⟨⟨contents, more⟩, hread, h⟩ := Option.map_eq_some_iff.1 h
      obtain ⟨rfl, rfl⟩ := Prod.mk.inj h
      obtain ⟨members, hm, rfl⟩ := ih.members hread
      exact ⟨_, .object hm, by simp⟩
  · obtain ⟨⟨token, more⟩, ht, h⟩ := Option.map_eq_some_iff.1 h
    obtain ⟨rfl, rfl⟩ := Prod.mk.inj h
    obtain ⟨htoken, hcs⟩ := number?_eq_some ht
    have hv : HoldsValue (String.ofList token).toList (.number (String.ofList token)) :=
      .number (by rwa [String.toList_ofList])
    rw [String.toList_ofList] at hv
    exact ⟨token, hv, hcs⟩

theorem items?_eq_some {fuel : Nat} (ih : Finds fuel) {cs rest : List Char} {contents : List Content}
    (h : items? (fuel + 1) cs = some (contents, rest)) :
    ∃ text, HoldsItems text contents ∧ cs = text ++ ']' :: rest := by
  obtain ⟨⟨c, more⟩, hv, h⟩ := Option.bind_eq_some_iff.1 h
  obtain ⟨before, hb, hcs⟩ := exists_blanks cs
  obtain ⟨value, hv, hvalue⟩ := ih.value hv
  obtain ⟨after, ha, hmore⟩ := exists_blanks more
  simp only at h
  split at h
  · next cs' hcomma =>
    obtain ⟨⟨contents, more'⟩, hread, h⟩ := Option.map_eq_some_iff.1 h
    obtain ⟨rfl, rfl⟩ := Prod.mk.inj h
    obtain ⟨items, hi, rfl⟩ := ih.items hread
    refine ⟨_, .more hb hv ha hi, ?_⟩
    rw [hcs, hvalue, hmore, hcomma]
    simp
  · next cs' hclose =>
    obtain ⟨rfl, rfl⟩ := Prod.mk.inj (Option.some.inj h)
    refine ⟨_, .last hb hv ha, ?_⟩
    rw [hcs, hvalue, hmore, hclose]
    simp
  · cases h

theorem members?_eq_some {fuel : Nat} (ih : Finds fuel) {cs rest : List Char} {contents : List (String × Content)}
    (h : members? (fuel + 1) cs = some (contents, rest)) :
    ∃ text, HoldsMembers text contents ∧ cs = text ++ '\x7d' :: rest := by
  obtain ⟨⟨s, cs₁⟩, hname, h⟩ := Option.bind_eq_some_iff.1 h
  obtain ⟨⟨c, more⟩, hv, h⟩ := Option.bind_eq_some_iff.1 h
  obtain ⟨before, name, behind, hb, hn, hh, hcs⟩ := name?_eq_some hname
  obtain ⟨ahead, he, hcs₁⟩ := exists_blanks cs₁
  obtain ⟨value, hv, hvalue⟩ := ih.value hv
  obtain ⟨after, ha, hmore⟩ := exists_blanks more
  simp only at h
  split at h
  · next cs' hcomma =>
    obtain ⟨⟨contents, more'⟩, hread, h⟩ := Option.map_eq_some_iff.1 h
    obtain ⟨rfl, rfl⟩ := Prod.mk.inj h
    obtain ⟨members, hm, rfl⟩ := ih.members hread
    refine ⟨_, .more hb hn hh he hv ha hm, ?_⟩
    rw [hcs, hcs₁, hvalue, hmore, hcomma]
    simp
  · next cs' hclose =>
    obtain ⟨rfl, rfl⟩ := Prod.mk.inj (Option.some.inj h)
    refine ⟨_, .last hb hn hh he hv ha, ?_⟩
    rw [hcs, hcs₁, hvalue, hmore, hclose]
    simp
  · cases h

theorem finds (fuel : Nat) : Finds fuel := by
  induction fuel with
  | zero => exact ⟨nofun, nofun, nofun⟩
  | succ fuel ih => exact ⟨value?_eq_some ih, items?_eq_some ih, members?_eq_some ih⟩

/-- The reader reads what the grammar admits, and nothing else. -/
theorem read?_eq_some_iff {text : String} {c : Content} : read? text = some c ↔ HoldsText text.toList c := by
  constructor
  · intro h
    obtain ⟨⟨c, rest⟩, hv, h⟩ := Option.bind_eq_some_iff.1 h
    obtain ⟨hrest, h⟩ := Option.ite_none_right_eq_some.1 h
    cases h
    obtain ⟨before, hb, htext⟩ := exists_blanks text.toList
    obtain ⟨value, hv, hvalue⟩ := (finds _).value hv
    obtain ⟨after, ha, hafter⟩ := exists_blanks rest
    refine ⟨before, value, after, hb, hv, ha, ?_⟩
    rw [htext, hvalue, hafter, hrest, List.append_nil]
  · rintro ⟨before, value, after, hb, hv, ha, htext⟩
    have hlength : value.length < text.length + 1 := by
      rw [← String.length_toList, htext, List.length_append, List.length_append]
      omega
    have hafter : EndsNumber after := by simpa using endsNumber_append ha (show EndsNumber [] from nofun)
    have hskip : skipBlanks after = [] := by simpa [skipBlanks] using skipBlanks_append ha []
    rw [read?, htext, skipBlanks_value hb hv, value?_append hv hlength hafter, Option.bind_some]
    simp only [hskip, if_pos]

end NodeMemory.JsonText
