import NodeMemory.Proofs.JsonContents
import NodeMemory.Proofs.ValueGrammar
/-!
# A reader of JSON texts

The reader goes along the text once, from left to right, and keeps the tokens of numbers. A number
ends where it cannot go on, a string at the first quote that is not escaped, and behind a value
stands a comma, a closing bracket or the end; so the reader has no choice anywhere. Shown here is
what it takes for a number or a string at the front of a text: a token of the grammar, and each of
them.
-/

namespace NodeMemory.JsonText

open Value (EndsRun span_isDigit endsRun_of_isExponent)

/-! ## The reader -/

def isBlankChar (c : Char) : Bool := c ∈ [' ', '\t', '\n', '\r']

def skipBlanks (cs : List Char) : List Char := cs.dropWhile isBlankChar

/-- The sign of a number, if there is one, and what is behind it. -/
def minus : List Char → List Char × List Char
  | '-' :: cs => (['-'], cs)
  | cs => ([], cs)

def whole? (cs : List Char) : Option (List Char × List Char) :=
  let (digits, rest) := cs.span Char.isDigit
  if digits = ['0'] ∨ (digits ≠ [] ∧ digits.head? ≠ some '0') then some (digits, rest) else none

def fraction? : List Char → Option (List Char × List Char)
  | '.' :: cs =>
    let (digits, rest) := cs.span Char.isDigit
    if digits = [] then none else some ('.' :: digits, rest)
  | cs => some ([], cs)

/-- The sign of an exponent, and what is behind it. -/
def plusMinus : List Char → List Char × List Char
  | '+' :: cs => (['+'], cs)
  | cs => minus cs

def exponent? : List Char → Option (List Char × List Char)
  | [] => some ([], [])
  | e :: cs =>
    if e ∈ ['e', 'E'] then
      let (sign, cs) := plusMinus cs
      let (digits, rest) := cs.span Char.isDigit
      if digits = [] then none else some (e :: (sign ++ digits), rest)
    else some ([], e :: cs)

def number? (cs : List Char) : Option (List Char × List Char) :=
  let (sign, cs) := minus cs
  (whole? cs).bind fun (whole, cs) =>
    (fraction? cs).bind fun (fraction, cs) =>
      (exponent? cs).map fun (exponent, cs) => (sign ++ (whole ++ (fraction ++ exponent)), cs)

/-- Four hexadecimal digits. -/
def codeUnit? : List Char → Option (Nat × List Char)
  | i :: j :: k :: l :: cs => (code? [i, j, k, l]).map fun n => (n, cs)
  | _ => none

/-- The second half of a surrogate pair. -/
def low? : List Char → Option (Nat × List Char)
  | '\\' :: 'u' :: cs => (codeUnit? cs).filter fun (n, _) => IsLow n
  | _ => none

/-- One character of a string. -/
def character? : List Char → Option (Char × List Char)
  | [] => none
  | '\\' :: 'u' :: cs =>
    (codeUnit? cs).bind fun (n, cs) =>
      if IsHigh n then (low? cs).map fun (low, cs) => (ofPair n low, cs)
      else if IsLow n then none
      else some (Char.ofNat n, cs)
  | '\\' :: e :: cs => (escapes.lookup e).map fun c => (c, cs)
  | c :: cs => if 0x20 ≤ c.toNat ∧ c ≠ '"' ∧ c ≠ '\\' then some (c, cs) else none

/-- The characters of a string, behind its first quote; `fuel` bounds how many. -/
def characters? : Nat → List Char → Option (List Char × List Char)
  | 0, _ => none
  | fuel + 1, cs =>
    match cs with
    | '"' :: cs => some ([], cs)
    | _ => (character? cs).bind fun (c, cs) => (characters? fuel cs).map fun (s, cs) => (c :: s, cs)

def string? : List Char → Option (String × List Char)
  | '"' :: cs => (characters? (cs.length + 1) cs).map fun (s, cs) => (String.ofList s, cs)
  | _ => none

/-- A name and the colon behind it, with the blanks around. -/
def name? (cs : List Char) : Option (String × List Char) :=
  (string? (skipBlanks cs)).bind fun (s, cs) =>
    match skipBlanks cs with
    | ':' :: cs => some (s, cs)
    | _ => none

mutual

/-- A value at the front of a text, and what is behind it; `fuel` bounds the depth and the number of items. -/
def value? : Nat → List Char → Option (Content × List Char)
  | 0, _ => none
  | fuel + 1, cs =>
    match cs with
    | 'n' :: 'u' :: 'l' :: 'l' :: cs => some (.null, cs)
    | 't' :: 'r' :: 'u' :: 'e' :: cs => some (.bool true, cs)
    | 'f' :: 'a' :: 'l' :: 's' :: 'e' :: cs => some (.bool false, cs)
    | '"' :: _ => (string? cs).map fun (s, cs) => (.string s, cs)
    | '[' :: cs =>
      match skipBlanks cs with
      | ']' :: cs => some (.array [], cs)
      | _ => (items? fuel cs).map fun (items, cs) => (.array items, cs)
    | '\x7b' :: cs =>
      match skipBlanks cs with
      | '\x7d' :: cs => some (.object [], cs)
      | _ => (members? fuel cs).map fun (members, cs) => (.object members, cs)
    | _ => (number? cs).map fun (token, cs) => (.number (String.ofList token), cs)

/-- The items of an array up to its end. -/
def items? : Nat → List Char → Option (List Content × List Char)
  | 0, _ => none
  | fuel + 1, cs =>
    (value? fuel (skipBlanks cs)).bind fun (c, cs) =>
      match skipBlanks cs with
      | ',' :: cs => (items? fuel cs).map fun (items, cs) => (c :: items, cs)
      | ']' :: cs => some ([c], cs)
      | _ => none

/-- The members of an object up to its end. -/
def members? : Nat → List Char → Option (List (String × Content) × List Char)
  | 0, _ => none
  | fuel + 1, cs =>
    (name? cs).bind fun (s, cs) =>
      (value? fuel (skipBlanks cs)).bind fun (c, cs) =>
        match skipBlanks cs with
        | ',' :: cs => (members? fuel cs).map fun (members, cs) => ((s, c) :: members, cs)
        | '\x7d' :: cs => some ([(s, c)], cs)
        | _ => none

end

/-- What a whole text holds. -/
def read? (text : String) : Option Content :=
  (value? (text.length + 1) (skipBlanks text.toList)).bind fun (c, rest) =>
    if skipBlanks rest = [] then some c else none

/-! ## Numbers -/

/-- A text that goes on from a number: the number ends before it. -/
def EndsNumber (rest : List Char) : Prop := ∀ c ∈ rest.head?, ¬ IsNumeral c

theorem EndsNumber.endsRun {rest : List Char} (h : EndsNumber rest) : EndsRun rest := by
  intro c hc
  have hn := h c hc
  cases hd : c.isDigit with
  | false => rfl
  | true => exact absurd (.inl hd) hn

theorem span_digits {digits rest : List Char} (hd : ∀ c ∈ digits, c.isDigit) (hr : EndsRun rest) :
    (digits ++ rest).span Char.isDigit = (digits, rest) := span_isDigit hd hr

/-- A run of digits is cut off the front of a text. -/
theorem of_span_digits {cs digits rest : List Char} (h : cs.span Char.isDigit = (digits, rest)) :
    (∀ c ∈ digits, c.isDigit) ∧ cs = digits ++ rest := by
  rw [List.span_eq_takeWhile_dropWhile] at h
  obtain ⟨rfl, rfl⟩ := Prod.mk.inj h
  exact ⟨fun c hc => List.mem_takeWhile_imp hc, List.takeWhile_append_dropWhile.symm⟩

theorem whole?_eq_some {cs whole rest : List Char} (h : whole? cs = some (whole, rest)) :
    IsWhole whole ∧ cs = whole ++ rest := by
  unfold whole? at h
  generalize hspan : cs.span Char.isDigit = cut at h
  obtain ⟨digits, more⟩ := cut
  obtain ⟨hd, hcs⟩ := of_span_digits hspan
  obtain ⟨hw, h⟩ := Option.ite_none_right_eq_some.1 h
  obtain ⟨rfl, rfl⟩ := Prod.mk.inj (Option.some.inj h)
  exact ⟨hw.imp_right fun hw => ⟨⟨hw.1, hd⟩, hw.2⟩, hcs⟩

theorem IsWhole.isDigits {whole : List Char} (h : IsWhole whole) : IsDigits whole := by
  rcases h with rfl | h
  · exact ⟨by simp, by simp⟩
  · exact h.1

theorem whole?_append {whole rest : List Char} (hw : IsWhole whole) (hr : EndsRun rest) :
    whole? (whole ++ rest) = some (whole, rest) := by
  have hcut : whole = ['0'] ∨ (whole ≠ [] ∧ whole.head? ≠ some '0') := hw.imp_right fun hw => ⟨hw.1.1, hw.2⟩
  simp only [whole?, span_digits hw.isDigits.2 hr, if_pos hcut]

theorem fraction?_eq_some {cs fraction rest : List Char} (h : fraction? cs = some (fraction, rest)) :
    IsFraction fraction ∧ cs = fraction ++ rest := by
  unfold fraction? at h
  split at h
  · next cs =>
    generalize hspan : cs.span Char.isDigit = cut at h
    obtain ⟨digits, more⟩ := cut
    obtain ⟨hd, hcs⟩ := of_span_digits hspan
    obtain ⟨hne, h⟩ := Option.ite_none_left_eq_some.1 h
    obtain ⟨rfl, rfl⟩ := Prod.mk.inj (Option.some.inj h)
    exact ⟨.inr ⟨_, ⟨hne, hd⟩, rfl⟩, congrArg ('.' :: ·) hcs⟩
  · obtain ⟨rfl, rfl⟩ := Prod.mk.inj (Option.some.inj h)
    exact ⟨.inl rfl, rfl⟩

theorem fraction?_append {fraction rest : List Char} (hf : IsFraction fraction) (hr : EndsRun rest)
    (hp : ∀ c ∈ rest.head?, c ≠ '.') : fraction? (fraction ++ rest) = some (fraction, rest) := by
  rcases hf with rfl | ⟨digits, hd, rfl⟩
  · rw [List.nil_append]
    unfold fraction?
    split
    · exact absurd rfl (hp '.' rfl)
    · rfl
  · simp only [List.cons_append, fraction?, span_digits hd.2 hr, if_neg hd.1]

theorem minus_spec (cs : List Char) : (minus cs).1 ∈ [[], ['-']] ∧ cs = (minus cs).1 ++ (minus cs).2 := by
  unfold minus
  split <;> simp

theorem minus_append {sign rest : List Char} (hs : sign ∈ [[], ['-']]) (hr : ∀ c ∈ rest.head?, c ≠ '-') :
    minus (sign ++ rest) = (sign, rest) := by
  rcases List.mem_pair.1 hs with rfl | rfl
  · rw [List.nil_append]
    unfold minus
    split
    · exact absurd rfl (hr '-' rfl)
    · rfl
  · rfl

theorem plusMinus_spec (cs : List Char) :
    (plusMinus cs).1 ∈ [[], ['+'], ['-']] ∧ cs = (plusMinus cs).1 ++ (plusMinus cs).2 := by
  unfold plusMinus
  split
  · simp
  · obtain ⟨hs, hcs⟩ := minus_spec cs
    refine ⟨?_, hcs⟩
    rcases List.mem_pair.1 hs with h | h <;> simp [h]

theorem plusMinus_append {sign rest : List Char} (hs : sign ∈ [[], ['+'], ['-']])
    (hr : ∀ c ∈ rest.head?, c ≠ '+' ∧ c ≠ '-') : plusMinus (sign ++ rest) = (sign, rest) := by
  have hminus (c) (hc : c ∈ rest.head?) := (hr c hc).2
  simp only [List.mem_cons, List.not_mem_nil, or_false] at hs
  rcases hs with rfl | rfl | rfl
  · rw [List.nil_append]
    unfold plusMinus
    split
    · exact absurd rfl (hr '+' rfl).1
    · exact minus_append (show [] ∈ [[], ['-']] by simp) hminus
  · rfl
  · rfl

theorem exponent?_eq_some {cs exponent rest : List Char} (h : exponent? cs = some (exponent, rest)) :
    IsExponent exponent ∧ cs = exponent ++ rest := by
  unfold exponent? at h
  split at h
  · obtain ⟨rfl, rfl⟩ := Prod.mk.inj (Option.some.inj h)
    exact ⟨.inl rfl, rfl⟩
  · next e cs =>
    by_cases he : e ∈ ['e', 'E']
    · rw [if_pos he] at h
      obtain ⟨hs, hcs⟩ := plusMinus_spec cs
      generalize plusMinus cs = signed at h hs hcs
      obtain ⟨sign, cs'⟩ := signed
      simp only at h
      generalize hspan : cs'.span Char.isDigit = cut at h
      obtain ⟨digits, more⟩ := cut
      obtain ⟨hd, hmore⟩ := of_span_digits hspan
      obtain ⟨hne, h⟩ := Option.ite_none_left_eq_some.1 h
      obtain ⟨rfl, rfl⟩ := Prod.mk.inj (Option.some.inj h)
      refine ⟨.inr ⟨e, sign, digits, he, hs, ⟨hne, hd⟩, rfl⟩, ?_⟩
      rw [hcs, hmore, List.cons_append, List.append_assoc]
    · rw [if_neg he] at h
      obtain ⟨rfl, rfl⟩ := Prod.mk.inj (Option.some.inj h)
      exact ⟨.inl rfl, rfl⟩

theorem exponent?_append {exponent rest : List Char} (hx : IsExponent exponent) (hr : EndsNumber rest) :
    exponent? (exponent ++ rest) = some (exponent, rest) := by
  rcases hx with rfl | ⟨e, sign, digits, he, hs, hd, rfl⟩
  · cases rest with
    | nil => rfl
    | cons c rest =>
      have hc : c ∉ ['e', 'E'] := fun hc => hr c rfl (.inr (by simp_all))
      rw [List.nil_append, exponent?, if_neg hc]
  · have hsign : ∀ c ∈ (digits ++ rest).head?, c ≠ '+' ∧ c ≠ '-' := by
      intro c hc
      rw [List.head?_append_of_ne_nil _ hd.1] at hc
      have hc := hd.2 c (List.mem_of_mem_head? hc)
      constructor <;> (rintro rfl; exact absurd hc (by decide))
    simp only [List.cons_append, List.append_assoc, exponent?, if_pos he, plusMinus_append hs hsign,
      span_digits hd.2 hr.endsRun, if_neg hd.1]

theorem number?_eq_some {cs token rest : List Char} (h : number? cs = some (token, rest)) :
    IsNumber token ∧ cs = token ++ rest := by
  unfold number? at h
  obtain ⟨hs, hcs⟩ := minus_spec cs
  generalize minus cs = signed at h hs hcs
  obtain ⟨sign, cs₀⟩ := signed
  obtain ⟨⟨whole, cs₁⟩, hw, h⟩ := Option.bind_eq_some_iff.1 h
  obtain ⟨⟨fraction, cs₂⟩, hf, h⟩ := Option.bind_eq_some_iff.1 h
  obtain ⟨⟨exponent, cs₃⟩, hx, h⟩ := Option.map_eq_some_iff.1 h
  obtain ⟨rfl, rfl⟩ := Prod.mk.inj h
  obtain ⟨hw, hcs₁⟩ := whole?_eq_some hw
  obtain ⟨hf, hcs₂⟩ := fraction?_eq_some hf
  obtain ⟨hx, hcs₃⟩ := exponent?_eq_some hx
  refine ⟨⟨_, _, _, _, hs, hw, hf, hx, rfl⟩, ?_⟩
  rw [hcs, hcs₁, hcs₂, hcs₃]
  simp only [List.append_assoc]

theorem number?_append {token rest : List Char} (ht : IsNumber token) (hr : EndsNumber rest) :
    number? (token ++ rest) = some (token, rest) := by
  obtain ⟨sign, whole, fraction, exponent, hs, hw, hf, hx, rfl⟩ := ht
  have hexp : EndsRun (exponent ++ rest) ∧ ∀ c ∈ (exponent ++ rest).head?, c ≠ '.' := by
    rcases List.eq_nil_or_concat exponent with rfl | hne
    · exact ⟨hr.endsRun, fun c hc he => hr c hc (.inr (by simp [he]))⟩
    · rw [EndsRun, List.head?_append_of_ne_nil _ (by rintro rfl; simp at hne)]
      exact endsRun_of_isExponent hx
  have hfrac : EndsRun (fraction ++ (exponent ++ rest)) := by
    rcases hf with rfl | ⟨digits, -, rfl⟩
    · exact hexp.1
    · simp [EndsRun]
  have hminus : ∀ c ∈ (whole ++ (fraction ++ (exponent ++ rest))).head?, c ≠ '-' := by
    intro c hc
    rw [List.head?_append_of_ne_nil _ hw.isDigits.1] at hc
    rintro rfl
    exact absurd (hw.isDigits.2 _ (List.mem_of_mem_head? hc)) (by decide)
  simp only [number?, List.append_assoc, minus_append hs hminus, whole?_append hw hfrac, Option.bind_some,
    fraction?_append hf hexp.1 hexp.2, exponent?_append hx hr, Option.map_some]

/-! ## Strings -/

theorem codeUnit?_eq_some {cs rest : List Char} {n : Nat} (h : codeUnit? cs = some (n, rest)) :
    ∃ i j k l, code? [i, j, k, l] = some n ∧ cs = i :: j :: k :: l :: rest := by
  unfold codeUnit? at h
  split at h
  · next i j k l cs =>
    obtain ⟨n, hn, h⟩ := Option.map_eq_some_iff.1 h
    obtain ⟨rfl, rfl⟩ := Prod.mk.inj h
    exact ⟨i, j, k, l, hn, rfl⟩
  · cases h

theorem low?_eq_some {cs rest : List Char} {n : Nat} (h : low? cs = some (n, rest)) :
    ∃ i j k l, code? [i, j, k, l] = some n ∧ IsLow n ∧ cs = '\\' :: 'u' :: i :: j :: k :: l :: rest := by
  unfold low? at h
  split at h
  · next cs =>
    obtain ⟨h, hlow⟩ := Option.filter_eq_some_iff.1 h
    obtain ⟨i, j, k, l, hn, rfl⟩ := codeUnit?_eq_some h
    exact ⟨i, j, k, l, hn, of_decide_eq_true hlow, rfl⟩
  · cases h

theorem character?_eq_some {cs rest : List Char} {c : Char} (h : character? cs = some (c, rest)) :
    ∃ text, Spells text c ∧ cs = text ++ rest := by
  unfold character? at h
  split at h
  · cases h
  · obtain ⟨⟨n, cs⟩, hcode, hc⟩ := Option.bind_eq_some_iff.1 h
    obtain ⟨i, j, k, l, hn, rfl⟩ := codeUnit?_eq_some hcode
    simp only at hc
    split at hc
    · next hhigh =>
      obtain ⟨⟨low, cs⟩, hl, hc⟩ := Option.map_eq_some_iff.1 hc
      obtain ⟨rfl, rfl⟩ := Prod.mk.inj hc
      obtain ⟨i', j', k', l', hn', hlow, rfl⟩ := low?_eq_some hl
      exact ⟨_, .pair hn hhigh hn' hlow, rfl⟩
    · next hhigh =>
      obtain ⟨hlow, hc⟩ := Option.ite_none_left_eq_some.1 hc
      obtain ⟨rfl, rfl⟩ := Prod.mk.inj (Option.some.inj hc)
      exact ⟨_, .code hn hhigh hlow, rfl⟩
  · obtain ⟨c, hc, h⟩ := Option.map_eq_some_iff.1 h
    obtain ⟨rfl, rfl⟩ := Prod.mk.inj h
    obtain ⟨before, after, he, -⟩ := List.lookup_eq_some_iff.1 hc
    exact ⟨_, .escape (he ▸ List.mem_append_right _ List.mem_cons_self), rfl⟩
  · obtain ⟨⟨hv, hq, hb⟩, h⟩ := Option.ite_none_right_eq_some.1 h
    obtain ⟨rfl, rfl⟩ := Prod.mk.inj (Option.some.inj h)
    exact ⟨_, .plain hv hq hb, rfl⟩

theorem Spells.character?_append {text : List Char} {c : Char} (h : Spells text c) (rest : List Char) :
    character? (text ++ rest) = some (c, rest) := by
  cases h with
  | plain hv hq hb =>
    unfold character?
    split
    all_goals simp_all
  | escape he =>
    simp only [escapes, List.mem_cons, Prod.mk.injEq, List.not_mem_nil, or_false] at he
    rcases he with ⟨rfl, rfl⟩ | ⟨rfl, rfl⟩ | ⟨rfl, rfl⟩ | ⟨rfl, rfl⟩ | ⟨rfl, rfl⟩ | ⟨rfl, rfl⟩ | ⟨rfl, rfl⟩ |
      ⟨rfl, rfl⟩ <;> rfl
  | code hn hhigh hlow =>
    simp only [List.cons_append, List.nil_append, character?, codeUnit?, hn, Option.map_some, Option.bind_some,
      if_neg hhigh, if_neg hlow]
  | pair hh hhigh hl hlow =>
    simp only [List.cons_append, List.nil_append, character?, codeUnit?, hh, Option.map_some, Option.bind_some,
      if_pos hhigh, low?, hl, Option.filter_some, decide_eq_true hlow, if_true]

/-- The spelling of a character does not begin with the quote that ends a string. -/
theorem Spells.head {text : List Char} {c : Char} (h : Spells text c) : ∃ d ds, text = d :: ds ∧ d ≠ '"' := by
  cases h with
  | plain _ hq _ => exact ⟨_, _, rfl, hq⟩
  | escape _ => exact ⟨_, _, rfl, by decide⟩
  | code _ _ _ => exact ⟨_, _, rfl, by decide⟩
  | pair _ _ _ _ => exact ⟨_, _, rfl, by decide⟩

theorem characters?_eq_some {fuel : Nat} {cs s rest : List Char} (h : characters? fuel cs = some (s, rest)) :
    ∃ spellings, List.Forall₂ Spells spellings s ∧ cs = spellings.flatten ++ '"' :: rest := by
  induction fuel generalizing cs s with
  | zero => cases h
  | succ fuel ih =>
    unfold characters? at h
    split at h
    · obtain ⟨rfl, rfl⟩ := Prod.mk.inj (Option.some.inj h)
      exact ⟨[], .nil, rfl⟩
    · obtain ⟨⟨c, more⟩, hc, h⟩ := Option.bind_eq_some_iff.1 h
      obtain ⟨⟨s, rest⟩, hs, h⟩ := Option.map_eq_some_iff.1 h
      obtain ⟨rfl, rfl⟩ := Prod.mk.inj h
      obtain ⟨text, htext, rfl⟩ := character?_eq_some hc
      obtain ⟨spellings, hall, rfl⟩ := ih hs
      exact ⟨text :: spellings, .cons htext hall, by simp⟩

theorem characters?_append {spellings : List (List Char)} {s : List Char} (h : List.Forall₂ Spells spellings s)
    {fuel : Nat} (hf : spellings.flatten.length < fuel) (rest : List Char) :
    characters? fuel (spellings.flatten ++ '"' :: rest) = some (s, rest) := by
  induction h generalizing fuel with
  | nil =>
    obtain ⟨fuel, rfl⟩ := Nat.exists_eq_add_of_lt hf
    rfl
  | @cons text c spellings s hc _ ih =>
    obtain ⟨d, ds, rfl, hd⟩ := hc.head
    rw [List.flatten_cons, List.length_append, List.length_cons] at hf
    obtain ⟨fuel, rfl⟩ := Nat.exists_eq_succ_of_ne_zero (Nat.ne_zero_of_lt hf)
    have hspelt := hc.character?_append (spellings.flatten ++ '"' :: rest)
    rw [List.flatten_cons, List.append_assoc]
    unfold characters?
    split
    · next heq => exact absurd (List.cons.inj heq).1 hd
    · rw [hspelt, Option.bind_some]
      simp only [ih (show spellings.flatten.length < fuel by omega), Option.map_some]

theorem string?_eq_some {cs rest : List Char} {s : String} (h : string? cs = some (s, rest)) :
    ∃ text, HoldsString text s ∧ cs = text ++ rest := by
  unfold string? at h
  split at h
  · next cs =>
    obtain ⟨⟨s, more⟩, hs, h⟩ := Option.map_eq_some_iff.1 h
    obtain ⟨rfl, rfl⟩ := Prod.mk.inj h
    obtain ⟨spellings, hall, rfl⟩ := characters?_eq_some hs
    exact ⟨_, ⟨spellings, by rwa [String.toList_ofList], rfl⟩, by simp⟩
  · cases h

theorem HoldsString.string?_append {text : List Char} {s : String} (h : HoldsString text s) (rest : List Char) :
    string? (text ++ rest) = some (s, rest) := by
  obtain ⟨spellings, hall, rfl⟩ := h
  have hlength : spellings.flatten.length < (spellings.flatten ++ '"' :: rest).length + 1 := by
    rw [List.length_append]
    omega
  simp only [List.cons_append, List.append_assoc, List.nil_append, string?, characters?_append hall hlength,
    Option.map_some, String.ofList_toList]

end NodeMemory.JsonText
