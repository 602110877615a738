import NodeMemory.Proofs.TableGrammar
import NodeMemory.Proofs.TokenNumbers
/-!
# Kibibytes are rounded once

A count of kibibytes is rounded when it is read, and its number of bytes again when it is
multiplied by 1024. The second rounding changes nothing unless the first was to a subnormal
magnitude: the value is the nearest to the number of bytes (`isNearest_kibibytes`), and that is
what both tables keep for the line (`kibibytes_kept`).
-/

namespace NodeMemory

/-! ## Scaling -/

namespace Value

open Binary64 (sign number? IsNearest overflowBound smallestNormal)

/-- A count of kibibytes that is zero or no subnormal number is scaled to the value nearest to its bytes. -/
theorem isNearest_kibibytes {negative : Bool} {num den : ℕ} {x : ℚ} (hden : den ≠ 0)
    (hx : x = sign negative * (num / den)) (hnormal : x = 0 ∨ smallestNormal ≤ |x|) :
    IsNearest (1024 * x) (kibibytes (.ofQuotient negative num den)) := by
  have hnonneg : (0 : ℚ) ≤ num / den := by positivity
  have habs : |x| = num / den := by rw [hx, Binary64.abs_sign_mul negative hnonneg]
  have hnum : num = 0 ∨ smallestNormal ≤ (num : ℚ) / den := by
    rw [← habs]
    refine hnormal.imp_left fun h => ?_
    rw [h, abs_zero, eq_comm, div_eq_zero_iff] at habs
    exact_mod_cast habs.resolve_right (by exact_mod_cast hden)
  have hbytes : 1024 * x = sign negative * ((2 ^ 10 * num : ℕ) / den) := by
    rw [hx]
    push_cast
    ring
  have hscaled : kibibytes (.ofQuotient negative num den) = .ofQuotient negative (2 ^ 10 * num) den :=
    Binary64.ofQuotient_mul_two_pow hden hnum negative (k := 10) (by omega)
  rw [hscaled, hbytes]
  exact Binary64.isNearest_ofQuotient negative _ hden

/-- An integer of 53 bits has a value for its bytes. -/
theorem exists_number?_bytes {n : ℤ} (hn : |n| ≤ 2 ^ 53) : ∃ v : Binary64, v.number? = some (1024 * (n : ℚ)) := by
  have hbits : n.natAbs ≤ 2 ^ 53 := by
    rw [Int.abs_eq_natAbs] at hn
    exact_mod_cast hn
  obtain ⟨v, hv⟩ := Binary64.exists_number?_eq (n < 0) hbits (k := 10) (by omega)
  have hsign : (n : ℚ) = sign (n < 0) * n.natAbs := by
    rw [Nat.cast_natAbs, Int.cast_abs, sign]
    split
    · next h => rw [abs_of_neg (by simpa using h), neg_one_mul, neg_neg]
    · next h => rw [abs_of_nonneg (by simpa using h), one_mul]
  refine ⟨v, hv.trans (congrArg some ?_)⟩
  rw [hsign]
  ring

end Value

/-! ## Tables -/

/-- Where a line stands among lines that are read, and none after it gives the same name, the table has
this value under the name. -/
def Meminfo.Keeps (line name : String) (y : Binary64) : Prop :=
  ∀ before after, (∃ figures, read before = .ok figures) → (∃ figures, read after = .ok figures) →
    (∀ later ∈ after, ∀ e, Gives later e → e.1 ≠ name) →
    ∃ figures, read (before ++ line :: after) = .ok figures ∧ figures.get? name = some y

/-- Where a line stands among lines that are read, its record stands among their records. -/
def NodeTable.Keeps (line : String) (r : Record) : Prop :=
  ∀ before after earlier later, readMemory before = .ok earlier → readMemory after = .ok later →
    readMemory (before ++ line :: after) = .ok (earlier ++ r :: later)

theorem Meminfo.keeps_of_gives {line : String} {e : String × Binary64} (h : Gives line e) : Keeps line e.1 e.2 := by
  intro before after hb ha hlater
  rw [lineByLine.exists_ok_iff, ← Table.exists_entries_iff] at hb ha
  obtain ⟨earlier, hb⟩ := hb
  obtain ⟨later, ha⟩ := ha
  have hentries := Table.entries_append_cons hb (readLine_eq_some_iff.2 h) ha
  refine ⟨.ofList (earlier ++ e :: later), by rw [read_eq_entries, hentries]; rfl, ?_⟩
  rw [Keyed.get?_ofList]
  refine Keyed.lastValue?_append_cons (fun other hother => ?_) earlier
  obtain ⟨l, hl, hgives⟩ := Table.exists_line_of_mem ha other hother
  exact hlater l hl other (readLine_eq_some_iff.1 hgives)

theorem NodeTable.keeps_of_gauge {line : String} {r : Record} (hf : Text.fields line ≠ [])
    (h : gauge (Text.strip line) = .ok r) : Keeps line r := by
  intro before after earlier later hb ha
  rw [readMemory, readWith_eq_entries] at hb ha ⊢
  exact Table.entries_append_cons hb (entry_eq_some_iff.2 ⟨hf, h⟩) ha

/-! ## What is kept -/

namespace Value

open Binary64 (IsNearest overflowBound smallestNormal)

/-- **Kibibytes are rounded once.** For a decimal token whose number is zero or no subnormal one, both
tables keep the value that is nearest to 1024 times the number. It is infinite just if that is not
below the bound of overflow, and it is exact for the integers of 53 bits. -/
theorem kibibytes_kept {token : String} {x : ℚ} (hx : Denotes token x) (hnormal : x = 0 ∨ smallestNormal ≤ |x|) :
    ∃ y, IsNearest (1024 * x) y ∧ ((∃ negative, y = .infinite negative) ↔ overflowBound ≤ |1024 * x|) ∧
      (∀ n : ℤ, |n| ≤ 2 ^ 53 → x = n → y.number? = some (1024 * x)) ∧
      (∀ line label, Text.fields line = [label, token, "kB"] →
        Meminfo.Keeps line (Key.canonical label ++ Meminfo.bytesSuffix) y) ∧
      ∀ line lead node label, Text.fields line = [lead, node, label, token, "kB"] →
        NodeTable.Keeps line ⟨Key.canonical label ++ Meminfo.bytesSuffix, .gauge, y, node⟩ := by
  obtain ⟨negative, num, den, hden, hq, hread⟩ := exists_read_of_denotes hx Meminfo.table
  have hnear := isNearest_kibibytes hden hq hnormal
  refine ⟨_, hnear, hnear.infinite_iff, fun n hn hxn => ?_, fun line label hf => ?_, fun line lead node label hf => ?_⟩
  · obtain ⟨v, hv⟩ := exists_number?_bytes hn
    exact hnear.number?_eq (by rw [hv, hxn])
  · exact Meminfo.keeps_of_gives (.scaled hf hread)
  · refine NodeTable.keeps_of_gauge (by simp [hf]) ?_
    simp [NodeTable.gauge, Text.fields_strip, hf, hread]

theorem denotes_tenth : Denotes "0.1" (1 / 10) := by
  have hsign : [] ∈ [[], ['+'], ['-']] := by simp
  have hdigit : ∀ d : Char, d.isDigit → ∀ c ∈ [d], c.isDigit := by simp
  have hmantissa := MantissaIs.point ⟨List.cons_ne_nil _ _, hdigit '0' rfl⟩ (hdigit '1' rfl)
  have h : Denotes "0.1" _ := .decimal hsign hmantissa .nothing rfl
  have hplaces : placesOf ['0'] = 0 ∧ placesOf ['1'] = 1 := ⟨by decide, by decide⟩
  norm_num [signOf, fractionOf, hplaces] at h
  exact h

/-- A tenth of a kibibyte is no value, and the nearest to its bytes is kept. -/
theorem kibibytes_kept_tenth :
    Denotes "0.1" (1 / 10) ∧ smallestNormal ≤ |1 / 10| ∧
      ∃ y, IsNearest (1024 * (1 / 10)) y ∧
        ∃ figures, Meminfo.read ["MemTotal: 1 kB", "A: 0.1 kB"] = .ok figures ∧ figures.get? "A_bytes" = some y := by
  have hnormal : smallestNormal ≤ |(1 : ℚ) / 10| := by
    have hpow : (2 : ℚ) ^ 4 ≤ 2 ^ 1022 := pow_le_pow_right₀ (by norm_num) (by norm_num)
    rw [abs_of_pos (by norm_num), smallestNormal]
    exact one_div_le_one_div_of_le (by norm_num) (le_trans (by norm_num) hpow)
  obtain ⟨y, hnear, -, -, hmachine, -⟩ := kibibytes_kept denotes_tenth (.inr hnormal)
  have hkeeps := hmachine "A: 0.1 kB" "A:" (by decide +kernel) ["MemTotal: 1 kB"] []
  exact ⟨denotes_tenth, hnormal, y, hnear, hkeeps ⟨_, rfl⟩ ⟨_, rfl⟩ (by simp)⟩

end Value

end NodeMemory
