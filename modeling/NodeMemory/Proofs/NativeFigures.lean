import NodeMemory.Proofs.NativeAnswers
import NodeMemory.Proofs.ScaledValues
/-!
# Native figures are rounded once

A count of pages is rounded, so is the page size, and so is their product. A page size that is a
power of two is rounded to itself, and the product with it is one rounding of the exact number of
bytes (`scaled_two_pow`). So every figure is the value nearest to its amount, and a count of four
bytes is not rounded at all (`figures_nearest`).
-/

namespace NodeMemory.Native

open Binary64 (IsNearest ofQuotient overflowBound)

/-- The amounts of a reading, exactly, with pages of 2^`k` bytes. -/
def amounts (k : ℕ) (counts : PageCounts) (memory : ℤ) (swap : SwapUse) : List (String × ℤ) :=
  [("active_bytes", 2 ^ k * counts.active), ("compressed_bytes", 2 ^ k * counts.compressor),
    ("inactive_bytes", 2 ^ k * counts.inactive), ("wired_bytes", 2 ^ k * counts.wired),
    ("free_bytes", 2 ^ k * counts.free), ("swapped_in_bytes_total", 2 ^ k * counts.pageIns),
    ("swapped_out_bytes_total", 2 ^ k * counts.pageOuts), ("internal_bytes", 2 ^ k * counts.internal),
    ("purgeable_bytes", 2 ^ k * counts.purgeable), ("total_bytes", memory), ("swap_used_bytes", swap.used),
    ("swap_total_bytes", swap.total)]

/-- The figures whose counts have four bytes. -/
def narrowFigures : List String :=
  ["active_bytes", "compressed_bytes", "inactive_bytes", "wired_bytes", "free_bytes", "internal_bytes",
    "purgeable_bytes"]

/-! ## Rounding a count -/

theorem two_pow_lt_wordCount {k : ℕ} (hk : k ≤ 63) : 2 ^ k < wordCount := by
  rw [wordCount_eq]
  exact Nat.pow_lt_pow_right (by omega) (by omega)

/-- The value of a whole amount. -/
def rounded (n : ℤ) : Binary64 := ofQuotient false n.toNat 1

theorem bytesOf_rounded {n : ℕ} (h : n < wordCount) : bytesOf n = .ok (rounded n) := bytesOf_natCast h

theorem scaled_two_pow {k n : ℕ} (hk : k ≤ 63) (h : n < wordCount) :
    scaled (rounded (2 ^ k)) n = .ok (rounded (2 ^ k * n)) := by
  have hnum : n = 0 ∨ Binary64.smallestNormal ≤ (n : ℚ) / (1 : ℕ) := by
    refine (Nat.eq_zero_or_pos n).imp_right fun hn => Binary64.smallestNormal_le_one.trans ?_
    rw [Nat.cast_one, div_one]
    exact_mod_cast hn
  have hpage : ((2 : ℤ) ^ k).toNat = 2 ^ k := by exact_mod_cast Int.toNat_natCast (2 ^ k)
  have hproduct : ((2 : ℤ) ^ k * n).toNat = 2 ^ k * n := by exact_mod_cast Int.toNat_natCast (2 ^ k * n)
  rw [scaled, bytesOf_rounded h, rounded, rounded, rounded, hpage, hproduct, Int.toNat_natCast, Except.map,
    Binary64.mul_comm, Binary64.ofQuotient_mul_two_pow Nat.one_ne_zero hnum false (by omega)]

/-- The figures are the values of the amounts. -/
theorem figures_two_pow {k : ℕ} (hk : k ≤ 63) (vm swap : List UInt8) {memory : ℕ} (hmemory : memory < wordCount) :
    figures (countsIn vm) (2 ^ k) memory (useIn swap) =
      .ok (.ofList ((amounts k (countsIn vm) memory (useIn swap)).map fun e => (e.1, rounded e.2))) := by
  have hpage : bytesOf (2 ^ k) = .ok (rounded (2 ^ k)) := by
    exact_mod_cast bytesOf_rounded (two_pow_lt_wordCount hk)
  have hnarrow (offset : ℕ) := scaled_two_pow hk (numberAt_lt_wordCount vm offset (show 4 ≤ 8 by omega))
  have hwide (offset : ℕ) := scaled_two_pow hk (numberAt_lt_wordCount vm offset (le_refl 8))
  have hswap (offset : ℕ) := bytesOf_rounded (numberAt_lt_wordCount swap offset (le_refl 8))
  simp only [figures, countsIn, useIn, hpage, hnarrow, hwide, hswap, bytesOf_rounded hmemory, ok_bind]
  rfl

/-! ## The amounts -/

/-- What an amount can be: a number of pages, counted in four bytes or in eight, or a size in bytes. -/
inductive IsAmount (k : ℕ) : String × ℤ → Prop
  | narrow (name : String) {n : ℕ} : n < 2 ^ 32 → IsAmount k (name, 2 ^ k * n)
  | wide {name : String} {n : ℕ} : name ∉ narrowFigures → n < wordCount → IsAmount k (name, 2 ^ k * n)
  | size {name : String} {n : ℕ} : name ∉ narrowFigures → n < wordCount → IsAmount k (name, n)

theorem isAmount_of_mem {k memory : ℕ} (hmemory : memory < wordCount) (vm swap : List UInt8) :
    ∀ e ∈ amounts k (countsIn vm) memory (useIn swap), IsAmount k e := by
  have hnarrow (offset : ℕ) : numberAt vm offset 4 < 2 ^ 32 := numberAt_lt vm offset 4
  have hwide (bytes : List UInt8) (offset : ℕ) := numberAt_lt_wordCount bytes offset (le_refl 8)
  simp only [amounts, countsIn, useIn, List.forall_mem_cons, List.not_mem_nil, false_implies, implies_true, and_true]
  refine ⟨.narrow _ (hnarrow _), .narrow _ (hnarrow _), .narrow _ (hnarrow _), .narrow _ (hnarrow _), .narrow _ (hnarrow _),
    .wide (by decide) (hwide _ _), .wide (by decide) (hwide _ _), .narrow _ (hnarrow _), .narrow _ (hnarrow _),
    .size (by decide) hmemory, .size (by decide) (hwide _ _), .size (by decide) (hwide _ _)⟩

/-- A value is that of an amount: the nearest to it, finite, and exact if a count of four bytes is scaled. -/
structure Renders (v : Binary64) (e : String × ℤ) : Prop where
  nearest : IsNearest e.2 v
  finite : ∃ q, v.number? = some q
  exact : e.1 ∈ narrowFigures → v.number? = some (e.2 : ℚ)

theorem isNearest_rounded (n : ℕ) : IsNearest ((n : ℤ) : ℚ) (rounded n) := by
  rw [Int.cast_natCast]
  exact Binary64.isNearest_natCast n

theorem two_pow_mul_lt_overflowBound {k n : ℕ} (hk : k ≤ 63) (hn : n < wordCount) :
    |(2 ^ k * n : ℚ)| < overflowBound := by
  have hn : (n : ℚ) < 2 ^ 64 := by exact_mod_cast wordCount_eq ▸ hn
  rw [abs_of_nonneg (by positivity)]
  refine lt_of_lt_of_le ?_ (Binary64.two_pow_lt_overflowBound (k := k + 64) (by omega)).le
  rw [pow_add]
  exact mul_lt_mul_of_pos_left hn (by positivity)

theorem IsAmount.renders {k : ℕ} (hk : k ≤ 63) {e : String × ℤ} (h : IsAmount k e) : Renders (rounded e.2) e := by
  have hpages (n : ℕ) : IsNearest ((2 ^ k * n : ℤ) : ℚ) (rounded (2 ^ k * n)) := by
    exact_mod_cast isNearest_rounded (2 ^ k * n)
  cases h with
  | @narrow name n hn =>
    obtain ⟨v, hv⟩ := Binary64.exists_number?_eq false (show n ≤ 2 ^ 53 by omega) (show k ≤ 970 by omega)
    have hexact : (rounded (2 ^ k * n)).number? = some ((2 ^ k * n : ℤ) : ℚ) :=
      (hpages n).number?_eq (hv.trans (by simp [Binary64.sign]))
    exact ⟨hpages n, ⟨_, hexact⟩, fun _ => hexact⟩
  | @wide name n hname hn =>
    refine ⟨hpages n, (hpages n).exists_number? ?_, fun h => absurd h hname⟩
    exact_mod_cast two_pow_mul_lt_overflowBound hk hn
  | @size name n hname hn =>
    refine ⟨isNearest_rounded n, (isNearest_rounded n).exists_number? ?_, fun h => absurd h hname⟩
    simpa using two_pow_mul_lt_overflowBound (k := 0) (by omega) hn

/-! ## Readings -/

theorem Host.read_of_ok {Log : Type} {h : Host Log} {counts : PageCounts} {memory page : ℤ} {swap : SwapUse}
    (hcounts : h.pageCounts.1 = .ok counts) (hmemory : h.memorySize.1 = .ok memory) (hswap : h.swapUse.1 = .ok swap)
    (hpage : h.pageSize.1 = .ok page) : h.read.1 = figures counts page memory swap := by
  obtain ⟨⟨_, _⟩, ⟨_, _⟩, ⟨_, _⟩, ⟨_, _⟩⟩ := h
  cases hcounts
  cases hmemory
  cases hswap
  cases hpage
  rfl

/-- **Native figures are rounded once.** Where all queries succeed and the page size is a power of two below
2^64, all figures are given. Each is the value nearest to its exact amount and finite, and the seven whose
counts have four bytes are exact. -/
theorem figures_nearest {l : Library} {k : ℕ} (host : ℕ) (hk : k ≤ 63) (hvm : l.vmStatus = 0)
    (hsize : (l.control "hw.memsize").status = 0) (hswap : (l.control "vm.swapusage").status = 0)
    (hpage : l.pageStatus = 0) (hpower : l.pageSize = 2 ^ k) :
    ∃ table, (reading l host).1 = .ok table ∧
      let all := amounts k (countsIn l.vmBytes) (numberAt (l.control "hw.memsize").bytes 0 8 : ℕ)
        (useIn (l.control "vm.swapusage").bytes)
      table.names = all.map Prod.fst ∧ ∀ e ∈ all, ∃ v, table.get? e.1 = some v ∧ Renders v e := by
  have hpages : (pageSize l host).1 = .ok (2 ^ k) := by
    rw [pageSize_eq, Question.answer_of_returned hpage, hpower, Nat.mod_eq_of_lt (two_pow_lt_wordCount hk)]
    norm_cast
  have hread : (reading l host).1 = _ :=
    Host.read_of_ok (h := .ofLibrary l host) (pageCounts_ok hvm host) (memorySize_ok hsize) (swapUse_ok hswap) hpages
  have hmemory := numberAt_lt_wordCount (l.control "hw.memsize").bytes 0 (le_refl 8)
  rw [figures_two_pow hk _ _ hmemory] at hread
  refine ⟨_, hread, ?_, fun e he => ⟨rounded e.2, ?_, (isAmount_of_mem hmemory _ _ e he).renders hk⟩⟩
  · rw [Keyed.names_ofList]
    rfl
  · refine Keyed.get?_ofList_of_mem (e := (e.1, rounded e.2)) ?_ (List.mem_map.2 ⟨e, he, rfl⟩)
    have hnodup : figureNames.Nodup := by decide
    exact hnodup

/-- Pages of 4096 bytes. -/
theorem figures_nearest_sample : ∃ table, (reading sampleLibrary 3).1 = .ok table ∧
    ∃ v, table.get? "active_bytes" = some v ∧ v.number? = some 8192 := by
  obtain ⟨table, hread, -, hall⟩ := figures_nearest (l := sampleLibrary) (k := 12) 3 (by omega) rfl rfl rfl rfl rfl
  obtain ⟨v, hv, hrenders⟩ := hall ("active_bytes", 8192) List.mem_cons_self
  exact ⟨table, hread, v, hv, by simpa using hrenders.exact List.mem_cons_self⟩

end NodeMemory.Native
