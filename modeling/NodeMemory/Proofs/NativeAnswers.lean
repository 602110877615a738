import NodeMemory.Proofs.StructLayout
/-!
# Answers of the native library

The structures that the library writes, with all their fields in the order of the C headers. What
is asked of the library comes back as it was written, and whatever bytes are written, each figure
that is taken from them depends on its own four or eight bytes only (`answers_decoded`).
-/

namespace NodeMemory.Native

/-! ## The structures -/

/-- `struct vm_statistics64` of `mach/vm_statistics.h`. -/
structure VmStatistics where
  freeCount : UInt32
  activeCount : UInt32
  inactiveCount : UInt32
  wireCount : UInt32
  zeroFillCount : UInt64
  reactivations : UInt64
  pageIns : UInt64
  pageOuts : UInt64
  faults : UInt64
  cowFaults : UInt64
  lookups : UInt64
  hits : UInt64
  purges : UInt64
  purgeableCount : UInt32
  speculativeCount : UInt32
  decompressions : UInt64
  compressions : UInt64
  swapIns : UInt64
  swapOuts : UInt64
  compressorPageCount : UInt32
  throttledCount : UInt32
  externalPageCount : UInt32
  internalPageCount : UInt32
  totalUncompressedPagesInCompressor : UInt64

namespace VmStatistics
variable (s : VmStatistics)

def named : List (String × Word) :=
  [("free_count", .four s.freeCount), ("active_count", .four s.activeCount),
    ("inactive_count", .four s.inactiveCount), ("wire_count", .four s.wireCount),
    ("zero_fill_count", .eight s.zeroFillCount), ("reactivations", .eight s.reactivations),
    ("pageins", .eight s.pageIns), ("pageouts", .eight s.pageOuts), ("faults", .eight s.faults),
    ("cow_faults", .eight s.cowFaults), ("lookups", .eight s.lookups), ("hits", .eight s.hits),
    ("purges", .eight s.purges), ("purgeable_count", .four s.purgeableCount),
    ("speculative_count", .four s.speculativeCount), ("decompressions", .eight s.decompressions),
    ("compressions", .eight s.compressions), ("swapins", .eight s.swapIns), ("swapouts", .eight s.swapOuts),
    ("compressor_page_count", .four s.compressorPageCount), ("throttled_count", .four s.throttledCount),
    ("external_page_count", .four s.externalPageCount), ("internal_page_count", .four s.internalPageCount),
    ("total_uncompressed_pages_in_compressor", .eight s.totalUncompressedPagesInCompressor)]

def bytes : List UInt8 := laidOut (s.named.map Prod.snd)

/-- The counters that are asked for. -/
def counts : PageCounts where
  active := s.activeCount.toNat
  inactive := s.inactiveCount.toNat
  wired := s.wireCount.toNat
  free := s.freeCount.toNat
  compressor := s.compressorPageCount.toNat
  internal := s.internalPageCount.toNat
  purgeable := s.purgeableCount.toNat
  pageIns := s.pageIns.toNat
  pageOuts := s.pageOuts.toNat

theorem ofBuffer_bytes : PageCounts.ofBuffer (fill (sizeOf vmLayout) s.bytes) = s.counts := by
  have hfield := field_laidOut (show layoutOf s.named = vmLayout from rfl) (by simp [named])
  simp only [named, List.forall_mem_cons, Word.toNat] at hfield
  simp only [PageCounts.ofBuffer, counts, bytes, named, hfield]

theorem length_bytes : s.bytes.length = 152 := by
  have hsize : sizeOf vmLayout = 152 := by decide
  rw [← hsize]
  exact length_laidOut s.named

end VmStatistics

/-- `struct xsw_usage` of `sys/sysctl.h`. -/
structure SwapStatistics where
  total : UInt64
  available : UInt64
  used : UInt64
  pageSize : UInt32
  encrypted : Int32

namespace SwapStatistics
variable (s : SwapStatistics)

def named : List (String × Word) :=
  [("total", .eight s.total), ("available", .eight s.available), ("used", .eight s.used),
    ("page_size", .four s.pageSize), ("encrypted", .four s.encrypted.toUInt32)]

def bytes : List UInt8 := laidOut (s.named.map Prod.snd)

/-- The sizes that are asked for. -/
def use : SwapUse := ⟨s.total.toNat, s.used.toNat⟩

theorem ofBuffer_bytes : SwapUse.ofBuffer (fill (sizeOf swapLayout) s.bytes) = s.use := by
  have hfield := field_laidOut (show layoutOf s.named = swapLayout from rfl) (by simp [named])
  simp only [named, List.forall_mem_cons, Word.toNat] at hfield
  simp only [SwapUse.ofBuffer, use, bytes, named, hfield]

end SwapStatistics

/-! ## Any bytes -/

/-- The counters in any bytes, each from its own. -/
def countsIn (bytes : List UInt8) : PageCounts where
  free := numberAt bytes 0 4
  active := numberAt bytes 4 4
  inactive := numberAt bytes 8 4
  wired := numberAt bytes 12 4
  pageIns := numberAt bytes 32 8
  pageOuts := numberAt bytes 40 8
  purgeable := numberAt bytes 88 4
  compressor := numberAt bytes 128 4
  internal := numberAt bytes 140 4

def useIn (bytes : List UInt8) : SwapUse := ⟨numberAt bytes 0 8, numberAt bytes 16 8⟩

theorem countsOf_fill (bytes : List UInt8) : PageCounts.ofBuffer (fill (sizeOf vmLayout) bytes) = countsIn bytes := by
  have hfield {name : String} {w : Width} {offset : ℕ} (h : PlacedAt vmLayout name w offset) := field_fill h bytes
  have hfree := hfield (show PlacedAt vmLayout "free_count" .four 0 by decide)
  have hactive := hfield (show PlacedAt vmLayout "active_count" .four 4 by decide)
  have hinactive := hfield (show PlacedAt vmLayout "inactive_count" .four 8 by decide)
  have hwired := hfield (show PlacedAt vmLayout "wire_count" .four 12 by decide)
  have hpageIns := hfield (show PlacedAt vmLayout "pageins" .eight 32 by decide)
  have hpageOuts := hfield (show PlacedAt vmLayout "pageouts" .eight 40 by decide)
  have hpurgeable := hfield (show PlacedAt vmLayout "purgeable_count" .four 88 by decide)
  have hcompressor := hfield (show PlacedAt vmLayout "compressor_page_count" .four 128 by decide)
  have hinternal := hfield (show PlacedAt vmLayout "internal_page_count" .four 140 by decide)
  simp only [PageCounts.ofBuffer, hfree, hactive, hinactive, hwired, hpageIns, hpageOuts, hpurgeable, hcompressor,
    hinternal]
  rfl

theorem useOf_fill (bytes : List UInt8) : SwapUse.ofBuffer (fill (sizeOf swapLayout) bytes) = useIn bytes := by
  have htotal : PlacedAt swapLayout "total" .eight 0 := by decide
  have hused : PlacedAt swapLayout "used" .eight 16 := by decide
  rw [SwapUse.ofBuffer, field_fill htotal, field_fill hused]
  rfl

theorem sizeOf_fill (bytes : List UInt8) :
    field sizeLayout (fill (sizeOf sizeLayout) bytes) "value" = numberAt bytes 0 8 :=
  field_fill (show PlacedAt sizeLayout "value" .eight 0 by decide) bytes

/-! ## Answers -/

section Answers
variable {l : Library}

theorem pageCounts_ok (h : l.vmStatus = 0) (host : ℕ) : (pageCounts l host).1 = .ok (countsIn l.vmBytes) := by
  rw [pageCounts_eq, Question.answer_of_returned h, countsOf_fill]

theorem memorySize_ok (h : (l.control "hw.memsize").status = 0) :
    (memorySize l).1 = .ok (numberAt (l.control "hw.memsize").bytes 0 8 : ℕ) := by
  rw [memorySize_eq, Question.answer_of_returned h, sizeOf_fill]
  rfl

theorem swapUse_ok (h : (l.control "vm.swapusage").status = 0) :
    (swapUse l).1 = .ok (useIn (l.control "vm.swapusage").bytes) := by
  rw [swapUse_eq, Question.answer_of_returned h, useOf_fill]
  rfl

end Answers

theorem countsIn_bytes (s : VmStatistics) : countsIn s.bytes = s.counts := by
  rw [← countsOf_fill, s.ofBuffer_bytes]

theorem useIn_bytes (s : SwapStatistics) : useIn s.bytes = s.use := by
  rw [← useOf_fill, s.ofBuffer_bytes]

/-- **Answers are decoded as they were written.** A library that writes the 152 bytes of its statistics is
answered with the nine counters as they are in them, one that writes the size of its memory with that size,
and one that writes its use of swap with the two sizes. Whatever bytes a library writes, each number is that
of its own four or eight, where missing ones are zeros. -/
theorem answers_decoded (l : Library) (host : ℕ) :
    (l.vmStatus = 0 → (pageCounts l host).1 = .ok (countsIn l.vmBytes) ∧
      ∀ s : VmStatistics, s.bytes.length = 152 ∧ (l.vmBytes = s.bytes → (pageCounts l host).1 = .ok s.counts)) ∧
    ((l.control "hw.memsize").status = 0 →
      (memorySize l).1 = .ok (numberAt (l.control "hw.memsize").bytes 0 8 : ℕ) ∧
      ∀ n : UInt64, (l.control "hw.memsize").bytes = (Word.eight n).bytes → (memorySize l).1 = .ok (n.toNat : ℤ)) ∧
    ((l.control "vm.swapusage").status = 0 →
      (swapUse l).1 = .ok (useIn (l.control "vm.swapusage").bytes) ∧
      ∀ s : SwapStatistics, (l.control "vm.swapusage").bytes = s.bytes → (swapUse l).1 = .ok s.use) := by
  refine ⟨fun h => ⟨pageCounts_ok h host, fun s => ⟨s.length_bytes, fun hs => ?_⟩⟩,
    fun h => ⟨memorySize_ok h, fun n hn => ?_⟩, fun h => ⟨swapUse_ok h, fun s hs => ?_⟩⟩
  · rw [pageCounts_ok h, hs, countsIn_bytes]
  · have hvalue := numberAt_bytes (.eight n)
    rw [memorySize_ok h, hn]
    exact congrArg (fun n : ℕ => Except.ok (n : ℤ)) hvalue
  · rw [swapUse_ok h, hs, useIn_bytes]

def sampleStatistics : VmStatistics :=
  ⟨1, 2, 3, 4, 5, 6, 7, 8, 9, 10, 11, 12, 13, 14, 15, 16, 17, 18, 19, 20, 21, 22, 23, 24⟩

def sampleSwap : SwapStatistics := ⟨26, 27, 28, 29, 1⟩

/-- A library whose fields all have values of their own. -/
def sampleLibrary : Library where
  host := 3
  vmStatus := 0
  vmBytes := sampleStatistics.bytes
  pageStatus := 0
  pageSize := 4096
  controls := [("hw.memsize", ⟨0, 0, (Word.eight 25).bytes⟩), ("vm.swapusage", ⟨0, 0, sampleSwap.bytes⟩)]

theorem answers_decoded_sample :
    (pageCounts sampleLibrary 3).1 = .ok ⟨2, 3, 4, 1, 20, 23, 14, 7, 8⟩ ∧ (memorySize sampleLibrary).1 = .ok 25 ∧
      (swapUse sampleLibrary).1 = .ok ⟨26, 28⟩ := by
  obtain ⟨hcounts, hsize, hswap⟩ := answers_decoded sampleLibrary 3
  obtain ⟨-, hcounts⟩ := hcounts rfl
  obtain ⟨-, hsize⟩ := hsize rfl
  obtain ⟨-, hswap⟩ := hswap rfl
  exact ⟨(hcounts sampleStatistics).2 rfl, hsize 25 rfl, hswap sampleSwap rfl⟩

end NodeMemory.Native
