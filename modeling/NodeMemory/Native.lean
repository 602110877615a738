import NodeMemory.Fault
import NodeMemory.Keyed
import NodeMemory.Number.Binary64
/-!
# Native statistics

Where there is no table to read, the figures come from the system's native
library: page counters, the page size, the size of the memory and the use of swap.
The library writes its answers as bytes into structures of a fixed layout. Every
call is logged.
-/

namespace NodeMemory.Native

/-! ## Structures -/

/-- A field of a structure: an unsigned integer of four or eight bytes, least
significant byte first. -/
inductive Width where
  | four
  | eight
  deriving DecidableEq, Repr

def Width.bytes : Width → Nat
  | .four => 4
  | .eight => 8

/-- How many numbers there are of eight bytes. -/
def wordCount : Nat := Nat.pow 256 8

/-- A structure is the list of its fields. -/
abbrev Layout := List (String × Width)

/-- The next offset at which a field of a width may start. -/
def align (w : Width) (offset : Nat) : Nat := (offset + w.bytes - 1) / w.bytes * w.bytes

/-- The fields of a structure with their offsets, from an offset on, each at a
multiple of its width. -/
def placeFrom (offset : Nat) : Layout → List (String × Width × Nat)
  | [] => []
  | (name, w) :: rest => (name, w, align w offset) :: placeFrom (align w offset + w.bytes) rest

def place (layout : Layout) : List (String × Width × Nat) := placeFrom 0 layout

/-- The size of a structure that has a field of eight bytes. -/
def sizeOf (layout : Layout) : Nat :=
  match (place layout).getLast? with
  | none => 0
  | some (_, w, offset) => align .eight (offset + w.bytes)

/-- The number that bytes stand for, least significant byte first. -/
def natOfBytes : List UInt8 → Nat
  | [] => 0
  | b :: bs => b.toNat + 256 * natOfBytes bs

/-- Bytes written at the start of a buffer of zeros, cut to its size. -/
def fill (size : Nat) (bytes : List UInt8) : List UInt8 :=
  bytes.take size ++ List.replicate (size - bytes.length) 0

/-- The number in a field at an offset of a buffer. -/
def fieldAt (buffer : List UInt8) (w : Width) (offset : Nat) : Nat :=
  natOfBytes ((buffer.drop offset).take w.bytes)

/-- The number in a named field. A structure without that field has a zero there. -/
def field (layout : Layout) (buffer : List UInt8) (name : String) : Nat :=
  match (place layout).lookup name with
  | some (w, offset) => fieldAt buffer w offset
  | none => 0

def vmLayout : Layout :=
  [("free_count", .four), ("active_count", .four), ("inactive_count", .four), ("wire_count", .four),
    ("zero_fill_count", .eight), ("reactivations", .eight), ("pageins", .eight), ("pageouts", .eight),
    ("faults", .eight), ("cow_faults", .eight), ("lookups", .eight), ("hits", .eight), ("purges", .eight),
    ("purgeable_count", .four), ("speculative_count", .four), ("decompressions", .eight),
    ("compressions", .eight), ("swapins", .eight), ("swapouts", .eight), ("compressor_page_count", .four),
    ("throttled_count", .four), ("external_page_count", .four), ("internal_page_count", .four),
    ("total_uncompressed_pages_in_compressor", .eight)]

def swapLayout : Layout :=
  [("total", .eight), ("available", .eight), ("used", .eight), ("page_size", .four), ("encrypted", .four)]

def sizeLayout : Layout := [("value", .eight)]

/-! ## The figures that are asked for -/

structure PageCounts where
  active : Int
  inactive : Int
  wired : Int
  free : Int
  compressor : Int
  internal : Int
  purgeable : Int
  pageIns : Int
  pageOuts : Int
  deriving DecidableEq, Repr

/-- The use of swap, in bytes. -/
structure SwapUse where
  total : Int
  used : Int
  deriving DecidableEq, Repr

def PageCounts.ofBuffer (buffer : List UInt8) : PageCounts :=
  let get name : Int := field vmLayout buffer name
  { active := get "active_count", inactive := get "inactive_count", wired := get "wire_count",
    free := get "free_count", compressor := get "compressor_page_count",
    internal := get "internal_page_count", purgeable := get "purgeable_count", pageIns := get "pageins",
    pageOuts := get "pageouts" }

def SwapUse.ofBuffer (buffer : List UInt8) : SwapUse :=
  ⟨field swapLayout buffer "total", field swapLayout buffer "used"⟩

/-! ## The library -/

/-- What a control query by name does. -/
structure Control where
  status : Int
  /-- The error number that is set, whatever the status. -/
  errorNumber : Int
  bytes : List UInt8
  deriving DecidableEq, Repr

/-- How the native library answers. -/
structure Library where
  host : Nat
  vmStatus : Int
  vmBytes : List UInt8
  pageStatus : Int
  pageSize : Nat
  controls : List (String × Control)
  deriving DecidableEq, Repr

/-- A query for a name that the library does not know fails. -/
def Library.control (l : Library) (name : String) : Control :=
  (l.controls.lookup name).getD ⟨-1, 2, []⟩

inductive Call where
  | hostSelf
  | hostStatistics (host flavor count : Nat)
  | hostPageSize (host : Nat)
  | control (name : String) (size : Nat)
  deriving DecidableEq, Repr

/-- The flavor of statistics that is asked for. -/
def vmFlavor : Nat := 4

/-- The size of the counters in words of four bytes. -/
def vmCount : Nat := sizeOf vmLayout / 4

def memorySizeName : String := "hw.memsize"

def swapUseName : String := "vm.swapusage"

/-! ## Queries -/

/-- The answer of a query and the call that it made. -/
abbrev Answer (α : Type) := Except Fault α × Call

def pageCounts (l : Library) (host : Nat) : Answer PageCounts :=
  let answer :=
    if l.vmStatus = 0 then .ok (PageCounts.ofBuffer (fill (sizeOf vmLayout) l.vmBytes))
    else .error (.nativeQuery "memory statistics (host_statistics64)" l.vmStatus)
  (answer, .hostStatistics host vmFlavor vmCount)

/-- The page size is written into eight bytes. -/
def pageSize (l : Library) (host : Nat) : Answer Int :=
  let answer :=
    if l.pageStatus = 0 then .ok ((l.pageSize % wordCount : Nat) : Int)
    else .error (.nativeQuery "page size (host_page_size)" l.pageStatus)
  (answer, .hostPageSize host)

/-- A control query; if it fails, its status is the error number. -/
def control (l : Library) (name : String) (layout : Layout) : Answer (List UInt8) :=
  let c := l.control name
  let answer :=
    if c.status = 0 then .ok (fill (sizeOf layout) c.bytes)
    else .error (.nativeQuery ("sysctl " ++ name) c.errorNumber)
  (answer, .control name (sizeOf layout))

def memorySize (l : Library) : Answer Int :=
  let (answer, call) := control l memorySizeName sizeLayout
  (answer.map fun buffer => (field sizeLayout buffer "value" : Int), call)

def swapUse (l : Library) : Answer SwapUse :=
  let (answer, call) := control l swapUseName swapLayout
  (answer.map SwapUse.ofBuffer, call)

/-! ## Figures -/

def bytesOf (n : Int) : Except Fault Binary64 :=
  match Binary64.ofInt? n with
  | some x => .ok x
  | none => .error .integerTooLarge

/-- A number of pages in bytes: both numbers are rounded, and so is the product. -/
def scaled (page : Binary64) (count : Int) : Except Fault Binary64 :=
  (bytesOf count).map page.mul

def figures (counts : PageCounts) (pageSize memory : Int) (swap : SwapUse) : Except Fault (Keyed Binary64) := do
  let page ← bytesOf pageSize
  let active ← scaled page counts.active
  let compressed ← scaled page counts.compressor
  let inactive ← scaled page counts.inactive
  let wired ← scaled page counts.wired
  let free ← scaled page counts.free
  let swappedIn ← scaled page counts.pageIns
  let swappedOut ← scaled page counts.pageOuts
  let internal ← scaled page counts.internal
  let purgeable ← scaled page counts.purgeable
  let total ← bytesOf memory
  let swapUsed ← bytesOf swap.used
  let swapTotal ← bytesOf swap.total
  return .ofList [("active_bytes", active), ("compressed_bytes", compressed), ("inactive_bytes", inactive),
    ("wired_bytes", wired), ("free_bytes", free), ("swapped_in_bytes_total", swappedIn),
    ("swapped_out_bytes_total", swappedOut), ("internal_bytes", internal), ("purgeable_bytes", purgeable),
    ("total_bytes", total), ("swap_used_bytes", swapUsed), ("swap_total_bytes", swapTotal)]

/-! ## A reading -/

/-- The four questions of a reading, however they are answered. A question gives
its answer and what is to be logged about it. -/
structure Host (Log : Type) where
  pageCounts : Except Fault PageCounts × Log
  memorySize : Except Fault Int × Log
  swapUse : Except Fault SwapUse × Log
  pageSize : Except Fault Int × Log

/-- The host behind a library. -/
def Host.ofLibrary (l : Library) (host : Nat) : Host Call where
  pageCounts := Native.pageCounts l host
  memorySize := Native.memorySize l
  swapUse := Native.swapUse l
  pageSize := Native.pageSize l host

/-- The figures of a host. The questions are asked in this order, and the first
that fails is the last that is asked. -/
def Host.read {Log : Type} (h : Host Log) : Except Fault (Keyed Binary64) × List Log :=
  match h.pageCounts with
  | (.error f, c1) => (.error f, [c1])
  | (.ok counts, c1) =>
    match h.memorySize with
    | (.error f, c2) => (.error f, [c1, c2])
    | (.ok memory, c2) =>
      match h.swapUse with
      | (.error f, c3) => (.error f, [c1, c2, c3])
      | (.ok swap, c3) =>
        match h.pageSize with
        | (.error f, c4) => (.error f, [c1, c2, c3, c4])
        | (.ok page, c4) => (figures counts page memory swap, [c1, c2, c3, c4])

end NodeMemory.Native
