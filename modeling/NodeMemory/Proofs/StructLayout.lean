import Mathlib.Data.List.Nodup
import Mathlib.Data.Nat.Digits.Defs
import NodeMemory.Proofs.NativeRuns
/-!
# Structures of the native library

How C lays out a structure is said by writing one: every word begins at a multiple of its width,
least significant byte first, and the size is a multiple of eight (`laidOut`). The reader finds
every word where it was written (`field_laidOut`), and of any bytes at all it takes a field's own
ones and no others, with zeros for those that are missing (`field_fill`).
-/

namespace NodeMemory.Native

/-! ## Writing a structure -/

/-- What a field of a structure holds. -/
inductive Word where
  | four (n : UInt32)
  | eight (n : UInt64)

def Word.width : Word → Width
  | .four _ => .four
  | .eight _ => .eight

def Word.toNat : Word → ℕ
  | .four n => n.toNat
  | .eight n => n.toNat

/-- Some bytes of a number, least significant byte first. -/
def littleEndian : ℕ → ℕ → List UInt8
  | 0, _ => []
  | count + 1, n => UInt8.ofNat n :: littleEndian count (n / 256)

/-- How many bytes an offset is short of a multiple of a width. -/
def gap (width offset : ℕ) : ℕ := (width - offset % width) % width

def Word.bytes (w : Word) : List UInt8 := littleEndian w.width.bytes w.toNat

/-- Words from an offset on, each at a multiple of its width. -/
def writeFrom (offset : ℕ) : List Word → List UInt8
  | [] => []
  | w :: words =>
    let space := List.replicate (gap w.width.bytes offset) 0
    space ++ w.bytes ++ writeFrom (offset + (space ++ w.bytes).length) words

/-- A structure whose widest word has eight bytes. -/
def laidOut (words : List Word) : List UInt8 :=
  let bytes := writeFrom 0 words
  bytes ++ List.replicate (gap 8 bytes.length) 0

/-! ## Numbers in bytes -/

/-- The number in some bytes from an offset on; bytes that are missing are zeros. -/
def numberAt (bytes : List UInt8) (offset width : ℕ) : ℕ :=
  Nat.ofDigits 256 ((List.range width).map fun i => (bytes.getD (offset + i) 0).toNat)

theorem length_littleEndian (count n : ℕ) : (littleEndian count n).length = count := by
  induction count generalizing n with
  | zero => rfl
  | succ count ih => rw [littleEndian, List.length_cons, ih]

theorem natOfBytes_littleEndian (count n : ℕ) : natOfBytes (littleEndian count n) = n % 256 ^ count := by
  induction count generalizing n with
  | zero => rw [littleEndian, natOfBytes, pow_zero, Nat.mod_one]
  | succ count ih =>
    rw [littleEndian, natOfBytes, ih, pow_succ', Nat.mod_mul]
    rfl

theorem Word.length_bytes (w : Word) : w.bytes.length = w.width.bytes := length_littleEndian ..

theorem Word.natOfBytes_bytes (w : Word) : natOfBytes w.bytes = w.toNat := by
  rw [bytes, natOfBytes_littleEndian]
  cases w with
  | four n => exact Nat.mod_eq_of_lt n.toNat_lt
  | eight n => exact Nat.mod_eq_of_lt n.toNat_lt

theorem natOfBytes_eq_ofDigits (bytes : List UInt8) : natOfBytes bytes = Nat.ofDigits 256 (bytes.map UInt8.toNat) := by
  induction bytes with
  | nil => rfl
  | cons b bytes ih => rw [natOfBytes, ih, List.map_cons, Nat.ofDigits_cons]

theorem numberAt_bytes (w : Word) : numberAt w.bytes 0 w.width.bytes = w.toNat := by
  have hall : (List.range w.bytes.length).map (fun i => (w.bytes.getD (0 + i) 0).toNat) = w.bytes.map UInt8.toNat := by
    refine List.ext_getElem (by simp) fun i _ hi => ?_
    rw [List.length_map] at hi
    simp [hi]
  rw [numberAt, ← w.length_bytes, hall, ← natOfBytes_eq_ofDigits, w.natOfBytes_bytes]

theorem numberAt_lt (bytes : List UInt8) (offset width : ℕ) : numberAt bytes offset width < 256 ^ width := by
  have h := Nat.ofDigits_lt_base_pow_length (b := 256) (l := (List.range width).map fun i =>
    (bytes.getD (offset + i) 0).toNat) (by omega) fun d hd => ?_
  · simpa [numberAt] using h
  · obtain ⟨i, -, rfl⟩ := List.mem_map.1 hd
    exact UInt8.toNat_lt _

theorem numberAt_lt_wordCount (bytes : List UInt8) (offset : ℕ) {width : ℕ} (hw : width ≤ 8) :
    numberAt bytes offset width < wordCount :=
  (numberAt_lt bytes offset width).trans_le (Nat.pow_le_pow_right (by omega) hw)

theorem align_eq (w : Width) (offset : ℕ) : align w offset = offset + gap w.bytes offset := by
  cases w <;> simp only [align, gap, Width.bytes] <;> omega

/-! ## Reading what was written -/

/-- The layout of named words. -/
def layoutOf (named : List (String × Word)) : Layout := named.map fun e => (e.1, e.2.width)

theorem layoutOf_cons (name : String) (w : Word) (named : List (String × Word)) :
    layoutOf ((name, w) :: named) = (name, w.width) :: layoutOf named := rfl

theorem fieldAt_append (before after : List UInt8) (w : Word) :
    fieldAt (before ++ (w.bytes ++ after)) w.width before.length = w.toNat := by
  rw [fieldAt, List.drop_left, ← w.length_bytes, List.take_left, w.natOfBytes_bytes]

/-- The next word is written behind a gap, and the words after it behind the word. -/
theorem exists_writeFrom_cons (before : List UInt8) (w : Word) (words : List Word) :
    ∃ space, align w.width before.length = (before ++ space).length ∧
      align w.width before.length + w.width.bytes = (before ++ (space ++ w.bytes)).length ∧
      writeFrom before.length (w :: words) =
        space ++ w.bytes ++ writeFrom (before ++ (space ++ w.bytes)).length words := by
  refine ⟨List.replicate (gap w.width.bytes before.length) 0, ?_, ?_, ?_⟩
  · rw [align_eq, List.length_append, List.length_replicate]
  · rw [align_eq, List.length_append, List.length_append, List.length_replicate, w.length_bytes, Nat.add_assoc]
  · simp only [writeFrom, List.length_append]

/-- Every word is found in its place behind what was written before. -/
theorem exists_lookup_placeFrom {named : List (String × Word)} (hn : (named.map Prod.fst).Nodup) {name : String}
    {w : Word} (hw : (name, w) ∈ named) (before more : List UInt8) :
    ∃ offset, (placeFrom before.length (layoutOf named)).lookup name = some (w.width, offset) ∧
      fieldAt (before ++ (writeFrom before.length (named.map Prod.snd) ++ more)) w.width offset = w.toNat := by
  induction named generalizing before with
  | nil => cases hw
  | cons e named ih =>
    obtain ⟨other, v⟩ := e
    obtain ⟨space, hstart, hend, hwrite⟩ := exists_writeFrom_cons before v (named.map Prod.snd)
    rw [List.map_cons, List.nodup_cons] at hn
    rw [layoutOf_cons, placeFrom, List.map_cons, hwrite, hend, hstart]
    rcases List.mem_cons.1 hw with heq | hw
    · cases heq
      refine ⟨_, List.lookup_cons_self, ?_⟩
      rw [← fieldAt_append (before ++ space) (writeFrom (before ++ (space ++ w.bytes)).length (named.map Prod.snd) ++ more) w]
      simp only [List.append_assoc]
    · have hne : name ≠ other := fun h => hn.1 (List.mem_map.2 ⟨_, hw, h⟩)
      obtain ⟨offset, hlookup, hfield⟩ := ih hn.2 hw (before ++ (space ++ v.bytes))
      refine ⟨offset, ?_, ?_⟩
      · rw [List.lookup_cons, beq_false_of_ne hne]
        exact hlookup
      · simpa only [List.append_assoc] using hfield

/-- The words end where the last of their places ends. -/
theorem length_append_writeFrom (before : List UInt8) (named : List (String × Word)) :
    (before ++ writeFrom before.length (named.map Prod.snd)).length =
      match (placeFrom before.length (layoutOf named)).getLast? with
      | none => before.length
      | some (_, w, offset) => offset + w.bytes := by
  induction named generalizing before with
  | nil => simp [writeFrom, layoutOf, placeFrom]
  | cons e named ih =>
    obtain ⟨name, w⟩ := e
    obtain ⟨space, -, hend, hwrite⟩ := exists_writeFrom_cons before w (named.map Prod.snd)
    have hlater := ih (before ++ (space ++ w.bytes))
    rw [layoutOf_cons, placeFrom, List.map_cons, hwrite, ← List.append_assoc, hlater, hend, List.getLast?_cons]
    cases (placeFrom (before ++ (space ++ w.bytes)).length (layoutOf named)).getLast? with
    | none => exact hend.symm
    | some place => rfl

theorem length_laidOut (named : List (String × Word)) :
    (laidOut (named.map Prod.snd)).length = sizeOf (layoutOf named) := by
  have hend := length_append_writeFrom [] named
  rw [List.nil_append, List.length_nil] at hend
  rw [laidOut, List.length_append, List.length_replicate, hend, sizeOf, place]
  cases (placeFrom 0 (layoutOf named)).getLast? with
  | none => rfl
  | some last => exact (align_eq .eight _).symm

theorem fill_of_length {size : ℕ} {bytes : List UInt8} (h : bytes.length = size) : fill size bytes = bytes := by
  rw [fill, h, Nat.sub_self, List.replicate_zero, List.append_nil, ← h, List.take_length]

/-- The reader finds every word of a structure where it was written. -/
theorem field_laidOut {named : List (String × Word)} {layout : Layout} (hl : layoutOf named = layout)
    (hn : (named.map Prod.fst).Nodup) :
    ∀ e ∈ named, field layout (fill (sizeOf layout) (laidOut (named.map Prod.snd))) e.1 = e.2.toNat := by
  subst hl
  rintro ⟨name, w⟩ hw
  obtain ⟨offset, hlookup, hfield⟩ := exists_lookup_placeFrom hn hw []
    (List.replicate (gap 8 (writeFrom 0 (named.map Prod.snd)).length) 0)
  rw [List.length_nil] at hlookup hfield
  rw [fill_of_length (length_laidOut named), field, place, hlookup]
  exact hfield

/-! ## Reading any bytes -/

theorem length_fill (size : ℕ) (bytes : List UInt8) : (fill size bytes).length = size := by
  rw [fill, List.length_append, List.length_take, List.length_replicate]
  omega

theorem getElem_fill {size i : ℕ} {bytes : List UInt8} (h : i < (fill size bytes).length) :
    (fill size bytes)[i] = bytes.getD i 0 := by
  rw [length_fill] at h
  simp only [fill, List.getElem_append, List.length_take, List.getElem_take, List.getElem_replicate,
    List.getD_eq_getElem?_getD]
  split
  · next hi => rw [List.getElem?_eq_getElem (by omega), Option.getD_some]
  · next hi => rw [List.getElem?_eq_none (by omega), Option.getD_none]

/-- A field has its place within the structure. -/
def PlacedAt (layout : Layout) (name : String) (w : Width) (offset : ℕ) : Prop :=
  (place layout).lookup name = some (w, offset) ∧ offset + w.bytes ≤ sizeOf layout

instance (layout : Layout) (name : String) (w : Width) (offset : ℕ) : Decidable (PlacedAt layout name w offset) :=
  inferInstanceAs (Decidable (_ ∧ _))

/-- Of the bytes that are written a field has its own, and zeros where they end before it. -/
theorem field_fill {layout : Layout} {name : String} {w : Width} {offset : ℕ} (h : PlacedAt layout name w offset)
    (bytes : List UInt8) :
    field layout (fill (sizeOf layout) bytes) name = numberAt bytes offset w.bytes := by
  obtain ⟨hplace, hend⟩ := h
  have hown : ((fill (sizeOf layout) bytes).drop offset).take w.bytes =
      (List.range w.bytes).map fun i => bytes.getD (offset + i) 0 := by
    refine List.ext_getElem ?_ fun i _ _ => ?_
    · rw [List.length_take, List.length_drop, length_fill, List.length_map, List.length_range]
      omega
    · rw [List.getElem_take, List.getElem_drop, getElem_fill, List.getElem_map, List.getElem_range]
  simp only [field, hplace, fieldAt, hown, natOfBytes_eq_ofDigits, List.map_map]
  rfl

end NodeMemory.Native
