import OxidizedSystemd.Lib.Grouping
import OxidizedSystemd.Lib.LittleEndian
import OxidizedSystemd.Lib.Search

/-!
# Type bit maps

`parse_type_bit_maps` and `encode_type_bit_maps` of `resolved/src/dnssec.rs`: the record types
that exist at a name, as blocks of a window number and a bitmap with the most significant bit
first.

* `parseLoop_splits`: the parser reads the blocks that the data begins with.
* `mem_types_iff`: the types of a block are those whose bit is set in it.
* `parseTypeBitMaps_encode`: reading what has been encoded.
-/

namespace OxidizedSystemd.Resolved

open OxidizedSystemd.Lib

/-! ## The two functions -/

/-- `0x80 >> bit`. -/
def bitMask (bit : ℕ) : UInt8 := 0x80 >>> UInt8.ofNat bit

/-- `(byte & (0x80 >> bit)) != 0`. -/
def bitSet (byte : UInt8) (bit : ℕ) : Bool := byte &&& bitMask bit ≠ 0

/-- The two inner loops: the types of a bitmap. -/
def bitmapTypes (window : ℕ) (bitmap : Bytes) : List ℕ :=
  bitmap.zipIdx.flatMap fun (byte, byteIdx) =>
    ((List.range 8).filter (bitSet byte)).map fun bit => window * 256 + byteIdx * 8 + bit

/-- The loop of `parse_type_bit_maps`. -/
def parseLoop (data : Bytes) (offset : ℕ) (types : List ℕ) : List ℕ :=
  if offset < data.length then
    if offset + 2 > data.length then types
    else
      let window := (data.getD offset 0).toNat
      let bitmapLen := (data.getD (offset + 1) 0).toNat
      if bitmapLen = 0 ∨ bitmapLen > 32 ∨ offset + 2 + bitmapLen > data.length then types
      else
        parseLoop data (offset + 2 + bitmapLen)
          (types ++ bitmapTypes window ((data.drop (offset + 2)).take bitmapLen))
  else types
termination_by data.length - offset

/-- `parse_type_bit_maps`: it never gives `None`. -/
def parseTypeBitMaps (data : Bytes) : Option (List ℕ) := some (parseLoop data 0 [])

/-- The bitmap of the types of a window. -/
def encodeBitmap (windowTypes : List ℕ) : Bytes :=
  let maxOffset := ((windowTypes.map (· % 256)).max?).getD 0
  windowTypes.foldl
    (fun bitmap rrType =>
      bitmap.modify (rrType % 256 / 8) fun byte => byte ||| bitMask (rrType % 256 % 8))
    (List.replicate (maxOffset / 8 + 1) 0)

/-- The types by their window, `(rr_type / 256) as u8`. -/
def typeWindows (types : List ℕ) : SortedMap ℕ (List ℕ) :=
  groups (types.map fun rrType => (rrType / 256 % 256, rrType))

/-- `encode_type_bit_maps`. The keys of the map are sorted, so that their order in it has no
    part in the result. -/
def encodeTypeBitMaps (types : List ℕ) : Bytes :=
  if types = [] then []
  else
    (typeWindows types).pairs.flatMap fun (window, windowTypes) =>
      let bitmap := encodeBitmap windowTypes
      UInt8.ofNat window :: UInt8.ofNat bitmap.length :: bitmap

/-- A (1), NS (2), MX (15) and CAA (257), in any order. -/
example : encodeTypeBitMaps [257, 15, 1, 2, 1] = [0, 2, 0x60, 0x01, 1, 1, 0x40] := by
  decide

/-! ## Bits -/

variable {bitmap : Bytes} {byte : UInt8} {i j window : ℕ}

theorem bitSet_eq_testBit (hi : i < 8) : bitSet byte i = byte.toNat.testBit (7 - i) := by
  have hall : ∀ b : UInt8, ∀ i : Fin 8, bitSet b i = b.toNat.testBit (7 - i) :=
    forall_byte (by set_option maxRecDepth 20000 in decide)
  exact hall byte ⟨i, hi⟩

theorem bitSet_or_bitMask (hi : i < 8) (hj : j < 8) :
    bitSet (byte ||| bitMask j) i = (bitSet byte i || decide (i = j)) := by
  have hmask : ∀ i j : Fin 8, (bitMask j).toNat.testBit (7 - i) = decide ((i : ℕ) = j) := by
    decide
  rw [bitSet_eq_testBit hi, bitSet_eq_testBit hi, UInt8.toNat_or, Nat.testBit_or,
    hmask ⟨i, hi⟩ ⟨j, hj⟩]

@[simp] theorem bitSet_zero (i : ℕ) : bitSet 0 i = false := by simp [bitSet]

/-- The bit of an offset in a window is set. -/
def Marked (bitmap : Bytes) (o : ℕ) : Prop :=
  ∃ byte, bitmap[o / 8]? = some byte ∧ bitSet byte (o % 8) = true

/-- A bit is set where the bitmap has a byte, and no other bit changes. -/
theorem marked_modify {o p : ℕ} (ho : o / 8 < bitmap.length) :
    Marked (bitmap.modify (o / 8) fun byte => byte ||| bitMask (o % 8)) p ↔
      Marked bitmap p ∨ p = o := by
  have hlt : ∀ n, n % 8 < 8 := fun n => Nat.mod_lt n (by omega)
  unfold Marked
  rw [List.getElem?_modify]
  by_cases hidx : o / 8 = p / 8
  · have hp : p = o ↔ p % 8 = o % 8 := by omega
    have hbyte : bitmap[p / 8]? = some (bitmap[o / 8]) := by
      rw [← hidx, List.getElem?_eq_getElem ho]
    simp [hidx, hbyte, bitSet_or_bitMask (hlt p) (hlt o), hp]
  · have hp : p ≠ o := by
      intro heq
      exact hidx (by rw [heq])
    simp [hidx, hp]

/-- The loop over the types of a window. -/
theorem marked_foldl {windowTypes : List ℕ} {o : ℕ}
    (h : ∀ t ∈ windowTypes, t % 256 / 8 < bitmap.length) :
    Marked (windowTypes.foldl (fun bitmap rrType =>
      bitmap.modify (rrType % 256 / 8) fun byte => byte ||| bitMask (rrType % 256 % 8)) bitmap) o ↔
        Marked bitmap o ∨ ∃ t ∈ windowTypes, t % 256 = o := by
  induction windowTypes generalizing bitmap with
  | nil => simp
  | cons t ts ih =>
    obtain ⟨ht, hts⟩ := List.forall_mem_cons.mp h
    rw [List.foldl_cons, ih (by simpa using hts), marked_modify ht, or_assoc]
    simp [eq_comm]

theorem length_foldl_modify (windowTypes : List ℕ) (bitmap : Bytes) :
    (windowTypes.foldl (fun bitmap rrType =>
      bitmap.modify (rrType % 256 / 8) fun byte => byte ||| bitMask (rrType % 256 % 8))
      bitmap).length = bitmap.length := by
  induction windowTypes generalizing bitmap with
  | nil => rfl
  | cons t ts ih => rw [List.foldl_cons, ih, List.length_modify]

/-- The highest offset of a window gives the length of its bitmap. -/
theorem le_maxOffset {windowTypes : List ℕ} {t : ℕ} (h : t ∈ windowTypes) :
    t % 256 ≤ ((windowTypes.map (· % 256)).max?).getD 0 := by
  have hmem : t % 256 ∈ windowTypes.map (· % 256) := List.mem_map_of_mem h
  cases hmax : (windowTypes.map (· % 256)).max? with
  | none =>
    rw [List.max?_eq_none_iff.mp hmax] at hmem
    simp at hmem
  | some m => exact (List.max?_eq_some_iff.mp hmax).2 _ hmem

theorem maxOffset_lt (windowTypes : List ℕ) :
    ((windowTypes.map (· % 256)).max?).getD 0 < 256 := by
  cases hmax : (windowTypes.map (· % 256)).max? with
  | none => simp
  | some m =>
    obtain ⟨t, -, rfl⟩ := List.mem_map.mp (List.max?_eq_some_iff.mp hmax).1
    exact Nat.mod_lt t (by omega)

theorem length_encodeBitmap (windowTypes : List ℕ) :
    (encodeBitmap windowTypes).length =
      ((windowTypes.map (· % 256)).max?).getD 0 / 8 + 1 := by
  rw [encodeBitmap, length_foldl_modify, List.length_replicate]

/-- What `encode_type_bit_maps` sets in a bitmap. -/
theorem marked_encodeBitmap {windowTypes : List ℕ} {o : ℕ} :
    Marked (encodeBitmap windowTypes) o ↔ ∃ t ∈ windowTypes, t % 256 = o := by
  have hzero : ∀ n, ¬Marked (List.replicate n 0) o := by
    rintro n ⟨byte, hbyte, hset⟩
    rw [List.eq_of_mem_replicate (List.mem_of_getElem? hbyte)] at hset
    simp at hset
  rw [encodeBitmap, marked_foldl, or_iff_right (hzero _)]
  intro t ht
  have hle := le_maxOffset ht
  rw [List.length_replicate]
  omega

/-! ## The types of a bitmap -/

theorem mem_bitmapTypes {t : ℕ} (hlen : bitmap.length ≤ 32) :
    t ∈ bitmapTypes window bitmap ↔ t / 256 = window ∧ Marked bitmap (t % 256) := by
  simp only [bitmapTypes, List.mem_flatMap, List.mem_map, List.mem_filter, List.mem_range,
    Prod.exists, List.mem_zipIdx_iff_getElem?, Marked]
  constructor
  · rintro ⟨byte, idx, hbyte, bit, ⟨hbit, hset⟩, rfl⟩
    have hidx := (List.getElem?_eq_some_iff.mp hbyte).1
    refine ⟨by omega, byte, ?_, ?_⟩
    · rwa [show (window * 256 + idx * 8 + bit) % 256 / 8 = idx by omega]
    · rwa [show (window * 256 + idx * 8 + bit) % 256 % 8 = bit by omega]
  · rintro ⟨rfl, byte, hbyte, hset⟩
    exact ⟨byte, _, hbyte, t % 256 % 8, ⟨Nat.mod_lt _ (by omega), hset⟩, by omega⟩

theorem pairwise_bitmapTypes (window : ℕ) (bitmap : Bytes) :
    (bitmapTypes window bitmap).Pairwise (· < ·) := by
  rw [bitmapTypes, List.pairwise_flatMap]
  constructor
  · rintro ⟨byte, idx⟩ -
    refine List.Pairwise.map _ ?_ (List.pairwise_lt_range.filter _)
    intro a b hab
    omega
  · have hidx : bitmap.zipIdx.Pairwise fun a b => a.2 < b.2 := by
      apply List.pairwise_map.mp
      rw [List.zipIdx_map_snd]
      exact List.pairwise_lt_range'
    refine hidx.imp fun {a b} hab x hx y hy => ?_
    obtain ⟨bit, hbit, rfl⟩ := List.mem_map.mp hx
    obtain ⟨bit', -, rfl⟩ := List.mem_map.mp hy
    have hlt := List.mem_range.mp (List.mem_filter.mp hbit).1
    omega

/-! ## Blocks -/

/-- A block: a window number, and the bitmap behind its length. -/
structure Block where
  window : UInt8
  bitmap : Bytes
  length_ok : 0 < bitmap.length ∧ bitmap.length ≤ 32

def Block.bytes (b : Block) : Bytes := b.window :: UInt8.ofNat b.bitmap.length :: b.bitmap

def Block.types (b : Block) : List ℕ := bitmapTypes b.window.toNat b.bitmap

/-- The bit of a type is set in the block. -/
def Block.Has (b : Block) (t : ℕ) : Prop :=
  t / 256 = b.window.toNat ∧ Marked b.bitmap (t % 256)

theorem Block.mem_types_iff {b : Block} {t : ℕ} : t ∈ b.types ↔ b.Has t :=
  mem_bitmapTypes b.length_ok.2

theorem Block.length_bytes (b : Block) : b.bytes.length = 2 + b.bitmap.length := by
  simp [Block.bytes]
  omega

/-- One turn of the loop reads a block. -/
theorem parseLoop_block (front : Bytes) (b : Block) (back : Bytes) (types : List ℕ) :
    parseLoop (front ++ (b.bytes ++ back)) front.length types =
      parseLoop (front ++ (b.bytes ++ back)) (front ++ b.bytes).length (types ++ b.types) := by
  have hlen := b.length_ok
  have hbyte : (UInt8.ofNat b.bitmap.length).toNat = b.bitmap.length := by
    rw [toNat_ofNat, Nat.mod_eq_of_lt (by omega)]
  have hfirst : (front ++ (b.bytes ++ back)).getD front.length 0 = b.window := by
    simp [Block.bytes]
  have hsecond : (front ++ (b.bytes ++ back)).getD (front.length + 1) 0 =
      UInt8.ofNat b.bitmap.length := by
    simp [Block.bytes]
  have hslice : ((front ++ (b.bytes ++ back)).drop (front.length + 2)).take b.bitmap.length =
      b.bitmap := by
    rw [List.drop_append, List.drop_of_length_le (by omega)]
    simp [Block.bytes]
  have htotal : (front ++ (b.bytes ++ back)).length =
      front.length + (2 + b.bitmap.length + back.length) := by
    rw [List.length_append, List.length_append, b.length_bytes]
  rw [parseLoop, if_pos (by omega), if_neg (by omega)]
  simp only [hfirst, hsecond, hbyte, hslice]
  rw [if_neg (by omega), List.length_append, b.length_bytes, Block.types, Nat.add_assoc]

/-- The loop reads the blocks one after the other. -/
theorem parseLoop_blocks (front : Bytes) (blocks : List Block) (back : Bytes) (types : List ℕ) :
    parseLoop (front ++ (blocks.flatMap Block.bytes ++ back)) front.length types =
      parseLoop (front ++ (blocks.flatMap Block.bytes ++ back))
        (front ++ blocks.flatMap Block.bytes).length (types ++ blocks.flatMap Block.types) := by
  induction blocks generalizing front types with
  | nil => simp
  | cons b blocks ih =>
    have hstep := ih (front ++ b.bytes) (types ++ b.types)
    rw [List.flatMap_cons, List.flatMap_cons, List.append_assoc, parseLoop_block]
    simpa only [List.append_assoc] using hstep

/-- The parser reads the blocks that the data begins with. -/
theorem parseLoop_splits (data : Bytes) (offset : ℕ) (types : List ℕ) :
    ∃ (blocks : List Block) (rest : Bytes), data.drop offset = blocks.flatMap Block.bytes ++ rest ∧
      parseLoop data offset types = types ++ blocks.flatMap Block.types := by
  induction offset, types using parseLoop.induct data with
  | case1 offset types hlt hshort =>
    refine ⟨[], data.drop offset, rfl, ?_⟩
    rw [parseLoop, if_pos hlt, if_pos hshort]
    simp
  | case2 offset types hlt hshort bitmapLen hbad =>
    refine ⟨[], data.drop offset, rfl, ?_⟩
    rw [parseLoop, if_pos hlt, if_neg hshort]
    show (if bitmapLen = 0 ∨ bitmapLen > 32 ∨ offset + 2 + bitmapLen > data.length then types
      else _) = _
    rw [if_pos hbad]
    simp
  | case3 offset types hlt hshort window bitmapLen hgood ih =>
    obtain ⟨blocks, rest, hdrop, hloop⟩ := ih
    rw [not_or, not_or] at hgood
    obtain ⟨hpos, hle, hend⟩ := hgood
    have htake : ((data.drop (offset + 2)).take bitmapLen).length = bitmapLen := by
      rw [List.length_take, List.length_drop]
      omega
    have hrest : (data.drop (offset + 2)).take bitmapLen ++
        (blocks.flatMap Block.bytes ++ rest) = data.drop (offset + 2) := by
      rw [← hdrop, show data.drop (offset + 2 + bitmapLen) =
        (data.drop (offset + 2)).drop bitmapLen from List.drop_drop.symm, List.take_append_drop]
    obtain ⟨b, hwindow, hbitmap⟩ : ∃ b : Block, b.window = data.getD offset 0 ∧
        b.bitmap = (data.drop (offset + 2)).take bitmapLen :=
      ⟨⟨_, _, by omega⟩, rfl, rfl⟩
    refine ⟨b :: blocks, rest, ?_, ?_⟩
    · have hsecond : data.getD (offset + 1) 0 = UInt8.ofNat bitmapLen := by
        rw [UInt8.ofNat_toNat]
      have hhead : data.drop offset =
          data.getD offset 0 :: data.getD (offset + 1) 0 :: data.drop (offset + 2) := by
        rw [List.drop_eq_getElem_cons hlt, List.drop_eq_getElem_cons (by omega),
          List.getElem_eq_getD 0, List.getElem_eq_getD 0]
      rw [List.flatMap_cons, List.append_assoc, Block.bytes, hwindow, hbitmap, htake, ← hsecond,
        List.cons_append, List.cons_append, hrest, hhead]
    · rw [parseLoop, if_pos hlt, if_neg hshort]
      show (if bitmapLen = 0 ∨ bitmapLen > 32 ∨ offset + 2 + bitmapLen > data.length then types
        else _) = _
      rw [if_neg (by omega), List.flatMap_cons, Block.types, hwindow, hbitmap, ← List.append_assoc]
      exact hloop
  | case4 offset types hend =>
    refine ⟨[], data.drop offset, rfl, ?_⟩
    rw [parseLoop, if_neg hend]
    simp

theorem parseTypeBitMaps_blocks (blocks : List Block) :
    parseTypeBitMaps (blocks.flatMap Block.bytes) = some (blocks.flatMap Block.types) := by
  have hloop := parseLoop_blocks [] blocks [] []
  simp only [List.nil_append, List.append_nil, List.length_nil] at hloop
  rw [parseTypeBitMaps, hloop, parseLoop, if_neg (by omega)]

/-! ## What is encoded -/

section Encode

variable {types : List ℕ} {windowTypes : List ℕ}

/-- The block of a window. -/
def windowBlock (window : ℕ) (windowTypes : List ℕ) : Block where
  window := UInt8.ofNat window
  bitmap := encodeBitmap windowTypes
  length_ok := by
    have hlt := maxOffset_lt windowTypes
    rw [length_encodeBitmap]
    omega

theorem encodeTypeBitMaps_eq (types : List ℕ) :
    encodeTypeBitMaps types =
      ((typeWindows types).pairs.map fun p => windowBlock p.1 p.2).flatMap Block.bytes := by
  rw [encodeTypeBitMaps, List.flatMap_map]
  split
  · rename_i hnil
    rw [hnil]
    rfl
  · rfl

theorem mem_typeWindows (h : (window, windowTypes) ∈ (typeWindows types).pairs) {t : ℕ} :
    t ∈ windowTypes ↔ t ∈ types ∧ t / 256 % 256 = window := by
  have hget := SortedMap.get?_eq_some_iff.mpr h
  rw [typeWindows, get?_groups] at hget
  obtain ⟨rfl, -⟩ := nonEmpty_eq_some_iff.mp hget
  rw [mem_valuesAt, List.mem_map]
  constructor
  · rintro ⟨t', ht', heq⟩
    obtain ⟨rfl, rfl⟩ := Prod.mk.inj heq
    exact ⟨ht', rfl⟩
  · rintro ⟨ht, rfl⟩
    exact ⟨t, ht, rfl⟩

/-- Every type has its window. -/
theorem exists_typeWindow {t : ℕ} (h : t ∈ types) :
    ∃ windowTypes, (t / 256 % 256, windowTypes) ∈ (typeWindows types).pairs := by
  have hmem : t ∈ valuesAt (types.map fun rrType => (rrType / 256 % 256, rrType))
      (t / 256 % 256) := mem_valuesAt.mpr (List.mem_map.mpr ⟨t, h, rfl⟩)
  obtain ⟨windowTypes, hget⟩ : ∃ windowTypes, (typeWindows types).get? (t / 256 % 256) =
      some windowTypes := by
    rw [typeWindows, get?_groups]
    exact ⟨_, nonEmpty_eq_some_iff.mpr ⟨rfl, List.ne_nil_of_mem hmem⟩⟩
  exact ⟨windowTypes, SortedMap.get?_eq_some_iff.mp hget⟩

theorem mem_windowBlock (htypes : ∀ t ∈ types, t < 65536)
    (h : (window, windowTypes) ∈ (typeWindows types).pairs) {t : ℕ} :
    t ∈ (windowBlock window windowTypes).types ↔ t ∈ windowTypes := by
  obtain ⟨t₀, ht₀⟩ : ∃ t₀, t₀ ∈ windowTypes := by
    have hget := SortedMap.get?_eq_some_iff.mpr h
    rw [typeWindows, get?_groups] at hget
    exact List.exists_mem_of_ne_nil _ (nonEmpty_eq_some_iff.mp hget).2
  have hwindow : (UInt8.ofNat window).toNat = window := by
    have := ((mem_typeWindows h).mp ht₀).2
    rw [toNat_ofNat]
    omega
  rw [Block.mem_types_iff, Block.Has, windowBlock, hwindow, marked_encodeBitmap]
  constructor
  · rintro ⟨ht, t', ht', hmod⟩
    obtain ⟨hmem, hdiv⟩ := (mem_typeWindows h).mp ht'
    have hlt := htypes t' hmem
    rwa [show t = t' by omega]
  · intro ht
    obtain ⟨hmem, hdiv⟩ := (mem_typeWindows h).mp ht
    have hlt := htypes t hmem
    exact ⟨by omega, t, ht, rfl⟩

/-- Reading what has been encoded gives the types, sorted and without repetitions. -/
theorem parseTypeBitMaps_encode (htypes : ∀ t ∈ types, t < 65536) :
    parseTypeBitMaps (encodeTypeBitMaps types) = some (sortDedup types) := by
  rw [encodeTypeBitMaps_eq, parseTypeBitMaps_blocks, List.flatMap_map]
  congr 1
  apply eq_sortDedup
  · rw [List.pairwise_flatMap]
    refine ⟨fun p _ => pairwise_bitmapTypes _ _, ?_⟩
    refine (typeWindows types).sorted.imp_of_mem fun {p q} hp hq hlt x hx y hy => ?_
    obtain ⟨hx, hwx⟩ := (mem_typeWindows hp).mp ((mem_windowBlock htypes hp).mp hx)
    obtain ⟨hy, hwy⟩ := (mem_typeWindows hq).mp ((mem_windowBlock htypes hq).mp hy)
    have hxlt := htypes x hx
    have hylt := htypes y hy
    omega
  · intro t
    rw [List.mem_flatMap]
    constructor
    · rintro ⟨p, hp, ht⟩
      exact ((mem_typeWindows hp).mp ((mem_windowBlock htypes hp).mp ht)).1
    · intro ht
      obtain ⟨windowTypes, hp⟩ := exists_typeWindow ht
      exact ⟨_, hp, (mem_windowBlock htypes hp).mpr ((mem_typeWindows hp).mpr ⟨ht, rfl⟩)⟩

end Encode

/-! ## The two together -/

/-- Encoding and parsing give the sorted list of the distinct types back; and whatever the data,
    the parser reports types only whose bit is set in a block within it. -/
theorem typeBitMaps_roundTrip :
    (∀ types : List ℕ, (∀ t ∈ types, t < 65536) →
      parseTypeBitMaps (encodeTypeBitMaps types) = some (sortDedup types)) ∧
    ∀ data : Bytes, ∃ types, parseTypeBitMaps data = some types ∧ ∀ t ∈ types,
      ∃ (front : Bytes) (b : Block) (back : Bytes), data = front ++ b.bytes ++ back ∧ b.Has t := by
  refine ⟨fun types htypes => parseTypeBitMaps_encode htypes, fun data => ⟨_, rfl, ?_⟩⟩
  intro t ht
  obtain ⟨blocks, rest, hdata, hloop⟩ := parseLoop_splits data 0 []
  rw [hloop, List.nil_append, List.mem_flatMap] at ht
  obtain ⟨b, hb, ht⟩ := ht
  obtain ⟨before, after, rfl⟩ := List.append_of_mem hb
  refine ⟨before.flatMap Block.bytes, b, after.flatMap Block.bytes ++ rest, ?_,
    Block.mem_types_iff.mp ht⟩
  rw [List.drop_zero] at hdata
  simp [hdata]

theorem typeBitMaps_roundTrip_caa :
    parseTypeBitMaps (encodeTypeBitMaps [257, 15, 1, 2, 1]) = some [1, 2, 15, 257] :=
  typeBitMaps_roundTrip.1 [257, 15, 1, 2, 1] (by decide)

end OxidizedSystemd.Resolved
