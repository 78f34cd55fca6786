-- The BMP part of decode_image_to_rgb565. The size of the pixels is computed in 32 bits, so a
-- picture of 4 GiB or more can pass for one that fits the file.
import Vibeos.ByteMem

namespace vibeos.image

open Mem

/-! ## The headers -/

/-- `sizeof(struct bmp_file_header) + sizeof(struct bmp_info_header)`. -/
def BMP_HEADERS : Nat := 14 + 40

/-- The fields of both headers that the decoder reads. -/
structure BmpHeaders where
  type : Nat
  off_bits : BitVec 32
  ih_size : BitVec 32
  width : BitVec 32
  height : BitVec 32
  planes : Nat
  bit_count : Nat
  compression : Nat

def headersOf (buf : Mem) : BmpHeaders where
  type := readLE buf 0 2
  off_bits := BitVec.ofNat 32 (readLE buf 10 4)
  ih_size := BitVec.ofNat 32 (readLE buf 14 4)
  width := BitVec.ofNat 32 (readLE buf 18 4)
  height := BitVec.ofNat 32 (readLE buf 22 4)
  planes := readLE buf 26 2
  bit_count := readLE buf 28 2
  compression := readLE buf 30 4

/-- The pictures that the decoder can draw: 24 bits for a pixel, not compressed. -/
def BmpHeaders.Supported (h : BmpHeaders) : Prop :=
  h.type = 0x4D42 ∧ 40 ≤ h.ih_size.toNat ∧ h.planes = 1 ∧ h.bit_count = 24 ∧ h.compression = 0 ∧
    0 < h.width.toInt ∧ h.height.toInt ≠ 0

instance (h : BmpHeaders) : Decidable h.Supported := by
  unfold BmpHeaders.Supported
  infer_instance

/-! ## The decoder -/

/-- Where the pixels go: an array of `dst_max_w * dst_max_h` values of 16 bits. -/
structure Target where
  dst_max_w : BitVec 32
  dst_max_h : BitVec 32
  w_pos : 0 < dst_max_w.toInt
  h_pos : 0 < dst_max_h.toInt
  fits : 2 * (dst_max_w.toNat * dst_max_h.toNat) < 2 ^ 32

def rgb565_from_rgb (r g b : UInt8) : UInt16 :=
  ((r &&& 0xF8).toUInt16 <<< 8) ||| ((g &&& 0xFC).toUInt16 <<< 3) ||| (b >>> 3).toUInt16

variable (h : BmpHeaders) (d : Target)

def BmpHeaders.src_h : BitVec 32 := if 0 < h.height.toInt then h.height else -h.height

def BmpHeaders.row_stride : BitVec 32 := (h.width * 3 + 3) &&& ~~~3

def draw_w : BitVec 32 := if d.dst_max_w.toInt < h.width.toInt then d.dst_max_w else h.width

def draw_h : BitVec 32 := if d.dst_max_h.toInt < h.src_h.toInt then d.dst_max_h else h.src_h

/-- What a picture that is drawn takes: the places of the file that are read, and the places of
the array with the values that they get, in order. -/
structure Drawn where
  reads : List Nat
  writes : List (Nat × UInt16)
  out_w : BitVec 32
  out_h : BitVec 32

/-- Where the pixel of column `x` and row `y` is in the file. Addresses have 32 bits. -/
def pixelAt (x y : Nat) : BitVec 32 :=
  let src_y := if 0 < h.height.toInt then h.src_h - 1 - BitVec.ofNat 32 y else BitVec.ofNat 32 y
  h.off_bits + h.row_stride * src_y + BitVec.ofNat 32 x * 3

def pixelReads (p : Nat × Nat) : List Nat :=
  [2, 1, 0].map fun c => (pixelAt h p.2 p.1 + BitVec.ofNat 32 c).toNat

def pixelWrite (buf : Mem) (p : Nat × Nat) : Nat × UInt16 :=
  let px := fun c => buf (pixelAt h p.2 p.1 + BitVec.ofNat 32 c).toNat
  ((BitVec.ofNat 32 p.1 * d.dst_max_w + BitVec.ofNat 32 p.2).toNat,
    rgb565_from_rgb (px 2) (px 1) (px 0))

def loopPlaces : List (Nat × Nat) :=
  (List.range (draw_h h d).toInt.toNat).flatMap fun y =>
    (List.range (draw_w h d).toInt.toNat).map fun x => (y, x)

/-- The headers are read, `memset` writes the whole array, and the loops draw the picture. -/
def draw (buf : Mem) : Drawn where
  reads := List.range BMP_HEADERS ++ (loopPlaces h d).flatMap (pixelReads h)
  writes := (List.range (d.dst_max_w * d.dst_max_h).toNat).map (·, 0) ++
    (loopPlaces h d).map (pixelWrite h d buf)
  out_w := draw_w h d
  out_h := draw_h h d

/-- `buf` is the file, by the offset from its start; the result is none for the return value -1. -/
def decode_bmp (buf : Mem) (size : BitVec 32) (d : Target) : Option Drawn :=
  let h := headersOf buf
  if BMP_HEADERS ≤ size.toNat ∧ h.Supported then
    if size ≤ h.off_bits then none
    else if size < h.off_bits + h.row_stride * h.src_h then none
    else some (draw h d buf)
  else none

/-! ## The exact numbers -/

def BmpHeaders.stride : Nat := (h.width.toNat * 3 + 3) / 4 * 4

def BmpHeaders.total : Nat := h.off_bits.toNat + h.stride * h.height.toInt.natAbs

/-- A picture that is drawn is read and written in bounds, and its sizes are the exact ones. -/
structure Drawn.Sound (r : Drawn) (h : BmpHeaders) (d : Target) (size : BitVec 32) : Prop where
  reads : ∀ o ∈ r.reads, o < size.toNat
  writes : ∀ p ∈ r.writes, p.1 < d.dst_max_w.toNat * d.dst_max_h.toNat
  stride : h.row_stride.toNat = h.stride
  total : (h.off_bits + h.row_stride * h.src_h).toNat = h.total

variable {h d} {size : BitVec 32} {buf : Mem}

theorem mod_round_down (v : Nat) : v % 2 ^ 32 / 2 ^ 2 * 2 ^ 2 = v / 4 * 4 % 2 ^ 32 := by
  have hquarter : v / 4 = 2 ^ 30 * (v / 2 ^ 32) + v % 2 ^ 32 / 4 := by omega
  have hlt : v % 2 ^ 32 < 2 ^ 32 := Nat.mod_lt _ (by decide)
  omega

theorem toNat_row_stride : h.row_stride.toNat = h.stride % 2 ^ 32 := by
  have hmask : h.row_stride = (h.width * 3 + 3) &&& ~~~ BitVec.ofNat 32 (2 ^ 2 - 1) := rfl
  have hsum : (h.width * 3 + 3).toNat = (h.width.toNat * 3 + 3) % 2 ^ 32 := by
    rw [BitVec.toNat_add, BitVec.toNat_mul]
    exact Nat.mod_add_mod _ _ _
  rw [hmask, WordBits.toNat_and_not_low, hsum, BmpHeaders.stride]
  exact mod_round_down _

theorem src_h_cases (hne : h.height.toInt ≠ 0) :
    (0 < h.height.toInt ∧ h.src_h = h.height ∧ h.height.toNat = h.height.toInt.natAbs) ∨
      (h.height.toInt < 0 ∧ h.src_h = -h.height ∧
        2 ^ 32 - h.height.toNat = h.height.toInt.natAbs) := by
  have hlt := h.height.isLt
  have hint := BitVec.toInt_eq_toNat_cond h.height
  rw [BmpHeaders.src_h]
  by_cases hpos : 0 < h.height.toInt
  · refine .inl ⟨hpos, if_pos hpos, ?_⟩
    split at hint <;> omega
  · refine .inr ⟨by omega, if_neg hpos, ?_⟩
    split at hint <;> omega

theorem toNat_src_h (hne : h.height.toInt ≠ 0) : h.src_h.toNat = h.height.toInt.natAbs := by
  obtain ⟨-, hsrc, habs⟩ | ⟨hneg, hsrc, habs⟩ := src_h_cases hne
  · rw [hsrc, habs]
  · have hle : h.height.toInt.natAbs ≤ 2 ^ 31 := by
      have := BitVec.le_toInt h.height
      omega
    rw [hsrc, BitVec.toNat_neg, habs]
    omega

theorem toNat_total (hne : h.height.toInt ≠ 0) :
    (h.off_bits + h.row_stride * h.src_h).toNat = h.total % 2 ^ 32 := by
  rw [BitVec.toNat_add, BitVec.toNat_mul, toNat_row_stride, toNat_src_h hne, BmpHeaders.total,
    Nat.mod_mul_mod, Nat.add_mod_mod]

/-! ## The loops stay in bounds -/

theorem toInt_of_pos {v : BitVec 32} (hpos : 0 < v.toInt) : v.toInt.toNat = v.toNat := by
  have hint := BitVec.toInt_eq_toNat_cond v
  split at hint <;> omega

theorem toInt_toNat_le (v : BitVec 32) : v.toInt.toNat ≤ v.toNat := by
  have hint := BitVec.toInt_eq_toNat_cond v
  split at hint <;> omega

theorem draw_w_le (hw : 0 < h.width.toInt) :
    (draw_w h d).toInt.toNat ≤ h.width.toNat ∧
      (draw_w h d).toInt.toNat ≤ d.dst_max_w.toNat := by
  have hwidth := toInt_of_pos hw
  have hmax := toInt_of_pos d.w_pos
  unfold draw_w
  split <;> omega

theorem draw_h_le (hne : h.height.toInt ≠ 0) :
    (draw_h h d).toInt.toNat ≤ h.height.toInt.natAbs ∧
      (draw_h h d).toInt.toNat ≤ d.dst_max_h.toNat := by
  have hsrc := toInt_toNat_le h.src_h
  have hmax := toInt_of_pos d.h_pos
  rw [toNat_src_h hne] at hsrc
  unfold draw_h
  split <;> omega

theorem mem_loopPlaces {p : Nat × Nat} :
    p ∈ loopPlaces h d ↔ p.1 < (draw_h h d).toInt.toNat ∧ p.2 < (draw_w h d).toInt.toNat := by
  obtain ⟨y, x⟩ := p
  simp [loopPlaces]

theorem src_y_lt (hne : h.height.toInt ≠ 0) {y : Nat} (hy : y < h.height.toInt.natAbs) :
    ∃ src_y : BitVec 32, src_y.toNat < h.height.toInt.natAbs ∧ ∀ x, pixelAt h x y =
      h.off_bits + h.row_stride * src_y + BitVec.ofNat 32 x * 3 := by
  have hsrc := toNat_src_h hne
  have hlt := h.src_h.isLt
  by_cases hpos : 0 < h.height.toInt
  · refine ⟨h.src_h - 1 - BitVec.ofNat 32 y, ?_, fun x => ?_⟩
    · have hy' : (BitVec.ofNat 32 y).toNat = y := Nat.mod_eq_of_lt (by omega)
      rw [← hsrc] at hy ⊢
      bv_omega
    · rw [pixelAt, if_pos hpos]
  · refine ⟨BitVec.ofNat 32 y, ?_, fun x => ?_⟩
    · rw [BitVec.toNat_ofNat, Nat.mod_eq_of_lt (by omega)]
      exact hy
    · rw [pixelAt, if_neg hpos]

theorem pixel_lt (hne : h.height.toInt ≠ 0) (hfits : h.total < 2 ^ 32)
    {x y c : Nat} (hy : y < h.height.toInt.natAbs) (hx : x < h.width.toNat) (hc : c < 3) :
    (pixelAt h x y + BitVec.ofNat 32 c).toNat < h.total := by
  obtain ⟨src_y, hsrc, hat⟩ := src_y_lt hne hy
  have hrows : h.stride * (src_y.toNat + 1) ≤ h.stride * h.height.toInt.natAbs :=
    Nat.mul_le_mul_left _ hsrc
  have hcolumn : x * 3 + c < h.stride := by
    unfold BmpHeaders.stride
    omega
  have htotal : h.total = h.off_bits.toNat + h.stride * h.height.toInt.natAbs := rfl
  rw [Nat.mul_succ] at hrows
  have hstride : h.row_stride.toNat = h.stride := by
    rw [toNat_row_stride, Nat.mod_eq_of_lt (by omega)]
  have hsum : (pixelAt h x y + BitVec.ofNat 32 c).toNat =
      (h.off_bits.toNat + h.stride * src_y.toNat + x * 3 + c) % 2 ^ 32 := by
    rw [hat]
    simp only [BitVec.toNat_add, BitVec.toNat_mul, BitVec.toNat_ofNat, hstride,
      Nat.add_mod_mod, Nat.mod_add_mod, Nat.mod_mul_mod]
    rfl
  rw [hsum, Nat.mod_eq_of_lt (by omega)]
  omega

theorem place_lt {x y : Nat} (hy : y < d.dst_max_h.toNat) (hx : x < d.dst_max_w.toNat) :
    (BitVec.ofNat 32 y * d.dst_max_w + BitVec.ofNat 32 x).toNat <
      d.dst_max_w.toNat * d.dst_max_h.toNat := by
  have hrows : (y + 1) * d.dst_max_w.toNat ≤ d.dst_max_h.toNat * d.dst_max_w.toNat :=
    Nat.mul_le_mul_right _ hy
  have hfits := d.fits
  rw [Nat.succ_mul, Nat.mul_comm d.dst_max_h.toNat] at hrows
  have hsum : (BitVec.ofNat 32 y * d.dst_max_w + BitVec.ofNat 32 x).toNat =
      (y * d.dst_max_w.toNat + x) % 2 ^ 32 := by
    simp only [BitVec.toNat_add, BitVec.toNat_mul, BitVec.toNat_ofNat, Nat.add_mod_mod,
      Nat.mod_add_mod, Nat.mod_mul_mod]
  rw [hsum, Nat.mod_eq_of_lt (by omega)]
  omega

theorem draw_reads_lt (hsup : h.Supported) (hsize : BMP_HEADERS ≤ size.toNat)
    (hfits : h.total < 2 ^ 32) (hfile : h.total ≤ size.toNat) :
    ∀ o ∈ (draw h d buf).reads, o < size.toNat := by
  have hw := hsup.2.2.2.2.2.1
  have hne := hsup.2.2.2.2.2.2
  intro o ho
  simp only [draw, List.mem_append, List.mem_range] at ho
  rcases ho with ho | ho
  · exact lt_of_lt_of_le ho hsize
  · obtain ⟨p, hp, hread⟩ := List.mem_flatMap.mp ho
    obtain ⟨hy, hx⟩ := mem_loopPlaces.mp hp
    obtain ⟨c, hc, rfl⟩ := List.mem_map.mp hread
    have hc3 : c < 3 := by
      simp only [List.mem_cons, List.not_mem_nil, or_false] at hc
      omega
    have hlt := pixel_lt hne hfits (lt_of_lt_of_le hy (draw_h_le hne).1)
      (lt_of_lt_of_le hx (draw_w_le hw).1) hc3
    exact lt_of_lt_of_le hlt hfile

theorem draw_writes_lt (hsup : h.Supported) :
    ∀ p ∈ (draw h d buf).writes, p.1 < d.dst_max_w.toNat * d.dst_max_h.toNat := by
  have hw := hsup.2.2.2.2.2.1
  have hne := hsup.2.2.2.2.2.2
  intro p hp
  simp only [draw, List.mem_append] at hp
  rcases hp with hp | hp
  · obtain ⟨i, hi, rfl⟩ := List.mem_map.mp hp
    have hfit := d.fits
    rw [List.mem_range, BitVec.toNat_mul, Nat.mod_eq_of_lt (by omega)] at hi
    exact hi
  · obtain ⟨place, hplace, rfl⟩ := List.mem_map.mp hp
    obtain ⟨hy, hx⟩ := mem_loopPlaces.mp hplace
    exact place_lt (lt_of_lt_of_le hy (draw_h_le hne).2) (lt_of_lt_of_le hx (draw_w_le hw).2)

/-! ## Every picture -/

/-- The headers are not those of a picture that can be drawn, or the test of the sizes turns it
down, or the pixels end below 4 GiB. -/
def BmpHeaders.Bounded (h : BmpHeaders) (size : BitVec 32) : Prop :=
  ¬ (BMP_HEADERS ≤ size.toNat ∧ h.Supported) ∨ size ≤ h.off_bits ∨
    size.toNat < h.total % 2 ^ 32 ∨ h.total < 2 ^ 32

theorem decode_cases (buf : Mem) (size : BitVec 32) (d : Target) :
    (decode_bmp buf size d = none ∧ (headersOf buf).Bounded size) ∨
    (BMP_HEADERS ≤ size.toNat ∧ (headersOf buf).Supported ∧ ¬ size ≤ (headersOf buf).off_bits ∧
      (headersOf buf).total % 2 ^ 32 ≤ size.toNat ∧
      decode_bmp buf size d = some (draw (headersOf buf) d buf)) := by
  unfold decode_bmp BmpHeaders.Bounded
  dsimp only
  by_cases hsup : BMP_HEADERS ≤ size.toNat ∧ (headersOf buf).Supported
  · have htotal := toNat_total hsup.2.2.2.2.2.2.2
    rw [if_pos hsup]
    by_cases hoff : size ≤ (headersOf buf).off_bits
    · exact .inl ⟨if_pos hoff, .inr (.inl hoff)⟩
    · rw [if_neg hoff]
      by_cases hsize : size <
          (headersOf buf).off_bits + (headersOf buf).row_stride * (headersOf buf).src_h
      · refine .inl ⟨if_pos hsize, .inr (.inr (.inl ?_))⟩
        rw [← htotal]
        exact hsize
      · refine .inr ⟨hsup.1, hsup.2, hoff, ?_, if_neg hsize⟩
        rw [← htotal]
        exact Nat.le_of_not_lt hsize
  · exact .inl ⟨if_neg hsup, .inl hsup⟩

/-- The decoder turns a file down or stays in bounds with exact sizes, exactly when the end of the
pixels is bounded. -/
theorem decode_bmp_sound_iff (buf : Mem) (size : BitVec 32) (d : Target) :
    (∀ r, decode_bmp buf size d = some r → r.Sound (headersOf buf) d size) ↔
      (headersOf buf).Bounded size := by
  obtain ⟨hnone, hbounded⟩ | ⟨hsize, hsup, hoff, hfile, hsome⟩ := decode_cases buf size d
  · refine iff_of_true (fun r hr => ?_) hbounded
    cases hnone.symm.trans hr
  have hne := hsup.2.2.2.2.2.2
  have htotal := toNat_total hne
  constructor
  · intro hsound
    have hexact := (hsound _ hsome).total
    refine .inr (.inr (.inr ?_))
    rw [← hexact]
    exact BitVec.isLt _
  · rintro (hbad | hbad | hbad | hfits)
    · exact absurd ⟨hsize, hsup⟩ hbad
    · exact absurd hbad hoff
    · exact absurd hfile (Nat.not_le.mpr hbad)
    rw [Nat.mod_eq_of_lt hfits] at htotal hfile
    have hstride : (headersOf buf).stride ≤ (headersOf buf).total := by
      have hpos : 0 < (headersOf buf).height.toInt.natAbs := Int.natAbs_pos.mpr hne
      exact (Nat.le_mul_of_pos_right _ hpos).trans (Nat.le_add_left _ _)
    rw [hsome]
    rintro r ⟨⟩
    exact ⟨draw_reads_lt hsup hsize hfits hfile, draw_writes_lt hsup,
      by rw [toNat_row_stride, Nat.mod_eq_of_lt (lt_of_le_of_lt hstride hfits)], htotal⟩

def imageWindow : Target where
  dst_max_w := 320
  dst_max_h := 240
  w_pos := by decide
  h_pos := by decide
  fits := by decide

/-- A file of 58 bytes for a picture of one column and 2^30 rows, from the top down. -/
def tallFile : Mem := fun i =>
  ([0x42, 0x4D, 58, 0, 0, 0, 0, 0, 0, 0, 54, 0, 0, 0, 40, 0, 0, 0, 1, 0, 0, 0, 0, 0, 0, 0xC0,
    1, 0, 24] : List UInt8).getD i 0

/-- The second row is read from behind the file. -/
theorem tall_file_read_outside : ∃ r, decode_bmp tallFile 58 imageWindow = some r ∧
    58 ∈ r.reads ∧ ¬ r.Sound (headersOf tallFile) imageWindow 58 := by
  have hread : 58 ∈ (draw (headersOf tallFile) imageWindow tallFile).reads := by
    refine List.mem_append_right _ (List.mem_flatMap.mpr ⟨(1, 0), ?_, by decide⟩)
    exact mem_loopPlaces.mpr ⟨by decide, by decide⟩
  refine ⟨draw (headersOf tallFile) imageWindow tallFile, ?_, hread, ?_⟩
  · unfold decode_bmp
    dsimp only
    rw [if_pos (by decide), if_neg (by decide), if_neg (by decide)]
  · intro hsound
    exact absurd (hsound.reads 58 hread) (by decide)

end vibeos.image
