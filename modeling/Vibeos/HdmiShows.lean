-- Which pixel the encoder gets at a beam position: the one of two clocks before. And which writes
-- change the byte of their own address alone.
import Vibeos.HdmiMmio
import Vibeos.ShadowWords
import Mathlib.Algebra.Group.Nat.Defs

namespace vibeos.fpga

namespace Pixels

/-! ## The beam -/

structure InRange (s : Pixels) : Prop where
  sx_ge : -320 ≤ s.sx
  sx_le : s.sx ≤ 1023
  sy_ge : -38 ≤ s.sy
  sy_le : s.sy ≤ 767

theorem InRange.step {s : Pixels} (h : InRange s) (i : PixelIn) : InRange (s.step i) := by
  obtain ⟨h1, h2, h3, h4⟩ := h
  constructor <;> unfold Pixels.step H_STA V_STA HA_END VA_END <;> dsimp only <;> split_ifs <;>
    omega

theorem inRange_run {s : Pixels} (h : InRange s) (cycles : List PixelIn) :
    InRange (s.run cycles) := by
  induction cycles generalizing s with
  | nil => exact h
  | cons i cycles ih => exact ih (h.step i)

theorem AtStart.inRange {s : Pixels} (h : s.AtStart) : InRange s := by
  obtain ⟨hx, hy⟩ := h
  unfold H_STA at hx
  unfold V_STA at hy
  constructor <;> omega

/-- How far the beam is in the frame. -/
def beam (s : Pixels) : Int := (s.sy + 38) * 1344 + (s.sx + 320)

theorem beam_step {s : Pixels} (h : InRange s) (i : PixelIn) (hlt : beam s < 1083263) :
    beam (s.step i) = beam s + 1 := by
  obtain ⟨h1, h2, h3, h4⟩ := h
  unfold beam at hlt ⊢
  unfold step H_STA V_STA HA_END VA_END
  dsimp only
  split_ifs <;> omega

theorem beam_run {s : Pixels} (h : InRange s) (cycles : List PixelIn)
    (hlt : beam s + cycles.length < 1083264) : beam (s.run cycles) = beam s + cycles.length := by
  induction cycles generalizing s with
  | nil => simp [run]
  | cons i cycles ih =>
    rw [List.length_cons] at hlt ⊢
    have hstep := beam_step h i (by omega)
    have hrest := ih (h.step i) (by omega)
    change beam ((s.step i).run cycles) = _
    omega

theorem step_back {s : Pixels} {i : PixelIn} (h : (s.step i).sx ≠ -320) :
    s.sx = (s.step i).sx - 1 ∧ s.sy = (s.step i).sy := by
  unfold step H_STA at h ⊢
  dsimp only at h ⊢
  split_ifs at h ⊢ <;> omega

theorem visible_iff {s : Pixels} (h : InRange s) :
    s.visible_w = true ↔ 0 ≤ s.sx ∧ 0 ≤ s.sy := by
  obtain ⟨h1, h2, h3, h4⟩ := h
  unfold visible_w de
  simp only [Bool.and_eq_true, decide_eq_true_eq]
  omega

/-- The number of the pixel at a beam position. -/
def pixel (s : Pixels) : Nat := (s.sy / 2 * 512 + s.sx / 2).toNat

theorem rd_x_toNat {s : Pixels} (h : 0 ≤ s.sx) (hle : s.sx ≤ 1023) :
    s.rd_x_w.toNat = (s.sx / 2).toNat := by
  unfold rd_x_w
  rw [BitVec.toNat_ofInt]
  omega

theorem fetched_byte {s : Pixels} (h : InRange s) (hx : 0 ≤ s.sx) (hy : 0 ≤ s.sy)
    (fb : BitVec 16 → BitVec 32) :
    (fb s.rd_word_idx_w).extractLsb' (8 * s.rd_byte_sel_w.toNat) 8 = pixelByte fb s.pixel := by
  have hxn := rd_x_toNat hx h.sx_le
  have hyn : s.rd_y_w.toNat = (s.sy / 2).toNat := by
    have := h.sy_le
    unfold rd_y_w
    rw [BitVec.toNat_ofInt]
    omega
  have hsel : s.rd_byte_sel_w.toNat = s.pixel % 4 := by
    unfold rd_byte_sel_w pixel
    rw [BitVec.extractLsb'_toNat, hxn]
    omega
  have hidx : s.rd_word_idx_w = BitVec.ofNat 16 (s.pixel / 4) := by
    apply BitVec.eq_of_toNat_eq
    have := h.sx_le
    have := h.sy_le
    unfold rd_word_idx_w pixel
    have hlt : (s.sx / 2).toNat >>> 2 % 2 ^ 7 < 2 ^ 7 := Nat.mod_lt _ (by decide)
    rw [BitVec.toNat_append, BitVec.extractLsb'_toNat, hxn, hyn, BitVec.toNat_ofNat,
      ← Nat.shiftLeft_add_eq_or_of_lt hlt, Nat.shiftLeft_eq, Nat.shiftRight_eq_div_pow]
    omega
  unfold pixelByte
  rw [hsel, hidx]

/-! ## What the encoder gets -/

/-- Once the register is through the synchroniser, the colour at a visible position is that of the
pixel two clocks before, and black at the first two positions of a line. -/
theorem rgb_after {s : Pixels} (h : InRange s) (a b c d : PixelIn)
    (hx : 0 ≤ (s.run [a, b, c, d]).sx) (hy : 0 ≤ (s.run [a, b, c, d]).sy) :
    (s.run [a, b, c, d]).rgb_q =
      if (s.run [a, b, c, d]).sx < 2 then 0
      else if a.has_written_q then color8_to_rgb (pixelByte c.fb ((s.run [a, b, c, d]).pixel - 1))
      else BitVec.ofInt 8 ((s.run [a, b, c, d]).sx - 2) ++
        BitVec.ofInt 8 (s.run [a, b, c, d]).sy ++ 0x40#8 := by
  have h2 : InRange ((s.step a).step b) := (h.step a).step b
  generalize hs2 : (s.step a).step b = s2 at h2
  have hrun : s.run [a, b, c, d] = (s2.step c).step d := by rw [← hs2]; rfl
  rw [hrun] at hx hy ⊢
  generalize hs4 : (s2.step c).step d = s4 at hx hy ⊢
  obtain ⟨hx3, hy3⟩ := step_back (s := s2.step c) (i := d) (by rw [hs4]; omega)
  rw [hs4] at hx3 hy3
  obtain ⟨hx2, hy2⟩ := step_back (s := s2) (i := c) (by omega)
  have hpix : s2.has_written_pix_q = a.has_written_q := by rw [← hs2]; rfl
  have hrgb : s4.rgb_q =
      if !s2.visible_w then 0
      else if !s2.has_written_pix_q then BitVec.ofInt 8 s2.sx ++ BitVec.ofInt 8 s2.sy ++ 0x40#8
      else color8_to_rgb ((c.fb s2.rd_word_idx_w).extractLsb' (8 * s2.rd_byte_sel_w.toNat) 8) := by
    rw [← hs4]
    rfl
  rw [hrgb, hpix]
  have hvisible := visible_iff h2
  by_cases hlt : s4.sx < 2
  · have hno : s2.visible_w = false := by
      rw [Bool.eq_false_iff, ne_eq, hvisible]
      omega
    rw [hno, if_pos hlt]
    rfl
  · have hyes : s2.visible_w = true := hvisible.mpr (by omega)
    have hpixel : s2.pixel = s4.pixel - 1 := by
      unfold pixel
      omega
    rw [hyes, if_neg hlt, fetched_byte h2 (by omega) (by omega), hpixel]
    cases a.has_written_q with
    | true => rfl
    | false =>
      rw [show s2.sx = s4.sx - 2 by omega, show s2.sy = s4.sy by omega]
      rfl

theorem extract_low {p q : Nat} (x : BitVec p) (y : BitVec q) : (x ++ y).extractLsb' 0 q = y := by
  ext k hk
  simp [BitVec.getLsbD_append, hk, BitVec.getLsbD_eq_getElem]

/-- The colour at a visible position is that of its pixel if and only if the position is not one of
the first two of its line, the pixel before has the same colour, and the frame buffer was written
four clocks before. -/
theorem shows_iff {s : Pixels} (hstart : s.AtStart) (cycles : List PixelIn) (a b c d : PixelIn)
    (fb : BitVec 16 → BitVec 32) (hde : (s.run (cycles ++ [a, b, c, d])).de = true) :
    (s.run (cycles ++ [a, b, c, d])).rgb_q =
        color8_to_rgb (pixelByte fb (s.run (cycles ++ [a, b, c, d])).pixel) ↔
      2 ≤ (s.run (cycles ++ [a, b, c, d])).sx ∧ a.has_written_q = true ∧
        color8_to_rgb (pixelByte c.fb ((s.run (cycles ++ [a, b, c, d])).pixel - 1)) =
          color8_to_rgb (pixelByte fb (s.run (cycles ++ [a, b, c, d])).pixel) := by
  have hrun : s.run (cycles ++ [a, b, c, d]) = (s.run cycles).run [a, b, c, d] :=
    List.foldl_append
  have hrange := inRange_run hstart.inRange cycles
  rw [hrun] at hde ⊢
  obtain ⟨hx, hy⟩ : 0 ≤ ((s.run cycles).run [a, b, c, d]).sx ∧
      0 ≤ ((s.run cycles).run [a, b, c, d]).sy := by
    simpa [de] using hde
  rw [rgb_after hrange a b c d hx hy]
  obtain ⟨hblack, hpattern⟩ :=
    color8_to_rgb_ne (pixelByte fb ((s.run cycles).run [a, b, c, d]).pixel)
  generalize (s.run cycles).run [a, b, c, d] = s4 at *
  by_cases hlt : s4.sx < 2
  · rw [if_pos hlt]
    exact ⟨fun heq => absurd heq.symm hblack, fun hand => absurd hand.1 (by omega)⟩
  · rw [if_neg hlt]
    cases a.has_written_q with
    | true => exact ⟨fun heq => ⟨by omega, rfl, heq⟩, fun hand => hand.2.2⟩
    | false =>
      refine ⟨fun heq => ?_, fun hand => absurd hand.2.1 Bool.noConfusion⟩
      rw [if_neg Bool.false_ne_true] at heq
      rw [← heq] at hpattern
      exact absurd (extract_low _ _) hpattern

end Pixels

/-! ## Writes -/

theorem and_high_eq (x : BitVec 32) (n : Nat) :
    x &&& (BitVec.allOnes 32 <<< n) = x >>> n <<< n := by
  apply BitVec.eq_of_getLsbD_eq
  intro k hk
  rw [BitVec.getLsbD_and, BitVec.getLsbD_shiftLeft, BitVec.getLsbD_shiftLeft,
    BitVec.getLsbD_allOnes, BitVec.getLsbD_ushiftRight]
  by_cases hkn : k < n
  · simp [hkn]
  · have hadd : n + (k - n) = k := by omega
    simp [hkn, hk, hadd, show k - n < 32 by omega]

theorem and_high_toNat (x : BitVec 32) (n : Nat) :
    (x &&& (BitVec.allOnes 32 <<< n)).toNat = x.toNat / 2 ^ n * 2 ^ n := by
  have hlt := x.isLt
  rw [and_high_eq, BitVec.toNat_shiftLeft, BitVec.toNat_ushiftRight, Nat.shiftRight_eq_div_pow,
    Nat.shiftLeft_eq]
  exact Nat.mod_eq_of_lt (Nat.lt_of_le_of_lt (Nat.div_mul_le_self _ _) hlt)

theorem samples_iff (w : BusWrite) :
    samples w = true ↔ w.addr.toNat / 2 ^ 20 = 0x500 ∧ w.addr.toNat % 2 ^ 19 < 0x30000 ∧
      w.strb ≠ 0 := by
  have hmask : 0xfff00000#32 = BitVec.allOnes 32 <<< 20 := by decide
  have hbase : w.addr &&& 0xfff00000#32 = VRAM_BASE ↔ w.addr.toNat / 2 ^ 20 = 0x500 := by
    rw [hmask, ← BitVec.toNat_inj, and_high_toNat]
    change _ = 0x50000000 ↔ _
    omega
  unfold samples
  rw [Bool.and_eq_true, Bool.and_eq_true, decide_eq_true_eq, decide_eq_true_eq, decide_eq_true_eq,
    hbase, BitVec.lt_def, BitVec.toNat_setWidth, and_assoc]
  rfl

theorem carries_iff (w : BusWrite) (addr : BitVec 32) :
    carries w addr = true ↔
      w.addr.toNat / 4 = addr.toNat / 4 ∧ w.strb.getLsbD (addr.toNat % 4) = true := by
  have hmask : 0xfffffffc#32 = BitVec.allOnes 32 <<< 2 := by decide
  unfold carries
  rw [Bool.and_eq_true, decide_eq_true_eq, hmask, ← BitVec.toNat_inj, and_high_toNat,
    and_high_toNat, BitVec.extractLsb'_toNat]
  rw [Nat.shiftRight_zero]
  constructor
  · rintro ⟨hword, hlane⟩
    exact ⟨by omega, hlane⟩
  · rintro ⟨hword, hlane⟩
    exact ⟨by omega, hlane⟩

def writeByte (w : BusWrite) (p : Nat) : BitVec 8 := w.data.extractLsb' (8 * (p % 4)) 8

/-- A write changes the byte of a pixel if and only if it carries the byte of its address. -/
def WritesOwn (w : BusWrite) : Prop :=
  ∀ (v : Vram) (p : Nat), p < 2 ^ 18 →
    pixelByte (v.write w).fb p =
      if p < 512 * 384 ∧ carries w (VRAM_BASE + BitVec.ofNat 32 p) = true then writeByte w p
      else pixelByte v.fb p

theorem writeByte_ne (w : BusWrite) (p : Nat) :
    writeByte w p ≠ pixelByte (fun _ => ~~~w.data) p := by
  intro heq
  have hbit := congrArg (fun b => b.getLsbD 0) heq
  unfold writeByte pixelByte at hbit
  have hlt : 8 * (p % 4) < 32 := by omega
  simp [hlt] at hbit

theorem sampleWord_byte (old data : BitVec 32) (strb : BitVec 4) {k : Nat} (hk : k < 4) :
    (sampleWord old data strb).extractLsb' (8 * k) 8 =
      if strb.getLsbD k then data.extractLsb' (8 * k) 8 else old.extractLsb' (8 * k) 8 := by
  have h := Shadow.byte_pack (fun i =>
    if strb.getLsbD i then data.extractLsb' (8 * i) 8 else old.extractLsb' (8 * i) 8) 0 hk
  rw [Nat.zero_add] at h
  unfold sampleWord
  exact h

theorem pixelByte_write (v : Vram) {w : BusWrite} (h : samples w = true) {p : Nat}
    (hp : p < 2 ^ 18) :
    pixelByte (v.write w).fb p =
      if w.addr.toNat % 2 ^ 18 / 4 = p / 4 ∧ w.strb.getLsbD (p % 4) = true then writeByte w p
      else pixelByte v.fb p := by
  have hplace : BitVec.ofNat 16 (p / 4) = w.addr.extractLsb' 2 16 ↔
      w.addr.toNat % 2 ^ 18 / 4 = p / 4 := by
    rw [← BitVec.toNat_inj, BitVec.toNat_ofNat, BitVec.extractLsb'_toNat,
      Nat.shiftRight_eq_div_pow]
    omega
  unfold Vram.write pixelByte writeByte
  dsimp only
  rw [if_pos h]
  dsimp only
  by_cases hin : BitVec.ofNat 16 (p / 4) = w.addr.extractLsb' 2 16
  · rw [if_pos hin, sampleWord_byte _ _ _ (Nat.mod_lt p (by decide)), hin]
    simp only [hplace.mp hin, true_and]
  · rw [if_neg hin, if_neg (fun hand => hin (hplace.mpr hand.1))]

/-- A write changes its own byte alone if and only if it is not one that the decoder takes for the
frame buffer with bit 19 of its address set. -/
theorem writesOwn_iff (w : BusWrite) :
    WritesOwn w ↔ ¬ (samples w = true ∧ w.addr.getLsbD 19 = true) := by
  have hbit : w.addr.getLsbD 19 = true ↔ w.addr.toNat / 2 ^ 19 % 2 = 1 := by
    rw [BitVec.getLsbD, Nat.testBit_eq_decide_div_mod_eq, decide_eq_true_eq]
  have hcarries (p : Nat) (hp : p < 512 * 384) :
      carries w (VRAM_BASE + BitVec.ofNat 32 p) = true ↔
      w.addr.toNat / 4 = (0x50000000 + p) / 4 ∧ w.strb.getLsbD (p % 4) = true := by
    have haddr : (VRAM_BASE + BitVec.ofNat 32 p).toNat = 0x50000000 + p := by
      rw [BitVec.toNat_add, BitVec.toNat_ofNat]
      change (0x50000000 + p % 2 ^ 32) % 2 ^ 32 = _
      omega
    rw [carries_iff, haddr]
    have hmod : (0x50000000 + p) % 4 = p % 4 := by omega
    rw [hmod]
  rw [hbit]
  constructor
  · rintro hown ⟨hsamples, hhigh⟩
    obtain ⟨hbase, hlow, hstrb⟩ := (samples_iff w).mp hsamples
    obtain ⟨k, hk, hlane⟩ : ∃ k, k < 4 ∧ w.strb.getLsbD k = true := by
      by_contra hnone
      push Not at hnone
      exact hstrb (BitVec.eq_of_getLsbD_eq fun k hk => by simpa using hnone k hk)
    -- The write also reaches the pixel of the address without bit 19.
    have hp : w.addr.toNat % 2 ^ 18 / 4 * 4 + k < 2 ^ 18 := by omega
    have hval := hown ⟨fun _ => ~~~w.data, 0, 0, 0, false⟩ _ hp
    have hmod : (w.addr.toNat % 2 ^ 18 / 4 * 4 + k) % 4 = k := by omega
    rw [pixelByte_write _ hsamples hp, if_pos ⟨by omega, by rw [hmod]; exact hlane⟩,
      if_neg (fun hand => by
        have hword := ((hcarries _ hand.1).mp hand.2).1
        omega)] at hval
    exact writeByte_ne w _ hval
  · intro hnot v p hp
    cases hsamples : samples w with
    | true =>
      obtain ⟨hbase, hlow, -⟩ := (samples_iff w).mp hsamples
      have hlow19 : ¬ w.addr.toNat / 2 ^ 19 % 2 = 1 := fun hhigh => hnot ⟨hsamples, hhigh⟩
      rw [pixelByte_write v hsamples hp]
      refine if_congr ?_ rfl rfl
      constructor
      · rintro ⟨hword, hlane⟩
        have hlt : p < 512 * 384 := by omega
        exact ⟨hlt, (hcarries p hlt).mpr ⟨by omega, hlane⟩⟩
      · rintro ⟨hlt, hc⟩
        obtain ⟨hword, hlane⟩ := (hcarries p hlt).mp hc
        exact ⟨by omega, hlane⟩
    | false =>
      have hkeep : (v.write w).fb = v.fb := by
        unfold Vram.write
        rw [hsamples]
        rfl
      rw [hkeep, if_neg]
      rintro ⟨hlt, hc⟩
      obtain ⟨hword, hlane⟩ := (hcarries p hlt).mp hc
      have hyes := (samples_iff w).mpr ⟨by omega, by omega, ?_⟩
      · exact Bool.false_ne_true (hsamples.symm.trans hyes)
      rintro hzero
      rw [hzero] at hlane
      simp at hlane

namespace Pixels

/-- The colour at a visible position is that of its pixel if and only if the position is not one of
the first two of its line, the pixel before has the same colour, and the frame buffer was written
four clocks before. A write changes the byte of its own address alone if and only if it is not one
that the decoder takes for the frame buffer with bit 19 of its address set. -/
theorem display_exact (s : Pixels) (hstart : s.AtStart) :
    (∀ (cycles : List PixelIn) (a b c d : PixelIn) (fb : BitVec 16 → BitVec 32),
      (s.run (cycles ++ [a, b, c, d])).de = true →
        ((s.run (cycles ++ [a, b, c, d])).rgb_q =
            color8_to_rgb (pixelByte fb (s.run (cycles ++ [a, b, c, d])).pixel) ↔
          2 ≤ (s.run (cycles ++ [a, b, c, d])).sx ∧ a.has_written_q = true ∧
            color8_to_rgb (pixelByte c.fb ((s.run (cycles ++ [a, b, c, d])).pixel - 1)) =
              color8_to_rgb (pixelByte fb (s.run (cycles ++ [a, b, c, d])).pixel))) ∧
      ∀ w, WritesOwn w ↔ ¬ (samples w = true ∧ w.addr.getLsbD 19 = true) :=
  ⟨fun cycles a b c d fb hde => shows_iff hstart cycles a b c d fb hde, writesOwn_iff⟩

def frameStart : Pixels := ⟨H_STA, V_STA, 0, 0, false, true, 0, 0, false, false, 0⟩

/-- A frame buffer of one word over and over. -/
def filled (word : BitVec 32) : PixelIn := ⟨fun _ => word, true⟩

/-- The run that ends at the seventh position of the first line. -/
def toSeventh (word : BitVec 32) : List PixelIn :=
  List.replicate 51394 (filled word) ++ [filled word, filled word, filled word, filled word]

theorem seventh (word : BitVec 32) : (frameStart.run (toSeventh word)).sx = 6 ∧
    (frameStart.run (toSeventh word)).sy = 0 := by
  have hstart : InRange frameStart := AtStart.inRange ⟨rfl, rfl⟩
  have hlen : (toSeventh word).length = 51398 := by
    unfold toSeventh
    rw [List.length_append, List.length_replicate]
    rfl
  have hbeam := beam_run hstart (toSeventh word) (by
    rw [hlen]
    decide)
  obtain ⟨h1, h2, h3, h4⟩ := inRange_run hstart (toSeventh word)
  rw [hlen, show beam frameStart = 0 from rfl] at hbeam
  unfold beam at hbeam
  omega

theorem display_exact_filled :
    (frameStart.run (toSeventh 0x07070707)).rgb_q =
      color8_to_rgb
        (pixelByte (filled 0x07070707).fb (frameStart.run (toSeventh 0x07070707)).pixel) := by
  obtain ⟨hx, hy⟩ := seventh 0x07070707
  have hde : (frameStart.run (toSeventh 0x07070707)).de = true := by
    unfold de
    rw [hx, hy]
    decide
  have hpixel : (frameStart.run (toSeventh 0x07070707)).pixel = 3 := by
    unfold pixel
    rw [hx, hy]
    decide
  apply ((display_exact frameStart ⟨rfl, rfl⟩).1 _ _ _ _ _ _ hde).mpr
  unfold toSeventh at hx hpixel
  rw [hx, hpixel]
  exact ⟨by decide, rfl, by decide⟩

/-- With one byte a pixel the seventh position still has the colour of the third pixel, and a write
behind the frame buffer shows up inside it. -/
theorem pixel_behind :
    ((frameStart.run (toSeventh 0x03020100)).de = true ∧
      (frameStart.run (toSeventh 0x03020100)).rgb_q ≠
        color8_to_rgb
          (pixelByte (filled 0x03020100).fb (frameStart.run (toSeventh 0x03020100)).pixel)) ∧
      ¬ WritesOwn ⟨0, 0x50080000, 0x11, 1⟩ := by
  obtain ⟨hx, hy⟩ := seventh 0x03020100
  have hde : (frameStart.run (toSeventh 0x03020100)).de = true := by
    unfold de
    rw [hx, hy]
    decide
  have hpixel : (frameStart.run (toSeventh 0x03020100)).pixel = 3 := by
    unfold pixel
    rw [hx, hy]
    decide
  refine ⟨⟨hde, fun heq => ?_⟩, fun hown => ?_⟩
  · obtain ⟨-, -, hcolour⟩ := (shows_iff ⟨rfl, rfl⟩ _ _ _ _ _ _ hde).mp heq
    unfold toSeventh at hpixel
    rw [hpixel] at hcolour
    revert hcolour
    decide
  · exact (writesOwn_iff _).mp hown (by decide)

end Pixels

end vibeos.fpga
