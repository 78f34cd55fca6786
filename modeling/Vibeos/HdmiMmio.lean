-- vibe_hdmi_mmio.v and display_timings.v, one clock edge after the other: the AXI slave in front of
-- the frame buffer, and the pixel clock, which reads the frame buffer for the beam position through
-- two registers, while the encoder has the position itself.
import Vibeos.PlConsole

namespace vibeos.fpga

def VGA_REG_BASE : BitVec 32 := 0x40000000#32
def VRAM_BASE : BitVec 32 := 0x50000000#32

/-- What writes leave behind: the frame buffer, and the registers that record the last write. -/
structure Vram where
  fb : BitVec 16 → BitVec 32
  write_count_q : BitVec 32
  last_write_addr_q : BitVec 32
  last_write_data_q : BitVec 32
  has_written_q : Bool

structure Hdmi where
  awaddr_q : BitVec 32
  awready_q : Bool
  wready_q : Bool
  bvalid_q : Bool
  bid_q : BitVec 4
  rvalid_q : Bool
  rid_q : BitVec 4
  rdata_q : BitVec 32
  vram : Vram

/-! ## Writes -/

/-- A write that changes the frame buffer, `vram_sample_write_w`. -/
def samples (w : BusWrite) : Bool :=
  w.addr &&& 0xfff00000#32 = VRAM_BASE && w.addr.setWidth 19 < 0x30000#19 && w.strb ≠ 0

/-- The word of the frame buffer with the bytes of a write. -/
def sampleWord (old data : BitVec 32) (strb : BitVec 4) : BitVec 32 :=
  let byte (i : Nat) : BitVec 8 :=
    if strb.getLsbD i then data.extractLsb' (8 * i) 8 else old.extractLsb' (8 * i) 8
  byte 3 ++ byte 2 ++ byte 1 ++ byte 0

def Vram.write (v : Vram) (w : BusWrite) : Vram :=
  let v := { v with last_write_addr_q := w.addr, last_write_data_q := w.data }
  if samples w then
    let place : BitVec 16 := w.addr.extractLsb' 2 16
    { v with
      fb := fun a => if a = place then sampleWord (v.fb place) w.data w.strb else v.fb a
      write_count_q := v.write_count_q + 1
      has_written_q := true }
  else v

namespace Hdmi

def reset (fb : BitVec 16 → BitVec 32) : Hdmi :=
  ⟨0, true, true, false, 0, false, 0, 0, ⟨fb, 0, 0, 0, false⟩⟩

def performs (h : Hdmi) (m : BusMaster) : Option BusWrite :=
  if m.awvalid && m.wvalid && h.awready_q then some ⟨m.awid, m.awaddr, m.wdata, m.wstrb⟩ else none

/-! ## Reads -/

def mmio_read (h : Hdmi) (addr : BitVec 32) : BitVec 32 :=
  if addr &&& 0xffff0000#32 = VGA_REG_BASE then
    let reg : BitVec 6 := addr.extractLsb' 2 6
    if reg = 0 then 0x56474148
    else if reg = 1 then 512
    else if reg = 2 then 384
    else if reg = 3 then h.vram.write_count_q
    else if reg = 4 then h.vram.last_write_addr_q
    else if reg = 5 then h.vram.last_write_data_q
    else 0
  else 0

/-! ## The clock edge -/

def writePath (h : Hdmi) (m : BusMaster) : Hdmi :=
  match h.performs m with
  | some w =>
    { h with
      awready_q := false
      wready_q := false
      bvalid_q := true
      bid_q := w.id
      awaddr_q := w.addr
      vram := h.vram.write w }
  | none =>
    if m.bready && h.bvalid_q then { h with bvalid_q := false, awready_q := true, wready_q := true }
    else h

/-- `h` are the registers before the clock edge, `n` those with the write path done. -/
def readPath (h : Hdmi) (m : BusMaster) (n : Hdmi) : Hdmi :=
  if m.arvalid && !h.rvalid_q then
    { n with rvalid_q := true, rid_q := m.arid, rdata_q := h.mmio_read m.araddr }
  else if m.rready then { n with rvalid_q := false }
  else n

def step (h : Hdmi) (m : BusMaster) : Hdmi := readPath h m (writePath h m)

end Hdmi

/-! ## Colours -/

def palette : List (BitVec 24) :=
  [0x08090b, 0x101113, 0x16181b, 0x1d2024, 0x25292e, 0x2e3338, 0x383e44, 0x43494f,
    0x4e555b, 0x5a6168, 0x676e76, 0x767d85, 0x868d95, 0x989ea5, 0xb3b8bd, 0xf0f2f4]

def color8_to_rgb (c : BitVec 8) : BitVec 24 :=
  if c < 16 then palette.getD (c.extractLsb' 0 4).toNat 0
  else
    let r : BitVec 8 := c.extractLsb' 5 3 ++ c.extractLsb' 5 3 ++ c.extractLsb' 6 2
    let g : BitVec 8 := c.extractLsb' 2 3 ++ c.extractLsb' 2 3 ++ c.extractLsb' 3 2
    let b : BitVec 8 :=
      c.extractLsb' 0 2 ++ c.extractLsb' 0 2 ++ c.extractLsb' 0 2 ++ c.extractLsb' 0 2
    r ++ g ++ b

theorem color8_to_rgb_ne (c : BitVec 8) :
    color8_to_rgb c ≠ 0 ∧ (color8_to_rgb c).extractLsb' 0 8 ≠ 0x40#8 := by
  revert c
  decide +kernel

/-! ## The beam -/

def H_STA : Int := -320
def V_STA : Int := -38
def HA_END : Int := 1023
def VA_END : Int := 767

/-- The frame buffer at an edge of the pixel clock, and whether it was ever written. -/
structure PixelIn where
  fb : BitVec 16 → BitVec 32
  has_written_q : Bool

structure Pixels where
  sx : Int
  sy : Int
  rd_word_q : BitVec 32
  rd_byte_sel_q : BitVec 2
  visible_q : Bool
  empty_pattern_q : Bool
  sx_q : Int
  sy_q : Int
  has_written_meta_q : Bool
  has_written_pix_q : Bool
  rgb_q : BitVec 24

namespace Pixels

def AtStart (s : Pixels) : Prop := s.sx = H_STA ∧ s.sy = V_STA

def de (s : Pixels) : Bool := s.sx ≥ 0 && s.sy ≥ 0

def visible_w (s : Pixels) : Bool := s.de && s.sx ≥ 0 && s.sy ≥ 0 && s.sx < 1024 && s.sy < 768

def rd_x_w (s : Pixels) : BitVec 9 := BitVec.ofInt 9 (s.sx / 2)
def rd_y_w (s : Pixels) : BitVec 9 := BitVec.ofInt 9 (s.sy / 2)
def rd_word_idx_w (s : Pixels) : BitVec 16 := s.rd_y_w ++ s.rd_x_w.extractLsb' 2 7
def rd_byte_sel_w (s : Pixels) : BitVec 2 := s.rd_x_w.extractLsb' 0 2

def step (s : Pixels) (i : PixelIn) : Pixels where
  sx := if s.sx = HA_END then H_STA else s.sx + 1
  sy := if s.sx = HA_END then if s.sy = VA_END then V_STA else s.sy + 1 else s.sy
  rd_word_q := i.fb s.rd_word_idx_w
  rd_byte_sel_q := s.rd_byte_sel_w
  visible_q := s.visible_w
  has_written_meta_q := i.has_written_q
  has_written_pix_q := s.has_written_meta_q
  empty_pattern_q := !s.has_written_pix_q
  sx_q := s.sx
  sy_q := s.sy
  rgb_q :=
    if !s.visible_q then 0
    else if s.empty_pattern_q then BitVec.ofInt 8 s.sx_q ++ BitVec.ofInt 8 s.sy_q ++ 0x40#8
    else color8_to_rgb (s.rd_word_q.extractLsb' (8 * s.rd_byte_sel_q.toNat) 8)

def run (s : Pixels) (cycles : List PixelIn) : Pixels := cycles.foldl step s

end Pixels

/-! ## The frame buffer as bytes -/

def pixelByte (fb : BitVec 16 → BitVec 32) (p : Nat) : BitVec 8 :=
  (fb (BitVec.ofNat 16 (p / 4))).extractLsb' (8 * (p % 4)) 8

/-- The write has a byte for this address. -/
def carries (w : BusWrite) (addr : BitVec 32) : Bool :=
  w.addr &&& 0xfffffffc#32 = addr &&& 0xfffffffc#32 && w.strb.getLsbD (addr.extractLsb' 0 2).toNat

end vibeos.fpga
