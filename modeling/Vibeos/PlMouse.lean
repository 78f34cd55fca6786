-- pl_mouse_mmio.v: the state of the mouse between the debug port, which writes it, and the
-- CPU, which reads and writes it over AXI, as one clock edge after the other.
import Vibeos.PlConsole

namespace vibeos.fpga

structure Mouse where
  bvalid_q : Bool
  bid_q : BitVec 4
  rvalid_q : Bool
  rid_q : BitVec 4
  rdata_q : BitVec 32
  aw_full_q : Bool
  awaddr_q : BitVec 32
  awid_q : BitVec 4
  w_full_q : Bool
  wdata_q : BitVec 32
  wstrb_q : BitVec 4
  mouse_x_q : BitVec 16
  mouse_y_q : BitVec 16
  mouse_buttons_q : BitVec 8
  mouse_wheel_q : BitVec 8
  mouse_seq_q : BitVec 16
  debug_q : BitVec 3 → BitVec 32

structure DebugWrite where
  addr : BitVec 8
  data : BitVec 32

structure MouseIn where
  dbg : Option DebugWrite
  axi : BusMaster

namespace Mouse

def reset : Mouse where
  bvalid_q := false
  bid_q := 0
  rvalid_q := false
  rid_q := 0
  rdata_q := 0
  aw_full_q := false
  awaddr_q := 0
  awid_q := 0
  w_full_q := false
  wdata_q := 0
  wstrb_q := 0
  mouse_x_q := 256
  mouse_y_q := 192
  mouse_buttons_q := 0
  mouse_wheel_q := 0
  mouse_seq_q := 1
  debug_q := fun _ => 0

/-! ## The wires -/

def s_axi_awready (c : Mouse) : Bool := !c.bvalid_q && !c.aw_full_q
def s_axi_wready (c : Mouse) : Bool := !c.bvalid_q && !c.w_full_q
def s_axi_arready (c : Mouse) : Bool := !c.rvalid_q
def aw_accept_w (c : Mouse) (m : BusMaster) : Bool := c.s_axi_awready && m.awvalid
def w_accept_w (c : Mouse) (m : BusMaster) : Bool := c.s_axi_wready && m.wvalid

def wr_fire_w (c : Mouse) (m : BusMaster) : Bool :=
  !c.bvalid_q && (c.aw_full_q || c.aw_accept_w m) && (c.w_full_q || c.w_accept_w m)

def performs (c : Mouse) (m : BusMaster) : Option BusWrite :=
  if c.wr_fire_w m then
    some {
      id := if c.aw_full_q then c.awid_q else m.awid
      addr := if c.aw_full_q then c.awaddr_q else m.awaddr
      data := if c.w_full_q then c.wdata_q else m.wdata
      strb := if c.w_full_q then c.wstrb_q else m.wstrb }
  else none

def clamp_coord (v : BitVec 32) (max_v : BitVec 16) : BitVec 16 :=
  if max_v.setWidth 32 < v then max_v else v.setWidth 16

/-! ## The clock edge

`c` are the registers before the clock edge and `n` those that the edge leaves so far. -/

def dbg_write (c n : Mouse) (w : DebugWrite) : Mouse :=
  let reg : BitVec 6 := w.addr.extractLsb' 2 6
  if reg = 0x2c then
    { n with mouse_x_q := clamp_coord w.data 511, mouse_seq_q := c.mouse_seq_q + 1 }
  else if reg = 0x2d then
    { n with mouse_y_q := clamp_coord w.data 383, mouse_seq_q := c.mouse_seq_q + 1 }
  else if reg = 0x2e then
    { n with mouse_buttons_q := w.data.setWidth 8, mouse_seq_q := c.mouse_seq_q + 1 }
  else if reg = 0x2f then
    { n with mouse_wheel_q := w.data.setWidth 8, mouse_seq_q := c.mouse_seq_q + 1 }
  else if reg = 0x30 then
    { n with
      mouse_buttons_q := w.data.extractLsb' 24 8
      mouse_wheel_q := w.data.extractLsb' 16 8
      mouse_y_q := clamp_coord ((w.data.extractLsb' 8 8).setWidth 32) 383
      mouse_x_q := clamp_coord ((w.data.extractLsb' 0 8).setWidth 32) 511
      mouse_seq_q := c.mouse_seq_q + 1 }
  else n

def dbg (c : Mouse) (i : MouseIn) : Mouse :=
  match i.dbg with
  | some w => dbg_write c c w
  | none => c

/-- The address and the data of a write, each kept until the other has come. -/
def accept (c n : Mouse) (m : BusMaster) : Mouse :=
  let n :=
    if c.aw_accept_w m then
      { n with aw_full_q := true, awaddr_q := m.awaddr, awid_q := m.awid }
    else n
  if c.w_accept_w m then { n with w_full_q := true, wdata_q := m.wdata, wstrb_q := m.wstrb }
  else n

def mmio_write (c n : Mouse) (w : BusWrite) : Mouse :=
  let reg : BitVec 4 := w.addr.extractLsb' 2 4
  if w.strb = 0 then n
  else if reg = 1 then
    { n with mouse_x_q := clamp_coord w.data 511, mouse_seq_q := c.mouse_seq_q + 1 }
  else if reg = 2 then
    { n with mouse_y_q := clamp_coord w.data 383, mouse_seq_q := c.mouse_seq_q + 1 }
  else if reg = 3 then
    { n with mouse_buttons_q := w.data.setWidth 8, mouse_seq_q := c.mouse_seq_q + 1 }
  else if reg = 4 then
    { n with mouse_wheel_q := w.data.setWidth 8, mouse_seq_q := c.mouse_seq_q + 1 }
  else if 8 ≤ reg then
    { n with debug_q := fun k => if k = reg.setWidth 3 then w.data else n.debug_q k }
  else n

def write (c : Mouse) (m : BusMaster) (n : Mouse) : Mouse :=
  match c.performs m with
  | some w =>
    mmio_write c { n with bid_q := w.id, bvalid_q := true, aw_full_q := false, w_full_q := false } w
  | none => if c.bvalid_q && m.bready then { n with bvalid_q := false } else n

def packed (c : Mouse) : BitVec 32 := c.mouse_buttons_q ++ c.mouse_wheel_q ++ c.mouse_seq_q

def mmio_read (c : Mouse) (addr : BitVec 32) : BitVec 32 :=
  let reg : BitVec 4 := addr.extractLsb' 2 4
  if reg = 0 then 0x4d4f5553
  else if reg = 1 then 0#16 ++ c.mouse_x_q
  else if reg = 2 then 0#16 ++ c.mouse_y_q
  else if reg = 3 then 0#24 ++ c.mouse_buttons_q
  else if reg = 4 then c.mouse_wheel_q.signExtend 32
  else if reg = 5 then 0#16 ++ c.mouse_seq_q
  else if reg = 6 then c.mouse_y_q ++ c.mouse_x_q
  else if reg = 7 then c.packed
  else c.debug_q (reg.setWidth 3)

/-- A read of this address empties the wheel. -/
def clears (addr : BitVec 32) : Bool :=
  addr.extractLsb' 2 4 = 4#4 || addr.extractLsb' 2 4 = 7#4

def read (c : Mouse) (m : BusMaster) (n : Mouse) : Mouse :=
  if m.arvalid && !c.rvalid_q then
    let n := { n with rid_q := m.arid, rvalid_q := true, rdata_q := c.mmio_read m.araddr }
    if clears m.araddr then { n with mouse_wheel_q := 0 } else n
  else if c.rvalid_q && m.rready then { n with rvalid_q := false }
  else n

def step (c : Mouse) (i : MouseIn) : Mouse :=
  c.read i.axi (c.write i.axi (accept c (c.dbg i) i.axi))

end Mouse

end vibeos.fpga
