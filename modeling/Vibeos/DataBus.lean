-- riscv_ps_ddr_top.v, the data bus of the CPU: the address decode, the routes of a write and of a
-- read to the five slaves, the buffers of the IOP port, and the response multiplexers.
import Vibeos.BurstLink

namespace vibeos.fpga

/-! ## Channels -/

/-- The payload of a write address or read address channel. -/
structure BusAddr where
  addr : BitVec 32
  id : BitVec 4
  len : BitVec 8
  burst : BitVec 2
deriving DecidableEq

structure BusBeat where
  data : BitVec 32
  strb : BitVec 4
  last : Bool
deriving DecidableEq

structure BusResp where
  id : BitVec 4
  resp : BitVec 2
deriving DecidableEq

structure BusData where
  id : BitVec 4
  data : BitVec 32
  resp : BitVec 2
  last : Bool
deriving DecidableEq

structure MasterSide where
  awvalid : Bool
  aw : BusAddr
  wvalid : Bool
  w : BusBeat
  bready : Bool
  arvalid : Bool
  ar : BusAddr
  rready : Bool

structure SlaveSide where
  awready : Bool
  wready : Bool
  bvalid : Bool
  b : BusResp
  arready : Bool
  rvalid : Bool
  r : BusData

inductive BusPort where
  | ddr
  | iop
  | console
  | mouse
  | video
deriving DecidableEq

/-- The inputs of the bus in a cycle: the `cpu_axi_d` outputs of the CPU, and the slaves. -/
structure BusIn where
  cpu : MasterSide
  slave : BusPort → SlaveSide

/-! ## Address decode -/

def console_sel (addr : BitVec 32) : Bool :=
  addr &&& 0xfffffff0 = 0x10000000 || addr &&& 0xffff0000 = 0x02000000 ||
    addr &&& 0xff000000 = 0x0c000000

def mouse_sel (addr : BitVec 32) : Bool := addr &&& 0xfffff000 = 0x10004000

def video_sel (addr : BitVec 32) : Bool :=
  addr &&& 0xffff0000 = 0x40000000 || addr &&& 0xfff00000 = 0x50000000

def mmio_sel (addr : BitVec 32) : Bool := console_sel addr || mouse_sel addr || video_sel addr

def ps_iop_sel (addr : BitVec 32) : Bool :=
  addr &&& 0xff000000 = 0xe0000000 || addr &&& 0xff000000 = 0xf8000000

def DDR_CACHE_MIN : BitVec 32 := 0x80000000
def DDR_CACHE_MAX : BitVec 32 := 0xbfffffff
def PS_DDR_REMAP_BASE : BitVec 32 := 0x80000000
def PS_DDR_PHYS_BASE : BitVec 32 := 0x01000000

def remap_ps_ddr_addr (addr : BitVec 32) : BitVec 32 :=
  if addr ≥ DDR_CACHE_MIN && addr ≤ DDR_CACHE_MAX then addr - PS_DDR_REMAP_BASE + PS_DDR_PHYS_BASE
  else addr

def selected (addr : BitVec 32) : BusPort :=
  if video_sel addr then .video
  else if mouse_sel addr then .mouse
  else if console_sel addr then .console
  else if ps_iop_sel addr then .iop
  else .ddr

theorem masked_ne {a m m' c c' : BitVec 32} (h : a &&& m = c) (hne : c &&& m' ≠ c' &&& m) :
    a &&& m' ≠ c' := by
  rintro rfl
  apply hne
  rw [← h, BitVec.and_assoc, BitVec.and_assoc, BitVec.and_comm m m']

theorem video_sel_iff (addr : BitVec 32) : video_sel addr = true ↔ selected addr = .video := by
  unfold selected
  split_ifs <;> simp_all

theorem mouse_not_video {addr : BitVec 32} (h : mouse_sel addr = true) :
    video_sel addr = false := by
  unfold mouse_sel at h
  unfold video_sel
  rw [decide_eq_true_eq] at h
  rw [decide_eq_false (masked_ne h (by decide)), decide_eq_false (masked_ne h (by decide))]
  rfl

theorem mouse_sel_iff (addr : BitVec 32) : mouse_sel addr = true ↔ selected addr = .mouse := by
  have hnot := @mouse_not_video addr
  unfold selected
  split_ifs <;> simp_all

theorem console_not_other {addr : BitVec 32} (h : console_sel addr = true) :
    video_sel addr = false ∧ mouse_sel addr = false := by
  unfold console_sel at h
  unfold video_sel mouse_sel
  rw [Bool.or_eq_true, Bool.or_eq_true, decide_eq_true_eq, decide_eq_true_eq,
    decide_eq_true_eq] at h
  rcases h with (h | h) | h <;>
    rw [decide_eq_false (masked_ne h (by decide)), decide_eq_false (masked_ne h (by decide)),
      decide_eq_false (masked_ne h (by decide))] <;> exact ⟨rfl, rfl⟩

theorem console_sel_iff (addr : BitVec 32) :
    console_sel addr = true ↔ selected addr = .console := by
  have hnot := @console_not_other addr
  unfold selected
  split_ifs <;> simp_all

theorem iop_not_mmio {addr : BitVec 32} (h : ps_iop_sel addr = true) :
    video_sel addr = false ∧ mouse_sel addr = false ∧ console_sel addr = false := by
  unfold ps_iop_sel at h
  unfold video_sel mouse_sel console_sel
  rw [Bool.or_eq_true, decide_eq_true_eq, decide_eq_true_eq] at h
  rcases h with h | h <;>
    rw [decide_eq_false (masked_ne h (by decide)), decide_eq_false (masked_ne h (by decide)),
      decide_eq_false (masked_ne h (by decide)), decide_eq_false (masked_ne h (by decide)),
      decide_eq_false (masked_ne h (by decide)), decide_eq_false (masked_ne h (by decide))] <;>
    exact ⟨rfl, rfl, rfl⟩

theorem ps_iop_sel_iff (addr : BitVec 32) : ps_iop_sel addr = true ↔ selected addr = .iop := by
  have hnot := @iop_not_mmio addr
  unfold selected
  split_ifs <;> simp_all

theorem sels_eq (addr : BitVec 32) :
    video_sel addr = decide (selected addr = .video) ∧
      mouse_sel addr = decide (selected addr = .mouse) ∧
      console_sel addr = decide (selected addr = .console) ∧
      ps_iop_sel addr = decide (selected addr = .iop) ∧
      mmio_sel addr = decide (selected addr ≠ .ddr ∧ selected addr ≠ .iop) := by
  have hvideo := Bool.eq_iff_iff.mpr ((video_sel_iff addr).trans decide_eq_true_iff.symm)
  have hmouse := Bool.eq_iff_iff.mpr ((mouse_sel_iff addr).trans decide_eq_true_iff.symm)
  have hconsole := Bool.eq_iff_iff.mpr ((console_sel_iff addr).trans decide_eq_true_iff.symm)
  refine ⟨hvideo, hmouse, hconsole,
    Bool.eq_iff_iff.mpr ((ps_iop_sel_iff addr).trans decide_eq_true_iff.symm), ?_⟩
  unfold mmio_sel
  rw [hvideo, hmouse, hconsole]
  cases selected addr <;> rfl

/-! ## The bus -/

structure DataBus where
  d_aw_pending_q : Bool
  d_aw_mmio_q : Bool
  d_aw_iop_q : Bool
  d_aw_video_q : Bool
  d_aw_mouse_q : Bool
  d_awlen_q : BitVec 8
  d_w_count_q : BitVec 8
  ddr_awvalid_q : Bool
  ddr_aw_q : BusAddr
  iop_aw_buf_valid_q : Bool
  iop_w_buf_valid_q : Bool
  iop_aw_sent_q : Bool
  iop_w_sent_q : Bool
  iop_aw_q : BusAddr
  iop_w_q : BusBeat
  d_ar_pending_q : Bool
  d_ar_mmio_q : Bool
  d_ar_iop_q : Bool
  d_ar_video_q : Bool
  d_ar_mouse_q : Bool

namespace DataBus

def reset : DataBus where
  d_aw_pending_q := false
  d_aw_mmio_q := false
  d_aw_iop_q := false
  d_aw_video_q := false
  d_aw_mouse_q := false
  d_awlen_q := 0
  d_w_count_q := 0
  ddr_awvalid_q := false
  ddr_aw_q := ⟨0, 0, 0, 0⟩
  iop_aw_buf_valid_q := false
  iop_w_buf_valid_q := false
  iop_aw_sent_q := false
  iop_w_sent_q := false
  iop_aw_q := ⟨0, 0, 0, 0⟩
  iop_w_q := ⟨0, 0, false⟩
  d_ar_pending_q := false
  d_ar_mmio_q := false
  d_ar_iop_q := false
  d_ar_video_q := false
  d_ar_mouse_q := false

section Wires

variable (s : DataBus) (i : BusIn)

def d_aw_route_mmio_w : Bool :=
  if s.d_aw_pending_q then s.d_aw_mmio_q else mmio_sel i.cpu.aw.addr
def d_ar_route_mmio_w : Bool :=
  if s.d_ar_pending_q then s.d_ar_mmio_q else mmio_sel i.cpu.ar.addr
def d_aw_route_iop_w : Bool :=
  if s.d_aw_pending_q then s.d_aw_iop_q else ps_iop_sel i.cpu.aw.addr
def d_ar_route_iop_w : Bool :=
  if s.d_ar_pending_q then s.d_ar_iop_q else ps_iop_sel i.cpu.ar.addr
def d_aw_route_video_w : Bool :=
  if s.d_aw_pending_q then s.d_aw_video_q else video_sel i.cpu.aw.addr
def d_ar_route_video_w : Bool :=
  if s.d_ar_pending_q then s.d_ar_video_q else video_sel i.cpu.ar.addr
def d_aw_route_mouse_w : Bool :=
  if s.d_aw_pending_q then s.d_aw_mouse_q else mouse_sel i.cpu.aw.addr
def d_ar_route_mouse_w : Bool :=
  if s.d_ar_pending_q then s.d_ar_mouse_q else mouse_sel i.cpu.ar.addr
def d_aw_route_console_w : Bool :=
  s.d_aw_route_mmio_w i && !s.d_aw_route_video_w i && !s.d_aw_route_mouse_w i
def d_ar_route_console_w : Bool :=
  s.d_ar_route_mmio_w i && !s.d_ar_route_video_w i && !s.d_ar_route_mouse_w i
def d_aw_route_ddr_w : Bool := !s.d_aw_route_mmio_w i && !s.d_aw_route_iop_w i
def d_ar_route_ddr_w : Bool := !s.d_ar_route_mmio_w i && !s.d_ar_route_iop_w i

def ddr_write_idle_w : Bool := !s.ddr_awvalid_q && !s.d_aw_pending_q
def ddr_write_accept_w : Bool :=
  i.cpu.awvalid && i.cpu.wvalid && s.d_aw_route_ddr_w i && s.ddr_write_idle_w

def d_active_awlen_w : BitVec 8 := if s.d_aw_pending_q then s.d_awlen_q else i.cpu.aw.len
def d_ddr_wlast_gen_w : Bool := s.d_aw_route_ddr_w i && s.d_w_count_q = s.d_active_awlen_w i
def d_ddr_wlast_w : Bool := i.cpu.w.last || s.d_ddr_wlast_gen_w i

def iop_aw_capture_w : Bool :=
  i.cpu.awvalid && ps_iop_sel i.cpu.aw.addr && !s.iop_aw_buf_valid_q && !s.iop_w_buf_valid_q
def iop_w_capture_w : Bool :=
  i.cpu.wvalid && (s.d_aw_route_iop_w i || ps_iop_sel i.cpu.aw.addr) &&
    (s.iop_aw_buf_valid_q || s.iop_aw_capture_w i) && !s.iop_w_buf_valid_q
def iop_write_ready_w : Bool := s.iop_aw_buf_valid_q && s.iop_w_buf_valid_q

def ddr_aw_hold_w : Bool :=
  s.ddr_awvalid_q && s.d_aw_pending_q && s.d_aw_route_ddr_w i && i.cpu.wvalid &&
    !(i.slave .ddr).awready

end Wires

/-- The address as it goes to the DDR port. -/
def remapped (a : BusAddr) : BusAddr := { a with addr := remap_ps_ddr_addr a.addr }

/-- The address as it goes to a port for single beats. -/
def single (a : BusAddr) : BusAddr := { a with len := 0, burst := 1 }

/-- What the bus drives towards a slave. The three MMIO slaves have no length and no burst type. -/
def toSlave (s : DataBus) (i : BusIn) : BusPort → MasterSide
  | .ddr =>
    { awvalid := (i.cpu.awvalid && s.d_aw_route_ddr_w i && i.cpu.wvalid) || s.ddr_aw_hold_w i
      aw := if s.ddr_aw_hold_w i then s.ddr_aw_q else remapped i.cpu.aw
      wvalid := i.cpu.wvalid && s.d_aw_route_ddr_w i
      w := { i.cpu.w with last := s.d_ddr_wlast_w i }
      bready := i.cpu.bready && s.d_aw_route_ddr_w i
      arvalid := i.cpu.arvalid && s.d_ar_route_ddr_w i
      ar := remapped i.cpu.ar
      rready := i.cpu.rready && s.d_ar_route_ddr_w i }
  | .iop =>
    { awvalid := s.iop_write_ready_w && !s.iop_aw_sent_q
      aw := single s.iop_aw_q
      wvalid := s.iop_write_ready_w && !s.iop_w_sent_q
      w := { s.iop_w_q with last := true }
      bready := i.cpu.bready && s.d_aw_route_iop_w i
      arvalid := i.cpu.arvalid && ps_iop_sel i.cpu.ar.addr
      ar := i.cpu.ar
      rready := i.cpu.rready && s.d_ar_route_iop_w i }
  | .console =>
    { awvalid := i.cpu.awvalid && console_sel i.cpu.aw.addr
      aw := single i.cpu.aw
      wvalid := i.cpu.wvalid && s.d_aw_route_console_w i
      w := i.cpu.w
      bready := i.cpu.bready && s.d_aw_route_console_w i
      arvalid := i.cpu.arvalid && console_sel i.cpu.ar.addr
      ar := single i.cpu.ar
      rready := i.cpu.rready && s.d_ar_route_mmio_w i && s.d_ar_route_console_w i }
  | .mouse =>
    { awvalid := i.cpu.awvalid && mouse_sel i.cpu.aw.addr
      aw := single i.cpu.aw
      wvalid := i.cpu.wvalid && s.d_aw_route_mouse_w i
      w := i.cpu.w
      bready := i.cpu.bready && s.d_aw_route_mouse_w i
      arvalid := i.cpu.arvalid && mouse_sel i.cpu.ar.addr
      ar := single i.cpu.ar
      rready := i.cpu.rready && s.d_ar_route_mmio_w i && s.d_ar_route_mouse_w i }
  | .video =>
    { awvalid := i.cpu.awvalid && video_sel i.cpu.aw.addr
      aw := single i.cpu.aw
      wvalid := i.cpu.wvalid && s.d_aw_route_video_w i
      w := i.cpu.w
      bready := i.cpu.bready && s.d_aw_route_video_w i
      arvalid := i.cpu.arvalid && video_sel i.cpu.ar.addr
      ar := single i.cpu.ar
      rready := i.cpu.rready && s.d_ar_route_mmio_w i && s.d_ar_route_video_w i }

def mmio_bvalid_w (i : BusIn) : Bool :=
  (i.slave .video).bvalid || (i.slave .mouse).bvalid || (i.slave .console).bvalid

def mmio_b_w (i : BusIn) : BusResp :=
  if (i.slave .video).bvalid then (i.slave .video).b
  else if (i.slave .mouse).bvalid then (i.slave .mouse).b
  else (i.slave .console).b

/-- The MMIO slave that an address or a route names. -/
def mmio (i : BusIn) (video mouse : Bool) : SlaveSide :=
  if video then i.slave .video else if mouse then i.slave .mouse else i.slave .console

def toCpu (s : DataBus) (i : BusIn) : SlaveSide :=
  let mmio_aw := mmio i (video_sel i.cpu.aw.addr) (mouse_sel i.cpu.aw.addr)
  let mmio_w := mmio i (s.d_aw_route_video_w i) (s.d_aw_route_mouse_w i)
  let mmio_ar := mmio i (video_sel i.cpu.ar.addr) (mouse_sel i.cpu.ar.addr)
  let mmio_r := mmio i (s.d_ar_route_video_w i) (s.d_ar_route_mouse_w i)
  { awready :=
      if mmio_sel i.cpu.aw.addr then mmio_aw.awready
      else if ps_iop_sel i.cpu.aw.addr then !s.iop_aw_buf_valid_q && !s.iop_w_buf_valid_q
      else (i.slave .ddr).awready
    wready :=
      if s.d_aw_route_mmio_w i then mmio_w.wready
      else if s.d_aw_route_iop_w i then
        !s.iop_w_buf_valid_q && (s.iop_aw_buf_valid_q || s.iop_aw_capture_w i)
      else (i.slave .ddr).wready
    bvalid :=
      if s.d_aw_route_mmio_w i then mmio_bvalid_w i
      else if s.d_aw_route_iop_w i then (i.slave .iop).bvalid
      else (i.slave .ddr).bvalid
    b :=
      if s.d_aw_route_mmio_w i then mmio_b_w i
      else if s.d_aw_route_iop_w i then (i.slave .iop).b
      else (i.slave .ddr).b
    arready :=
      if mmio_sel i.cpu.ar.addr then mmio_ar.arready
      else if ps_iop_sel i.cpu.ar.addr then (i.slave .iop).arready
      else (i.slave .ddr).arready
    rvalid :=
      if s.d_ar_route_mmio_w i then mmio_r.rvalid
      else if s.d_ar_route_iop_w i then (i.slave .iop).rvalid
      else (i.slave .ddr).rvalid
    r :=
      if s.d_ar_route_mmio_w i then mmio_r.r
      else if s.d_ar_route_iop_w i then (i.slave .iop).r
      else (i.slave .ddr).r }

def step (s : DataBus) (i : BusIn) : DataBus :=
  let cpu := s.toCpu i
  let d := s.toSlave i .ddr
  let iop := s.toSlave i .iop
  let awFires := i.cpu.awvalid && cpu.awready
  let bFires := cpu.bvalid && i.cpu.bready
  let arFires := i.cpu.arvalid && cpu.arready
  let rLast := cpu.rvalid && i.cpu.rready && cpu.r.last
  let dwFires := d.wvalid && (i.slave .ddr).wready
  let ddrEnds := (dwFires && d.w.last) || ((i.slave .ddr).bvalid && d.bready)
  let iopEnds := (i.slave .iop).bvalid && iop.bready
  let iop_awlen := if s.iop_aw_capture_w i then i.cpu.aw.len else s.iop_aw_q.len
  { d_aw_pending_q := if awFires then true else if bFires then false else s.d_aw_pending_q
    d_aw_mmio_q :=
      if awFires then mmio_sel i.cpu.aw.addr else if bFires then false else s.d_aw_mmio_q
    d_aw_iop_q :=
      if awFires then ps_iop_sel i.cpu.aw.addr else if bFires then false else s.d_aw_iop_q
    d_aw_video_q :=
      if awFires then video_sel i.cpu.aw.addr else if bFires then false else s.d_aw_video_q
    d_aw_mouse_q :=
      if awFires then mouse_sel i.cpu.aw.addr else if bFires then false else s.d_aw_mouse_q
    d_awlen_q := if awFires then i.cpu.aw.len else s.d_awlen_q
    d_w_count_q :=
      if dwFires then if d.w.last then 0 else s.d_w_count_q + 1
      else if awFires then 0 else s.d_w_count_q
    ddr_awvalid_q := if s.ddr_write_accept_w i then true
      else if ddrEnds then false else s.ddr_awvalid_q
    ddr_aw_q := if s.ddr_write_accept_w i then remapped i.cpu.aw else s.ddr_aw_q
    iop_aw_buf_valid_q :=
      if iopEnds then false else if s.iop_aw_capture_w i then true else s.iop_aw_buf_valid_q
    iop_w_buf_valid_q :=
      if iopEnds then false else if s.iop_w_capture_w i then true else s.iop_w_buf_valid_q
    iop_aw_sent_q :=
      if iopEnds then false else if iop.awvalid && (i.slave .iop).awready then true
      else if s.iop_aw_capture_w i then false else s.iop_aw_sent_q
    iop_w_sent_q :=
      if iopEnds then false else if iop.wvalid && (i.slave .iop).wready then true
      else if s.iop_w_capture_w i then false else s.iop_w_sent_q
    iop_aw_q := if s.iop_aw_capture_w i then i.cpu.aw else s.iop_aw_q
    iop_w_q :=
      if s.iop_w_capture_w i then { i.cpu.w with last := i.cpu.w.last || iop_awlen = 0 }
      else s.iop_w_q
    d_ar_pending_q := if arFires then true else if rLast then false else s.d_ar_pending_q
    d_ar_mmio_q := if arFires then mmio_sel i.cpu.ar.addr else s.d_ar_mmio_q
    d_ar_iop_q :=
      if arFires then ps_iop_sel i.cpu.ar.addr else if rLast then false else s.d_ar_iop_q
    d_ar_video_q :=
      if arFires then video_sel i.cpu.ar.addr else if rLast then false else s.d_ar_video_q
    d_ar_mouse_q :=
      if arFires then mouse_sel i.cpu.ar.addr else if rLast then false else s.d_ar_mouse_q }

end DataBus

/-! ## Runs -/

abbrev BusWriteSignals := Burst.WriteSignals BusAddr BusBeat BusResp
abbrev BusReadSignals := Burst.ReadSignals BusAddr BusData
abbrev BusWriteLink := Burst.WriteLink BusAddr BusBeat BusResp
abbrev BusReadLink := Burst.ReadLink BusAddr BusData

def writeSignals (m : MasterSide) (x : SlaveSide) : BusWriteSignals :=
  ⟨m.awvalid, m.aw, x.awready, m.wvalid, m.w, x.wready, x.bvalid, x.b, m.bready⟩

def readSignals (m : MasterSide) (x : SlaveSide) : BusReadSignals :=
  ⟨m.arvalid, m.ar, x.arready, x.rvalid, x.r, m.rready⟩

def writeFormat : Burst.WriteFormat BusAddr BusBeat BusResp where
  len a := a.len.toNat
  last w := w.last
  answers a b := b.id = a.id

def readFormat : Burst.ReadFormat BusAddr BusData where
  len a := a.len.toNat
  last r := r.last
  answers a r := r.id = a.id

/-- The bus in a run, with what went over its links. -/
structure BusRun where
  bus : DataBus
  cpuWrites : BusWriteLink
  cpuReads : BusReadLink
  portWrites : BusPort → BusWriteLink
  portReads : BusPort → BusReadLink

namespace BusRun

def start : BusRun :=
  ⟨DataBus.reset, .start, .start, fun _ => .start, fun _ => .start⟩

def cpuWrite (x : BusRun) (i : BusIn) : BusWriteSignals := writeSignals i.cpu (x.bus.toCpu i)
def cpuRead (x : BusRun) (i : BusIn) : BusReadSignals := readSignals i.cpu (x.bus.toCpu i)
def portWrite (x : BusRun) (i : BusIn) (p : BusPort) : BusWriteSignals :=
  writeSignals (x.bus.toSlave i p) (i.slave p)
def portRead (x : BusRun) (i : BusIn) (p : BusPort) : BusReadSignals :=
  readSignals (x.bus.toSlave i p) (i.slave p)

def cycle (x : BusRun) (i : BusIn) : BusRun where
  bus := x.bus.step i
  cpuWrites := x.cpuWrites.step (x.cpuWrite i)
  cpuReads := x.cpuReads.step readFormat (x.cpuRead i)
  portWrites p := (x.portWrites p).step (x.portWrite i p)
  portReads p := (x.portReads p).step readFormat (x.portRead i p)

def run (x : BusRun) (cycles : List BusIn) : BusRun := cycles.foldl cycle x

/-- The CPU and the slaves keep the rules of their links, and the CPU reads and writes single beats
where there is no memory. -/
structure Compliant (x : BusRun) (i : BusIn) : Prop where
  writes : x.cpuWrites.MasterOk writeFormat (x.cpuWrite i)
  reads : x.cpuReads.MasterOk (x.cpuRead i)
  single_write : i.cpu.awvalid = true → selected i.cpu.aw.addr ≠ .ddr → i.cpu.aw.len = 0
  single_read : i.cpu.arvalid = true → selected i.cpu.ar.addr ≠ .ddr → i.cpu.ar.len = 0
  slave_writes : ∀ p, (x.portWrites p).SlaveOk writeFormat (x.portWrite i p)
  slave_reads : ∀ p, (x.portReads p).SlaveOk readFormat (x.portRead i p)

end BusRun

end vibeos.fpga
