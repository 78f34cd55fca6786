-- pl_mmio_jtag_console.v: the registers of the UART, the CLINT and the PLIC behind an AXI slave,
-- with the two transmit queues, as one clock edge after the other. At the end its network
-- interrupt: which cycles set it, which clear it, and which events are lost.
import Vibeos.AxiSlave

namespace vibeos.fpga

open Runs (Each)

def UART_BASE : BitVec 32 := 0x10000000#32
def CLINT_BASE : BitVec 32 := 0x02000000#32
def PLIC_BASE : BitVec 32 := 0x0c000000#32

abbrev BusMaster := Axi.Master (BitVec 4) (BitVec 32) (BitVec 32) (BitVec 4)
abbrev BusWrite := Axi.Write (BitVec 4) (BitVec 32) (BitVec 32) (BitVec 4)

def poke {w : Nat} (mem : BitVec w → BitVec 8) (addr : BitVec w) (x : BitVec 8) :
    BitVec w → BitVec 8 :=
  fun a => if a = addr then x else mem a

/-! ## `simple_pl_uart_tx` -/

inductive UartState where
  | ST_IDLE
  | ST_START
  | ST_DATA
  | ST_STOP
deriving DecidableEq

def CLKS_PER_BIT : Nat := 1042

structure simple_pl_uart_tx where
  state_q : UartState
  clk_count_q : BitVec 16
  bit_index_q : BitVec 3
  data_q : BitVec 8
  tx : Bool

namespace simple_pl_uart_tx

def reset : simple_pl_uart_tx := ⟨.ST_IDLE, 0, 0, 0, true⟩

def tx_busy (u : simple_pl_uart_tx) : Bool := u.state_q ≠ .ST_IDLE

def step (u : simple_pl_uart_tx) (tx_start : Bool) (tx_data : BitVec 8) : simple_pl_uart_tx :=
  let last := u.clk_count_q.toNat = CLKS_PER_BIT - 1
  match u.state_q with
  | .ST_IDLE =>
    let n := { u with tx := true, clk_count_q := 0, bit_index_q := 0 }
    if tx_start then { n with data_q := tx_data, state_q := .ST_START, tx := false } else n
  | .ST_START =>
    if last then { u with clk_count_q := 0, state_q := .ST_DATA, tx := u.data_q.getLsbD 0 }
    else { u with clk_count_q := u.clk_count_q + 1, tx := false }
  | .ST_DATA =>
    if last then
      if u.bit_index_q = 7 then
        { u with clk_count_q := 0, bit_index_q := 0, state_q := .ST_STOP, tx := true }
      else
        { u with
          clk_count_q := 0
          bit_index_q := u.bit_index_q + 1
          tx := u.data_q.getLsbD (u.bit_index_q + 1).toNat }
    else { u with clk_count_q := u.clk_count_q + 1, tx := u.data_q.getLsbD u.bit_index_q.toNat }
  | .ST_STOP =>
    if last then { u with tx := true, clk_count_q := 0, state_q := .ST_IDLE }
    else { u with tx := true, clk_count_q := u.clk_count_q + 1 }

end simple_pl_uart_tx

/-! ## The registers -/

structure Console where
  bvalid_q : Bool
  bid_q : BitVec 4
  rvalid_q : Bool
  rid_q : BitVec 4
  rdata_q : BitVec 32
  uart_lcr_q : BitVec 8
  uart_ier_q : BitVec 8
  uart_dll_q : BitVec 8
  uart_dlm_q : BitVec 8
  uart_overflow_q : Bool
  tx_fifo_q : BitVec 8 → BitVec 8
  tx_wr_ptr_q : BitVec 8
  tx_rd_ptr_q : BitVec 8
  tx_count_q : BitVec 9
  pl_uart_fifo_q : BitVec 8 → BitVec 8
  pl_uart_wr_ptr_q : BitVec 8
  pl_uart_rd_ptr_q : BitVec 8
  pl_uart_count_q : BitVec 9
  pl_uart_tx_data_q : BitVec 8
  pl_uart_tx_start_q : Bool
  u_simple_pl_uart_tx : simple_pl_uart_tx
  tx_pop_meta_q : Bool
  tx_pop_sync_q : Bool
  tx_pop_last_q : Bool
  tx_enqueue_count_q : BitVec 32
  tx_dequeue_count_q : BitVec 32
  tx_last_enqueued_byte_q : BitVec 8
  tx_last_dequeued_byte_q : BitVec 8
  mtime_q : BitVec 64
  mtimecmp_q : BitVec 64
  mtime_accum_q : BitVec 6
  plic_enable_q : BitVec 32
  plic_priority_net_q : BitVec 32
  plic_priority_uart_q : BitVec 32
  plic_threshold_q : BitVec 32
  plic_pending_q : BitVec 32
  plic_claim_count_q : BitVec 32

/-- The inputs of a clock edge: the bus, the interrupt lines, and the toggle of the JTAG side. -/
structure ConsoleIn where
  axi : BusMaster
  net_irq_event : Bool
  debug_irq_clear : Bool
  ps_console_pop : Bool
  tx_pop_toggle_w : Bool

namespace Console

/-- The registers after a reset. The two memories are not reset. -/
def reset (tx_fifo_q pl_uart_fifo_q : BitVec 8 → BitVec 8) : Console where
  bvalid_q := false
  bid_q := 0
  rvalid_q := false
  rid_q := 0
  rdata_q := 0
  uart_lcr_q := 0
  uart_ier_q := 0
  uart_dll_q := 0
  uart_dlm_q := 0
  uart_overflow_q := false
  tx_fifo_q := tx_fifo_q
  tx_wr_ptr_q := 0
  tx_rd_ptr_q := 0
  tx_count_q := 0
  pl_uart_fifo_q := pl_uart_fifo_q
  pl_uart_wr_ptr_q := 0
  pl_uart_rd_ptr_q := 0
  pl_uart_count_q := 0
  pl_uart_tx_data_q := 0
  pl_uart_tx_start_q := false
  u_simple_pl_uart_tx := .reset
  tx_pop_meta_q := false
  tx_pop_sync_q := false
  tx_pop_last_q := false
  tx_enqueue_count_q := 0
  tx_dequeue_count_q := 0
  tx_last_enqueued_byte_q := 0
  tx_last_dequeued_byte_q := 0
  mtime_q := 0
  mtimecmp_q := 0xffffffffffffffff#64
  mtime_accum_q := 0
  plic_enable_q := 4
  plic_priority_net_q := 1
  plic_priority_uart_q := 0
  plic_threshold_q := 0
  plic_pending_q := 0
  plic_claim_count_q := 0

/-! ## The wires -/

def uart_dlab_w (c : Console) : Bool := c.uart_lcr_q.getLsbD 7
def tx_full_w (c : Console) : Bool := c.tx_count_q = 256
def pl_uart_full_w (c : Console) : Bool := c.pl_uart_count_q = 256
def tx_valid_w (c : Console) : Bool := c.tx_count_q ≠ 0
def tx_data_w (c : Console) : BitVec 8 := c.tx_fifo_q c.tx_rd_ptr_q
def tx_pop_event_w (c : Console) : Bool := c.tx_pop_sync_q != c.tx_pop_last_q

def plic_net_ready_w (c : Console) : Bool :=
  c.plic_pending_q.getLsbD 2 && c.plic_enable_q.getLsbD 2 &&
    decide (c.plic_threshold_q < c.plic_priority_net_q)

def ext_intr (c : Console) : Bool := c.plic_net_ready_w

def debug_plic_claim (c : Console) : BitVec 32 := if c.plic_net_ready_w then 2 else 0

def s_axi_awready (c : Console) (m : BusMaster) : Bool := !c.bvalid_q && m.awvalid && m.wvalid
def s_axi_wready (c : Console) (m : BusMaster) : Bool := !c.bvalid_q && m.awvalid && m.wvalid
def s_axi_arready (c : Console) : Bool := !c.rvalid_q

/-! ## Reads -/

/-- The three windows of the address space. -/
inductive Region where
  | uart
  | clint
  | plic
  | other
deriving DecidableEq

def region (addr : BitVec 32) : Region :=
  if addr &&& 0xfffffff0#32 = UART_BASE then .uart
  else if addr &&& 0xffff0000#32 = CLINT_BASE then .clint
  else if addr &&& 0xff000000#32 = PLIC_BASE then .plic
  else .other

def plic_off (addr : BitVec 32) : BitVec 24 := (addr - PLIC_BASE).setWidth 24

def mmio_read (c : Console) (addr : BitVec 32) : BitVec 32 :=
  match region addr with
  | .uart =>
    let uart_lsr : BitVec 8 :=
      0#1 ++ BitVec.ofBool (!c.tx_full_w && !c.pl_uart_full_w) ++ 0#6
    let reg := addr.extractLsb' 2 2
    if reg = 0 then
      c.uart_lcr_q ++ 0#8 ++ (if c.uart_dlab_w then c.uart_dlm_q else c.uart_ier_q) ++
        (if c.uart_dlab_w then c.uart_dll_q else 0#8)
    else if reg = 1 then 0#8 ++ 0#8 ++ uart_lsr ++ 0#8
    else 0
  | .clint =>
    let off := addr - CLINT_BASE
    if off = 0x4000#32 then c.mtimecmp_q.extractLsb' 0 32
    else if off = 0x4004#32 then c.mtimecmp_q.extractLsb' 32 32
    else if off = 0xbff8#32 then c.mtime_q.extractLsb' 0 32
    else if off = 0xbffc#32 then c.mtime_q.extractLsb' 32 32
    else 0
  | .plic =>
    let off := plic_off addr
    if off = 0x000008#24 then c.plic_priority_net_q
    else if off = 0x000028#24 then c.plic_priority_uart_q
    else if off = 0x001000#24 then c.plic_pending_q
    else if off = 0x002000#24 then c.plic_enable_q
    else if off = 0x200000#24 then c.plic_threshold_q
    else if off = 0x200004#24 then c.debug_plic_claim
    else 0
  | .other => 0

/-! ## Writes

`c` are the registers before the clock edge and `n` those that the edge leaves so far. The variables
`tx_count_v`, `tx_wr_ptr_v` and so on are the registers of the same name in `n`. -/

def byte_at (data : BitVec 32) (lane : Nat) : BitVec 8 := data.extractLsb' (8 * lane) 8

/-- A byte for the transmit register: it enters both queues, or none when one of them is full. -/
def enqueue (c n : Console) (byte : BitVec 8) : Console :=
  if n.tx_count_q ≠ 256 ∧ n.pl_uart_count_q ≠ 256 then
    { n with
      tx_fifo_q := poke n.tx_fifo_q n.tx_wr_ptr_q byte
      pl_uart_fifo_q := poke n.pl_uart_fifo_q n.pl_uart_wr_ptr_q byte
      tx_last_enqueued_byte_q := byte
      tx_enqueue_count_q := c.tx_enqueue_count_q + 1
      tx_wr_ptr_q := n.tx_wr_ptr_q + 1
      pl_uart_wr_ptr_q := n.pl_uart_wr_ptr_q + 1
      tx_count_q := n.tx_count_q + 1
      pl_uart_count_q := n.pl_uart_count_q + 1 }
  else { n with uart_overflow_q := true }

def uart_write (c n : Console) (off : BitVec 4) (byte : BitVec 8) : Console :=
  if off = 0 then if c.uart_dlab_w then { n with uart_dll_q := byte } else enqueue c n byte
  else if off = 1 then
    if c.uart_dlab_w then { n with uart_dlm_q := byte } else { n with uart_ier_q := byte }
  else if off = 3 then { n with uart_lcr_q := byte }
  else n

def clint_write (n : Console) (off data : BitVec 32) : Console :=
  if off = 0x4000#32 then { n with mtimecmp_q := 0#32 ++ data }
  else if off = 0x4004#32 then { n with mtimecmp_q := data ++ n.mtimecmp_q.extractLsb' 0 32 }
  else if off = 0xbff8#32 then { n with mtime_q := n.mtime_q.extractLsb' 32 32 ++ data }
  else if off = 0xbffc#32 then { n with mtime_q := data ++ n.mtime_q.extractLsb' 0 32 }
  else n

def plic_write (c n : Console) (off : BitVec 24) (data : BitVec 32) : Console :=
  if off = 0x000008#24 then { n with plic_priority_net_q := data }
  else if off = 0x000028#24 then { n with plic_priority_uart_q := data }
  else if off = 0x002000#24 then { n with plic_enable_q := data }
  else if off = 0x200000#24 then { n with plic_threshold_q := data }
  else if off = 0x200004#24 ∧ data = 2 then
    { n with
      plic_pending_q := n.plic_pending_q &&& ~~~4#32
      plic_claim_count_q := c.plic_claim_count_q + 1 }
  else n

def lane (c : Console) (w : BusWrite) (n : Console) (i : Nat) : Console :=
  if w.strb.getLsbD i then
    let wr_addr := w.addr + BitVec.ofNat 32 i
    match region wr_addr with
    | .uart => uart_write c n (wr_addr.extractLsb' 0 4) (byte_at w.data i)
    | .clint => clint_write n (wr_addr - CLINT_BASE) w.data
    | .plic => plic_write c n (plic_off wr_addr) w.data
    | .other => n
  else n

theorem lane_off {w : BusWrite} {i : Nat} (h : w.strb.getLsbD i = false) (c n : Console) :
    lane c w n i = n := if_neg (by rw [h]; decide)

theorem lane_uart {w : BusWrite} {i : Nat} (h : w.strb.getLsbD i = true)
    (hregion : region (w.addr + BitVec.ofNat 32 i) = .uart) (c n : Console) :
    lane c w n i =
      uart_write c n ((w.addr + BitVec.ofNat 32 i).extractLsb' 0 4) (byte_at w.data i) := by
  unfold lane
  simp only [if_pos h, hregion]

theorem lane_clint {w : BusWrite} {i : Nat} (h : w.strb.getLsbD i = true)
    (hregion : region (w.addr + BitVec.ofNat 32 i) = .clint) (c n : Console) :
    lane c w n i = clint_write n (w.addr + BitVec.ofNat 32 i - CLINT_BASE) w.data := by
  unfold lane
  simp only [if_pos h, hregion]

theorem lane_plic {w : BusWrite} {i : Nat} (h : w.strb.getLsbD i = true)
    (hregion : region (w.addr + BitVec.ofNat 32 i) = .plic) (c n : Console) :
    lane c w n i = plic_write c n (plic_off (w.addr + BitVec.ofNat 32 i)) w.data := by
  unfold lane
  simp only [if_pos h, hregion]

theorem lane_other {w : BusWrite} {i : Nat} (h : w.strb.getLsbD i = true)
    (hregion : region (w.addr + BitVec.ofNat 32 i) = .other) (c n : Console) :
    lane c w n i = n := by
  unfold lane
  simp only [if_pos h, hregion]

def lanes (c : Console) (w : BusWrite) (n : Console) : Console :=
  [0, 1, 2, 3].foldl (lane c w) n

/-! ## The clock edge -/

/-- The synchroniser of the JTAG toggle, and the UART. -/
def sync (c : Console) (i : ConsoleIn) : Console :=
  { c with
    tx_pop_meta_q := i.tx_pop_toggle_w
    tx_pop_sync_q := c.tx_pop_meta_q
    tx_pop_last_q := c.tx_pop_sync_q
    pl_uart_tx_start_q := false
    u_simple_pl_uart_tx := c.u_simple_pl_uart_tx.step c.pl_uart_tx_start_q c.pl_uart_tx_data_q }

/-- The reading end of the queue of the UART. -/
def drain (c n : Console) : Console :=
  if !c.u_simple_pl_uart_tx.tx_busy && c.pl_uart_count_q ≠ 0 then
    { n with
      pl_uart_tx_data_q := c.pl_uart_fifo_q c.pl_uart_rd_ptr_q
      pl_uart_tx_start_q := true
      pl_uart_rd_ptr_q := c.pl_uart_rd_ptr_q + 1
      pl_uart_count_q := c.pl_uart_count_q - 1 }
  else n

/-- The reading end of the queue of the JTAG side. -/
def dequeue (c : Console) (i : ConsoleIn) (n : Console) : Console :=
  if (c.tx_pop_event_w || i.ps_console_pop) && c.tx_count_q ≠ 0 then
    { n with
      tx_last_dequeued_byte_q := c.tx_fifo_q c.tx_rd_ptr_q
      tx_dequeue_count_q := c.tx_dequeue_count_q + 1
      tx_rd_ptr_q := c.tx_rd_ptr_q + 1
      tx_count_q := c.tx_count_q - 1 }
  else n

def pops (c : Console) (i : ConsoleIn) : Console := dequeue c i (drain c (sync c i))

def time (n : Console) : Console :=
  if n.mtime_accum_q ≥ 15 then
    { n with mtime_accum_q := n.mtime_accum_q - 15, mtime_q := n.mtime_q + 1 }
  else { n with mtime_accum_q := n.mtime_accum_q + 10 }

/-- The debug clear and, behind it, the event of the network. -/
def irq (n : Console) (i : ConsoleIn) : Console :=
  let n :=
    if i.debug_irq_clear then { n with plic_pending_q := n.plic_pending_q &&& ~~~4#32 } else n
  if i.net_irq_event then { n with plic_pending_q := n.plic_pending_q ||| 4#32 } else n

/-- The end of the answers that the master takes. -/
def taken (n : Console) (m : BusMaster) : Console :=
  let n := if n.bvalid_q && m.bready then { n with bvalid_q := false } else n
  if n.rvalid_q && m.rready then { n with rvalid_q := false } else n

def performs (c : Console) (i : ConsoleIn) : Option BusWrite :=
  if c.s_axi_awready i.axi && c.s_axi_wready i.axi then
    some ⟨i.axi.awid, i.axi.awaddr, i.axi.wdata, i.axi.wstrb⟩
  else none

def write (c : Console) (w : Option BusWrite) (n : Console) : Console :=
  match w with
  | some w => lanes c w { n with bid_q := w.id, bvalid_q := true }
  | none => n

def read (c : Console) (m : BusMaster) (n : Console) : Console :=
  if m.arvalid && c.s_axi_arready then
    { n with rid_q := m.arid, rdata_q := c.mmio_read m.araddr, rvalid_q := true }
  else n

def step (c : Console) (i : ConsoleIn) : Console :=
  read c i.axi (write c (c.performs i) (taken (irq (time (pops c i)) i) i.axi))

/-- What the answers leave alone is left to the clock, and to the lanes of the write. -/
theorem step_view {α : Type} (f : Console → α) (hf : ∀ n bvalid bid rvalid rid rdata,
    f { n with
      bvalid_q := bvalid, bid_q := bid, rvalid_q := rvalid, rid_q := rid, rdata_q := rdata } = f n)
    (c : Console) (i : ConsoleIn) :
    ∃ n, f n = f (irq (time (pops c i)) i) ∧
      f (c.step i) = f ((c.performs i).elim n fun w => lanes c w n) := by
  have htaken : f (taken (irq (time (pops c i)) i) i.axi) = f (irq (time (pops c i)) i) := by
    unfold taken
    dsimp only
    split_ifs <;> exact hf (irq (time (pops c i)) i) _ _ _ _ _
  have hread (n : Console) : f (read c i.axi n) = f n := by
    unfold read
    split_ifs <;> exact hf n _ _ _ _ _
  unfold step write
  cases c.performs i with
  | none => exact ⟨_, htaken, hread _⟩
  | some w => exact ⟨_, (hf _ true w.id _ _ _).trans htaken, hread _⟩

end Console

namespace Console

/-! ## The pending bit over one clock edge -/

def net_pending (c : Console) : Bool := c.plic_pending_q.getLsbD 2

/-- The byte lane completes the network interrupt. -/
def completesLane (w : BusWrite) (i : Nat) : Bool :=
  w.strb.getLsbD i && decide (region (w.addr + BitVec.ofNat 32 i) = .plic) &&
    decide (plic_off (w.addr + BitVec.ofNat 32 i) = 0x200004#24 ∧ w.data = 2)

/-- The edge performs a write that completes the network interrupt. -/
def completes (c : Console) (i : ConsoleIn) : Bool :=
  match c.performs i with
  | some w => [0, 1, 2, 3].any (completesLane w)
  | none => false

theorem clear_pending (v : BitVec 32) : (v &&& ~~~4#32).getLsbD 2 = false := by
  rw [BitVec.getLsbD_and]
  exact Bool.and_false _

theorem set_pending (v : BitVec 32) : (v ||| 4#32).getLsbD 2 = true := by
  rw [BitVec.getLsbD_or]
  exact Bool.or_true _

theorem net_pending_lane (c : Console) (w : BusWrite) (n : Console) (i : Nat) :
    (lane c w n i).net_pending = (n.net_pending && !completesLane w i) := by
  unfold net_pending completesLane
  cases hstrb : w.strb.getLsbD i with
  | false =>
    rw [lane_off hstrb]
    simp
  | true =>
    cases hregion : region (w.addr + BitVec.ofNat 32 i) with
    | uart =>
      have hkeep (off : BitVec 4) (byte : BitVec 8) :
          (uart_write c n off byte).plic_pending_q = n.plic_pending_q := by
        unfold uart_write enqueue
        split_ifs <;> rfl
      rw [lane_uart hstrb hregion, hkeep]
      simp
    | clint =>
      have hkeep (off data : BitVec 32) :
          (clint_write n off data).plic_pending_q = n.plic_pending_q := by
        unfold clint_write
        split_ifs <;> rfl
      rw [lane_clint hstrb hregion, hkeep]
      simp
    | plic =>
      rw [lane_plic hstrb hregion]
      unfold plic_write
      by_cases hdone : plic_off (w.addr + BitVec.ofNat 32 i) = 0x200004#24 ∧ w.data = 2
      · rw [if_neg (by rw [hdone.1]; decide), if_neg (by rw [hdone.1]; decide),
          if_neg (by rw [hdone.1]; decide), if_neg (by rw [hdone.1]; decide), if_pos hdone,
          decide_eq_true hdone]
        exact (clear_pending _).trans (Bool.and_false _).symm
      · rw [if_neg hdone, decide_eq_false hdone, Bool.and_false, Bool.not_false, Bool.and_true]
        split_ifs <;> rfl
    | other =>
      rw [lane_other hstrb hregion]
      simp

theorem net_pending_lanes (c : Console) (w : BusWrite) (n : Console) (l : List Nat) :
    (l.foldl (lane c w) n).net_pending = (n.net_pending && !l.any (completesLane w)) := by
  induction l generalizing n with
  | nil => simp
  | cons i l ih =>
    rw [List.foldl_cons, ih, net_pending_lane, List.any_cons, Bool.not_or, Bool.and_assoc]

theorem net_pending_step (c : Console) (i : ConsoleIn) :
    (c.step i).net_pending =
      ((c.net_pending && !i.debug_irq_clear || i.net_irq_event) && !c.completes i) := by
  have hpops : (pops c i).plic_pending_q = c.plic_pending_q := by
    unfold pops dequeue drain sync
    split_ifs <;> rfl
  have htime (n : Console) : (time n).plic_pending_q = n.plic_pending_q := by
    unfold time
    split_ifs <;> rfl
  have hirq (n : Console) : (irq n i).net_pending =
      (n.net_pending && !i.debug_irq_clear || i.net_irq_event) := by
    unfold irq net_pending
    cases i.debug_irq_clear <;> cases i.net_irq_event
    · simp
    · exact (set_pending _).trans (Bool.or_true _).symm
    · exact (clear_pending _).trans (by simp)
    · exact (set_pending _).trans (Bool.or_true _).symm
  have hwrite (n : Console) : ((c.performs i).elim n fun w => lanes c w n).net_pending =
      (n.net_pending && !c.completes i) := by
    unfold completes
    cases c.performs i with
    | none => simp
    | some w => exact net_pending_lanes c w n _
  have hbefore : (time (pops c i)).net_pending = c.net_pending := by
    unfold net_pending
    rw [htime, hpops]
  obtain ⟨n, hn, hstep⟩ := step_view net_pending (fun _ _ _ _ _ _ => rfl) c i
  calc (c.step i).net_pending
      = ((c.performs i).elim n fun w => lanes c w n).net_pending := hstep
    _ = (n.net_pending && !c.completes i) := hwrite n
    _ = ((irq (time (pops c i)) i).net_pending && !c.completes i) := by rw [hn]
    _ = _ := by rw [hirq, hbefore]

/-! ## Traces -/

def run (c : Console) (trace : List ConsoleIn) : Console := trace.foldl step c

/-- The cycle may end the interrupt: a completion or a debug clear. -/
def Clears (c : Console) (i : ConsoleIn) : Prop := c.completes i = true ∨ i.debug_irq_clear = true

/-- Every event of the trace is pending from its cycle on, and interrupts a processor that has the
source enabled above its threshold, until a later cycle clears it. -/
def KeepsEvents (c : Console) (trace : List ConsoleIn) : Prop :=
  ∀ h i t u, trace = h ++ i :: (t ++ u) → i.net_irq_event = true →
    Each (fun g j => ¬ Clears (c.run (h ++ i :: g)) j) t →
    (c.run (h ++ i :: t)).net_pending = true ∧
      ((c.run (h ++ i :: t)).plic_enable_q.getLsbD 2 = true →
        (c.run (h ++ i :: t)).plic_threshold_q < (c.run (h ++ i :: t)).plic_priority_net_q →
        (c.run (h ++ i :: t)).ext_intr = true)

theorem run_snoc (c : Console) (trace : List ConsoleIn) (i : ConsoleIn) :
    c.run (trace ++ [i]) = (c.run trace).step i := by
  unfold run
  rw [List.foldl_append]
  rfl

theorem net_pending_kept {c : Console} {i : ConsoleIn} (hpending : c.net_pending = true)
    (hclears : ¬ Clears c i) : (c.step i).net_pending = true := by
  unfold Clears at hclears
  rw [not_or, Bool.not_eq_true, Bool.not_eq_true] at hclears
  rw [net_pending_step, hpending, hclears.1, hclears.2]
  rfl

/-- An event is kept exactly when its cycle performs no completion. -/
theorem keepsEvents_iff (c : Console) (trace : List ConsoleIn) :
    KeepsEvents c trace ↔
      Each (fun h i => i.net_irq_event = true → (c.run h).completes i = false) trace := by
  constructor
  · intro hkeeps h i t htrace hevent
    obtain ⟨hpending, -⟩ := hkeeps h i [] t htrace hevent (Runs.each_nil _)
    rw [run_snoc, net_pending_step, hevent] at hpending
    simpa using hpending
  · intro heach h i t u htrace hevent hclear
    have hpending : (c.run (h ++ i :: t)).net_pending = true := by
      induction t using List.reverseRecOn generalizing u with
      | nil =>
        rw [run_snoc, net_pending_step, hevent, heach h i u htrace hevent]
        simp
      | append_singleton t j ih =>
        obtain ⟨hbefore, hlast⟩ := Runs.each_snoc.mp hclear
        have htrace' : trace = h ++ i :: (t ++ j :: u) := by
          rw [htrace, List.append_assoc]
          rfl
        rw [← List.cons_append, ← List.append_assoc, run_snoc]
        exact net_pending_kept (ih (j :: u) htrace' hbefore) hlast
    refine ⟨hpending, fun henabled habove => ?_⟩
    unfold ext_intr plic_net_ready_w
    unfold net_pending at hpending
    rw [hpending, henabled, decide_eq_true habove]
    rfl

/-- A cycle with a network event in which the master completes an earlier one. -/
def coincidence : ConsoleIn where
  axi := ⟨true, 0x0c200004, 1, true, 2, 0xf, true, false, 0, 0, true⟩
  net_irq_event := true
  debug_irq_clear := false
  ps_console_pop := false
  tx_pop_toggle_w := false

/-- A frame that arrives in the cycle of a completion raises no interrupt. -/
theorem coincidence_loses_event :
    ¬ KeepsEvents (reset (fun _ => 0) (fun _ => 0)) [coincidence] := by
  intro h
  have hpending := (h [] coincidence [] [] rfl rfl (Runs.each_nil _)).1
  have hlost : ((reset (fun _ => 0) (fun _ => 0)).run [coincidence]).net_pending = false := by
    decide
  change ((reset (fun _ => 0) (fun _ => 0)).run [coincidence]).net_pending = true at hpending
  rw [hlost] at hpending
  cases hpending

end Console

end vibeos.fpga
