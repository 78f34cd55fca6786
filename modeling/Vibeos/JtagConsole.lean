-- jtag_console_tx of pl_mmio_jtag_console.v beside the console: the two clock domains, the host that
-- scans the register, and what the transmit queue does at a clock edge.
import Vibeos.PlConsole
import Vibeos.RingWindow

namespace vibeos.fpga

/-! ## `jtag_console_tx` -/

structure jtag_console_tx where
  shift_reg_q : BitVec 18
  cmd_shift_q : BitVec 10
  cmd_bit_count_q : BitVec 5
  tx_data_meta_q : BitVec 8
  tx_data_sync_q : BitVec 8
  tx_seq_meta_q : BitVec 8
  tx_seq_sync_q : BitVec 8
  tx_valid_meta_q : Bool
  tx_valid_sync_q : Bool
  overflow_meta_q : Bool
  overflow_sync_q : Bool
  captured_valid_q : Bool
  pop_consumed_q : Bool
  pop_toggle : Bool

namespace jtag_console_tx

def reset : jtag_console_tx :=
  ⟨0, 0, 0, 0, 0, 0, 0, false, false, false, false, false, false, false⟩

def tdo_w (j : jtag_console_tx) : Bool := j.shift_reg_q.getLsbD 0

/-- The synchronisers at an edge of DRCK. -/
def sample (j : jtag_console_tx) (c : Console) : jtag_console_tx :=
  { j with
    tx_data_meta_q := c.tx_data_w
    tx_data_sync_q := j.tx_data_meta_q
    tx_seq_meta_q := c.tx_rd_ptr_q
    tx_seq_sync_q := j.tx_seq_meta_q
    tx_valid_meta_q := c.tx_valid_w
    tx_valid_sync_q := j.tx_valid_meta_q
    overflow_meta_q := c.uart_overflow_q
    overflow_sync_q := j.overflow_meta_q }

/-- The word that a capture takes into the shift register. -/
def word (j : jtag_console_tx) : BitVec 18 :=
  BitVec.ofBool j.overflow_sync_q ++ BitVec.ofBool j.tx_valid_sync_q ++ j.tx_seq_sync_q ++
    (if j.tx_valid_sync_q then j.tx_data_sync_q else 0xa5#8)

def capture (j : jtag_console_tx) (c : Console) : jtag_console_tx :=
  { j.sample c with
    shift_reg_q := j.word
    cmd_shift_q := 0
    cmd_bit_count_q := 0
    captured_valid_q := j.tx_valid_sync_q }

def shift (j : jtag_console_tx) (c : Console) (tdi : Bool) : jtag_console_tx :=
  { j.sample c with
    cmd_shift_q := BitVec.ofBool tdi ++ j.cmd_shift_q.extractLsb' 1 9
    cmd_bit_count_q := if j.cmd_bit_count_q ≠ 31 then j.cmd_bit_count_q + 1 else j.cmd_bit_count_q
    shift_reg_q := BitVec.ofBool tdi ++ j.shift_reg_q.extractLsb' 1 17 }

def update (j : jtag_console_tx) : jtag_console_tx :=
  if j.captured_valid_q then { j with pop_toggle := !j.pop_toggle, pop_consumed_q := true }
  else { j with pop_consumed_q := false }

end jtag_console_tx

/-! ## The transmit queue at a clock edge -/

namespace Console

/-- The byte lane writes the transmit register. -/
def transmits (c : Console) (w : BusWrite) (i : Nat) : Bool :=
  w.strb.getLsbD i && decide (region (w.addr + BitVec.ofNat 32 i) = .uart) &&
    decide ((w.addr + BitVec.ofNat 32 i).extractLsb' 0 4 = 0#4) && !c.uart_dlab_w

/-- The byte that the edge writes to the transmit register. -/
def written (c : Console) (i : ConsoleIn) : Option (BitVec 8) :=
  match c.performs i with
  | some w => ([0, 1, 2, 3].find? (transmits c w)).map (byte_at w.data)
  | none => none

/-- The registers around the transmit queue. -/
structure Tx where
  fifo : BitVec 8 → BitVec 8
  wr_ptr : BitVec 8
  rd_ptr : BitVec 8
  count : BitVec 9
  pl_count : BitVec 9
  overflow : Bool

def tx (c : Console) : Tx :=
  ⟨c.tx_fifo_q, c.tx_wr_ptr_q, c.tx_rd_ptr_q, c.tx_count_q, c.pl_uart_count_q, c.uart_overflow_q⟩

/-- There is room for a byte in both queues. -/
def Tx.Room (x : Tx) : Prop := x.count ≠ 256 ∧ x.pl_count ≠ 256

instance (x : Tx) : Decidable x.Room := inferInstanceAs (Decidable (_ ∧ _))

def Tx.enqueue (x : Tx) (byte : BitVec 8) : Tx :=
  if x.Room then
    { x with
      fifo := poke x.fifo x.wr_ptr byte
      wr_ptr := x.wr_ptr + 1
      count := x.count + 1
      pl_count := x.pl_count + 1 }
  else { x with overflow := true }

/-- The queues after the reading end of the UART. -/
def Tx.drain (x : Tx) (busy : Bool) : Tx :=
  if !busy && x.pl_count ≠ 0 then { x with pl_count := x.pl_count - 1 } else x

/-- The queues after the reading end of the JTAG side. -/
def Tx.dequeue (x : Tx) (pop : Bool) : Tx :=
  if pop && x.count ≠ 0 then { x with rd_ptr := x.rd_ptr + 1, count := x.count - 1 } else x

theorem tx_enqueue (c n : Console) (byte : BitVec 8) :
    (enqueue c n byte).tx = n.tx.enqueue byte := by
  unfold enqueue Tx.enqueue
  by_cases hroom : n.tx_count_q ≠ 256 ∧ n.pl_uart_count_q ≠ 256
  · have hroom' : n.tx.Room := hroom
    rw [if_pos hroom, if_pos hroom']
    rfl
  · have hroom' : ¬ n.tx.Room := hroom
    rw [if_neg hroom, if_neg hroom']
    rfl

theorem tx_lane (c : Console) (w : BusWrite) (n : Console) (i : Nat) :
    (lane c w n i).tx =
      if transmits c w i then n.tx.enqueue (byte_at w.data i) else n.tx := by
  unfold transmits
  cases hstrb : w.strb.getLsbD i with
  | false => rw [lane_off hstrb]; simp
  | true =>
    cases hregion : region (w.addr + BitVec.ofNat 32 i) with
    | uart =>
      rw [lane_uart hstrb hregion]
      generalize (w.addr + BitVec.ofNat 32 i).extractLsb' 0 4 = off
      unfold uart_write
      by_cases hoff : off = 0
      · subst hoff
        cases hdlab : c.uart_dlab_w with
        | true => simp [tx]
        | false => simp [tx_enqueue]
      · rw [if_neg hoff]
        have hno : decide (off = 0#4) = false := decide_eq_false hoff
        rw [hno]
        simp only [Bool.and_false, Bool.false_and, Bool.false_eq_true, if_false]
        split_ifs <;> rfl
    | clint =>
      have hkeep (off data : BitVec 32) : (clint_write n off data).tx = n.tx := by
        unfold clint_write
        split_ifs <;> rfl
      rw [lane_clint hstrb hregion, hkeep]
      simp
    | plic =>
      have hkeep (off : BitVec 24) (data : BitVec 32) : (plic_write c n off data).tx = n.tx := by
        unfold plic_write
        split_ifs <;> rfl
      rw [lane_plic hstrb hregion, hkeep]
      simp
    | other =>
      rw [lane_other hstrb hregion]
      simp

theorem transmits_inj {c : Console} {w : BusWrite} {i j : Nat} (hi : i < 4) (hj : j < 4)
    (h : transmits c w i = true) (h' : transmits c w j = true) : i = j := by
  have hoff {k : Nat} (hk : transmits c w k = true) (hlt : k < 4) :
      (w.addr.toNat + k) % 16 = 0 := by
    unfold transmits at hk
    simp only [Bool.and_eq_true, decide_eq_true_eq] at hk
    have hbits := congrArg BitVec.toNat hk.1.2
    simp only [BitVec.extractLsb'_toNat, BitVec.toNat_add, BitVec.toNat_ofNat] at hbits
    omega
  have hzero := hoff h hi
  have hzero' := hoff h' hj
  omega

theorem tx_foldl_none {c : Console} {w : BusWrite} {l : List Nat}
    (h : ∀ i ∈ l, transmits c w i = false) (n : Console) : (l.foldl (lane c w) n).tx = n.tx := by
  induction l generalizing n with
  | nil => rfl
  | cons i l ih =>
    rw [List.foldl_cons, ih fun j hj => h j (List.mem_cons_of_mem _ hj), tx_lane,
      h i (List.mem_cons_self ..)]
    rfl

theorem tx_foldl {c : Console} {w : BusWrite} {l : List Nat} (hlt : ∀ i ∈ l, i < 4)
    (hnodup : l.Nodup) (n : Console) :
    (l.foldl (lane c w) n).tx =
      match (l.find? (transmits c w)).map (byte_at w.data) with
      | some byte => n.tx.enqueue byte
      | none => n.tx := by
  induction l generalizing n with
  | nil => rfl
  | cons i l ih =>
    rw [List.foldl_cons]
    cases hi : transmits c w i with
    | true =>
      have hrest (j : Nat) (hj : j ∈ l) : transmits c w j = false := by
        cases hj' : transmits c w j with
        | false => rfl
        | true =>
          have heq := transmits_inj (hlt i (List.mem_cons_self ..))
            (hlt j (List.mem_cons_of_mem _ hj)) hi hj'
          subst heq
          exact absurd hj (List.nodup_cons.mp hnodup).1
      rw [tx_foldl_none hrest, tx_lane, hi, List.find?_cons_of_pos hi]
      rfl
    | false =>
      rw [ih (fun j hj => hlt j (List.mem_cons_of_mem _ hj)) (List.nodup_cons.mp hnodup).2,
        List.find?_cons_of_neg (by rw [hi]; decide), tx_lane, hi]
      rfl

/-- The transmit queue after the reading ends of a clock edge. -/
def txRead (c : Console) (i : ConsoleIn) : Tx :=
  (c.tx.drain c.u_simple_pl_uart_tx.tx_busy).dequeue (c.tx_pop_event_w || i.ps_console_pop)

theorem tx_pops (c : Console) (i : ConsoleIn) : (pops c i).tx = c.txRead i := by
  have hdrain : (drain c (sync c i)).tx = c.tx.drain c.u_simple_pl_uart_tx.tx_busy := by
    unfold drain Tx.drain
    by_cases h : (!c.u_simple_pl_uart_tx.tx_busy && decide (c.pl_uart_count_q ≠ 0)) = true
    · have h' : (!c.u_simple_pl_uart_tx.tx_busy && decide (c.tx.pl_count ≠ 0)) = true := h
      rw [if_pos h, if_pos h']
      rfl
    · have h' : ¬ (!c.u_simple_pl_uart_tx.tx_busy && decide (c.tx.pl_count ≠ 0)) = true := h
      rw [if_neg h, if_neg h']
      rfl
  have hkeep : (drain c (sync c i)).tx_rd_ptr_q = c.tx_rd_ptr_q ∧
      (drain c (sync c i)).tx_count_q = c.tx_count_q := by
    unfold drain sync
    split <;> exact ⟨rfl, rfl⟩
  unfold pops txRead
  rw [← hdrain]
  generalize drain c (sync c i) = n at hkeep
  unfold dequeue Tx.dequeue
  rw [← hkeep.1, ← hkeep.2]
  by_cases h : ((c.tx_pop_event_w || i.ps_console_pop) && decide (n.tx_count_q ≠ 0)) = true
  · have h' : ((c.tx_pop_event_w || i.ps_console_pop) && decide (n.tx.count ≠ 0)) = true := h
    rw [if_pos h, if_pos h']
    rfl
  · have h' : ¬ ((c.tx_pop_event_w || i.ps_console_pop) && decide (n.tx.count ≠ 0)) = true := h
    rw [if_neg h, if_neg h']

theorem tx_step (c : Console) (i : ConsoleIn) :
    (c.step i).tx =
      match c.written i with
      | some byte => (c.txRead i).enqueue byte
      | none => c.txRead i := by
  have htime (n : Console) : (time n).tx = n.tx := by
    unfold time
    split_ifs <;> rfl
  have hirq (n : Console) : (irq n i).tx = n.tx := by
    unfold irq
    dsimp only
    split_ifs <;> rfl
  have hwrite (n : Console) : ((c.performs i).elim n fun w => lanes c w n).tx =
      match c.written i with
      | some byte => n.tx.enqueue byte
      | none => n.tx := by
    unfold written
    cases c.performs i with
    | none => rfl
    | some w => exact tx_foldl (by decide) (by decide) n
  obtain ⟨n, hn, hstep⟩ := step_view tx (fun _ _ _ _ _ _ => rfl) c i
  rw [hstep, hwrite, hn, hirq, htime, tx_pops]

/-- The synchroniser of the pop toggle. -/
def toggles (c : Console) : Bool × Bool × Bool :=
  (c.tx_pop_meta_q, c.tx_pop_sync_q, c.tx_pop_last_q)

theorem toggles_step (c : Console) (i : ConsoleIn) :
    (c.step i).tx_pop_meta_q = i.tx_pop_toggle_w ∧ (c.step i).tx_pop_sync_q = c.tx_pop_meta_q ∧
      (c.step i).tx_pop_last_q = c.tx_pop_sync_q := by
  have hpops : (pops c i).toggles = (i.tx_pop_toggle_w, c.tx_pop_meta_q, c.tx_pop_sync_q) := by
    unfold pops dequeue drain sync toggles
    split_ifs <;> rfl
  have htime (n : Console) : (time n).toggles = n.toggles := by
    unfold time
    split_ifs <;> rfl
  have hirq (n : Console) : (irq n i).toggles = n.toggles := by
    unfold irq
    dsimp only
    split_ifs <;> rfl
  have hlane (w : BusWrite) (n : Console) (k : Nat) : (lane c w n k).toggles = n.toggles := by
    unfold lane uart_write enqueue clint_write plic_write
    cases w.strb.getLsbD k with
    | false => rfl
    | true =>
      cases hregion : region (w.addr + BitVec.ofNat 32 k) <;> simp only [hregion] <;>
        split_ifs <;> rfl
  obtain ⟨n, hn, hstep⟩ := step_view toggles (fun _ _ _ _ _ _ => rfl) c i
  have hwrite : ((c.performs i).elim n fun w => lanes c w n).toggles = n.toggles := by
    cases c.performs i with
    | none => rfl
    | some w => simp only [Option.elim, lanes, List.foldl_cons, List.foldl_nil, hlane]
  rw [hwrite, hn, hirq, htime, hpops] at hstep
  obtain ⟨hmeta, hrest⟩ := Prod.mk.inj hstep
  obtain ⟨hsync, hlast⟩ := Prod.mk.inj hrest
  exact ⟨hmeta, hsync, hlast⟩

end Console

end vibeos.fpga
