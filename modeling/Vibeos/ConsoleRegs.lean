-- The registers behind the console's slave as a memory map: what a write makes of each of them, by
-- the bytes that it carries to its address, and that a run holds what the writes make of them.
import Vibeos.AxiSlave
import Vibeos.JtagConsole

namespace vibeos.fpga

/-! ## The map -/

/-- The byte lane of the write goes to the address. -/
def BusWrite.reaches (w : BusWrite) (addr : BitVec 32) (i : Nat) : Bool :=
  w.strb.getLsbD i && decide (w.addr + BitVec.ofNat 32 i = addr)

/-- The byte that the write carries to the address. -/
def BusWrite.carries (w : BusWrite) (addr : BitVec 32) : Option (BitVec 8) :=
  ([3, 2, 1, 0].find? (w.reaches addr)).map fun i => w.data.extractLsb' (8 * i) 8

/-- The registers that only writes change. -/
structure Regs where
  lcr : BitVec 8
  ier : BitVec 8
  dll : BitVec 8
  dlm : BitVec 8
  mtimecmp : BitVec 64
  enable : BitVec 32
  priority_net : BitVec 32
  priority_uart : BitVec 32
  threshold : BitVec 32
  claim_count : BitVec 32
deriving DecidableEq

namespace Regs

/-- The divisor latch stands in front of the transmit and interrupt registers. -/
def dlab (r : Regs) : Bool := r.lcr.getLsbD 7

/-- The UART takes bytes. The CLINT and the PLIC take the whole word of a write that carries any byte
to the address of the register. -/
def write (r : Regs) (w : BusWrite) : Regs :=
  let word (addr old : BitVec 32) := if (w.carries addr).isSome then w.data else old
  { lcr := (w.carries 0x10000003#32).getD r.lcr
    ier := if r.dlab then r.ier else (w.carries 0x10000001#32).getD r.ier
    dll := if r.dlab then (w.carries 0x10000000#32).getD r.dll else r.dll
    dlm := if r.dlab then (w.carries 0x10000001#32).getD r.dlm else r.dlm
    mtimecmp :=
      if (w.carries 0x02004000#32).isSome then 0#32 ++ w.data
      else if (w.carries 0x02004004#32).isSome then w.data ++ r.mtimecmp.extractLsb' 0 32
      else r.mtimecmp
    enable := word 0x0c002000#32 r.enable
    priority_net := word 0x0c000008#32 r.priority_net
    priority_uart := word 0x0c000028#32 r.priority_uart
    threshold := word 0x0c200000#32 r.threshold
    claim_count :=
      if (w.carries 0x0c200004#32).isSome ∧ w.data = 2#32 then r.claim_count + 1 else r.claim_count }

def sends (r : Regs) (w : BusWrite) : Option (BitVec 8) :=
  if r.dlab then none else w.carries 0x10000000#32

end Regs

/-- The registers that the clock and the interrupts change besides. -/
structure Live where
  mtime : BitVec 64
  pending : BitVec 32

/-- A word for a half of the clock, or the end of the interrupt. -/
def Live.write (l : Live) (w : BusWrite) : Live where
  mtime :=
    if (w.carries 0x0200bff8#32).isSome then l.mtime.extractLsb' 32 32 ++ w.data
    else if (w.carries 0x0200bffc#32).isSome then w.data ++ l.mtime.extractLsb' 0 32
    else l.mtime
  pending :=
    if (w.carries 0x0c200004#32).isSome ∧ w.data = 2#32 then l.pending &&& ~~~4#32 else l.pending

/-! ## Addresses -/

theorem offset_iff {n : Nat} {mask base addr : BitVec 32} (hn : n ≤ 32)
    (hmask : ∀ i : Fin 32, mask.getLsbD i = decide (n ≤ i.val))
    (hbase : ∀ i : Fin 32, i.val < n → base.getLsbD i = false) (haddr : addr &&& mask = base)
    (off : BitVec n) : addr = base ||| off.setWidth 32 ↔ addr.setWidth n = off := by
  have hlow (i : Nat) (hi : i < 32) (hin : i < n) : base.getLsbD i = false := hbase ⟨i, hi⟩ hin
  constructor
  · rintro heq
    apply BitVec.eq_of_getLsbD_eq
    intro i hi
    have hi' : i < 32 := Nat.lt_of_lt_of_le hi hn
    rw [heq, BitVec.getLsbD_setWidth, BitVec.getLsbD_or, hlow i hi' hi, BitVec.getLsbD_setWidth]
    simp [hi, hi']
  · rintro rfl
    apply BitVec.eq_of_getLsbD_eq
    intro i hi
    rw [BitVec.getLsbD_or, BitVec.getLsbD_setWidth, BitVec.getLsbD_setWidth]
    by_cases hin : i < n
    · rw [hlow i hi hin]
      simp [hin, hi]
    · have hbit : mask.getLsbD i = decide (n ≤ i) := hmask ⟨i, hi⟩
      rw [← haddr, BitVec.getLsbD_and, hbit]
      simp [hin, Nat.le_of_not_lt hin]

namespace Console

theorem mask_of_uart {addr : BitVec 32} (h : region addr = .uart) :
    addr &&& 0xfffffff0#32 = UART_BASE := by
  unfold region at h
  split_ifs at h with hmask
  exact hmask

theorem mask_of_plic {addr : BitVec 32} (h : region addr = .plic) :
    addr &&& 0xff000000#32 = PLIC_BASE := by
  unfold region at h
  split_ifs at h with _ _ hmask
  exact hmask

theorem uart_off_iff {addr : BitVec 32} (h : region addr = .uart) (off : BitVec 4) :
    addr = UART_BASE ||| off.setWidth 32 ↔ addr.extractLsb' 0 4 = off := by
  rw [← BitVec.setWidth_eq_extractLsb' (by decide)]
  exact offset_iff (by decide) (by decide) (by decide) (mask_of_uart h) off

theorem plic_off_iff {addr : BitVec 32} (h : region addr = .plic) (off : BitVec 24) :
    addr = PLIC_BASE ||| off.setWidth 32 ↔ plic_off addr = off := by
  have hlow : plic_off addr = addr.setWidth 24 := by
    apply BitVec.eq_of_toNat_eq
    unfold plic_off PLIC_BASE
    simp only [BitVec.toNat_setWidth, BitVec.toNat_sub, BitVec.toNat_ofNat]
    omega
  rw [hlow]
  exact offset_iff (by decide) (by decide) (by decide) (mask_of_plic h) off

theorem clint_off_iff (addr off : BitVec 32) :
    addr = CLINT_BASE + off ↔ addr - CLINT_BASE = off := by
  rw [BitVec.sub_eq_iff_eq_add, BitVec.add_comm]

/-! ## A byte lane -/

def regs (c : Console) : Regs where
  lcr := c.uart_lcr_q
  ier := c.uart_ier_q
  dll := c.uart_dll_q
  dlm := c.uart_dlm_q
  mtimecmp := c.mtimecmp_q
  enable := c.plic_enable_q
  priority_net := c.plic_priority_net_q
  priority_uart := c.plic_priority_uart_q
  threshold := c.plic_threshold_q
  claim_count := c.plic_claim_count_q

theorem regs_enqueue (c n : Console) (byte : BitVec 8) : (enqueue c n byte).regs = n.regs := by
  unfold enqueue
  split_ifs <;> rfl

theorem regs_uart_write (c n : Console) (off : BitVec 4) (byte : BitVec 8) :
    (uart_write c n off byte).regs =
      { n.regs with
        lcr := if off = 3#4 then byte else n.regs.lcr
        ier := if off = 1#4 ∧ c.regs.dlab = false then byte else n.regs.ier
        dll := if off = 0#4 ∧ c.regs.dlab = true then byte else n.regs.dll
        dlm := if off = 1#4 ∧ c.regs.dlab = true then byte else n.regs.dlm } := by
  have hdlab : c.regs.dlab = c.uart_dlab_w := rfl
  unfold uart_write
  simp only [hdlab]
  by_cases hzero : off = 0#4
  · rw [hzero]
    cases c.uart_dlab_w with
    | false => simpa using regs_enqueue c n byte
    | true => simp [regs]
  · by_cases hone : off = 1#4
    · rw [hone]
      cases c.uart_dlab_w <;> simp [regs]
    · by_cases hthree : off = 3#4
      · rw [hthree]
        simp [regs]
      · simp [hzero, hone, hthree]

theorem regs_clint_write (n : Console) (off data : BitVec 32) :
    (clint_write n off data).regs =
      { n.regs with
        mtimecmp :=
          if off = 0x4000#32 then 0#32 ++ data
          else if off = 0x4004#32 then data ++ n.regs.mtimecmp.extractLsb' 0 32
          else n.regs.mtimecmp } := by
  unfold clint_write
  split_ifs <;> rfl

theorem regs_plic_write (c n : Console) (off : BitVec 24) (data : BitVec 32) :
    (plic_write c n off data).regs =
      { n.regs with
        priority_net := if off = 0x000008#24 then data else n.regs.priority_net
        priority_uart := if off = 0x000028#24 then data else n.regs.priority_uart
        enable := if off = 0x002000#24 then data else n.regs.enable
        threshold := if off = 0x200000#24 then data else n.regs.threshold
        claim_count :=
          if off = 0x200004#24 ∧ data = 2#32 then c.regs.claim_count + 1
          else n.regs.claim_count } := by
  unfold plic_write
  split_ifs <;> simp_all [regs]

def live (c : Console) : Live := ⟨c.mtime_q, c.plic_pending_q⟩

theorem live_uart_write (c n : Console) (off : BitVec 4) (byte : BitVec 8) :
    (uart_write c n off byte).live = n.live := by
  unfold uart_write enqueue
  split_ifs <;> rfl

theorem live_clint_write (n : Console) (off data : BitVec 32) :
    (clint_write n off data).live =
      { n.live with
        mtime :=
          if off = 0xbff8#32 then n.live.mtime.extractLsb' 32 32 ++ data
          else if off = 0xbffc#32 then data ++ n.live.mtime.extractLsb' 0 32
          else n.live.mtime } := by
  unfold clint_write
  split_ifs <;> simp_all [live]

theorem live_plic_write (c n : Console) (off : BitVec 24) (data : BitVec 32) :
    (plic_write c n off data).live =
      { n.live with
        pending :=
          if off = 0x200004#24 ∧ data = 2#32 then n.live.pending &&& ~~~4#32
          else n.live.pending } := by
  unfold plic_write
  split_ifs <;> simp_all [live]

theorem state_lane (c : Console) (w : BusWrite) (n : Console) (i : Nat) :
    (lane c w n i).regs =
      { lcr := if w.reaches 0x10000003#32 i then byte_at w.data i else n.regs.lcr
        ier :=
          if w.reaches 0x10000001#32 i ∧ c.regs.dlab = false then byte_at w.data i else n.regs.ier
        dll := if w.reaches 0x10000000#32 i ∧ c.regs.dlab = true then byte_at w.data i else n.regs.dll
        dlm := if w.reaches 0x10000001#32 i ∧ c.regs.dlab = true then byte_at w.data i else n.regs.dlm
        mtimecmp :=
          if w.reaches 0x02004000#32 i then 0#32 ++ w.data
          else if w.reaches 0x02004004#32 i then w.data ++ n.regs.mtimecmp.extractLsb' 0 32
          else n.regs.mtimecmp
        enable := if w.reaches 0x0c002000#32 i then w.data else n.regs.enable
        priority_net := if w.reaches 0x0c000008#32 i then w.data else n.regs.priority_net
        priority_uart := if w.reaches 0x0c000028#32 i then w.data else n.regs.priority_uart
        threshold := if w.reaches 0x0c200000#32 i then w.data else n.regs.threshold
        claim_count :=
          if w.reaches 0x0c200004#32 i ∧ w.data = 2#32 then c.regs.claim_count + 1
          else n.regs.claim_count } ∧
    (lane c w n i).live =
      { mtime :=
          if w.reaches 0x0200bff8#32 i then n.live.mtime.extractLsb' 32 32 ++ w.data
          else if w.reaches 0x0200bffc#32 i then w.data ++ n.live.mtime.extractLsb' 0 32
          else n.live.mtime
        pending :=
          if w.reaches 0x0c200004#32 i ∧ w.data = 2#32 then n.live.pending &&& ~~~4#32
          else n.live.pending } := by
  unfold BusWrite.reaches
  cases hstrb : w.strb.getLsbD i with
  | false =>
    rw [lane_off hstrb]
    simp
  | true =>
    simp only [Bool.true_and, decide_eq_true_eq]
    generalize hat : w.addr + BitVec.ofNat 32 i = at_
    have hother {r : Region} (hregion : region at_ = r) {addr : BitVec 32} (haddr : region addr ≠ r) :
        at_ ≠ addr := fun heq => haddr (by rw [← heq, hregion])
    cases hregion : region at_ with
    | uart =>
      have hne {addr : BitVec 32} (h : region addr ≠ .uart) := hother hregion h
      have h0 : at_ = 0x10000000#32 ↔ _ := uart_off_iff hregion 0#4
      have h1 : at_ = 0x10000001#32 ↔ _ := uart_off_iff hregion 1#4
      have h3 : at_ = 0x10000003#32 ↔ _ := uart_off_iff hregion 3#4
      rw [lane_uart hstrb (hat ▸ hregion), regs_uart_write, live_uart_write, hat]
      simp (disch := decide) only [h0, h1, h3, hne, if_false, false_and, and_self]
    | clint =>
      have hne {addr : BitVec 32} (h : region addr ≠ .clint) := hother hregion h
      have h0 : at_ = 0x02004000#32 ↔ _ := clint_off_iff at_ 0x4000#32
      have h4 : at_ = 0x02004004#32 ↔ _ := clint_off_iff at_ 0x4004#32
      have h8 : at_ = 0x0200bff8#32 ↔ _ := clint_off_iff at_ 0xbff8#32
      have hc : at_ = 0x0200bffc#32 ↔ _ := clint_off_iff at_ 0xbffc#32
      rw [lane_clint hstrb (hat ▸ hregion), regs_clint_write, live_clint_write, hat]
      simp (disch := decide) only [h0, h4, h8, hc, hne, if_false, false_and, and_self]
    | plic =>
      have hne {addr : BitVec 32} (h : region addr ≠ .plic) := hother hregion h
      have hnet : at_ = 0x0c000008#32 ↔ _ := plic_off_iff hregion 0x000008#24
      have huart : at_ = 0x0c000028#32 ↔ _ := plic_off_iff hregion 0x000028#24
      have henable : at_ = 0x0c002000#32 ↔ _ := plic_off_iff hregion 0x002000#24
      have hthreshold : at_ = 0x0c200000#32 ↔ _ := plic_off_iff hregion 0x200000#24
      have hclaim : at_ = 0x0c200004#32 ↔ _ := plic_off_iff hregion 0x200004#24
      rw [lane_plic hstrb (hat ▸ hregion), regs_plic_write, live_plic_write, hat]
      simp (disch := decide) only [hnet, huart, henable, hthreshold, hclaim, hne, if_false,
        false_and, and_self]
    | other =>
      have hne {addr : BitVec 32} (h : region addr ≠ .other) := hother hregion h
      rw [lane_other hstrb (hat ▸ hregion)]
      simp (disch := decide) only [hne, if_false, false_and, and_self]

/-! ## A write -/

theorem byte_lanes (w : BusWrite) (addr : BitVec 32) (x : BitVec 8) :
    (if w.reaches addr 3 then byte_at w.data 3 else if w.reaches addr 2 then byte_at w.data 2
      else if w.reaches addr 1 then byte_at w.data 1
      else if w.reaches addr 0 then byte_at w.data 0 else x) = (w.carries addr).getD x := by
  unfold BusWrite.carries
  cases h3 : w.reaches addr 3 <;> cases h2 : w.reaches addr 2 <;> cases h1 : w.reaches addr 1 <;>
    cases h0 : w.reaches addr 0 <;> simp [h0, h1, h2, h3, byte_at]

theorem carries_isSome (w : BusWrite) (addr : BitVec 32) :
    (w.carries addr).isSome = true ↔
      w.reaches addr 3 ∨ w.reaches addr 2 ∨ w.reaches addr 1 ∨ w.reaches addr 0 := by
  unfold BusWrite.carries
  rw [Option.isSome_map, List.find?_isSome]
  simp

theorem word_lanes {α : Type} (w : BusWrite) (addr : BitVec 32) (x y : α) :
    (if w.reaches addr 3 then y else if w.reaches addr 2 then y else if w.reaches addr 1 then y
      else if w.reaches addr 0 then y else x) = if (w.carries addr).isSome then y else x := by
  simp only [carries_isSome]
  split_ifs <;> simp_all

theorem one_lane {w : BusWrite} {addr next : BitVec 32} (hnext : next = addr + 4#32) {i j : Nat}
    (hi : i < 4) (hj : j < 4) (h : w.reaches addr i = true ∨ w.reaches next i = true)
    (h' : w.reaches addr j = true ∨ w.reaches next j = true) : i = j := by
  subst hnext
  unfold BusWrite.reaches at h h'
  simp only [Bool.and_eq_true, decide_eq_true_eq, ← BitVec.toNat_inj, BitVec.toNat_add,
    BitVec.toNat_ofNat] at h h'
  omega

/-- At most one lane of a write reaches two words that lie side by side. -/
theorem halves_lanes {α : Type} (w : BusWrite) {addr next : BitVec 32} (hnext : next = addr + 4#32)
    (f g : α → α) (x : α) :
    [0, 1, 2, 3].foldl (fun x i =>
        if w.reaches addr i then f x else if w.reaches next i then g x else x) x =
      if (w.carries addr).isSome then f x else if (w.carries next).isSome then g x else x := by
  simp only [List.foldl_cons, List.foldl_nil, carries_isSome]
  by_cases hany : ∃ i < 4, w.reaches addr i = true ∨ w.reaches next i = true
  · obtain ⟨i, hi, h⟩ := hany
    have hno (j : Nat) (hj : j < 4) (hne : i ≠ j) :
        ¬ (w.reaches addr j = true ∨ w.reaches next j = true) :=
      fun h' => hne (one_lane hnext hi hj h h')
    simp only [not_or] at hno
    obtain rfl | rfl | rfl | rfl : i = 0 ∨ i = 1 ∨ i = 2 ∨ i = 3 := by omega
    all_goals simp [hno]
  · have hnone (i : Nat) (hi : i < 4) : ¬ (w.reaches addr i = true ∨ w.reaches next i = true) :=
      fun h => hany ⟨i, hi, h⟩
    simp only [not_or] at hnone
    simp [hnone]

theorem claim_lanes (w : BusWrite) (x y : BitVec 32) :
    [0, 1, 2, 3].foldl (fun x i => if w.reaches 0x0c200004#32 i ∧ w.data = 2#32 then y else x) x =
      if (w.carries 0x0c200004#32).isSome ∧ w.data = 2#32 then y else x := by
  by_cases hdata : w.data = 2#32
  · simp only [hdata, and_true, List.foldl_cons, List.foldl_nil, word_lanes]
  · simp only [hdata, and_false, if_false, List.foldl_cons, List.foldl_nil]

theorem regs_lanes {c n : Console} (hregs : n.regs = c.regs) (w : BusWrite) :
    (lanes c w n).regs = c.regs.write w := by
  have hclaim := claim_lanes w c.regs.claim_count (c.regs.claim_count + 1)
  have hcmp := halves_lanes w (show 0x02004004#32 = 0x02004000#32 + 4#32 from rfl)
    (fun _ => 0#32 ++ w.data) (fun x => w.data ++ x.extractLsb' 0 32) c.regs.mtimecmp
  simp only [List.foldl_cons, List.foldl_nil] at hclaim hcmp
  unfold lanes Regs.write
  simp only [List.foldl_cons, List.foldl_nil, state_lane, hregs, hclaim, hcmp]
  cases c.regs.dlab
  all_goals
    simp only [Bool.false_eq_true, Bool.true_eq_false, and_true, and_false, if_false, if_true,
      byte_lanes, word_lanes]

theorem live_lanes (c : Console) (w : BusWrite) (n : Console) :
    (lanes c w n).live = n.live.write w := by
  have htime := halves_lanes w (show 0x0200bffc#32 = 0x0200bff8#32 + 4#32 from rfl)
    (fun x => x.extractLsb' 32 32 ++ w.data) (fun x => w.data ++ x.extractLsb' 0 32) n.live.mtime
  have hend := halves_lanes w (show 0x0c200008#32 = 0x0c200004#32 + 4#32 from rfl)
    (fun x => if w.data = 2#32 then x &&& ~~~4#32 else x) id n.live.pending
  simp only [List.foldl_cons, List.foldl_nil, id, ite_self, ← ite_and] at htime hend
  unfold lanes Live.write
  simp only [List.foldl_cons, List.foldl_nil, state_lane, htime, hend]

/-! ## A clock edge -/

/-- The transmit queue after a byte, if there is one. -/
def Tx.takes (x : Tx) (byte : Option (BitVec 8)) : Tx := byte.elim x x.enqueue

theorem regs_step (c : Console) (i : ConsoleIn) :
    (c.step i).regs = (c.performs i).toList.foldl Regs.write c.regs := by
  have hpops : (pops c i).regs = c.regs := by
    unfold pops dequeue drain sync
    split_ifs <;> rfl
  have htime (n : Console) : (time n).regs = n.regs := by
    unfold time
    split_ifs <;> rfl
  have hirq (n : Console) : (irq n i).regs = n.regs := by
    unfold irq
    dsimp only
    split_ifs <;> rfl
  obtain ⟨n, hn, hstep⟩ := step_view regs (fun _ _ _ _ _ _ => rfl) c i
  rw [hirq, htime, hpops] at hn
  rw [hstep]
  cases c.performs i with
  | none => exact hn
  | some w => exact regs_lanes hn w

/-- The clock and the interrupt at the edge, before the write. -/
def ticked (c : Console) (i : ConsoleIn) : Live where
  mtime := if c.mtime_accum_q ≥ 15 then c.mtime_q + 1 else c.mtime_q
  pending :=
    let pending :=
      if i.debug_irq_clear then c.plic_pending_q &&& ~~~4#32 else c.plic_pending_q
    if i.net_irq_event then pending ||| 4#32 else pending

theorem live_step (c : Console) (i : ConsoleIn) :
    (c.step i).live = (c.performs i).toList.foldl Live.write (c.ticked i) := by
  have hpops : (pops c i).live = c.live ∧ (pops c i).mtime_accum_q = c.mtime_accum_q := by
    unfold pops dequeue drain sync
    split_ifs <;> exact ⟨rfl, rfl⟩
  have hbefore : (irq (time (pops c i)) i).live = c.ticked i := by
    obtain ⟨hlive, haccum⟩ := hpops
    obtain ⟨hmtime, hpending⟩ := Live.mk.inj hlive
    unfold irq time ticked live
    rw [haccum]
    dsimp only
    split_ifs <;> simp only [hmtime, hpending]
  obtain ⟨n, hn, hstep⟩ := step_view live (fun _ _ _ _ _ _ => rfl) c i
  rw [hstep, ← hbefore, ← hn]
  cases c.performs i with
  | none => rfl
  | some w => exact live_lanes c w n

theorem find?_reverse {α : Type} {p : α → Bool} {l : List α}
    (hone : ∀ a ∈ l, ∀ b ∈ l, p a = true → p b = true → a = b) :
    l.reverse.find? p = l.find? p := by
  cases hfind : l.find? p with
  | none =>
    rw [List.find?_eq_none] at hfind ⊢
    exact fun a ha => hfind a (List.mem_reverse.mp ha)
  | some a =>
    have ha := List.mem_of_find?_eq_some hfind
    have hp := List.find?_some hfind
    obtain ⟨b, hb⟩ := Option.isSome_iff_exists.mp
      (List.find?_isSome.mpr ⟨a, List.mem_reverse.mpr ha, hp⟩)
    rw [hb, hone a ha b (List.mem_reverse.mp (List.mem_of_find?_eq_some hb)) hp (List.find?_some hb)]

theorem written_eq (c : Console) (i : ConsoleIn) :
    c.written i = (c.performs i).bind c.regs.sends := by
  unfold written
  cases c.performs i with
  | none => rfl
  | some w =>
    change ([0, 1, 2, 3].find? (transmits c w)).map (byte_at w.data) =
      if c.uart_dlab_w then none else w.carries 0x10000000#32
    have htransmits (k : Nat) :
        transmits c w k = (w.reaches 0x10000000#32 k && !c.uart_dlab_w) := by
      have hoff : region (w.addr + BitVec.ofNat 32 k) = .uart ∧
          (w.addr + BitVec.ofNat 32 k).extractLsb' 0 4 = 0#4 ↔
            w.addr + BitVec.ofNat 32 k = 0x10000000#32 := by
        constructor
        · rintro ⟨hregion, hzero⟩
          exact (uart_off_iff hregion 0#4).mpr hzero
        · intro haddr
          rw [haddr]
          decide
      unfold transmits BusWrite.reaches
      rw [Bool.and_assoc (w.strb.getLsbD k), ← Bool.decide_and, decide_eq_decide.mpr hoff]
    have hlt : ∀ k ∈ [0, 1, 2, 3], k < 4 := by decide
    cases hdlab : c.uart_dlab_w with
    | true =>
      rw [List.find?_eq_none.mpr fun k _ => by rw [htransmits, hdlab]; simp]
      rfl
    | false =>
      have hreaches : transmits c w = w.reaches 0x10000000#32 := by
        funext k
        rw [htransmits, hdlab, Bool.not_false, Bool.and_true]
      unfold BusWrite.carries
      rw [← hreaches, ← find?_reverse fun a ha b hb h h' => transmits_inj (hlt a ha) (hlt b hb) h h']
      rfl

theorem tx_takes (c : Console) (i : ConsoleIn) :
    (c.step i).tx = (c.txRead i).takes ((c.performs i).bind c.regs.sends) := by
  rw [tx_step, ← written_eq]
  cases c.written i <;> rfl

end Console

end vibeos.fpga
