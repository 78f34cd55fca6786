-- riscv_ps_ddr_top.v: the debug port, an AXI slave whose ready signals follow a registered copy of
-- the request, with the console behind it. It executes each access once: never for a write, and for
-- a read of the console unless the JTAG side pops the byte in the same cycle.
import Vibeos.JtagStream
import Vibeos.PlMouse

namespace vibeos.fpga

/-- A clock cycle: the master of the debug port, the other registers that it reads, and the inputs
of the console. -/
structure DebugIn where
  awvalid : Bool
  awaddr : BitVec 32
  wvalid : Bool
  wdata : BitVec 32
  bready : Bool
  arvalid : Bool
  araddr : BitVec 32
  rready : Bool
  registers : BitVec 7 → BitVec 32
  cpu : BusMaster
  net_irq_event : Bool
  tx_pop_toggle_w : Bool

structure DebugPort where
  dbg_awready_q : Bool
  dbg_wready_q : Bool
  dbg_bvalid_q : Bool
  dbg_arready_q : Bool
  dbg_rvalid_q : Bool
  dbg_rdata_q : BitVec 32
  mmio_ps_console_pop_q : Bool

namespace DebugPort

def reset : DebugPort := ⟨false, false, false, false, false, 0, false⟩

/-! ## The wires -/

def dbg_write_fire_w (p : DebugPort) (i : DebugIn) : Bool :=
  i.awvalid && i.wvalid && !p.dbg_bvalid_q

def dbg_irq_clear_w (p : DebugPort) (i : DebugIn) : Bool :=
  p.dbg_write_fire_w i && i.awaddr.extractLsb' 2 7 = 0x49#7 && i.wdata.getLsbD 2

def dbg_wr (p : DebugPort) (i : DebugIn) : Option DebugWrite :=
  if p.dbg_write_fire_w i then some ⟨i.awaddr.setWidth 8, i.wdata⟩ else none

/-- The edge puts the value of a register into `dbg_rdata_q`. -/
def latches (p : DebugPort) (i : DebugIn) : Bool := i.arvalid && !p.dbg_rvalid_q

def value (c : Console) (i : DebugIn) : BitVec 32 :=
  let reg : BitVec 7 := i.araddr.extractLsb' 2 7
  if reg = 0x00 then 0x44524731
  else if reg = 0x28 then 0#23 ++ BitVec.ofBool c.tx_valid_w ++ c.tx_data_w
  else if reg ≤ 0x4a then i.registers reg
  else 0

/-- The edge latches a byte of the console. -/
def returns (p : DebugPort) (c : Console) (i : DebugIn) : Bool :=
  p.latches i && i.araddr.extractLsb' 2 7 = 0x28#7 && c.tx_valid_w

def console (p : DebugPort) (i : DebugIn) : ConsoleIn :=
  ⟨i.cpu, i.net_irq_event, p.dbg_irq_clear_w i, p.mmio_ps_console_pop_q, i.tx_pop_toggle_w⟩

/-! ## The clock edge -/

def step (p : DebugPort) (c : Console) (i : DebugIn) : DebugPort where
  dbg_awready_q := i.awvalid && i.wvalid && !p.dbg_bvalid_q
  dbg_wready_q := i.awvalid && i.wvalid && !p.dbg_bvalid_q
  dbg_bvalid_q := if p.dbg_awready_q && p.dbg_wready_q then true
    else if i.bready then false else p.dbg_bvalid_q
  dbg_arready_q := i.arvalid && !p.dbg_rvalid_q
  dbg_rvalid_q := if p.latches i then true else if i.rready then false else p.dbg_rvalid_q
  dbg_rdata_q := if p.latches i then value c i else p.dbg_rdata_q
  mmio_ps_console_pop_q := p.returns c i

end DebugPort

/-! ## A run -/

/-- The port and the console with the history of the port: how many addresses, data and answers of
writes were taken, for each cycle of `dbg_write_fire_w` how many addresses were taken before it, the
addresses of the reads taken, the values latched with their addresses, the answers taken, how many
bytes left the console, and which of them the port returned and which it popped. -/
structure DebugRun where
  p : DebugPort
  c : Console
  aw : Nat
  w : Nat
  b : Nat
  fires : List Nat
  ar : List (BitVec 32)
  latched : List (BitVec 32 × BitVec 32)
  r : List (BitVec 32)
  left : Nat
  returned : List (Nat × BitVec 8)
  popped : List (Nat × BitVec 8)

namespace DebugRun

def start (tx_fifo_q pl_uart_fifo_q : BitVec 8 → BitVec 8) : DebugRun :=
  ⟨.reset, .reset tx_fifo_q pl_uart_fifo_q, 0, 0, 0, [], [], [], [], 0, [], []⟩

def head (s : DebugRun) : Nat × BitVec 8 := (s.left, s.c.tx_data_w)

def cycle (s : DebugRun) (i : DebugIn) : DebugRun where
  p := s.p.step s.c i
  c := s.c.step (s.p.console i)
  aw := s.aw + (i.awvalid && s.p.dbg_awready_q).toNat
  w := s.w + (i.wvalid && s.p.dbg_wready_q).toNat
  b := s.b + (s.p.dbg_bvalid_q && i.bready).toNat
  fires := s.fires ++ Axi.entry (s.p.dbg_write_fire_w i) s.aw
  ar := s.ar ++ Axi.entry (i.arvalid && s.p.dbg_arready_q) i.araddr
  latched := s.latched ++ Axi.entry (s.p.latches i) (i.araddr, DebugPort.value s.c i)
  r := s.r ++ Axi.entry (s.p.dbg_rvalid_q && i.rready) s.p.dbg_rdata_q
  left := s.left +
    ((s.c.tx_pop_event_w || s.p.mmio_ps_console_pop_q) && s.c.tx_valid_w).toNat
  returned := s.returned ++ Axi.entry (s.p.returns s.c i) s.head
  popped := s.popped ++ Axi.entry (s.p.mmio_ps_console_pop_q && s.c.tx_valid_w) s.head

def run (s : DebugRun) (cycles : List DebugIn) : DebugRun := cycles.foldl cycle s

/-- A master that holds what it offers until it is accepted. -/
def Compliant (s : DebugRun) (cycles : List DebugIn) : Prop :=
  ∀ h i j t, cycles = h ++ i :: j :: t →
    (i.awvalid = true → (s.run h).p.dbg_awready_q = false →
      j.awvalid = true ∧ j.awaddr = i.awaddr) ∧
    (i.wvalid = true → (s.run h).p.dbg_wready_q = false → j.wvalid = true ∧ j.wdata = i.wdata) ∧
    (i.arvalid = true → (s.run h).p.dbg_arready_q = false →
      j.arvalid = true ∧ j.araddr = i.araddr)

/-- Every write taken fires once and is answered once, every read taken is answered once with a
value of its own address, and the bytes that the port popped are those that it returned. -/
structure ExactlyOnce (s : DebugRun) : Prop where
  fired : ∀ k, k < s.aw → k < s.w → s.fires.count k = 1
  answered : s.b + s.p.dbg_bvalid_q.toNat = min s.aw s.w
  asked : s.ar <+: s.latched.map Prod.fst
  latched : s.latched.length = s.ar.length + s.p.dbg_arready_q.toNat
  read : s.r ++ Axi.entry s.p.dbg_rvalid_q s.p.dbg_rdata_q = s.latched.map Prod.snd
  popped : s.returned = s.popped ++ Axi.entry (s.p.mmio_ps_console_pop_q && s.c.tx_valid_w) s.head

/-- No write is offered, unless in the last cycle. -/
def NoWrites (cycles : List DebugIn) : Prop :=
  ∀ h i j t, cycles = h ++ i :: j :: t → (i.awvalid && i.wvalid) = false

/-- The JTAG side pops the byte that the port returns. -/
def races (s : DebugRun) (i : DebugIn) : Bool := s.p.returns s.c i && s.c.tx_pop_event_w

end DebugRun

end vibeos.fpga

namespace vibeos.fpga.DebugRun

open Runs (Each)

/-! ## Runs -/

theorem run_snoc (s : DebugRun) (cycles : List DebugIn) (i : DebugIn) :
    s.run (cycles ++ [i]) = (s.run cycles).cycle i := by
  unfold run
  rw [List.foldl_append]
  rfl

theorem Compliant.front {s : DebugRun} {cycles : List DebugIn} {i : DebugIn}
    (hc : s.Compliant (cycles ++ [i])) : s.Compliant cycles := fun h x y t heq =>
  hc h x y (t ++ [i]) (by rw [heq, List.append_assoc]; rfl)

theorem Compliant.last {s : DebugRun} {cycles : List DebugIn} {i j : DebugIn}
    (hc : s.Compliant (cycles ++ [i] ++ [j])) :
    (i.awvalid = true → (s.run cycles).p.dbg_awready_q = false →
      j.awvalid = true ∧ j.awaddr = i.awaddr) ∧
    (i.wvalid = true → (s.run cycles).p.dbg_wready_q = false →
      j.wvalid = true ∧ j.wdata = i.wdata) ∧
    (i.arvalid = true → (s.run cycles).p.dbg_arready_q = false →
      j.arvalid = true ∧ j.araddr = i.araddr) :=
  hc cycles i j [] (by rw [List.append_assoc]; rfl)

/-! ## Writes -/

/-- No write was taken so far. -/
structure Untaken (s : DebugRun) : Prop where
  aw : s.aw = 0
  w : s.w = 0
  b : s.b = 0
  bvalid : s.p.dbg_bvalid_q = false

/-- No write was offered so far. -/
structure Quiet (s : DebugRun) : Prop extends Untaken s where
  fires : s.fires = []
  awready : s.p.dbg_awready_q = false
  wready : s.p.dbg_wready_q = false

/-- A first write was offered in the last cycle. -/
structure Offered (s : DebugRun) : Prop extends Untaken s where
  fires : s.fires = [0]
  awready : s.p.dbg_awready_q = true
  wready : s.p.dbg_wready_q = true

/-- The first write fired twice. -/
structure Doubled (s : DebugRun) : Prop where
  aw : 0 < s.aw
  w : 0 < s.w
  fires : 2 ≤ s.fires.count 0

section Writes

variable {s : DebugRun} {i : DebugIn}

theorem Quiet.untaken (h : Quiet s) (i : DebugIn) : Untaken (s.cycle i) where
  aw := by
    unfold cycle
    rw [h.aw, h.awready, Bool.and_false]
    rfl
  w := by
    unfold cycle
    rw [h.w, h.wready, Bool.and_false]
    rfl
  b := by
    unfold cycle
    rw [h.b, h.bvalid, Bool.false_and]
    rfl
  bvalid := by
    unfold cycle DebugPort.step
    rw [h.awready, h.bvalid]
    cases i.bready <;> rfl

theorem Quiet.step (h : Quiet s) (hno : (i.awvalid && i.wvalid) = false) : Quiet (s.cycle i) where
  toUntaken := h.untaken i
  fires := by
    unfold cycle DebugPort.dbg_write_fire_w
    rw [h.fires, hno, Bool.false_and]
    rfl
  awready := by
    unfold cycle DebugPort.step
    rw [hno, Bool.false_and]
  wready := by
    unfold cycle DebugPort.step
    rw [hno, Bool.false_and]

theorem Quiet.offered (h : Quiet s) (hboth : (i.awvalid && i.wvalid) = true) :
    Offered (s.cycle i) where
  toUntaken := h.untaken i
  fires := by
    unfold cycle DebugPort.dbg_write_fire_w
    rw [h.fires, hboth, h.bvalid, h.aw]
    rfl
  awready := by
    unfold cycle DebugPort.step
    rw [hboth, h.bvalid]
    rfl
  wready := by
    unfold cycle DebugPort.step
    rw [hboth, h.bvalid]
    rfl

theorem Offered.doubled (h : Offered s) (haw : i.awvalid = true) (hw : i.wvalid = true) :
    Doubled (s.cycle i) where
  aw := by
    unfold cycle
    rw [h.aw, haw, h.awready]
    exact Nat.zero_lt_one
  w := by
    unfold cycle
    rw [h.w, hw, h.wready]
    exact Nat.zero_lt_one
  fires := by
    unfold cycle DebugPort.dbg_write_fire_w
    rw [h.fires, haw, hw, h.bvalid, h.aw]
    exact Nat.le_refl 2

theorem Doubled.step (h : Doubled s) (i : DebugIn) : Doubled (s.cycle i) where
  aw := Nat.lt_of_lt_of_le h.aw (Nat.le_add_right _ _)
  w := Nat.lt_of_lt_of_le h.w (Nat.le_add_right _ _)
  fires := by
    unfold cycle
    rw [List.count_append]
    exact Nat.le_trans h.fires (Nat.le_add_right _ _)

end Writes

/-- Nothing was offered, or only in the last cycle, or a write fired twice. -/
inductive Writing (s : DebugRun) (cycles : List DebugIn) : Prop
  | quiet (h : Quiet (s.run cycles)) (hno : ∀ i ∈ cycles, (i.awvalid && i.wvalid) = false)
  | offered (before : List DebugIn) (i : DebugIn) (hlast : cycles = before ++ [i])
      (hquiet : Quiet (s.run before)) (hno : ∀ i ∈ before, (i.awvalid && i.wvalid) = false)
      (hboth : (i.awvalid && i.wvalid) = true)
  | doubled (h : Doubled (s.run cycles)) (hwrites : ¬ NoWrites cycles)

theorem writing_of_compliant {s : DebugRun} (hstart : Quiet s) {cycles : List DebugIn}
    (hc : s.Compliant cycles) : Writing s cycles := by
  induction cycles using List.reverseRecOn with
  | nil => exact .quiet hstart fun i hi => absurd hi List.not_mem_nil
  | append_singleton cycles j ih =>
    cases ih hc.front with
    | quiet hquiet hno =>
      cases hboth : j.awvalid && j.wvalid with
      | true => exact .offered cycles j rfl hquiet hno hboth
      | false =>
        refine .quiet (by rw [run_snoc]; exact hquiet.step hboth) fun i hi => ?_
        rcases List.mem_append.mp hi with hi | hi
        · exact hno i hi
        · rwa [List.mem_singleton.mp hi]
    | offered before i hlast hquiet hno hboth =>
      subst hlast
      obtain ⟨haw, hw, -⟩ := hc.last
      obtain ⟨hiaw, hiw⟩ := Bool.and_eq_true_iff.mp hboth
      have hj := haw hiaw hquiet.awready
      have hj' := hw hiw hquiet.wready
      refine .doubled ?_ fun hnone => ?_
      · rw [run_snoc, run_snoc]
        exact (hquiet.offered hboth).doubled hj.1 hj'.1
      · have hfalse := hnone before i j [] (by rw [List.append_assoc]; rfl)
        rw [hboth] at hfalse
        exact Bool.noConfusion hfalse
    | doubled hdoubled hwrites =>
      refine .doubled (by rw [run_snoc]; exact hdoubled.step j) fun hnone => hwrites ?_
      exact fun h x y t heq => hnone h x y (t ++ [j]) (by rw [heq, List.append_assoc]; rfl)

theorem Untaken.fired {s : DebugRun} (h : Untaken s) :
    ∀ k, k < s.aw → k < s.w → s.fires.count k = 1 := by
  intro k hk
  rw [h.aw] at hk
  exact absurd hk (Nat.not_lt_zero k)

theorem Untaken.answered {s : DebugRun} (h : Untaken s) :
    s.b + s.p.dbg_bvalid_q.toNat = min s.aw s.w := by
  rw [h.b, h.bvalid, h.aw, Nat.zero_min]
  rfl

theorem noWrites_append_last {cycles : List DebugIn}
    (hno : ∀ i ∈ cycles, (i.awvalid && i.wvalid) = false) (i : DebugIn) :
    NoWrites (cycles ++ [i]) := by
  intro before x y after heq
  refine hno x ?_
  rcases List.eq_nil_or_concat after with rfl | ⟨after', last, rfl⟩
  · have hsplit : cycles ++ [i] = (before ++ [x]) ++ [y] := by rw [heq, List.append_assoc]; rfl
    rw [(List.append_inj' hsplit rfl).1]
    simp
  · have hsplit : cycles ++ [i] = (before ++ x :: y :: after') ++ [last] := by
      rw [heq, List.concat_eq_append, List.append_assoc]
      rfl
    rw [(List.append_inj' hsplit rfl).1]
    simp

theorem writes_iff {s : DebugRun} (hstart : Quiet s) {cycles : List DebugIn}
    (hc : s.Compliant cycles) :
    NoWrites cycles ∧ Untaken (s.run cycles) ∨
      ¬ NoWrites cycles ∧ ¬ ∀ k, k < (s.run cycles).aw → k < (s.run cycles).w →
        (s.run cycles).fires.count k = 1 := by
  cases writing_of_compliant hstart hc with
  | quiet h hno => exact .inl ⟨fun before i j t heq => hno i (by rw [heq]; simp), h.toUntaken⟩
  | offered before i hlast hquiet hno _ =>
    subst hlast
    rw [run_snoc]
    exact .inl ⟨noWrites_append_last hno i, hquiet.untaken i⟩
  | doubled h hwrites =>
    refine .inr ⟨hwrites, fun honce => ?_⟩
    have hone := honce 0 h.aw h.w
    have htwo := h.fires
    omega

/-! ## Reads -/

/-- The values latched are those taken, and one that stands. -/
structure Reads (s : DebugRun) : Prop where
  read : s.r ++ Axi.entry s.p.dbg_rvalid_q s.p.dbg_rdata_q = s.latched.map Prod.snd
  arready : s.p.dbg_arready_q = true → s.p.dbg_rvalid_q = true
  pop : s.p.mmio_ps_console_pop_q = true → s.p.dbg_rvalid_q = true

theorem Reads.step {s : DebugRun} (h : Reads s) (i : DebugIn) : Reads (s.cycle i) where
  read := by
    have hread := h.read
    unfold cycle DebugPort.step DebugPort.latches
    dsimp only
    rw [List.map_append, ← hread]
    cases s.p.dbg_rvalid_q <;> cases i.arvalid <;> cases i.rready <;> simp [Axi.entry]
  arready := by
    unfold cycle DebugPort.step DebugPort.latches
    dsimp only
    intro hlatch
    rw [if_pos hlatch]
  pop := by
    unfold cycle DebugPort.step DebugPort.returns
    dsimp only
    intro hreturns
    rw [if_pos (Bool.and_eq_true_iff.mp (Bool.and_eq_true_iff.mp hreturns).1).1]

/-- Every value latched belongs to a read taken, or to the one that the master holds now. -/
inductive Asking (s : DebugRun) (cycles : List DebugIn) : Prop
  | none (hready : (s.run cycles).p.dbg_arready_q = false)
      (hasked : (s.run cycles).latched.map Prod.fst = (s.run cycles).ar)
  | held (before : List DebugIn) (i : DebugIn) (hlast : cycles = before ++ [i])
      (harvalid : i.arvalid = true) (hbefore : (s.run before).p.dbg_arready_q = false)
      (hready : (s.run cycles).p.dbg_arready_q = true)
      (hasked : (s.run cycles).latched.map Prod.fst = (s.run cycles).ar ++ [i.araddr])

theorem asking_of_compliant {s : DebugRun} (hready : s.p.dbg_arready_q = false)
    (hasked : s.latched.map Prod.fst = s.ar) (hreads : ∀ cycles, Reads (s.run cycles))
    {cycles : List DebugIn} (hc : s.Compliant cycles) : Asking s cycles := by
  induction cycles using List.reverseRecOn with
  | nil => exact .none hready hasked
  | append_singleton cycles j ih =>
    cases ih hc.front with
    | none hready hasked =>
      cases hlatch : (s.run cycles).p.latches j with
      | true =>
        refine .held cycles j rfl (Bool.and_eq_true_iff.mp hlatch).1 hready ?_ ?_
        · rw [run_snoc]
          exact hlatch
        · rw [run_snoc]
          unfold cycle
          rw [hlatch, hready, Bool.and_false, List.map_append, hasked]
          simp [Axi.entry]
      | false =>
        refine .none ?_ ?_
        · rw [run_snoc]
          exact hlatch
        · rw [run_snoc]
          unfold cycle
          rw [hlatch, hready, Bool.and_false, List.map_append, hasked]
          rfl
    | held before i hlast harvalid hbefore hready hasked =>
      subst hlast
      obtain ⟨hjvalid, hjaddr⟩ := hc.last.2.2 harvalid hbefore
      have hrvalid := (hreads (before ++ [i])).arready hready
      have hlatch : (s.run (before ++ [i])).p.latches j = false := by
        unfold DebugPort.latches
        rw [hrvalid]
        exact Bool.and_false _
      refine .none ?_ ?_
      · rw [run_snoc]
        exact hlatch
      · rw [run_snoc]
        unfold cycle
        rw [hlatch, hready, hjvalid, hjaddr, List.map_append, hasked]
        exact List.append_nil _

/-! ## Bytes of the console -/

/-- The console holds the bytes that did not leave it yet. -/
structure Bytes (s : DebugRun) : Prop extends Reads s where
  holds : ∃ acc, s.c.tx.Holds acc s.left
  lt : ∀ e ∈ s.popped, e.1 < s.left

theorem valid_iff {c : Console} {acc : List (BitVec 8)} {n : Nat} (h : c.tx.Holds acc n) :
    c.tx_valid_w = true ↔ n < acc.length := by
  obtain ⟨hheads, hvalid⟩ := Link.heads_now h
  refine ⟨fun hv => ?_, hvalid⟩
  rw [hv] at hheads
  exact hheads.lt

theorem Bytes.step {s : DebugRun} (h : Bytes s) (i : DebugIn) : Bytes (s.cycle i) where
  toReads := h.toReads.step i
  holds := by
    obtain ⟨acc, hacc⟩ := h.holds
    refine ⟨acc ++ s.c.accepts (s.p.console i), ?_⟩
    have hstep := hacc.step (s.p.console i)
    have hleft : (s.cycle i).left =
        if (s.c.tx_pop_event_w || (s.p.console i).ps_console_pop) = true ∧ s.left < acc.length then
          s.left + 1 else s.left := by
      unfold cycle DebugPort.console
      dsimp only
      by_cases hlt : s.left < acc.length
      · rw [(valid_iff hacc).mpr hlt]
        cases s.c.tx_pop_event_w || s.p.mmio_ps_console_pop_q <;> simp [hlt]
      · rw [Bool.eq_false_iff.mpr (mt (valid_iff hacc).mp hlt)]
        simp [hlt]
    rw [hleft]
    exact hstep
  lt := by
    intro e he
    unfold cycle at he ⊢
    dsimp only at he ⊢
    rcases List.mem_append.mp he with he | he
    · exact Nat.lt_of_lt_of_le (h.lt e he) (Nat.le_add_right _ _)
    · cases hpop : s.p.mmio_ps_console_pop_q && s.c.tx_valid_w with
      | false =>
        rw [hpop] at he
        exact absurd he List.not_mem_nil
      | true =>
        obtain ⟨hp, hv⟩ := Bool.and_eq_true_iff.mp hpop
        rw [hpop] at he
        rw [List.mem_singleton.mp he, hp, hv, Bool.or_true]
        exact Nat.lt_succ_self _

/-- The port popped what it returned, but for a pop that is due. -/
structure Popped (s : DebugRun) : Prop where
  eq : s.returned = s.popped ++ Axi.entry (s.p.mmio_ps_console_pop_q && s.c.tx_valid_w) s.head
  due : s.p.mmio_ps_console_pop_q = true → s.c.tx_valid_w = true

/-- The port returned a byte that it did not pop, and that is no longer in the console. -/
def Lost (s : DebugRun) : Prop :=
  ∃ n, n ∈ s.returned.map Prod.fst ∧ n ∉ s.popped.map Prod.fst ∧ n < s.left

theorem Lost.ne {s : DebugRun} (h : Lost s) :
    s.returned ≠ s.popped ++ Axi.entry (s.p.mmio_ps_console_pop_q && s.c.tx_valid_w) s.head := by
  obtain ⟨n, hreturned, hpopped, hlt⟩ := h
  intro heq
  rw [heq, List.map_append, List.mem_append] at hreturned
  rcases hreturned with hin | hin
  · exact hpopped hin
  · unfold Axi.entry at hin
    split at hin
    · have hn : n = s.left := List.mem_singleton.mp hin
      omega
    · exact absurd hin List.not_mem_nil

theorem Lost.step {s : DebugRun} (h : Lost s) (i : DebugIn) : Lost (s.cycle i) := by
  obtain ⟨n, hreturned, hpopped, hlt⟩ := h
  refine ⟨n, ?_, fun hin => ?_, Nat.lt_of_lt_of_le hlt (Nat.le_add_right _ _)⟩
  · unfold cycle
    rw [List.map_append]
    exact List.mem_append_left _ hreturned
  · unfold cycle at hin
    rw [List.map_append, List.mem_append] at hin
    rcases hin with hin | hin
    · exact hpopped hin
    · unfold Axi.entry at hin
      split at hin
      · have hn : n = s.left := List.mem_singleton.mp hin
        omega
      · exact absurd hin List.not_mem_nil

section Step

variable {s : DebugRun} {i : DebugIn}

theorem Bytes.not_pop_of_returns (h : Bytes s) (hr : s.p.returns s.c i = true) :
    s.p.mmio_ps_console_pop_q = false := by
  have hlatch := (Bool.and_eq_true_iff.mp (Bool.and_eq_true_iff.mp hr).1).1
  have hfree := (Bool.and_eq_true_iff.mp hlatch).2
  cases hp : s.p.mmio_ps_console_pop_q with
  | false => rfl
  | true =>
    rw [h.pop hp] at hfree
    exact Bool.noConfusion hfree

theorem Bytes.lost (h : Bytes s) (hraces : s.races i = true) : Lost (s.cycle i) := by
  obtain ⟨hreturns, hevent⟩ := Bool.and_eq_true_iff.mp hraces
  have hvalid := (Bool.and_eq_true_iff.mp hreturns).2
  refine ⟨s.left, ?_, fun hin => ?_, ?_⟩
  · unfold cycle
    rw [hreturns, List.map_append]
    exact List.mem_append_right _ (List.mem_singleton_self _)
  · unfold cycle at hin
    rw [h.not_pop_of_returns hreturns, Bool.false_and, List.map_append, List.mem_append] at hin
    rcases hin with hin | hin
    · obtain ⟨e, he, hleft⟩ := List.mem_map.mp hin
      have hlt := h.lt e he
      omega
    · exact absurd hin List.not_mem_nil
  · unfold cycle
    rw [hevent, hvalid]
    exact Nat.lt_succ_self _

theorem Bytes.head_step (h : Bytes s) (hvalid : s.c.tx_valid_w = true)
    (hevent : s.c.tx_pop_event_w = false) (hpop : s.p.mmio_ps_console_pop_q = false) :
    (s.cycle i).head = s.head ∧ (s.cycle i).c.tx_valid_w = true := by
  obtain ⟨acc, hacc⟩ := h.holds
  have hlt := (valid_iff hacc).mp hvalid
  have hstep := hacc.step (s.p.console i)
  have hno : (s.c.tx_pop_event_w || (s.p.console i).ps_console_pop) = false := by
    unfold DebugPort.console
    rw [hevent, hpop]
    rfl
  rw [hno, if_neg (fun hand => Bool.noConfusion hand.1)] at hstep
  have hvalid' : (s.cycle i).c.tx_valid_w = true := (valid_iff hstep).mpr (by
    rw [List.length_append]
    omega)
  refine ⟨?_, hvalid'⟩
  have hhead := ((Link.heads_now hacc).1 hvalid).2
  have hhead' := ((Link.heads_now hstep).1 hvalid').2
  rw [List.getElem?_append_left hlt, hhead] at hhead'
  unfold head cycle
  rw [hevent, hpop, Bool.false_or, Bool.false_and]
  exact Prod.ext rfl (Option.some.inj hhead').symm

theorem Popped.step (h : Popped s) (hb : Bytes s) (hno : s.races i = false) :
    Popped (s.cycle i) := by
  cases hreturns : s.p.returns s.c i with
  | true =>
    have hvalid := (Bool.and_eq_true_iff.mp hreturns).2
    have hpop := hb.not_pop_of_returns hreturns
    have hevent : s.c.tx_pop_event_w = false := by
      unfold races at hno
      rwa [hreturns, Bool.true_and] at hno
    obtain ⟨hhead, hvalid'⟩ := hb.head_step (i := i) hvalid hevent hpop
    refine ⟨?_, fun _ => hvalid'⟩
    rw [hhead, hvalid']
    unfold cycle DebugPort.step
    dsimp only
    rw [h.eq, hreturns, hpop, Bool.false_and]
    simp [Axi.entry]
  | false =>
    refine ⟨?_, fun hdue => ?_⟩
    · unfold cycle DebugPort.step
      dsimp only
      rw [h.eq, hreturns]
      simp [Axi.entry]
    · unfold cycle DebugPort.step at hdue
      rw [hreturns] at hdue
      exact Bool.noConfusion hdue

end Step

theorem popped_iff {s : DebugRun} (hstart : Popped s) (hbytes : ∀ cycles, Bytes (s.run cycles))
    (cycles : List DebugIn) :
    Each (fun h i => (s.run h).races i = false) cycles ∧ Popped (s.run cycles) ∨
      ¬ Each (fun h i => (s.run h).races i = false) cycles ∧ Lost (s.run cycles) := by
  induction cycles using List.reverseRecOn with
  | nil => exact .inl ⟨Runs.each_nil _, hstart⟩
  | append_singleton cycles i ih =>
    rw [Runs.each_snoc, run_snoc]
    rcases ih with ⟨hall, hpopped⟩ | ⟨hall, hlost⟩
    · cases hraces : (s.run cycles).races i with
      | false => exact .inl ⟨⟨hall, rfl⟩, hpopped.step (hbytes cycles) hraces⟩
      | true =>
        exact .inr ⟨fun hand => Bool.noConfusion hand.2, (hbytes cycles).lost hraces⟩
    · exact .inr ⟨fun hand => hall hand.1, hlost.step i⟩

/-! ## From reset -/

theorem bytes_run (tx_fifo_q pl_uart_fifo_q : BitVec 8 → BitVec 8) (cycles : List DebugIn) :
    Bytes ((start tx_fifo_q pl_uart_fifo_q).run cycles) := by
  induction cycles using List.reverseRecOn with
  | nil =>
    have hreads : Reads (start tx_fifo_q pl_uart_fifo_q) :=
      ⟨rfl, fun h => (nomatch h), fun h => (nomatch h)⟩
    have hholds : (start tx_fifo_q pl_uart_fifo_q).c.tx.Holds [] 0 :=
      ⟨rfl, Nat.zero_le 256, rfl, rfl, fun n _ hn => absurd hn (Nat.not_lt_zero n)⟩
    exact ⟨hreads, ⟨[], hholds⟩, fun e he => absurd he List.not_mem_nil⟩
  | append_singleton cycles i ih =>
    rw [run_snoc]
    exact ih.step i

/-- The accesses of a master are executed exactly once if and only if it writes nothing and no byte
that it reads is popped by the JTAG side in the same cycle. -/
theorem exactlyOnce_iff (tx_fifo_q pl_uart_fifo_q : BitVec 8 → BitVec 8) (cycles : List DebugIn)
    (hc : (start tx_fifo_q pl_uart_fifo_q).Compliant cycles) :
    ExactlyOnce ((start tx_fifo_q pl_uart_fifo_q).run cycles) ↔
      NoWrites cycles ∧
        Each (fun h i => ((start tx_fifo_q pl_uart_fifo_q).run h).races i = false) cycles := by
  have hquiet : Quiet (start tx_fifo_q pl_uart_fifo_q) := ⟨⟨rfl, rfl, rfl, rfl⟩, rfl, rfl, rfl⟩
  have hstart : Popped (start tx_fifo_q pl_uart_fifo_q) := ⟨rfl, fun h => (nomatch h)⟩
  have hbytes := bytes_run tx_fifo_q pl_uart_fifo_q
  have hasking := asking_of_compliant rfl rfl (fun cycles => (hbytes cycles).toReads) hc
  have hread := (hbytes cycles).read
  constructor
  · intro honce
    rcases writes_iff hquiet hc with ⟨hno, -⟩ | ⟨-, hfired⟩
    · rcases popped_iff hstart hbytes cycles with ⟨hall, -⟩ | ⟨-, hlost⟩
      · exact ⟨hno, hall⟩
      · exact absurd honce.popped hlost.ne
    · exact absurd honce.fired hfired
  · rintro ⟨hno, hall⟩
    rcases writes_iff hquiet hc with ⟨-, huntaken⟩ | ⟨hwrites, -⟩
    · rcases popped_iff hstart hbytes cycles with ⟨-, hpopped⟩ | ⟨hraces, -⟩
      · have hfired := huntaken.fired
        have hanswered := huntaken.answered
        cases hasking with
        | none hready hasked =>
          refine ⟨hfired, hanswered, hasked ▸ List.prefix_refl _, ?_, hread, hpopped.eq⟩
          rw [hready, ← hasked, List.length_map]
          rfl
        | held before i hlast harvalid hbefore hready hasked =>
          refine ⟨hfired, hanswered, hasked ▸ List.prefix_append _ _, ?_, hread, hpopped.eq⟩
          have hlen := congrArg List.length hasked
          rw [List.length_map, List.length_append] at hlen
          rw [hready]
          exact hlen
      · exact absurd hall hraces
    · exact absurd hno hwrites

def idle : BusMaster := ⟨false, 0, 0, false, 0, 0, true, false, 0, 0, true⟩

/-- The CPU writes the byte 0x41 to the transmit register. -/
def transmit : BusMaster := ⟨true, 0x10000000, 0, true, 0x41, 1, true, false, 0, 0, true⟩

/-- The master of the port does nothing. -/
def quiet (cpu : BusMaster) (tx_pop_toggle_w : Bool) : DebugIn :=
  ⟨false, 0, false, 0, true, false, 0, true, fun _ => 0, cpu, false, tx_pop_toggle_w⟩

def consoleRead (tx_pop_toggle_w : Bool) : DebugIn :=
  { quiet idle tx_pop_toggle_w with arvalid := true, araddr := 0xa0 }

/-- It writes 7 to the x coordinate of the mouse. -/
def mouseWrite : DebugIn :=
  { quiet idle false with awvalid := true, awaddr := 0xb0, wvalid := true, wdata := 7 }

def byteRead : List DebugIn := [quiet transmit false, consoleRead false, consoleRead false]

theorem pairs_of_three {a b c i j : DebugIn} {h t : List DebugIn}
    (heq : [a, b, c] = h ++ i :: j :: t) :
    h = [] ∧ i = a ∧ j = b ∨ h = [a] ∧ i = b ∧ j = c := by
  rcases h with _ | ⟨x, _ | ⟨y, h⟩⟩
  · cases heq
    exact .inl ⟨rfl, rfl, rfl⟩
  · cases heq
    exact .inr ⟨rfl, rfl, rfl⟩
  · have hlen := congrArg List.length heq
    simp at hlen
    omega

theorem byte_read_once :
    ExactlyOnce ((start (fun _ => 0) fun _ => 0).run byteRead) ∧
      ((start (fun _ => 0) fun _ => 0).run byteRead).r = [0x141] := by
  refine ⟨(exactlyOnce_iff (fun _ => 0) (fun _ => 0) byteRead ?_).mpr ⟨?_, ?_⟩, by decide⟩
  · intro h i j t hcycles
    rcases pairs_of_three hcycles with ⟨rfl, rfl, rfl⟩ | ⟨rfl, rfl, rfl⟩
    · exact ⟨fun h => (nomatch h), fun h => (nomatch h), fun h => (nomatch h)⟩
    · exact ⟨fun h => (nomatch h), fun h => (nomatch h), fun _ _ => ⟨rfl, rfl⟩⟩
  · intro h i j t hcycles
    rcases pairs_of_three hcycles with ⟨rfl, rfl, rfl⟩ | ⟨rfl, rfl, rfl⟩ <;> rfl
  · exact Runs.each_cons rfl <| Runs.each_cons rfl <| Runs.each_cons rfl <| Runs.each_nil _

/-- The toggle of the JTAG side reaches its pop in the cycle that latches the byte. -/
def byteRaced : List DebugIn := [quiet transmit true, quiet idle true, consoleRead true]

/-- One write of the mouse fires twice, and a byte that the JTAG side pops is returned as well. -/
theorem mouse_written_twice :
    ((start (fun _ => 0) fun _ => 0).Compliant [mouseWrite, mouseWrite] ∧
      ((start (fun _ => 0) fun _ => 0).run [mouseWrite, mouseWrite]).fires = [0, 0] ∧
      ¬ ExactlyOnce ((start (fun _ => 0) fun _ => 0).run [mouseWrite, mouseWrite])) ∧
    (start (fun _ => 0) fun _ => 0).Compliant byteRaced ∧
      ¬ ExactlyOnce ((start (fun _ => 0) fun _ => 0).run byteRaced) := by
  refine ⟨⟨?_, by decide, fun honce => ?_⟩, ?_, fun honce => ?_⟩
  · rintro (_ | ⟨a, _ | ⟨b, h⟩⟩) i j t hcycles
    · cases hcycles
      exact ⟨fun _ _ => ⟨rfl, rfl⟩, fun _ _ => ⟨rfl, rfl⟩, fun h => (nomatch h)⟩
    · cases hcycles
    · cases h <;> cases hcycles
  · exact absurd (honce.fired 0 (by decide) (by decide)) (by decide)
  · intro h i j t hcycles
    rcases pairs_of_three hcycles with ⟨rfl, rfl, rfl⟩ | ⟨rfl, rfl, rfl⟩ <;>
      exact ⟨fun h => (nomatch h), fun h => (nomatch h), fun h => (nomatch h)⟩
  · exact absurd honce.popped (by decide)

end vibeos.fpga.DebugRun
