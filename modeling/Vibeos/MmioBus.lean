-- The two MMIO slaves on the AXI bus: what they make of the transactions of any master.
import Vibeos.ConsoleRegs
import Vibeos.HdmiMmio

namespace vibeos.fpga

open Runs (Each)

abbrev BusSlave (S In : Type) :=
  Axi.Slave S In (BitVec 4) (BitVec 32) (BitVec 32) (BitVec 4)

/-! ## The console -/

def console : BusSlave Console ConsoleIn where
  master i := i.axi
  responses c := ⟨c.bvalid_q, c.bid_q, c.rvalid_q, c.rid_q, c.rdata_q⟩
  ready c i := ⟨c.s_axi_awready i.axi, c.s_axi_wready i.axi, c.s_axi_arready⟩
  performs := Console.performs
  value := Console.mmio_read
  step := Console.step

namespace Console

/-- Two states with the same responses. -/
def SameBus (c n : Console) : Prop := console.responses n = console.responses c

theorem sameBus_lane (c : Console) (w : BusWrite) (n : Console) (i : Nat) :
    SameBus n (lane c w n i) := by
  unfold lane uart_write enqueue clint_write plic_write
  cases w.strb.getLsbD i with
  | false => rfl
  | true =>
    cases hregion : region (w.addr + BitVec.ofNat 32 i) <;> simp only [hregion] <;>
      split_ifs <;> rfl

theorem sameBus_lanes (c : Console) (w : BusWrite) (n : Console) (l : List Nat) :
    SameBus n (l.foldl (lane c w) n) := by
  induction l generalizing n with
  | nil => rfl
  | cons i l ih => exact (ih _).trans (sameBus_lane c w n i)

theorem sameBus_irq (c : Console) (i : ConsoleIn) : SameBus c (irq (time (pops c i)) i) := by
  have hpops : SameBus c (pops c i) := by
    unfold pops dequeue drain sync
    split_ifs <;> rfl
  have htime (n : Console) : SameBus n (time n) := by
    unfold time
    split_ifs <;> rfl
  have hirq (n : Console) : SameBus n (irq n i) := by
    unfold irq
    dsimp only
    split_ifs <;> rfl
  exact (hirq _).trans ((htime _).trans hpops)

theorem responses_taken (n : Console) (m : BusMaster) :
    console.responses (taken n m) =
      { console.responses n with
        bvalid := n.bvalid_q && !m.bready
        rvalid := n.rvalid_q && !m.rready } := by
  unfold console taken
  cases hb : n.bvalid_q <;> cases hr : n.rvalid_q <;> cases m.bready <;> cases m.rready <;>
    simp [hb, hr]

theorem responses_write (c n : Console) (w : Option BusWrite) :
    console.responses (write c w n) =
      { console.responses n with
        bvalid := w.isSome || n.bvalid_q
        bid := (w.map Axi.Write.id).getD n.bid_q } := by
  cases w with
  | none => rfl
  | some w => exact sameBus_lanes c w { n with bid_q := w.id, bvalid_q := true } [0, 1, 2, 3]

theorem responses_read (c n : Console) (m : BusMaster) :
    console.responses (read c m n) =
      { console.responses n with
        rvalid := m.arvalid && !c.rvalid_q || n.rvalid_q
        rid := if m.arvalid && !c.rvalid_q then m.arid else n.rid_q
        rdata := if m.arvalid && !c.rvalid_q then c.mmio_read m.araddr else n.rdata_q } := by
  unfold read s_axi_arready
  split
  · rename_i h
    rw [h]
    rfl
  · rename_i h
    rw [eq_false_of_ne_true h]
    rfl

theorem responses_step (c : Console) (i : ConsoleIn) :
    console.responses (c.step i) =
      { bvalid := (c.performs i).isSome || (c.bvalid_q && !i.axi.bready)
        bid := ((c.performs i).map Axi.Write.id).getD c.bid_q
        rvalid := i.axi.arvalid && !c.rvalid_q || c.rvalid_q && !i.axi.rready
        rid := if i.axi.arvalid && !c.rvalid_q then i.axi.arid else c.rid_q
        rdata := if i.axi.arvalid && !c.rvalid_q then c.mmio_read i.axi.araddr
          else c.rdata_q } := by
  have hbefore : console.responses (irq (time (pops c i)) i) = console.responses c :=
    sameBus_irq c i
  have htaken := responses_taken (irq (time (pops c i)) i) i.axi
  unfold step
  rw [responses_read]
  generalize taken (irq (time (pops c i)) i) i.axi = n at htaken ⊢
  generalize irq (time (pops c i)) i = b at hbefore htaken
  have hwrite := responses_write c n (c.performs i)
  generalize write c (c.performs i) n = v at hwrite ⊢
  simp only [console, Axi.Responses.mk.injEq] at hbefore htaken hwrite ⊢
  obtain ⟨hb, hbid, hr, hrid, hrdata⟩ := hbefore
  obtain ⟨hb', hbid', hr', hrid', hrdata'⟩ := htaken
  obtain ⟨hb'', hbid'', hr'', hrid'', hrdata''⟩ := hwrite
  rw [hb'', hb', hb, hbid'', hbid', hbid, hr'', hr', hr, hrid'', hrid', hrid, hrdata'', hrdata',
    hrdata]
  exact ⟨rfl, rfl, rfl, rfl, rfl⟩

theorem clocked (c : Console) : console.Clocked c := by
  have hstep (i : ConsoleIn) := responses_step c i
  refine ⟨fun i w hw => ?_, fun i => congrArg Axi.Responses.bvalid (hstep i),
    fun i => congrArg Axi.Responses.bid (hstep i), fun i => rfl,
    fun i => congrArg Axi.Responses.rvalid (hstep i),
    fun i => congrArg Axi.Responses.rid (hstep i),
    fun i => congrArg Axi.Responses.rdata (hstep i), fun i hfree haw hw => ?_⟩
  · have hw : c.performs i = some w := hw
    unfold performs s_axi_awready at hw
    change c.bvalid_q = false
    cases hb : c.bvalid_q with
    | false => rfl
    | true => simp [hb] at hw
  · change (!c.bvalid_q && i.axi.awvalid && i.axi.wvalid) = true ∧
      (!c.bvalid_q && i.axi.awvalid && i.axi.wvalid) = true
    have hfree : c.bvalid_q = false := hfree
    have haw : i.axi.awvalid = true := haw
    have hw : i.axi.wvalid = true := hw
    rw [hfree, haw, hw]
    exact ⟨rfl, rfl⟩

theorem pairs (c : Console) (i : ConsoleIn) : console.Pairs c i := by
  constructor
  · change (i.axi.awvalid && (!c.bvalid_q && i.axi.awvalid && i.axi.wvalid)) =
      (i.axi.wvalid && (!c.bvalid_q && i.axi.awvalid && i.axi.wvalid))
    cases i.axi.awvalid <;> cases i.axi.wvalid <;> simp
  · change c.performs i =
      if i.axi.awvalid && (!c.bvalid_q && i.axi.awvalid && i.axi.wvalid) then _ else _
    unfold performs s_axi_awready s_axi_wready
    cases i.axi.awvalid <;> cases i.axi.wvalid <;> cases c.bvalid_q <;> rfl

end Console

/-! ## The frame buffer -/

def hdmi : BusSlave Hdmi BusMaster where
  master m := m
  responses h := ⟨h.bvalid_q, h.bid_q, h.rvalid_q, h.rid_q, h.rdata_q⟩
  ready h _ := ⟨h.awready_q, h.wready_q, !h.rvalid_q⟩
  performs := Hdmi.performs
  value := Hdmi.mmio_read
  step := Hdmi.step

namespace Hdmi

/-- The ready registers stand while there is no answer to a write. -/
def Inv (h : Hdmi) : Prop := h.awready_q = !h.bvalid_q ∧ h.wready_q = !h.bvalid_q

theorem writePath_responses (h : Hdmi) (m : BusMaster) :
    hdmi.responses (h.writePath m) =
      { hdmi.responses h with
        bvalid := (h.performs m).isSome || (h.bvalid_q && !m.bready)
        bid := ((h.performs m).map Axi.Write.id).getD h.bid_q } := by
  unfold writePath
  cases h.performs m with
  | some w => rfl
  | none =>
    dsimp only
    cases hb : h.bvalid_q <;> cases m.bready <;> simp [hdmi, hb]

theorem responses_step (h : Hdmi) (m : BusMaster) :
    hdmi.responses (h.step m) =
      { bvalid := (h.performs m).isSome || (h.bvalid_q && !m.bready)
        bid := ((h.performs m).map Axi.Write.id).getD h.bid_q
        rvalid := m.arvalid && !h.rvalid_q || h.rvalid_q && !m.rready
        rid := if m.arvalid && !h.rvalid_q then m.arid else h.rid_q
        rdata := if m.arvalid && !h.rvalid_q then h.mmio_read m.araddr else h.rdata_q } := by
  have hwrite := writePath_responses h m
  unfold step readPath
  generalize h.writePath m = n at hwrite
  simp only [hdmi, Axi.Responses.mk.injEq] at hwrite
  obtain ⟨hb, hbid, hr, hrid, hrdata⟩ := hwrite
  cases hv : h.rvalid_q <;> cases m.arvalid <;> cases m.rready <;>
    simp [hdmi, hb, hbid, hr, hrid, hrdata, hv]

theorem inv_step (h : Hdmi) (m : BusMaster) (hinv : h.Inv) : (h.step m).Inv := by
  have hwrite : (h.writePath m).Inv := by
    unfold writePath
    cases h.performs m with
    | some w => exact ⟨rfl, rfl⟩
    | none =>
      dsimp only
      split
      · exact ⟨rfl, rfl⟩
      · exact hinv
  unfold step readPath
  split_ifs <;> exact hwrite

theorem clocked {h : Hdmi} (hinv : h.Inv) : hdmi.Clocked h := by
  have hstep (m : BusMaster) := responses_step h m
  refine ⟨fun m w hw => ?_, fun m => congrArg Axi.Responses.bvalid (hstep m),
    fun m => congrArg Axi.Responses.bid (hstep m), fun m => rfl,
    fun m => congrArg Axi.Responses.rvalid (hstep m),
    fun m => congrArg Axi.Responses.rid (hstep m),
    fun m => congrArg Axi.Responses.rdata (hstep m), fun m hfree _ _ => ?_⟩
  · have hw : h.performs m = some w := hw
    unfold performs at hw
    rw [hinv.1] at hw
    change h.bvalid_q = false
    cases hb : h.bvalid_q with
    | false => rfl
    | true => simp [hb] at hw
  · have hfree : h.bvalid_q = false := hfree
    change h.awready_q = true ∧ h.wready_q = true
    rw [hinv.1, hinv.2, hfree]
    exact ⟨rfl, rfl⟩

theorem pairs {h : Hdmi} (hinv : h.Inv) {m : BusMaster}
    (htogether : h.awready_q = true → m.awvalid = m.wvalid) : hdmi.Pairs h m := by
  have hready : h.wready_q = h.awready_q := hinv.2.trans hinv.1.symm
  constructor
  · change (m.awvalid && h.awready_q) = (m.wvalid && h.wready_q)
    rw [hready]
    cases haw : h.awready_q with
    | false => rw [Bool.and_false, Bool.and_false]
    | true => rw [htogether haw]
  · change h.performs m = if m.awvalid && h.awready_q then _ else none
    unfold performs
    cases haw : h.awready_q with
    | false => simp
    | true =>
      rw [← htogether haw]
      cases m.awvalid <;> rfl

theorem vram_step (h : Hdmi) (m : BusMaster) :
    (h.step m).vram = (h.performs m).toList.foldl Vram.write h.vram := by
  have hread (n : Hdmi) : (readPath h m n).vram = n.vram := by
    unfold readPath
    split_ifs <;> rfl
  unfold step
  rw [hread, writePath]
  cases h.performs m with
  | some w => rfl
  | none =>
    dsimp only
    split <;> rfl

end Hdmi

/-! ## Both slaves -/

/-- Address and data come together whenever the slave is ready for them. -/
def Together (fb : BitVec 16 → BitVec 32) (cycles : List BusMaster) : Prop :=
  Each (fun h m => (hdmi.run (.reset fb) h).1.awready_q = true → m.awvalid = m.wvalid) cycles

/-- The console is an exact slave over every run, its registers hold what the accepted writes make
of them, its transmit queue takes the bytes that they carry to it, and its clock and its interrupt are
what the edge and then the write make of them. The frame buffer is exact over
every run in which address and data come together, and holds what the accepted writes make of it;
over a run that accepts as many addresses as data it is exact only then. -/
theorem slaves_exact (tx_fifo_q pl_uart_fifo_q) (inputs : List ConsoleIn)
    (fb : BitVec 16 → BitVec 32) (cycles : List BusMaster) :
    (console.Exact (console.run (.reset tx_fifo_q pl_uart_fifo_q) inputs) ∧
      (console.run (.reset tx_fifo_q pl_uart_fifo_q) inputs).1.regs =
        (console.run (.reset tx_fifo_q pl_uart_fifo_q) inputs).2.writes.foldl Regs.write
          (Console.reset tx_fifo_q pl_uart_fifo_q).regs ∧
      ∀ i, let c := (console.run (.reset tx_fifo_q pl_uart_fifo_q) inputs).1
        (c.step i).tx = (c.txRead i).takes ((c.performs i).bind c.regs.sends) ∧
          (c.step i).live = (c.performs i).toList.foldl Live.write (c.ticked i)) ∧
    (Together fb cycles →
      hdmi.Exact (hdmi.run (.reset fb) cycles) ∧
        (hdmi.run (.reset fb) cycles).1.vram =
          (hdmi.run (.reset fb) cycles).2.writes.foldl Vram.write (Hdmi.reset fb).vram) ∧
    ((hdmi.run (.reset fb) cycles).2.aw.length = (hdmi.run (.reset fb) cycles).2.w.length →
      (hdmi.Exact (hdmi.run (.reset fb) cycles) ↔ Together fb cycles)) := by
  have hinv (fb : BitVec 16 → BitVec 32) (cycles : List BusMaster) :
      (hdmi.run (.reset fb) cycles).1.Inv := by
    induction cycles using List.reverseRecOn with
    | nil => exact ⟨rfl, rfl⟩
    | append_singleton cycles m ih =>
      unfold Axi.Slave.run at ih ⊢
      rw [List.foldl_append]
      exact Hdmi.inv_step _ m ih
  have hexact (fb : BitVec 16 → BitVec 32) (cycles : List BusMaster)
      (htogether : Together fb cycles) : hdmi.Exact (hdmi.run (.reset fb) cycles) :=
    @Axi.Slave.exact_of_pairs _ _ _ _ _ _ hdmi (.reset fb) ⟨rfl, rfl⟩ Hdmi.Inv ⟨rfl, rfl⟩
      Hdmi.inv_step (fun _ => Hdmi.clocked) cycles
      fun h m t hcycles => Hdmi.pairs (hinv fb h) (htogether h m t hcycles)
  refine ⟨?_, fun htogether => ?_, fun hwhole => ⟨fun h => ?_, hexact fb cycles⟩⟩
  · have hconsole : console.Exact (console.run (.reset tx_fifo_q pl_uart_fifo_q) inputs) :=
      @Axi.Slave.exact_of_pairs _ _ _ _ _ _ console (.reset tx_fifo_q pl_uart_fifo_q)
        ⟨rfl, rfl⟩ (fun _ => True) trivial (fun _ _ _ => trivial)
        (fun c _ => Console.clocked c) inputs fun h i t _ => Console.pairs _ i
    refine ⟨hconsole, ?_, fun i => ⟨Console.tx_takes _ i, Console.live_step _ i⟩⟩
    rw [← hconsole.performed]
    exact Axi.Slave.foldl_performed Console.regs_step _ inputs
  · have h := hexact fb cycles htogether
    refine ⟨h, ?_⟩
    rw [← h.performed]
    exact Axi.Slave.foldl_performed Hdmi.vram_step _ cycles
  · have hperforms (g : List BusMaster) (m : BusMaster) :
        ((hdmi.run (.reset fb) g).1.performs m).isSome =
          ((m.awvalid && (hdmi.run (.reset fb) g).1.awready_q) &&
            (m.wvalid && (hdmi.run (.reset fb) g).1.wready_q)) := by
      have hg := hinv fb g
      rw [Hdmi.performs, hg.1, hg.2]
      cases m.awvalid <;> cases m.wvalid <;> cases (hdmi.run (.reset fb) g).1.bvalid_q <;> rfl
    intro g m t hcycles hready
    have htogether : (m.awvalid && (hdmi.run (.reset fb) g).1.awready_q) =
        (m.wvalid && (hdmi.run (.reset fb) g).1.wready_q) :=
      Axi.Slave.together_of_exact hperforms h hwhole g m t hcycles
    have hg := hinv fb g
    rw [hg.2, ← hg.1, hready, Bool.and_true, Bool.and_true] at htogether
    exact htogether

def idle : BusMaster := ⟨false, 0, 0, false, 0, 0, true, false, 0, 0, true⟩

/-- The master writes a word of the frame buffer. -/
def wordWrite : BusMaster := ⟨true, 0x50000004, 3, true, 0x01020304, 0xf, true, false, 0, 0, true⟩

/-- The address alone, and the data alone. -/
def addressOnly : BusMaster := { wordWrite with wvalid := false }
def dataOnly : BusMaster := { wordWrite with awvalid := false }

/-- The master writes a byte of the UART. -/
def byteWrite (data : BitVec 32) (strb : BitVec 4) : ConsoleIn :=
  ⟨⟨true, UART_BASE, 5, true, data, strb, true, false, 0, 0, true⟩, false, false, false, false⟩

def idleIn : ConsoleIn := ⟨idle, false, false, false, false⟩

/-- The divisor latch is opened, and a divisor written. -/
def divisor : List ConsoleIn :=
  [byteWrite 0x83000000 8, idleIn, byteWrite 0x83000025 1, idleIn]

/-- A write of one word with its answer, and two writes of the console. -/
theorem word_written :
    (console.run (.reset (fun _ => 0) fun _ => 0) divisor).1.regs =
        { (Console.reset (fun _ => 0) fun _ => 0).regs with lcr := 0x83, dll := 0x25 } ∧
      Together (fun _ => 0) [wordWrite, idle, idle] ∧
      (hdmi.run (.reset fun _ => 0) [wordWrite, idle, idle]).1.vram =
        (hdmi.run (.reset fun _ => 0) [wordWrite, idle, idle]).2.writes.foldl Vram.write
          (Hdmi.reset fun _ => 0).vram := by
  have htogether : Together (fun _ => 0) [wordWrite, idle, idle] :=
    Runs.each_cons (fun _ => rfl) <| Runs.each_cons (fun _ => rfl) <|
      Runs.each_cons (fun _ => rfl) <| Runs.each_nil _
  have h := slaves_exact (fun _ => 0) (fun _ => 0) divisor (fun _ => 0) [wordWrite, idle, idle]
  obtain ⟨hexact, hvram⟩ := h.2.1 htogether
  have hwhole : (hdmi.run (.reset fun _ => 0) [wordWrite, idle, idle]).2.aw.length =
      (hdmi.run (.reset fun _ => 0) [wordWrite, idle, idle]).2.w.length := by decide
  exact ⟨h.1.2.1.trans (by decide), (h.2.2 hwhole).mp hexact, hvram⟩

/-- A master that offers the address first and then the data gets no answer. -/
theorem address_first_loses_write :
    hdmi.Compliant (.reset fun _ => 0) [addressOnly, dataOnly] ∧
      ¬ hdmi.Exact (hdmi.run (.reset fun _ => 0) [addressOnly, dataOnly]) := by
  constructor
  · rintro (_ | ⟨a, _ | ⟨b, h⟩⟩) i j t hcycles
    · cases hcycles
      exact ⟨fun _ hready => (nomatch hready), fun hvalid => (nomatch hvalid),
        fun hvalid => (nomatch hvalid)⟩
    · cases hcycles
    · cases h <;> cases hcycles
  · intro h
    have hb := h.answered
    have hnone : (hdmi.run (.reset fun _ => 0) [addressOnly, dataOnly]).2.b ++
        Axi.entry (hdmi.responses (hdmi.run (.reset fun _ => 0) [addressOnly, dataOnly]).1).bvalid
          (hdmi.responses (hdmi.run (.reset fun _ => 0) [addressOnly, dataOnly]).1).bid = [] := by
      decide
    have hone : (hdmi.run (.reset fun _ => 0) [addressOnly, dataOnly]).2.writes.map Axi.Write.id =
        [3] := by
      decide
    rw [hnone, hone] at hb
    cases hb

end vibeos.fpga
