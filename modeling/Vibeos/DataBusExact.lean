-- The data bus over whole runs: every write and every read goes once to its slave and back, as long
-- as the DDR slave takes the address together with the data.
import Vibeos.DataBusWrites
import Vibeos.EventRuns

namespace vibeos.fpga.BusRun

open Burst
open Runs (Each each_nil each_cons inv_of_each)

/-- The bus keeps the rules of a master towards the slaves, and of a slave towards the CPU. -/
structure Orderly (x : BusRun) (i : BusIn) : Prop where
  port_writes : ∀ p, (x.portWrites p).MasterOk writeFormat (x.portWrite i p)
  port_reads : ∀ p, (x.portReads p).MasterOk (x.portRead i p)
  cpu_writes : x.cpuWrites.SlaveOk writeFormat (x.cpuWrite i)
  cpu_reads : x.cpuReads.SlaveOk readFormat (x.cpuRead i)

/-- The bus holds nothing up: the slave of the cycle sees what the CPU sees, and a write to IOP is
taken at once and then offered to its slave. -/
structure Forwards (x : BusRun) (i : BusIn) : Prop where
  reads : ReadLink.Same (arAt (selected (x.nowRead i).addr)) (x.cpuRead i)
    (x.portRead i (selected (x.nowRead i).addr))
  writes : selected (x.nowWrite i).addr ≠ .iop →
    WriteLink.Same (awAt (selected (x.nowWrite i).addr)) (x.cpuWrite i)
        (x.portWrite i (selected (x.nowWrite i).addr)) ∧
      (i.cpu.awvalid = true →
        (x.cpuWrite i).awready = (i.slave (selected (x.nowWrite i).addr)).awready)
  taken : selected (x.nowWrite i).addr = .iop →
    (i.cpu.awvalid = true → (x.cpuWrite i).awready = true) ∧
      (i.cpu.wvalid = true → (x.cpuWrite i).wready = true)
  offered : ∀ a, x.cpuWrites.aw = some a → selected a.addr = .iop → x.cpuWrites.beats ≠ [] →
    ((x.portWrites .iop).aw = none →
        (x.portWrite i .iop).awvalid = true ∧ (x.portWrite i .iop).aw = awAt .iop a) ∧
      ((x.portWrites .iop).beats = [] →
        (x.portWrite i .iop).wvalid = true ∧ x.cpuWrites.beats = [(x.portWrite i .iop).w])

/-- Each slave has answered the writes and reads that the CPU has an answer for and that its
addresses select, with the same beats and the same answers, and has its part of what is under
way. -/
structure Delivered (x : BusRun) : Prop where
  writes : ∀ p, (x.portWrites p).done =
    (x.cpuWrites.done.filter fun d => selected d.aw.addr = p).map
      fun d => ⟨awAt p d.aw, d.beats, d.b⟩
  reads : ∀ p, (x.portReads p).done =
    (x.cpuReads.done.filter fun d => selected d.ar.addr = p).map
      fun d => ⟨arAt p d.ar, d.beats⟩
  write_under_way : ∀ a, x.cpuWrites.current = some a →
    ((x.portWrites (selected a.addr)).aw = x.cpuWrites.aw.map (awAt (selected a.addr)) ∨
        (selected a.addr = .iop ∧ (x.portWrites .iop).aw = none)) ∧
      ((x.portWrites (selected a.addr)).beats = x.cpuWrites.beats ∨
        (selected a.addr = .iop ∧ (x.portWrites .iop).beats = [])) ∧
      ∀ q, q ≠ selected a.addr → (x.portWrites q).Idle
  read_under_way : ∀ a, x.cpuReads.ar = some a →
    (x.portReads (selected a.addr)).ar = some (arAt (selected a.addr) a) ∧
      (x.portReads (selected a.addr)).beats = x.cpuReads.beats ∧
      ∀ q, q ≠ selected a.addr → (x.portReads q).Idle

variable {x : BusRun} {i : BusIn}

theorem iop_taken (h : WriteInv x) (hc : Compliant x i)
    (hp : selected (x.nowWrite i).addr = .iop) :
    (i.cpu.awvalid = true → (x.cpuWrite i).awready = true) ∧
      (i.cpu.wvalid = true → (x.cpuWrite i).wready = true) := by
  have hb := hp ▸ (h.now hc).1.buffered hp
  obtain ⟨hmmio, hiop, -, -⟩ := h.route (i := i)
  obtain ⟨-, -, -, hiop', hmmio'⟩ := sels_eq (x.nowWrite i).addr
  have haw : i.cpu.awvalid = true → (x.cpuWrite i).awready = true := by
    intro hv
    have hnone := hc.writes.one hv
    have hbuf : x.bus.iop_aw_buf_valid_q = false := by
      rw [hb.aw_buf, hnone]
      rfl
    have hwbuf : x.bus.iop_w_buf_valid_q = false := by
      rcases hb.w_buf with ⟨hoff, -⟩ | ⟨-, hsome, -⟩
      · exact hoff
      · rw [hnone] at hsome
        cases hsome
    unfold cpuWrite writeSignals DataBus.toCpu
    dsimp only
    rw [← nowWrite_of_awvalid hc hv, hiop', hmmio', hp, hbuf, hwbuf]
    rfl
  refine ⟨haw, fun hv => ?_⟩
  have hlen := h.now_single hc (hc.writes.address_first hv) (by
    rw [hp]
    exact BusPort.noConfusion)
  have hroom : x.cpuWrites.beats.length ≤ (x.nowWrite i).len.toNat := hc.writes.room hv
  have hwbuf : x.bus.iop_w_buf_valid_q = false := by
    rcases hb.w_buf with ⟨hoff, -⟩ | ⟨-, -, hbeats⟩
    · exact hoff
    · rw [hbeats, hlen] at hroom
      exact absurd hroom (Nat.not_succ_le_zero 0)
  have hthere : (x.bus.iop_aw_buf_valid_q || x.bus.iop_aw_capture_w i) = true := by
    rw [(h.captures hc hp).1, hb.aw_buf, Bool.or_eq_true]
    rcases hc.writes.address_first hv with hav | hsome
    · exact Or.inr (Bool.and_eq_true_iff.mpr ⟨hav, haw hav⟩)
    · exact Or.inl hsome
  unfold cpuWrite writeSignals DataBus.toCpu
  dsimp only
  rw [hmmio, hiop, hiop', hmmio', hp, hwbuf, hthere]
  rfl

theorem iop_offered (h : WriteInv x) {a : BusAddr} (ha : x.cpuWrites.aw = some a)
    (hp : selected a.addr = .iop) (hbeats : x.cpuWrites.beats ≠ []) :
    ((x.portWrites .iop).aw = none →
        (x.portWrite i .iop).awvalid = true ∧ (x.portWrite i .iop).aw = awAt .iop a) ∧
      ((x.portWrites .iop).beats = [] →
        (x.portWrite i .iop).wvalid = true ∧ x.cpuWrites.beats = [(x.portWrite i .iop).w]) := by
  obtain ⟨hserves, -⟩ := h.serves .iop fun b hb => by
    unfold WriteLink.current at hb
    rw [ha, Option.some_or] at hb
    rw [← Option.some.inj hb, hp]
  have hb := hserves.buffered rfl
  rcases hb.w_buf with ⟨-, hnil⟩ | ⟨hon, hsome, hone⟩
  · exact absurd hnil hbeats
  have hready : x.bus.iop_write_ready_w = true := by
    unfold DataBus.iop_write_ready_w
    rw [hb.aw_buf, hsome, hon]
    rfl
  constructor
  · intro hnone
    cases hsent : x.bus.iop_aw_sent_q with
    | true =>
      rw [hb.port_aw, ha, hsent] at hnone
      cases hnone
    | false =>
      change (x.bus.iop_write_ready_w && !x.bus.iop_aw_sent_q) = true ∧
        DataBus.single x.bus.iop_aw_q = _
      rw [hready, hsent, hb.aw_q a ha]
      exact ⟨rfl, rfl⟩
  · intro hnil
    cases hsent : x.bus.iop_w_sent_q with
    | true =>
      rw [hb.port_beats, hone, hsent] at hnil
      cases hnil
    | false =>
      change (x.bus.iop_write_ready_w && !x.bus.iop_w_sent_q) = true ∧ _
      rw [hready, hsent]
      exact ⟨rfl, hone⟩

theorem forwards (hr : ReadInv x) (hw : WriteInv x) (hc : Compliant x i) (ht : DdrTimed x i) :
    Forwards x i where
  reads := hr.same hc
  writes hp := ⟨hw.same hc ht hp, (hw.cpuWrite_ready hc hp).1⟩
  taken hp := iop_taken hw hc hp
  offered _ ha hp hbeats := iop_offered hw ha hp hbeats

theorem delivered (hr : ReadInv x) (hw : WriteInv x) : Delivered x where
  writes := hw.done
  reads := hr.done
  write_under_way a ha := by
    obtain ⟨hserves, hidle⟩ := hw.serves (selected a.addr) fun b hb => by
      rw [Option.some.inj (ha.symm.trans hb)]
    by_cases hp : selected a.addr = .iop
    · have hb := hserves.buffered hp
      rw [hp] at hb hidle ⊢
      refine ⟨?_, ?_, hidle⟩
      · rw [hb.port_aw]
        split_ifs
        · exact Or.inl rfl
        · exact Or.inr ⟨rfl, rfl⟩
      · rw [hb.port_beats]
        split_ifs
        · exact Or.inl rfl
        · exact Or.inr ⟨rfl, rfl⟩
    · obtain ⟨hjoined, -⟩ := hserves.joined hp
      exact ⟨Or.inl hjoined.aw, Or.inl hjoined.beats, hidle⟩
  read_under_way a ha := by
    obtain ⟨hfollows, hidle⟩ := hr.follows (selected a.addr) fun b hb => by
      rw [ha, Option.some_or] at hb
      rw [Option.some.inj hb]
    refine ⟨?_, hfollows.beats, hidle⟩
    rw [hfollows.ar, ha]
    rfl

def BusInv (x : BusRun) : Prop := ReadInv x ∧ WriteInv x

theorem inv_run (cycles : List BusIn)
    (hc : Each (fun h i => (start.run h).Compliant i) cycles)
    (ht : Each (fun h i => (start.run h).DdrTimed i) cycles) : BusInv (start.run cycles) := by
  have hstart : BusInv start := ⟨readInv_start, writeInv_start⟩
  have hstep : ∀ {x : BusRun} {i : BusIn}, BusInv x → Compliant x i ∧ DdrTimed x i →
      BusInv (x.cycle i) := fun h hgood => ⟨h.1.step hgood.1, h.2.step hgood.1 hgood.2⟩
  exact inv_of_each hstart hstep fun h ev t heq => ⟨hc h ev t heq, ht h ev t heq⟩

/-- In every run of a bus whose DDR slave takes the address together with the data, every write and
every read goes once to its slave and back. -/
theorem bus_exact (cycles : List BusIn)
    (hc : Each (fun h i => (start.run h).Compliant i) cycles)
    (ht : Each (fun h i => (start.run h).DdrTimed i) cycles) :
    Each (fun h i => (start.run h).Orderly i ∧ (start.run h).Forwards i) cycles ∧
      (start.run cycles).Delivered := by
  constructor
  · intro h i t heq
    obtain ⟨hr, hw⟩ := inv_run h (hc.front heq) (ht.front heq)
    have hci := hc h i t heq
    have hti := ht h i t heq
    exact ⟨⟨hw.masterOk hci hti, hr.masterOk hci, hw.slaveOk hci, hr.slaveOk hci⟩,
      forwards hr hw hci hti⟩
  · obtain ⟨hr, hw⟩ := inv_run cycles hc ht
    exact delivered hr hw

/-! ## Two writes to memory -/

def memoryWrite : BusAddr := ⟨0x80000000, 1, 0, 1⟩

/-- What the CPU and the DDR slave do in a cycle, with every other slave still. -/
def memoryCycle (awvalid wvalid awready wready bvalid : Bool) : BusIn where
  cpu := ⟨awvalid, memoryWrite, wvalid, ⟨0x11, 15, true⟩, true, false, memoryWrite, true⟩
  slave
    | .ddr => ⟨awready, wready, bvalid, ⟨1, 0⟩, false, false, ⟨0, 0, 0, false⟩⟩
    | _ => ⟨false, false, false, ⟨0, 0⟩, false, false, ⟨0, 0, 0, false⟩⟩

/-- Nothing but the writes to memory ever happens. -/
structure MemoryOnly (x : BusRun) : Prop where
  heldAr : x.cpuReads.heldAr = none
  heldB : ∀ p, p ≠ .ddr → (x.portWrites p).heldB = none
  heldR : ∀ p, (x.portReads p).heldR = none

theorem memoryOnly_start : MemoryOnly start := ⟨rfl, fun _ _ => rfl, fun _ => rfl⟩

theorem memoryOnly_cycle {x : BusRun} {aw w ar wr b : Bool} :
    MemoryOnly (x.cycle (memoryCycle aw w ar wr b)) where
  heldAr := rfl
  heldB p hp := by
    cases p <;> first | exact absurd rfl hp | rfl
  heldR p := by
    cases p <;> rfl

theorem memory_compliant {x : BusRun} {aw w ar wr b : Bool} (hx : MemoryOnly x)
    (hcpu : x.cpuWrites.MasterOk writeFormat (x.cpuWrite (memoryCycle aw w ar wr b)))
    (hddr : (x.portWrites .ddr).SlaveOk writeFormat
      (x.portWrite (memoryCycle aw w ar wr b) .ddr)) :
    Compliant x (memoryCycle aw w ar wr b) where
  writes := hcpu
  reads := by
    refine ⟨fun a ha => ?_, fun h => (nomatch h)⟩
    rw [hx.heldAr] at ha
    cases ha
  single_write _ hne := absurd (show selected memoryWrite.addr = .ddr by decide) hne
  single_read h := nomatch h
  slave_writes p := by
    by_cases hp : p = .ddr
    · rw [hp]
      exact hddr
    · refine ⟨fun r hr => ?_, fun h => ?_⟩
      · rw [hx.heldB p hp] at hr
        cases hr
      · cases p <;> first | exact absurd rfl hp | exact nomatch h
  slave_reads p := by
    refine ⟨fun r hr => ?_, fun h => ?_⟩
    · rw [hx.heldR p] at hr
      cases hr
    · cases p <;> exact nomatch h

theorem first_masterOk {ar wr w : Bool} : start.cpuWrites.MasterOk writeFormat
    (start.cpuWrite (memoryCycle true w ar wr false)) where
  aw_held _ h := nomatch h
  w_held _ h := nomatch h
  one _ := rfl
  address_first _ := Or.inl rfl
  room _ := Nat.zero_le _
  last _ := iff_of_true rfl rfl

theorem first_slaveOk {ar wr w : Bool} : (start.portWrites .ddr).SlaveOk writeFormat
    (start.portWrite (memoryCycle true w ar wr false) .ddr) where
  b_held _ h := nomatch h
  whole h := nomatch h

/-- The address and the data go over together, then the response. -/
theorem bus_exact_together :
    ((start.run [memoryCycle true true true true false,
      memoryCycle false false false false true]).portWrites .ddr).done =
        [⟨DataBus.remapped memoryWrite, [⟨0x11, 15, true⟩], ⟨1, 0⟩⟩] := by
  have hc : Each (fun h i => (start.run h).Compliant i)
      [memoryCycle true true true true false, memoryCycle false false false false true] := by
    refine each_cons (P := fun h i => (start.run h).Compliant i)
      (memory_compliant memoryOnly_start first_masterOk first_slaveOk) (each_cons ?_ (each_nil _))
    apply memory_compliant memoryOnly_cycle
    · constructor
      · exact fun _ h => nomatch h
      · exact fun _ h => nomatch h
      · exact fun h => nomatch h
      · exact fun h => nomatch h
      · exact fun h => nomatch h
      · exact fun h => nomatch h
    · constructor
      · exact fun _ h => nomatch h
      · exact fun _ => ⟨_, rfl, rfl, rfl⟩
  have ht : Each (fun h i => (start.run h).DdrTimed i)
      [memoryCycle true true true true false, memoryCycle false false false false true] := by
    refine each_cons (P := fun h i => (start.run h).DdrTimed i)
      ⟨fun _ _ h => (nomatch h), fun _ h => (nomatch h)⟩ (each_cons ?_ (each_nil _))
    exact ⟨fun h => (nomatch h), fun _ _ _ h => (nomatch h)⟩
  exact ((bus_exact _ hc ht).2.writes .ddr).trans (by decide)

/-- The address goes over in a first cycle and the data waits in a second one, in which the bus
holds the address out again. -/
def againRun : List BusIn :=
  [memoryCycle true true true false false, memoryCycle false true false false false]

/-- The address goes over alone, and its slave never sees it. -/
def aloneRun : List BusIn := [memoryCycle true false true false false]

/-- An address that its slave took is held out again, and one that the CPU gives before its data is
lost. -/
theorem address_again_or_lost :
    (Each (fun h i => (start.run h).Compliant i) againRun ∧
        ¬ Each (fun h i => (start.run h).Orderly i) againRun) ∧
      Each (fun h i => (start.run h).Compliant i) aloneRun ∧ ¬ (start.run aloneRun).Delivered := by
  refine ⟨⟨?_, fun hall => ?_⟩, ?_, fun hd => ?_⟩
  · refine each_cons (P := fun h i => (start.run h).Compliant i)
      (memory_compliant memoryOnly_start first_masterOk first_slaveOk) (each_cons ?_ (each_nil _))
    apply memory_compliant memoryOnly_cycle
    · constructor
      · exact fun _ h => nomatch h
      · exact fun w h => ⟨rfl, Option.some.inj h⟩
      · exact fun h => nomatch h
      · exact fun _ => Or.inr rfl
      · exact fun _ => Nat.zero_le _
      · exact fun _ => iff_of_true rfl rfl
    · constructor
      · exact fun _ h => nomatch h
      · exact fun h => nomatch h
  · have hone := ((hall [memoryCycle true true true false false] _ [] rfl).port_writes .ddr).one
    have hnone := hone (by decide)
    cases hnone
  · exact each_cons (P := fun h i => (start.run h).Compliant i)
      (memory_compliant memoryOnly_start first_masterOk first_slaveOk) (each_nil _)
  · obtain ⟨haw, -, -⟩ := hd.write_under_way memoryWrite rfl
    rcases haw with haw | ⟨hiop, -⟩
    · have hlost : ((start.run aloneRun).portWrites (selected memoryWrite.addr)).aw = none := by
        decide
      rw [hlost] at haw
      cases haw
    · revert hiop
      decide

end vibeos.fpga.BusRun
