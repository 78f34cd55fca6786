-- The reads of the data bus: in every cycle the slave of the read under way is joined to the CPU,
-- and the links of the other slaves are still.
import Vibeos.DataBus

namespace vibeos.fpga

open Burst

/-- The address of a read as a slave gets it. -/
def arAt : BusPort → BusAddr → BusAddr
  | .ddr, a => DataBus.remapped a
  | .iop, a => a
  | .console, a => DataBus.single a
  | .mouse, a => DataBus.single a
  | .video, a => DataBus.single a

theorem arAt_id (p : BusPort) (a : BusAddr) : (arAt p a).id = a.id := by
  cases p <;> rfl

theorem arAt_len {p : BusPort} {a : BusAddr} (h : p ≠ .ddr → a.len = 0) :
    (arAt p a).len = a.len := by
  cases p with
  | ddr => rfl
  | iop => rfl
  | console => exact (h BusPort.noConfusion).symm
  | mouse => exact (h BusPort.noConfusion).symm
  | video => exact (h BusPort.noConfusion).symm

namespace BusRun

/-- The registers of the read route, and the links of the slaves. -/
structure ReadInv (x : BusRun) : Prop where
  pending : x.bus.d_ar_pending_q = x.cpuReads.ar.isSome
  routes : ∀ a, x.cpuReads.ar = some a → x.bus.d_ar_mmio_q = mmio_sel a.addr ∧
    x.bus.d_ar_iop_q = ps_iop_sel a.addr ∧ x.bus.d_ar_video_q = video_sel a.addr ∧
    x.bus.d_ar_mouse_q = mouse_sel a.addr
  single : ∀ a, x.cpuReads.ar = some a → selected a.addr ≠ .ddr → a.len = 0
  free : x.cpuReads.ar = none → x.cpuReads.beats = [] ∧ x.cpuReads.heldR = none
  held_free : x.cpuReads.heldAr.isSome = true → x.cpuReads.ar = none
  follows : ∀ p, (∀ a, x.cpuReads.ar.or x.cpuReads.heldAr = some a → selected a.addr = p) →
    ReadLink.Follows (arAt p) x.cpuReads (x.portReads p) ∧ ∀ q, q ≠ p → (x.portReads q).Idle
  done : ∀ p, (x.portReads p).done =
    (x.cpuReads.done.filter fun d => selected d.ar.addr = p).map
      fun d => ⟨arAt p d.ar, d.beats⟩

theorem readInv_start : ReadInv start where
  pending := rfl
  routes _ h := nomatch h
  single _ h := nomatch h
  free _ := ⟨rfl, rfl⟩
  held_free h := nomatch h
  follows _ _ := ⟨⟨rfl, rfl, rfl, rfl⟩,
    fun _ _ => ReadLink.start_idle⟩
  done _ := rfl

/-- The address of the read that this cycle is about. -/
def nowRead (x : BusRun) (i : BusIn) : BusAddr := x.cpuReads.ar.getD i.cpu.ar

section Cycle

variable {x : BusRun} {i : BusIn}

theorem ReadInv.route (h : ReadInv x) :
    x.bus.d_ar_route_mmio_w i = mmio_sel (x.nowRead i).addr ∧
      x.bus.d_ar_route_iop_w i = ps_iop_sel (x.nowRead i).addr ∧
      x.bus.d_ar_route_video_w i = video_sel (x.nowRead i).addr ∧
      x.bus.d_ar_route_mouse_w i = mouse_sel (x.nowRead i).addr := by
  unfold DataBus.d_ar_route_mmio_w DataBus.d_ar_route_iop_w DataBus.d_ar_route_video_w
    DataBus.d_ar_route_mouse_w nowRead
  rw [h.pending]
  cases har : x.cpuReads.ar with
  | none => exact ⟨rfl, rfl, rfl, rfl⟩
  | some a => exact h.routes a har

theorem nowRead_of_arvalid (hc : Compliant x i) (hv : i.cpu.arvalid = true) :
    x.nowRead i = i.cpu.ar := by
  unfold nowRead
  rw [hc.reads.one hv]
  rfl

theorem ReadInv.portRead_eq (h : ReadInv x) (hc : Compliant x i) (q : BusPort) :
    (x.portRead i q).arvalid = (i.cpu.arvalid && decide (selected (x.nowRead i).addr = q)) ∧
      (x.portRead i q).ar = arAt q i.cpu.ar ∧
      (x.portRead i q).rready = (i.cpu.rready && decide (selected (x.nowRead i).addr = q)) := by
  obtain ⟨hmmio, hiop, hvideo, hmouse⟩ := h.route (i := i)
  obtain ⟨hvideo', hmouse', hconsole', hiop', hmmio'⟩ := sels_eq (x.nowRead i).addr
  have hlive : ∀ b : BusPort, (i.cpu.arvalid && decide (selected i.cpu.ar.addr = b)) =
      (i.cpu.arvalid && decide (selected (x.nowRead i).addr = b)) := by
    intro b
    cases hv : i.cpu.arvalid with
    | false => rfl
    | true => rw [nowRead_of_arvalid hc hv]
  obtain ⟨hvideo'', hmouse'', hconsole'', hiop'', -⟩ := sels_eq i.cpu.ar.addr
  unfold portRead readSignals DataBus.toSlave
  cases q with
  | ddr =>
    dsimp only
    unfold DataBus.d_ar_route_ddr_w
    rw [hmmio, hiop, hmmio', hiop']
    refine ⟨?_, rfl, ?_⟩ <;> cases selected (x.nowRead i).addr <;> rfl
  | iop =>
    dsimp only
    rw [hiop, hiop', hiop'', hlive]
    exact ⟨rfl, rfl, rfl⟩
  | console =>
    dsimp only
    unfold DataBus.d_ar_route_console_w
    rw [hmmio, hvideo, hmouse, hmmio', hvideo', hmouse', hconsole'', hlive]
    refine ⟨rfl, rfl, ?_⟩
    cases i.cpu.rready <;> cases selected (x.nowRead i).addr <;> rfl
  | mouse =>
    dsimp only
    rw [hmmio, hmouse, hmmio', hmouse', hmouse'', hlive]
    refine ⟨rfl, rfl, ?_⟩
    cases i.cpu.rready <;> cases selected (x.nowRead i).addr <;> rfl
  | video =>
    dsimp only
    rw [hmmio, hvideo, hmmio', hvideo', hvideo'', hlive]
    refine ⟨rfl, rfl, ?_⟩
    cases i.cpu.rready <;> cases selected (x.nowRead i).addr <;> rfl

theorem ReadInv.cpuRead_eq (h : ReadInv x) :
    (x.cpuRead i).arready = (i.slave (selected i.cpu.ar.addr)).arready ∧
      (x.cpuRead i).rvalid = (i.slave (selected (x.nowRead i).addr)).rvalid ∧
      (x.cpuRead i).r = (i.slave (selected (x.nowRead i).addr)).r := by
  obtain ⟨hmmio, hiop, hvideo, hmouse⟩ := h.route (i := i)
  obtain ⟨hvideo', hmouse', -, hiop', hmmio'⟩ := sels_eq (x.nowRead i).addr
  obtain ⟨hvideo'', hmouse'', -, hiop'', hmmio''⟩ := sels_eq i.cpu.ar.addr
  unfold cpuRead readSignals DataBus.toCpu DataBus.mmio
  dsimp only
  rw [hmmio, hiop, hvideo, hmouse, hmmio', hvideo', hmouse', hiop', hmmio'', hvideo'', hmouse'',
    hiop'']
  refine ⟨?_, ?_, ?_⟩
  · cases selected i.cpu.ar.addr <;> rfl
  · cases selected (x.nowRead i).addr <;> rfl
  · cases selected (x.nowRead i).addr <;> rfl

theorem ReadInv.now (h : ReadInv x) (hc : Compliant x i) :
    ReadLink.Follows (arAt (selected (x.nowRead i).addr)) x.cpuReads
        (x.portReads (selected (x.nowRead i).addr)) ∧
      ∀ q, q ≠ selected (x.nowRead i).addr → (x.portReads q).Idle := by
  apply h.follows
  intro a ha
  unfold nowRead
  cases har : x.cpuReads.ar with
  | some y =>
    rw [har] at ha
    cases ha
    rfl
  | none =>
    rw [har, Option.none_or] at ha
    have hsame : i.cpu.ar = a := (hc.reads.ar_held a ha).2
    rw [Option.getD_none, hsame]

theorem ReadInv.masterOk (h : ReadInv x) (hc : Compliant x i) (q : BusPort) :
    (x.portReads q).MasterOk (x.portRead i q) := by
  obtain ⟨hvalid, haddr, -⟩ := h.portRead_eq hc q
  obtain ⟨hfollows, hidle⟩ := h.now hc
  by_cases hq : q = selected (x.nowRead i).addr
  · rw [← hq] at hfollows
    constructor
    · intro y hy
      rw [hfollows.heldAr] at hy
      obtain ⟨a, ha, rfl⟩ := Option.map_eq_some_iff.mp hy
      obtain ⟨hv, hsame⟩ := hc.reads.ar_held a ha
      have hv' : i.cpu.arvalid = true := hv
      have hsame' : i.cpu.ar = a := hsame
      rw [hvalid, haddr, hv', hsame', decide_eq_true hq.symm]
      exact ⟨rfl, rfl⟩
    · intro hv
      rw [hvalid, Bool.and_eq_true] at hv
      rw [hfollows.ar, hc.reads.one hv.1]
      rfl
  · have hstill := hidle q hq
    constructor
    · intro y hy
      rw [hstill.heldAr] at hy
      cases hy
    · exact fun _ => hstill.ar

theorem ReadInv.slaveOk (h : ReadInv x) (hc : Compliant x i) :
    x.cpuReads.SlaveOk readFormat (x.cpuRead i) := by
  obtain ⟨-, hvalid, hr⟩ := h.cpuRead_eq (i := i)
  obtain ⟨hfollows, -⟩ := h.now hc
  have hslave := hc.slave_reads (selected (x.nowRead i).addr)
  constructor
  · intro r hheld
    obtain ⟨hv, hsame⟩ := hslave.r_held r (hfollows.heldR.trans hheld)
    rw [hvalid, hr]
    exact ⟨hv, hsame⟩
  · intro hv
    rw [hvalid] at hv
    obtain ⟨y, hy, hroom, hlast, hanswers⟩ := hslave.asked hv
    rw [hfollows.ar] at hy
    obtain ⟨a, ha, rfl⟩ := Option.map_eq_some_iff.mp hy
    have hnow : x.nowRead i = a := by
      unfold nowRead
      rw [ha]
      rfl
    have hlen : readFormat.len (arAt (selected (x.nowRead i).addr) a) = readFormat.len a :=
      congrArg BitVec.toNat (arAt_len fun hne => h.single a ha (hnow ▸ hne))
    rw [hlen, hfollows.beats] at hroom hlast
    refine ⟨a, ha, hroom, ?_, ?_⟩
    · rw [hr]
      exact hlast
    · rw [hr]
      exact hanswers.trans (arAt_id _ a)

theorem ReadInv.apart (h : ReadInv x) (hc : Compliant x i) (hv : (x.cpuRead i).rvalid = true) :
    i.cpu.arvalid = false := by
  obtain ⟨a, ha, -⟩ := (h.slaveOk hc).asked hv
  cases harv : i.cpu.arvalid with
  | false => rfl
  | true => exact absurd (ha.symm.trans (hc.reads.one harv)) (Option.some_ne_none a)

theorem ReadInv.same (h : ReadInv x) (hc : Compliant x i) :
    ReadLink.Same (arAt (selected (x.nowRead i).addr)) (x.cpuRead i)
      (x.portRead i (selected (x.nowRead i).addr)) := by
  obtain ⟨hvalid, haddr, hready⟩ := h.portRead_eq hc (selected (x.nowRead i).addr)
  obtain ⟨harready, hrvalid, hr⟩ := h.cpuRead_eq (i := i)
  rw [decide_eq_true rfl, Bool.and_true] at hvalid hready
  constructor
  · exact hvalid
  · exact haddr
  · intro hv
    rw [harready, nowRead_of_arvalid hc hv]
    rfl
  · exact hrvalid.symm
  · exact hr.symm
  · exact hready

theorem ReadInv.links (h : ReadInv x) (hc : Compliant x i) :
    ReadLink.Follows (arAt (selected (x.nowRead i).addr)) (x.cycle i).cpuReads
        ((x.cycle i).portReads (selected (x.nowRead i).addr)) ∧
      ∀ q, q ≠ selected (x.nowRead i).addr →
        ((x.cycle i).portReads q).Idle ∧ ((x.cycle i).portReads q).done = (x.portReads q).done := by
  obtain ⟨hfollows, hidle⟩ := h.now hc
  refine ⟨hfollows.step (h.same hc), fun q hq => ?_⟩
  obtain ⟨hvalid, -, -⟩ := h.portRead_eq hc q
  apply (hidle q hq).step
  · rw [hvalid, decide_eq_false (fun heq => hq heq.symm), Bool.and_false]
  · cases hv : (x.portRead i q).rvalid with
    | false => rfl
    | true =>
      obtain ⟨a, ha, -⟩ := (hc.slave_reads q).asked hv
      exact absurd (ha.symm.trans (hidle q hq).ar) (Option.some_ne_none a)

/-- The last beat of the read under way is taken. -/
def readEnds (x : BusRun) (i : BusIn) : Bool :=
  (x.cpuRead i).rFires && readFormat.last (x.cpuRead i).r

theorem ReadInv.ar_step (h : ReadInv x) (hc : Compliant x i) :
    (x.cycle i).cpuReads.ar =
      if (x.cpuRead i).arFires then some i.cpu.ar
      else if x.readEnds i then none else x.cpuReads.ar := by
  change (if x.readEnds i then none else if (x.cpuRead i).arFires then some i.cpu.ar
    else x.cpuReads.ar) = _
  cases hends : x.readEnds i with
  | false => rfl
  | true =>
    unfold readEnds ReadSignals.rFires at hends
    rw [Bool.and_eq_true, Bool.and_eq_true] at hends
    have hoff : (x.cpuRead i).arFires = false := by
      unfold ReadSignals.arFires
      change (i.cpu.arvalid && _) = false
      rw [h.apart hc hends.1.1, Bool.false_and]
    rw [hoff]
    rfl

theorem arFires_arvalid (hf : (x.cpuRead i).arFires = true) : i.cpu.arvalid = true :=
  (Bool.and_eq_true_iff.mp hf).1

theorem ReadInv.now_step (h : ReadInv x) (hc : Compliant x i) {a : BusAddr}
    (ha : (x.cycle i).cpuReads.ar.or (x.cycle i).cpuReads.heldAr = some a) :
    a = x.nowRead i := by
  rcases Option.or_eq_some_iff.mp ha with hsome | ⟨-, hheld⟩
  · rw [h.ar_step hc] at hsome
    split_ifs at hsome with hfires
    · rw [nowRead_of_arvalid hc (arFires_arvalid hfires)]
      exact (Option.some.inj hsome).symm
    · unfold nowRead
      rw [hsome]
      rfl
  · obtain ⟨hv, -, hsame⟩ := held_eq_some.mp hheld
    rw [nowRead_of_arvalid hc hv]
    exact hsame.symm

theorem ReadInv.free_step (h : ReadInv x) (hc : Compliant x i)
    (hnone : (x.cycle i).cpuReads.ar = none) :
    (x.cycle i).cpuReads.beats = [] ∧ (x.cycle i).cpuReads.heldR = none := by
  rw [h.ar_step hc] at hnone
  change (if (x.cpuRead i).rFires then if readFormat.last (x.cpuRead i).r then []
      else x.cpuReads.beats ++ [(x.cpuRead i).r] else x.cpuReads.beats) = [] ∧
    held (x.cpuRead i).rvalid (x.cpuRead i).rready (x.cpuRead i).r = none
  split_ifs at hnone with hfires hends
  · unfold readEnds at hends
    rw [Bool.and_eq_true] at hends
    rw [if_pos hends.1, if_pos hends.2]
    refine ⟨rfl, ?_⟩
    unfold held
    rw [(Bool.and_eq_true_iff.mp hends.1).2, Bool.not_true, Bool.and_false]
    rfl
  · have hoff : (x.cpuRead i).rvalid = false := by
      cases hv : (x.cpuRead i).rvalid with
      | false => rfl
      | true =>
        obtain ⟨a, ha, -⟩ := (h.slaveOk hc).asked hv
        exact absurd (ha.symm.trans hnone) (Option.some_ne_none a)
    unfold ReadSignals.rFires
    rw [hoff]
    exact ⟨(h.free hnone).1, rfl⟩

theorem route_step {f : BitVec 32 → Bool} {old : Bool} (h : ReadInv x) (hc : Compliant x i)
    (hold : ∀ a, x.cpuReads.ar = some a → old = f a.addr) {a : BusAddr}
    (ha : (x.cycle i).cpuReads.ar = some a) :
    (if (x.cpuRead i).arFires then f i.cpu.ar.addr
      else if x.readEnds i then false else old) = f a.addr := by
  rw [h.ar_step hc] at ha
  split_ifs at ha ⊢ with hfires hends
  · rw [Option.some.inj ha]
  · exact hold a ha

theorem ReadInv.ends_ar (h : ReadInv x) (hc : Compliant x i) (hends : x.readEnds i = true) :
    ∃ a, x.cpuReads.ar = some a := by
  unfold readEnds ReadSignals.rFires at hends
  rw [Bool.and_eq_true, Bool.and_eq_true] at hends
  obtain ⟨a, ha, -⟩ := (h.slaveOk hc).asked hends.1.1
  exact ⟨a, ha⟩

theorem ReadInv.port_done_step (h : ReadInv x) (hc : Compliant x i) (p : BusPort) :
    ((x.cycle i).portReads p).done =
      if x.readEnds i ∧ selected (x.nowRead i).addr = p then
        (x.portReads p).done ++ x.cpuReads.ar.toList.map
          fun a => ⟨arAt p a, x.cpuReads.beats ++ [(x.cpuRead i).r]⟩
      else (x.portReads p).done := by
  obtain ⟨hfollows, -⟩ := h.now hc
  by_cases hp : selected (x.nowRead i).addr = p
  · have hsame := h.same hc
    rw [hp] at hfollows hsame
    have hends : ((x.portRead i p).rFires && readFormat.last (x.portRead i p).r) =
        x.readEnds i := by
      unfold readEnds ReadSignals.rFires
      rw [hsame.rvalid, hsame.rready, hsame.r]
    change (if (x.portRead i p).rFires && readFormat.last (x.portRead i p).r then
      (x.portReads p).done ++ (x.portReads p).ar.toList.map
        (⟨·, (x.portReads p).beats ++ [(x.portRead i p).r]⟩) else (x.portReads p).done) = _
    rw [hends, hfollows.ar, hfollows.beats, hsame.r]
    cases x.readEnds i with
    | false => simp
    | true =>
      rw [if_pos rfl, if_pos ⟨rfl, hp⟩]
      cases x.cpuReads.ar <;> rfl
  · rw [((h.links hc).2 p (fun heq => hp heq.symm)).2, if_neg (fun hand => hp hand.2)]

theorem ReadInv.step (h : ReadInv x) (hc : Compliant x i) : ReadInv (x.cycle i) where
  pending := by
    rw [h.ar_step hc]
    change (if (x.cpuRead i).arFires then true else if x.readEnds i then false
      else x.bus.d_ar_pending_q) = _
    rw [h.pending]
    split_ifs <;> rfl
  routes a ha := by
    have hmmio : (x.cycle i).bus.d_ar_mmio_q = mmio_sel a.addr := by
      rw [h.ar_step hc] at ha
      change (if (x.cpuRead i).arFires then mmio_sel i.cpu.ar.addr else x.bus.d_ar_mmio_q) = _
      split_ifs at ha ⊢ with hfires hends
      · rw [Option.some.inj ha]
      · exact (h.routes a ha).1
    exact ⟨hmmio, route_step h hc (fun b hb => (h.routes b hb).2.1) ha,
      route_step h hc (fun b hb => (h.routes b hb).2.2.1) ha,
      route_step h hc (fun b hb => (h.routes b hb).2.2.2) ha⟩
  single a ha := by
    rw [h.ar_step hc] at ha
    split_ifs at ha with hfires hends
    · rw [← Option.some.inj ha]
      exact hc.single_read (arFires_arvalid hfires)
    · exact h.single a ha
  free hnone := h.free_step hc hnone
  held_free hheld := by
    obtain ⟨a, ha⟩ := Option.isSome_iff_exists.mp hheld
    obtain ⟨hv, hready, -⟩ := held_eq_some.mp ha
    have hoff : (x.cpuRead i).arFires = false := by
      unfold ReadSignals.arFires
      rw [hready, Bool.and_false]
    rw [h.ar_step hc, hoff, hc.reads.one hv, ite_self]
    rfl
  follows p hp := by
    obtain ⟨hfollows, hidle⟩ := h.links hc
    cases hnow : (x.cycle i).cpuReads.ar.or (x.cycle i).cpuReads.heldAr with
    | some a =>
      have hpa : selected (x.nowRead i).addr = p := h.now_step hc hnow ▸ hp a hnow
      rw [hpa] at hfollows hidle
      exact ⟨hfollows, fun q hq => (hidle q hq).1⟩
    | none =>
      obtain ⟨har, hheld⟩ := Option.or_eq_none_iff.mp hnow
      obtain ⟨hbeats, hheldR⟩ := h.free_step hc har
      have hall : ∀ q, ((x.cycle i).portReads q).Idle := by
        intro q
        by_cases hq : q = selected (x.nowRead i).addr
        · rw [hq]
          exact ⟨by rw [hfollows.ar, har]; rfl, by rw [hfollows.beats, hbeats],
            by rw [hfollows.heldAr, hheld]; rfl, by rw [hfollows.heldR, hheldR]⟩
        · exact (hidle q hq).1
      exact ⟨⟨by rw [(hall p).ar, har]; rfl, by rw [(hall p).beats, hbeats],
        by rw [(hall p).heldAr, hheld]; rfl, by rw [(hall p).heldR, hheldR]⟩, fun q _ => hall q⟩
  done p := by
    have hdone : (x.cycle i).cpuReads.done =
        if x.readEnds i then x.cpuReads.done ++ x.cpuReads.ar.toList.map
          (⟨·, x.cpuReads.beats ++ [(x.cpuRead i).r]⟩) else x.cpuReads.done := rfl
    rw [hdone, h.port_done_step hc p, h.done p]
    cases hends : x.readEnds i with
    | false => rfl
    | true =>
      obtain ⟨a, ha⟩ := h.ends_ar hc hends
      have hnow : x.nowRead i = a := by
        unfold nowRead
        rw [ha]
        rfl
      rw [ha, hnow]
      by_cases hp : selected a.addr = p
      · simp [hp]
      · simp [hp]

end Cycle

end BusRun

end vibeos.fpga
