-- The writes of the data bus: the slave of the write under way is joined to the CPU, or served from
-- the buffers of the IOP port, as long as the DDR slave takes the address together with the data.
import Vibeos.DataBusReads

namespace vibeos.fpga

open Burst

/-- The address of a write as a slave gets it. -/
def awAt : BusPort → BusAddr → BusAddr
  | .ddr, a => DataBus.remapped a
  | .iop, a => DataBus.single a
  | .console, a => DataBus.single a
  | .mouse, a => DataBus.single a
  | .video, a => DataBus.single a

theorem awAt_id (p : BusPort) (a : BusAddr) : (awAt p a).id = a.id := by
  cases p <;> rfl

theorem awAt_len {p : BusPort} {a : BusAddr} (h : p ≠ .ddr → a.len = 0) :
    (awAt p a).len = a.len := by
  cases p with
  | ddr => rfl
  | iop => exact (h BusPort.noConfusion).symm
  | console => exact (h BusPort.noConfusion).symm
  | mouse => exact (h BusPort.noConfusion).symm
  | video => exact (h BusPort.noConfusion).symm

namespace BusRun

/-- The DDR slave gets an address only with data: it is not ready for one that the CPU gives alone,
no data was taken before it, and it is ready in every later cycle in which the CPU gives data. -/
structure DdrTimed (x : BusRun) (i : BusIn) : Prop where
  together : i.cpu.awvalid = true → selected i.cpu.aw.addr = .ddr → i.cpu.wvalid = false →
    (i.slave .ddr).awready = false ∧ x.cpuWrites.beats = []
  ready : ∀ a, x.cpuWrites.aw = some a → selected a.addr = .ddr → i.cpu.wvalid = true →
    (i.slave .ddr).awready = true

/-- The buffers of the IOP port hold the write of the CPU, and its slave got what was sent. -/
structure Buffered (s : DataBus) (l port : BusWriteLink) : Prop where
  aw_buf : s.iop_aw_buf_valid_q = l.aw.isSome
  aw_q : ∀ a, l.aw = some a → s.iop_aw_q = a
  w_buf : (s.iop_w_buf_valid_q = false ∧ l.beats = []) ∨
    (s.iop_w_buf_valid_q = true ∧ l.aw.isSome = true ∧
      l.beats = [{ s.iop_w_q with last := true }])
  aw_sent : s.iop_aw_sent_q = true → s.iop_w_buf_valid_q = true
  w_sent : s.iop_w_sent_q = true → s.iop_w_buf_valid_q = true
  port_aw : port.aw = if s.iop_aw_sent_q then l.aw.map DataBus.single else none
  port_beats : port.beats = if s.iop_w_sent_q then l.beats else []
  heldAw : ∀ a, port.heldAw = some a →
    s.iop_w_buf_valid_q = true ∧ s.iop_aw_sent_q = false ∧ a = DataBus.single s.iop_aw_q
  heldW : ∀ w, port.heldW = some w →
    s.iop_w_buf_valid_q = true ∧ s.iop_w_sent_q = false ∧ w = { s.iop_w_q with last := true }
  heldB : port.heldB = l.heldB

/-- A slave is joined to the CPU. -/
structure Joined (p : BusPort) (l port : BusWriteLink) : Prop extends
    WriteLink.Follows (awAt p) l port where
  heldAw : ∀ y, port.heldAw = some y → ∃ a, l.heldAw = some a ∧ y = awAt p a ∧
    (p = .ddr → l.beats ≠ [] ∨ l.heldW.isSome = true)

/-- A slave has the write of the CPU under way. -/
structure Serves (p : BusPort) (s : DataBus) (l port : BusWriteLink) : Prop where
  joined : p ≠ .iop → Joined p l port ∧
    s.iop_aw_buf_valid_q = false ∧ s.iop_w_buf_valid_q = false ∧ s.iop_aw_sent_q = false ∧
      s.iop_w_sent_q = false
  buffered : p = .iop → Buffered s l port
  count : s.d_w_count_q = 0 ∨ (p = .ddr ∧ s.d_w_count_q.toNat ≤ l.beats.length ∧
    ∃ a, l.current = some a ∧ l.beats.length ≤ a.len.toNat)

structure WriteInv (x : BusRun) : Prop where
  tidy : x.cpuWrites.Tidy
  pending : x.bus.d_aw_pending_q = x.cpuWrites.aw.isSome
  routes : ∀ a, x.cpuWrites.aw = some a → x.bus.d_aw_mmio_q = mmio_sel a.addr ∧
    x.bus.d_aw_iop_q = ps_iop_sel a.addr ∧ x.bus.d_aw_video_q = video_sel a.addr ∧
    x.bus.d_aw_mouse_q = mouse_sel a.addr
  len : ∀ a, x.cpuWrites.aw = some a → x.bus.d_awlen_q = a.len
  single : ∀ a, x.cpuWrites.aw = some a → selected a.addr ≠ .ddr → a.len = 0
  serves : ∀ p, (∀ a, x.cpuWrites.current = some a → selected a.addr = p) →
    Serves p x.bus x.cpuWrites (x.portWrites p) ∧ ∀ q, q ≠ p → (x.portWrites q).Idle
  done : ∀ p, (x.portWrites p).done =
    (x.cpuWrites.done.filter fun d => selected d.aw.addr = p).map
      fun d => ⟨awAt p d.aw, d.beats, d.b⟩

/-- The address of the write that this cycle is about. -/
def nowWrite (x : BusRun) (i : BusIn) : BusAddr := x.cpuWrites.now (x.cpuWrite i)

section Cycle

variable {x : BusRun} {i : BusIn}

theorem WriteInv.route (h : WriteInv x) :
    x.bus.d_aw_route_mmio_w i = mmio_sel (x.nowWrite i).addr ∧
      x.bus.d_aw_route_iop_w i = ps_iop_sel (x.nowWrite i).addr ∧
      x.bus.d_aw_route_video_w i = video_sel (x.nowWrite i).addr ∧
      x.bus.d_aw_route_mouse_w i = mouse_sel (x.nowWrite i).addr := by
  unfold DataBus.d_aw_route_mmio_w DataBus.d_aw_route_iop_w DataBus.d_aw_route_video_w
    DataBus.d_aw_route_mouse_w nowWrite WriteLink.now
  rw [h.pending]
  cases haw : x.cpuWrites.aw with
  | none => exact ⟨rfl, rfl, rfl, rfl⟩
  | some a => exact h.routes a haw

theorem nowWrite_of_awvalid (hc : Compliant x i) (hv : i.cpu.awvalid = true) :
    x.nowWrite i = i.cpu.aw := by
  unfold nowWrite WriteLink.now
  rw [hc.writes.one hv]
  rfl

theorem WriteInv.now (h : WriteInv x) (hc : Compliant x i) :
    Serves (selected (x.nowWrite i).addr) x.bus x.cpuWrites
        (x.portWrites (selected (x.nowWrite i).addr)) ∧
      ∀ q, q ≠ selected (x.nowWrite i).addr → (x.portWrites q).Idle :=
  h.serves _ fun _ ha => congrArg (fun b => selected b.addr) (hc.writes.now_eq ha).symm

theorem WriteInv.active_awlen (h : WriteInv x) :
    x.bus.d_active_awlen_w i = (x.nowWrite i).len := by
  unfold DataBus.d_active_awlen_w nowWrite WriteLink.now
  rw [h.pending]
  cases haw : x.cpuWrites.aw with
  | none => rfl
  | some a => exact h.len a haw

theorem WriteInv.others_quiet (h : WriteInv x) (hc : Compliant x i) {q : BusPort}
    (hq : q ≠ selected (x.nowWrite i).addr) : (i.slave q).bvalid = false := by
  cases hv : (i.slave q).bvalid with
  | false => rfl
  | true =>
    obtain ⟨a, ha, -⟩ := (hc.slave_writes q).whole hv
    exact absurd (ha.symm.trans ((h.now hc).2 q hq).aw) (Option.some_ne_none a)

theorem WriteInv.wlast (h : WriteInv x) (hc : Compliant x i) (hv : i.cpu.wvalid = true) :
    x.bus.d_ddr_wlast_w i = i.cpu.w.last := by
  unfold DataBus.d_ddr_wlast_w
  cases hlast : i.cpu.w.last with
  | true => rfl
  | false =>
    rw [Bool.false_or]
    unfold DataBus.d_ddr_wlast_gen_w
    rw [h.active_awlen]
    have hroom : x.cpuWrites.beats.length ≤ (x.nowWrite i).len.toNat := hc.writes.room hv
    have hnot : ¬ x.cpuWrites.beats.length = (x.nowWrite i).len.toNat := fun heq =>
      Bool.false_ne_true (hlast.symm.trans ((hc.writes.last hv).mpr heq))
    have hne : x.bus.d_w_count_q ≠ (x.nowWrite i).len := by
      intro heq
      have heq' := congrArg BitVec.toNat heq
      rcases (h.now hc).1.count with hzero | ⟨-, hle, a, ha, hlen⟩
      · rw [hzero] at heq'
        change 0 = _ at heq'
        omega
      · have hnow : x.nowWrite i = a := hc.writes.now_eq ha
        rw [hnow] at heq' hnot hroom
        omega
    rw [decide_eq_false hne, Bool.and_false]

theorem WriteInv.no_hold (h : WriteInv x) (ht : DdrTimed x i) : x.bus.ddr_aw_hold_w i = false := by
  cases hhold : x.bus.ddr_aw_hold_w i with
  | false => rfl
  | true =>
    unfold DataBus.ddr_aw_hold_w DataBus.d_aw_route_ddr_w at hhold
    simp only [Bool.and_eq_true, Bool.not_eq_true'] at hhold
    obtain ⟨⟨⟨⟨-, hpending⟩, hmmio, hiop⟩, hv⟩, hready⟩ := hhold
    rw [h.pending] at hpending
    obtain ⟨a, ha⟩ := Option.isSome_iff_exists.mp hpending
    have hnow : x.nowWrite i = a := by
      unfold nowWrite WriteLink.now
      rw [ha]
      rfl
    obtain ⟨-, -, -, hiop', hmmio'⟩ := sels_eq a.addr
    rw [h.route.1, hnow, hmmio'] at hmmio
    rw [h.route.2.1, hnow, hiop'] at hiop
    have hddr : selected a.addr = .ddr := by
      revert hmmio hiop
      cases selected a.addr <;> decide
    rw [ht.ready a ha hddr hv] at hready
    cases hready

theorem WriteInv.portWrite_eq (h : WriteInv x) (hc : Compliant x i) (ht : DdrTimed x i)
    {q : BusPort} (hq : q ≠ .iop) :
    (x.portWrite i q).awvalid = (i.cpu.awvalid && decide (selected (x.nowWrite i).addr = q) &&
        (decide (q ≠ .ddr) || i.cpu.wvalid)) ∧
      (x.portWrite i q).aw = awAt q i.cpu.aw ∧
      (x.portWrite i q).wvalid =
        (i.cpu.wvalid && decide (selected (x.nowWrite i).addr = q)) ∧
      (i.cpu.wvalid = true → (x.portWrite i q).w = i.cpu.w) ∧
      (x.portWrite i q).bready =
        (i.cpu.bready && decide (selected (x.nowWrite i).addr = q)) := by
  obtain ⟨hmmio, hiop, hvideo, hmouse⟩ := h.route (i := i)
  obtain ⟨hvideo', hmouse', hconsole', hiop', hmmio'⟩ := sels_eq (x.nowWrite i).addr
  have hlive : ∀ b : BusPort, (i.cpu.awvalid && decide (selected i.cpu.aw.addr = b)) =
      (i.cpu.awvalid && decide (selected (x.nowWrite i).addr = b)) := by
    intro b
    cases hv : i.cpu.awvalid with
    | false => rfl
    | true => rw [nowWrite_of_awvalid hc hv]
  obtain ⟨hvideo'', hmouse'', hconsole'', -, -⟩ := sels_eq i.cpu.aw.addr
  unfold portWrite writeSignals DataBus.toSlave
  cases q with
  | ddr =>
    have hroute : x.bus.d_aw_route_ddr_w i = decide (selected (x.nowWrite i).addr = .ddr) := by
      unfold DataBus.d_aw_route_ddr_w
      rw [hmmio, hiop, hmmio', hiop']
      cases selected (x.nowWrite i).addr <;> rfl
    dsimp only
    rw [h.no_hold ht, hroute, Bool.or_false]
    refine ⟨rfl, rfl, rfl, fun hv => ?_, rfl⟩
    rw [h.wlast hc hv]
  | iop => exact absurd rfl hq
  | console =>
    have hroute : x.bus.d_aw_route_console_w i =
        decide (selected (x.nowWrite i).addr = .console) := by
      unfold DataBus.d_aw_route_console_w
      rw [hmmio, hvideo, hmouse, hmmio', hvideo', hmouse']
      cases selected (x.nowWrite i).addr <;> rfl
    dsimp only
    rw [hroute, hconsole'', hlive]
    exact ⟨(Bool.and_true _).symm, rfl, rfl, fun _ => rfl, rfl⟩
  | mouse =>
    dsimp only
    rw [hmouse, hmouse', hmouse'', hlive]
    exact ⟨(Bool.and_true _).symm, rfl, rfl, fun _ => rfl, rfl⟩
  | video =>
    dsimp only
    rw [hvideo, hvideo', hvideo'', hlive]
    exact ⟨(Bool.and_true _).symm, rfl, rfl, fun _ => rfl, rfl⟩

theorem WriteInv.cpuWrite_b (h : WriteInv x) (hc : Compliant x i) :
    (x.cpuWrite i).bvalid = (i.slave (selected (x.nowWrite i).addr)).bvalid ∧
      ((x.cpuWrite i).bvalid = true →
        (x.cpuWrite i).b = (i.slave (selected (x.nowWrite i).addr)).b) := by
  obtain ⟨hmmio, hiop, -, -⟩ := h.route (i := i)
  obtain ⟨-, -, -, hiop', hmmio'⟩ := sels_eq (x.nowWrite i).addr
  have hquiet := fun q => h.others_quiet hc (q := q)
  unfold cpuWrite writeSignals DataBus.toCpu DataBus.mmio_bvalid_w DataBus.mmio_b_w
  dsimp only
  rw [hmmio, hiop, hmmio', hiop']
  generalize selected (x.nowWrite i).addr = p at hquiet ⊢
  cases p with
  | ddr => exact ⟨rfl, fun _ => rfl⟩
  | iop => exact ⟨rfl, fun _ => rfl⟩
  | console =>
    rw [hquiet .video BusPort.noConfusion, hquiet .mouse BusPort.noConfusion]
    exact ⟨rfl, fun _ => rfl⟩
  | mouse =>
    rw [hquiet .video BusPort.noConfusion, hquiet .console BusPort.noConfusion]
    refine ⟨Bool.or_false _, fun hb => ?_⟩
    have hm : (i.slave .mouse).bvalid = true := by simpa using hb
    rw [hm]
    rfl
  | video =>
    rw [hquiet .mouse BusPort.noConfusion, hquiet .console BusPort.noConfusion]
    refine ⟨by simp, fun hb => ?_⟩
    have hv : (i.slave .video).bvalid = true := by simpa using hb
    rw [hv]
    rfl

theorem WriteInv.cpuWrite_ready (h : WriteInv x) (hc : Compliant x i)
    (hp : selected (x.nowWrite i).addr ≠ .iop) :
    (i.cpu.awvalid = true →
        (x.cpuWrite i).awready = (i.slave (selected (x.nowWrite i).addr)).awready) ∧
      (x.cpuWrite i).wready = (i.slave (selected (x.nowWrite i).addr)).wready := by
  obtain ⟨hmmio, hiop, hvideo, hmouse⟩ := h.route (i := i)
  obtain ⟨hvideo', hmouse', -, hiop', hmmio'⟩ := sels_eq (x.nowWrite i).addr
  constructor
  · intro hv
    unfold cpuWrite writeSignals DataBus.toCpu DataBus.mmio
    dsimp only
    rw [← nowWrite_of_awvalid hc hv, hvideo', hmouse', hiop', hmmio']
    revert hp
    cases selected (x.nowWrite i).addr <;> intro hp <;> first | rfl | exact absurd rfl hp
  · unfold cpuWrite writeSignals DataBus.toCpu DataBus.mmio
    dsimp only
    rw [hmmio, hiop, hvideo, hmouse, hvideo', hmouse', hiop', hmmio']
    revert hp
    cases selected (x.nowWrite i).addr <;> intro hp <;> first | rfl | exact absurd rfl hp

theorem WriteInv.same (h : WriteInv x) (hc : Compliant x i) (ht : DdrTimed x i)
    (hp : selected (x.nowWrite i).addr ≠ .iop) :
    WriteLink.Same (awAt (selected (x.nowWrite i).addr)) (x.cpuWrite i)
      (x.portWrite i (selected (x.nowWrite i).addr)) := by
  obtain ⟨hawvalid, haw, hwvalid, hw, hbready⟩ := h.portWrite_eq hc ht hp
  obtain ⟨hawready, hwready⟩ := h.cpuWrite_ready hc hp
  obtain ⟨hbvalid, hb⟩ := h.cpuWrite_b hc
  rw [decide_eq_true rfl, Bool.and_true] at hawvalid hwvalid hbready
  constructor
  · unfold WriteSignals.awFires
    rw [hawvalid]
    change _ = (i.cpu.awvalid && _)
    cases hv : i.cpu.awvalid with
    | false => rfl
    | true =>
      rw [hawready hv]
      change (true && (decide _ || i.cpu.wvalid) && (i.slave _).awready) = _
      rw [Bool.true_and, Bool.true_and]
      by_cases hddr : selected (x.nowWrite i).addr = .ddr
      · cases hwv : i.cpu.wvalid with
        | true => rw [Bool.or_true, Bool.true_and]
        | false =>
          have hoff := (ht.together hv (nowWrite_of_awvalid hc hv ▸ hddr) hwv).1
          rw [hddr, hoff]
          rfl
      · rw [decide_eq_true hddr, Bool.true_or, Bool.true_and]
  · exact fun _ => haw
  · exact hwvalid
  · exact fun _ => hwready.symm
  · exact hw
  · exact hbvalid.symm
  · exact fun hv => (hb hv).symm
  · exact hbready

theorem WriteInv.slaveOk (h : WriteInv x) (hc : Compliant x i) :
    x.cpuWrites.SlaveOk writeFormat (x.cpuWrite i) := by
  obtain ⟨hbvalid, hb⟩ := h.cpuWrite_b hc
  obtain ⟨hserves, -⟩ := h.now hc
  have hslave := hc.slave_writes (selected (x.nowWrite i).addr)
  have hheldB : (x.portWrites (selected (x.nowWrite i).addr)).heldB = x.cpuWrites.heldB := by
    by_cases hp : selected (x.nowWrite i).addr = .iop
    · exact (hserves.buffered hp).heldB
    · exact (hserves.joined hp).1.heldB
  constructor
  · intro b hheld
    obtain ⟨hv, hsame⟩ := hslave.b_held b (hheldB.trans hheld)
    have hv' : (x.cpuWrite i).bvalid = true := hbvalid.trans hv
    exact ⟨hv', (hb hv').trans hsame⟩
  · intro hv
    obtain ⟨y, hy, hwhole, hanswers⟩ := hslave.whole (hbvalid.symm.trans hv)
    rw [hb hv]
    by_cases hp : selected (x.nowWrite i).addr = .iop
    · obtain hbuffered := hserves.buffered hp
      rw [hbuffered.port_aw] at hy
      split_ifs at hy
      obtain ⟨a, ha, rfl⟩ := Option.map_eq_some_iff.mp hy
      have hnow : x.nowWrite i = a := by
        unfold nowWrite WriteLink.now
        rw [ha]
        rfl
      have hlen : a.len = 0 := h.single a ha (by
        rw [← hnow, hp]
        exact BusPort.noConfusion)
      rw [hbuffered.port_beats] at hwhole
      split_ifs at hwhole
      have hzero : writeFormat.len a = 0 := congrArg BitVec.toNat hlen
      exact ⟨a, ha, hwhole.trans (by rw [hzero]; rfl), hanswers⟩
    · obtain ⟨hjoined, -⟩ := hserves.joined hp
      rw [hjoined.aw] at hy
      obtain ⟨a, ha, rfl⟩ := Option.map_eq_some_iff.mp hy
      have hnow : x.nowWrite i = a := by
        unfold nowWrite WriteLink.now
        rw [ha]
        rfl
      have hlen : writeFormat.len (awAt (selected (x.nowWrite i).addr) a) = writeFormat.len a :=
        congrArg BitVec.toNat (awAt_len fun hne => h.single a ha (hnow ▸ hne))
      rw [hlen, hjoined.beats] at hwhole
      exact ⟨a, ha, hwhole, hanswers.trans (awAt_id _ a)⟩

theorem WriteInv.now_single (h : WriteInv x) (hc : Compliant x i)
    (hsome : i.cpu.awvalid = true ∨ x.cpuWrites.aw.isSome = true)
    (hne : selected (x.nowWrite i).addr ≠ .ddr) : (x.nowWrite i).len = 0 := by
  rcases hsome with hav | hsome
  · rw [nowWrite_of_awvalid hc hav] at hne ⊢
    exact hc.single_write hav hne
  · obtain ⟨a, ha⟩ := Option.isSome_iff_exists.mp hsome
    have hnow : x.nowWrite i = a := by
      unfold nowWrite WriteLink.now
      rw [ha]
      rfl
    rw [hnow] at hne ⊢
    exact h.single a ha hne

theorem WriteInv.masterOk_joined (h : WriteInv x) (hc : Compliant x i) (ht : DdrTimed x i)
    (hp : selected (x.nowWrite i).addr ≠ .iop) :
    (x.portWrites (selected (x.nowWrite i).addr)).MasterOk writeFormat
      (x.portWrite i (selected (x.nowWrite i).addr)) := by
  obtain ⟨hawvalid, haw, hwvalid, hw, -⟩ := h.portWrite_eq hc ht hp
  obtain ⟨⟨hjoined, hheldAw⟩, -⟩ := (h.now hc).1.joined hp
  rw [decide_eq_true rfl, Bool.and_true] at hawvalid hwvalid
  have hwv : (x.portWrite i (selected (x.nowWrite i).addr)).wvalid = true →
      i.cpu.wvalid = true := fun hv => hwvalid.symm.trans hv
  have hnow : (x.portWrites (selected (x.nowWrite i).addr)).now
      (x.portWrite i (selected (x.nowWrite i).addr)) =
        awAt (selected (x.nowWrite i).addr) (x.nowWrite i) := by
    unfold WriteLink.now
    rw [hjoined.aw, haw]
    exact Option.getD_map _ _ _
  have hlen : i.cpu.wvalid = true →
      writeFormat.len (awAt (selected (x.nowWrite i).addr) (x.nowWrite i)) =
        writeFormat.len (x.nowWrite i) := by
    intro hv
    apply congrArg BitVec.toNat
    apply awAt_len
    exact h.now_single hc (hc.writes.address_first hv)
  constructor
  · intro y hy
    obtain ⟨a, ha, rfl, hdata⟩ := hheldAw y hy
    obtain ⟨hv, hsame⟩ := hc.writes.aw_held a ha
    have hv' : i.cpu.awvalid = true := hv
    have hsame' : i.cpu.aw = a := hsame
    rw [hawvalid, haw, hv', hsame']
    refine ⟨?_, rfl⟩
    by_cases hddr : selected (x.nowWrite i).addr = .ddr
    · -- The data stays until the address is taken.
      cases hwv : i.cpu.wvalid with
      | true => rw [Bool.or_true, Bool.and_true]
      | false =>
        rcases hdata hddr with hbeats | hheld
        · exact absurd (ht.together hv' (nowWrite_of_awvalid hc hv' ▸ hddr) hwv).2 hbeats
        · obtain ⟨w, hw⟩ := Option.isSome_iff_exists.mp hheld
          exact absurd (hwv.symm.trans (hc.writes.w_held w hw).1) Bool.false_ne_true
    · rw [decide_eq_true hddr, Bool.true_or, Bool.and_true]
  · intro w hheld
    rw [hjoined.heldW] at hheld
    obtain ⟨hv, hsame⟩ := hc.writes.w_held w hheld
    exact ⟨hwvalid.trans hv, (hw hv).trans hsame⟩
  · intro hv
    rw [hawvalid, Bool.and_eq_true] at hv
    rw [hjoined.aw, hc.writes.one hv.1]
    rfl
  · intro hv
    rcases hc.writes.address_first (hwv hv) with hav | hsome
    · left
      have hav' : i.cpu.awvalid = true := hav
      rw [hawvalid, hav', hwv hv, Bool.or_true]
      rfl
    · right
      rw [hjoined.aw, Option.isSome_map]
      exact hsome
  · intro hv
    rw [hnow, hlen (hwv hv), hjoined.beats]
    exact hc.writes.room (hwv hv)
  · intro hv
    rw [hnow, hlen (hwv hv), hjoined.beats, hw (hwv hv)]
    exact hc.writes.last (hwv hv)

theorem Buffered.masterOk {port : BusWriteLink} (hb : Buffered x.bus x.cpuWrites port) :
    port.MasterOk writeFormat (x.portWrite i .iop) := by
  have hawbuf : x.bus.iop_w_buf_valid_q = true → x.bus.iop_aw_buf_valid_q = true := by
    intro hv
    rcases hb.w_buf with ⟨hoff, -⟩ | ⟨-, hsome, -⟩
    · exact absurd (hoff.symm.trans hv) Bool.false_ne_true
    · exact hb.aw_buf.trans hsome
  have hawvalid : (x.portWrite i .iop).awvalid =
      (x.bus.iop_aw_buf_valid_q && x.bus.iop_w_buf_valid_q && !x.bus.iop_aw_sent_q) := rfl
  have hwvalid : (x.portWrite i .iop).wvalid =
      (x.bus.iop_aw_buf_valid_q && x.bus.iop_w_buf_valid_q && !x.bus.iop_w_sent_q) := rfl
  have hnow : writeFormat.len (port.now (x.portWrite i .iop)) = 0 := by
    unfold WriteLink.now
    rw [hb.port_aw]
    split_ifs
    · cases x.cpuWrites.aw <;> rfl
    · rfl
  constructor
  · intro a ha
    obtain ⟨hbuf, hsent, rfl⟩ := hb.heldAw a ha
    rw [hawvalid, hbuf, hawbuf hbuf, hsent]
    exact ⟨rfl, rfl⟩
  · intro w hw
    obtain ⟨hbuf, hsent, rfl⟩ := hb.heldW w hw
    rw [hwvalid, hbuf, hawbuf hbuf, hsent]
    exact ⟨rfl, rfl⟩
  · intro hv
    rw [hawvalid, Bool.and_eq_true, Bool.not_eq_true'] at hv
    rw [hb.port_aw, hv.2]
    rfl
  · intro hv
    rw [hwvalid, Bool.and_eq_true, Bool.and_eq_true] at hv
    cases hsent : x.bus.iop_aw_sent_q with
    | false =>
      left
      rw [hawvalid, hv.1.1, hv.1.2, hsent]
      rfl
    | true =>
      right
      rw [hb.port_aw, hsent, if_pos rfl, Option.isSome_map, ← hb.aw_buf]
      exact hv.1.1
  · intro hv
    rw [hwvalid, Bool.and_eq_true, Bool.not_eq_true'] at hv
    rw [hnow, hb.port_beats, hv.2]
    exact Nat.le_refl _
  · intro hv
    rw [hwvalid, Bool.and_eq_true, Bool.not_eq_true'] at hv
    rw [hnow, hb.port_beats, hv.2]
    exact iff_of_true rfl rfl

theorem WriteInv.others_off (h : WriteInv x) (hc : Compliant x i) (ht : DdrTimed x i)
    {q : BusPort} (hq : q ≠ selected (x.nowWrite i).addr) :
    (x.portWrite i q).awvalid = false ∧ (x.portWrite i q).wvalid = false := by
  by_cases hiop : q = .iop
  · subst hiop
    obtain ⟨-, haw, -⟩ := (h.now hc).1.joined (fun heq => hq heq.symm)
    have hready : x.bus.iop_write_ready_w = false := by
      unfold DataBus.iop_write_ready_w
      rw [haw, Bool.false_and]
    unfold portWrite writeSignals DataBus.toSlave
    dsimp only
    rw [hready]
    exact ⟨rfl, rfl⟩
  · obtain ⟨hawvalid, -, hwvalid, -, -⟩ := h.portWrite_eq hc ht hiop
    rw [hawvalid, hwvalid, decide_eq_false (fun heq => hq heq.symm), Bool.and_false, Bool.and_false,
      Bool.false_and]
    exact ⟨rfl, rfl⟩

theorem WriteInv.masterOk (h : WriteInv x) (hc : Compliant x i) (ht : DdrTimed x i) (q : BusPort) :
    (x.portWrites q).MasterOk writeFormat (x.portWrite i q) := by
  by_cases hq : q = selected (x.nowWrite i).addr
  · by_cases hp : selected (x.nowWrite i).addr = .iop
    · rw [hq, hp]
      exact (hp ▸ (h.now hc).1.buffered hp).masterOk
    · rw [hq]
      exact h.masterOk_joined hc ht hp
  · obtain ⟨hawoff, hwoff⟩ := h.others_off hc ht hq
    have hidle := (h.now hc).2 q hq
    constructor
    · intro a ha
      rw [hidle.heldAw] at ha
      cases ha
    · intro w hw
      rw [hidle.heldW] at hw
      cases hw
    · exact fun _ => hidle.aw
    · exact fun hv => absurd (hwoff.symm.trans hv) Bool.false_ne_true
    · exact fun hv => absurd (hwoff.symm.trans hv) Bool.false_ne_true
    · exact fun hv => absurd (hwoff.symm.trans hv) Bool.false_ne_true

/-! ## The registers after a cycle -/

theorem WriteInv.aw_step (h : WriteInv x) (hc : Compliant x i) :
    (x.cycle i).cpuWrites.aw =
      if (x.cpuWrite i).awFires then some i.cpu.aw
      else if (x.cpuWrite i).bFires then none else x.cpuWrites.aw := by
  change (if (x.cpuWrite i).bFires then none else if (x.cpuWrite i).awFires then some i.cpu.aw
    else x.cpuWrites.aw) = _
  cases hends : (x.cpuWrite i).bFires with
  | false => rfl
  | true =>
    have hoff : (x.cpuWrite i).awFires = false := by
      unfold WriteSignals.awFires
      rw [((h.slaveOk hc).quiet hc.writes (Bool.and_eq_true_iff.mp hends).1).1, Bool.false_and]
    rw [hoff]
    rfl

theorem awFires_awvalid (hf : (x.cpuWrite i).awFires = true) : i.cpu.awvalid = true :=
  (Bool.and_eq_true_iff.mp hf).1

theorem WriteInv.route_step {f : BitVec 32 → Bool} {old : Bool} (h : WriteInv x)
    (hc : Compliant x i) (hold : ∀ a, x.cpuWrites.aw = some a → old = f a.addr) {a : BusAddr}
    (ha : (x.cycle i).cpuWrites.aw = some a) :
    (if (x.cpuWrite i).awFires then f i.cpu.aw.addr
      else if (x.cpuWrite i).bFires then false else old) = f a.addr := by
  rw [h.aw_step hc] at ha
  split_ifs at ha ⊢ with hfires hends
  · rw [Option.some.inj ha]
  · exact hold a ha

theorem current_now (hc : Compliant x i) (hends : (x.cpuWrite i).bFires = false)
    (hsome : i.cpu.awvalid = true ∨ x.cpuWrites.aw.isSome = true) :
    (x.cycle i).cpuWrites.current = some (x.nowWrite i) := by
  have haw : (x.cycle i).cpuWrites.aw =
      if (x.cpuWrite i).awFires then some i.cpu.aw else x.cpuWrites.aw :=
    (WriteLink.step_of_open hends).1
  unfold WriteLink.current
  rw [haw]
  rcases hsome with hv | hsome
  · rw [nowWrite_of_awvalid hc hv, hc.writes.one hv]
    change (if (i.cpu.awvalid && (x.cpuWrite i).awready) then _ else _ : Option BusAddr).or
      (held i.cpu.awvalid (x.cpuWrite i).awready i.cpu.aw) = _
    rw [hv]
    cases (x.cpuWrite i).awready <;> rfl
  · obtain ⟨a, ha⟩ := Option.isSome_iff_exists.mp hsome
    have hoff : (x.cpuWrite i).awFires = false := by
      cases hf : (x.cpuWrite i).awFires with
      | false => rfl
      | true =>
        have hnone := hc.writes.one (awFires_awvalid hf)
        exact absurd (ha.symm.trans hnone) (Option.some_ne_none a)
    have hnow : x.nowWrite i = a := by
      unfold nowWrite WriteLink.now
      rw [ha]
      rfl
    rw [hoff, hnow, ha]
    rfl

theorem WriteInv.count_step (h : WriteInv x) (hc : Compliant x i) (ht : DdrTimed x i) :
    (x.cycle i).bus.d_w_count_q = 0 ∨ (selected (x.nowWrite i).addr = .ddr ∧
      (x.cycle i).bus.d_w_count_q.toNat ≤ (x.cycle i).cpuWrites.beats.length ∧
      ∃ a, (x.cycle i).cpuWrites.current = some a ∧
        (x.cycle i).cpuWrites.beats.length ≤ a.len.toNat) := by
  obtain ⟨-, -, hwvalid, hw, -⟩ := h.portWrite_eq hc ht BusPort.noConfusion (q := .ddr)
  have hcount : (x.cycle i).bus.d_w_count_q =
      if (x.portWrite i .ddr).wFires then
        if (x.portWrite i .ddr).w.last then 0 else x.bus.d_w_count_q + 1
      else if (x.cpuWrite i).awFires then 0 else x.bus.d_w_count_q := rfl
  have hbeats : (x.cycle i).cpuWrites.beats =
      if (x.cpuWrite i).bFires then []
      else if (x.cpuWrite i).wFires then x.cpuWrites.beats ++ [i.cpu.w]
      else x.cpuWrites.beats := rfl
  have hold := (h.now hc).1.count
  rw [hcount]
  cases hfires : (x.portWrite i .ddr).wFires with
  | true =>
    unfold WriteSignals.wFires at hfires
    rw [hwvalid, Bool.and_eq_true, Bool.and_eq_true, decide_eq_true_eq] at hfires
    obtain ⟨⟨hv, hddr⟩, hready⟩ := hfires
    rw [if_pos rfl, hw hv]
    cases hlast : i.cpu.w.last with
    | true => exact Or.inl rfl
    | false =>
      right
      have hends := (h.slaveOk hc).bFires_off hc.writes (Or.inr hv)
      have hsame := (h.same hc ht (by rw [hddr]; exact BusPort.noConfusion)).wready hv
      rw [hddr] at hsame
      have hwFires : (x.cpuWrite i).wFires = true :=
        Bool.and_eq_true_iff.mpr ⟨hv, hsame.symm.trans hready⟩
      have hroom : x.cpuWrites.beats.length ≤ (x.nowWrite i).len.toNat := hc.writes.room hv
      have hnot : ¬ x.cpuWrites.beats.length = (x.nowWrite i).len.toNat := fun heq =>
        Bool.false_ne_true (hlast.symm.trans ((hc.writes.last hv).mpr heq))
      have hbound : x.bus.d_w_count_q.toNat ≤ x.cpuWrites.beats.length := by
        rcases hold with hzero | ⟨-, hle, -⟩
        · rw [hzero]
          exact Nat.zero_le _
        · exact hle
      have hsucc : (x.bus.d_w_count_q + 1).toNat ≤ x.cpuWrites.beats.length + 1 := by
        rw [BitVec.toNat_add]
        exact Nat.le_trans (Nat.mod_le _ _) (Nat.succ_le_succ hbound)
      rw [if_neg Bool.false_ne_true, hbeats, hends, hwFires, if_neg Bool.false_ne_true,
        if_pos rfl, List.length_append, List.length_singleton]
      exact ⟨hddr, hsucc, _, current_now hc hends (hc.writes.address_first hv), by omega⟩
  | false =>
    rw [if_neg Bool.false_ne_true]
    split_ifs with haw
    · exact Or.inl rfl
    · rcases hold with hzero | ⟨hddr, hle, a, ha, hlen⟩
      · exact Or.inl hzero
      right
      have hnow : x.nowWrite i = a := hc.writes.now_eq ha
      have hends : (x.cpuWrite i).bFires = false := by
        cases hb : (x.cpuWrite i).bFires with
        | false => rfl
        | true =>
          obtain ⟨a', ha', hwhole, -⟩ :=
            (h.slaveOk hc).whole (Bool.and_eq_true_iff.mp hb).1
          unfold WriteLink.current at ha
          rw [ha', Option.some_or] at ha
          cases ha
          have hwhole' : x.cpuWrites.beats.length = a.len.toNat + 1 := hwhole
          omega
      have hwFires : (x.cpuWrite i).wFires = false := by
        cases hv : i.cpu.wvalid with
        | false =>
          change (i.cpu.wvalid && _) = false
          rw [hv, Bool.false_and]
        | true =>
          have hsame := (h.same hc ht (by rw [hddr]; exact BusPort.noConfusion)).wready hv
          rw [hddr] at hsame
          unfold WriteSignals.wFires at hfires
          rw [hwvalid, hddr, decide_eq_true rfl, Bool.and_true, hsame] at hfires
          exact hfires
      have hsome : i.cpu.awvalid = true ∨ x.cpuWrites.aw.isSome = true := by
        rcases Option.or_eq_some_iff.mp ha with haw | ⟨-, hheld⟩
        · exact Or.inr (Option.isSome_iff_exists.mpr ⟨a, haw⟩)
        · exact Or.inl (hc.writes.aw_held a hheld).1
      rw [hbeats, hends, hwFires]
      exact ⟨hddr, hle, a, hnow ▸ current_now hc hends hsome, hlen⟩

/-! ## The slave of the cycle after it -/

theorem WriteInv.joined_step (h : WriteInv x) (hc : Compliant x i) (ht : DdrTimed x i)
    (hp : selected (x.nowWrite i).addr ≠ .iop) :
    Joined (selected (x.nowWrite i).addr) (x.cycle i).cpuWrites
      ((x.cycle i).portWrites (selected (x.nowWrite i).addr)) := by
  obtain ⟨hawvalid, haw, -, -, -⟩ := h.portWrite_eq hc ht hp
  obtain ⟨⟨hfollows, -⟩, -⟩ := (h.now hc).1.joined hp
  obtain ⟨hawready, -⟩ := h.cpuWrite_ready hc hp
  refine ⟨hfollows.step (h.same hc ht hp), fun y hy => ?_⟩
  obtain ⟨hv, hready, rfl⟩ := held_eq_some.mp hy
  rw [hawvalid, Bool.and_eq_true, Bool.and_eq_true] at hv
  obtain ⟨⟨hav, -⟩, hdata⟩ := hv
  refine ⟨i.cpu.aw, held_eq_some.mpr ⟨hav, (hawready hav).trans hready, rfl⟩, haw, ?_⟩
  intro hddr
  rw [decide_eq_false (not_not_intro hddr), Bool.false_or] at hdata
  have hends := (h.slaveOk hc).bFires_off hc.writes (Or.inl hav)
  cases hwready : (x.cpuWrite i).wready with
  | true =>
    left
    change (if (x.cpuWrite i).bFires then [] else if (i.cpu.wvalid && (x.cpuWrite i).wready)
      then x.cpuWrites.beats ++ [i.cpu.w] else _) ≠ []
    rw [hends, hdata, hwready]
    exact List.append_ne_nil_of_right_ne_nil _ (List.cons_ne_nil _ _)
  | false =>
    right
    change (held i.cpu.wvalid (x.cpuWrite i).wready i.cpu.w).isSome = true
    rw [hdata, hwready]
    rfl

theorem WriteInv.buffers_empty_step (h : WriteInv x) (hc : Compliant x i)
    (hp : selected (x.nowWrite i).addr ≠ .iop) :
    (x.cycle i).bus.iop_aw_buf_valid_q = false ∧ (x.cycle i).bus.iop_w_buf_valid_q = false ∧
      (x.cycle i).bus.iop_aw_sent_q = false ∧ (x.cycle i).bus.iop_w_sent_q = false := by
  obtain ⟨-, haw, hw, hawsent, hwsent⟩ := (h.now hc).1.joined hp
  have hcapture : x.bus.iop_aw_capture_w i = false := by
    unfold DataBus.iop_aw_capture_w
    cases hv : i.cpu.awvalid with
    | false => rfl
    | true =>
      obtain ⟨-, -, -, hiop, -⟩ := sels_eq i.cpu.aw.addr
      rw [nowWrite_of_awvalid hc hv] at hp
      rw [hiop, decide_eq_false hp]
      rfl
  have hwcapture : x.bus.iop_w_capture_w i = false := by
    unfold DataBus.iop_w_capture_w
    rw [haw, hcapture, Bool.or_self, Bool.and_false, Bool.false_and]
  have hready : x.bus.iop_write_ready_w = false := by
    unfold DataBus.iop_write_ready_w
    rw [haw, Bool.false_and]
  unfold cycle DataBus.step DataBus.toSlave
  dsimp only
  rw [hcapture, hwcapture, hready, haw, hw, hawsent, hwsent]
  simp only [Bool.false_and, Bool.false_eq_true, if_false, ite_self, and_self]

theorem WriteInv.captures (h : WriteInv x) (hc : Compliant x i)
    (hp : selected (x.nowWrite i).addr = .iop) :
    x.bus.iop_aw_capture_w i = (x.cpuWrite i).awFires ∧
      x.bus.iop_w_capture_w i = (x.cpuWrite i).wFires := by
  obtain ⟨hmmio, hiop, -, -⟩ := h.route (i := i)
  obtain ⟨-, -, -, hiop', hmmio'⟩ := sels_eq (x.nowWrite i).addr
  constructor
  · unfold DataBus.iop_aw_capture_w WriteSignals.awFires cpuWrite writeSignals DataBus.toCpu
    dsimp only
    cases hv : i.cpu.awvalid with
    | false => rfl
    | true =>
      rw [← nowWrite_of_awvalid hc hv, hiop', hmmio', hp]
      rfl
  · unfold DataBus.iop_w_capture_w WriteSignals.wFires cpuWrite writeSignals DataBus.toCpu
    dsimp only
    rw [hmmio, hiop, hiop', hmmio', hp]
    cases i.cpu.wvalid <;> cases x.bus.iop_w_buf_valid_q <;> simp

theorem WriteInv.iop_bready (h : WriteInv x) (hp : selected (x.nowWrite i).addr = .iop) :
    (x.portWrite i .iop).bready = i.cpu.bready := by
  obtain ⟨-, hiop, -, -⟩ := h.route (i := i)
  obtain ⟨-, -, -, hiop', -⟩ := sels_eq (x.nowWrite i).addr
  change (i.cpu.bready && x.bus.d_aw_route_iop_w i) = _
  rw [hiop, hiop', hp, decide_eq_true rfl, Bool.and_true]

theorem WriteInv.iop_bFires (h : WriteInv x) (hc : Compliant x i)
    (hp : selected (x.nowWrite i).addr = .iop) :
    (x.portWrite i .iop).bFires = (x.cpuWrite i).bFires := by
  have hbvalid := (h.cpuWrite_b hc).1
  rw [hp] at hbvalid
  unfold WriteSignals.bFires
  rw [hbvalid, h.iop_bready hp]
  rfl

theorem WriteInv.buffered_end (h : WriteInv x) (hc : Compliant x i)
    (hp : selected (x.nowWrite i).addr = .iop) (hends : (x.cpuWrite i).bFires = true) :
    Buffered (x.cycle i).bus (x.cycle i).cpuWrites ((x.cycle i).portWrites .iop) := by
  have hends' : (x.portWrite i .iop).bFires = true := (h.iop_bFires hc hp).trans hends
  have hbuffered := hp ▸ (h.now hc).1.buffered hp
  obtain ⟨hawoff, hwoff⟩ := (hc.slave_writes .iop).quiet hbuffered.masterOk
    (Bool.and_eq_true_iff.mp hends').1
  have hbus : (x.cycle i).bus.iop_aw_buf_valid_q = false ∧
      (x.cycle i).bus.iop_w_buf_valid_q = false ∧ (x.cycle i).bus.iop_aw_sent_q = false ∧
      (x.cycle i).bus.iop_w_sent_q = false := by
    refine ⟨?_, ?_, ?_, ?_⟩ <;>
      change (if (x.portWrite i .iop).bFires then false else _) = false <;>
      rw [hends'] <;> rfl
  have hcpu : (x.cycle i).cpuWrites.aw = none ∧ (x.cycle i).cpuWrites.beats = [] := by
    unfold cycle WriteLink.step
    dsimp only
    rw [hends]
    exact ⟨rfl, rfl⟩
  have hport : ((x.cycle i).portWrites .iop).aw = none ∧
      ((x.cycle i).portWrites .iop).beats = [] := by
    unfold cycle WriteLink.step
    dsimp only
    rw [hends']
    exact ⟨rfl, rfl⟩
  obtain ⟨hawbuf, hwbuf, hawsent, hwsent⟩ := hbus
  constructor
  · rw [hawbuf, hcpu.1]
    rfl
  · intro a ha
    rw [hcpu.1] at ha
    cases ha
  · exact Or.inl ⟨hwbuf, hcpu.2⟩
  · intro hsent
    exact absurd (hawsent.symm.trans hsent) Bool.false_ne_true
  · intro hsent
    exact absurd (hwsent.symm.trans hsent) Bool.false_ne_true
  · rw [hawsent, hport.1]
    rfl
  · rw [hwsent, hport.2]
    rfl
  · intro a ha
    obtain ⟨hv, -⟩ := held_eq_some.mp ha
    exact absurd (hawoff.symm.trans hv) Bool.false_ne_true
  · intro w hw
    obtain ⟨hv, -⟩ := held_eq_some.mp hw
    exact absurd (hwoff.symm.trans hv) Bool.false_ne_true
  · have hready := (Bool.and_eq_true_iff.mp hends).2
    have hready' := (Bool.and_eq_true_iff.mp hends').2
    change held _ (x.portWrite i .iop).bready _ = held _ (x.cpuWrite i).bready _
    unfold held
    rw [hready, hready', Bool.not_true, Bool.and_false, Bool.and_false]
    rfl

theorem Buffered.unsent {port : BusWriteLink} (hb : Buffered x.bus x.cpuWrites port)
    (hoff : x.bus.iop_w_buf_valid_q = false) :
    x.bus.iop_aw_sent_q = false ∧ x.bus.iop_w_sent_q = false := by
  constructor
  · cases hs : x.bus.iop_aw_sent_q with
    | false => rfl
    | true => exact absurd (hoff.symm.trans (hb.aw_sent hs)) Bool.false_ne_true
  · cases hs : x.bus.iop_w_sent_q with
    | false => rfl
    | true => exact absurd (hoff.symm.trans (hb.w_sent hs)) Bool.false_ne_true

theorem Buffered.fresh {port : BusWriteLink} (hb : Buffered x.bus x.cpuWrites port)
    (hc : Compliant x i) (hf : (x.cpuWrite i).awFires = true) :
    x.bus.iop_aw_buf_valid_q = false ∧ x.bus.iop_w_buf_valid_q = false := by
  have hnone := hc.writes.one (awFires_awvalid hf)
  refine ⟨by rw [hb.aw_buf, hnone]; rfl, ?_⟩
  rcases hb.w_buf with ⟨hoff, -⟩ | ⟨-, hsome, -⟩
  · exact hoff
  · rw [hnone] at hsome
    cases hsome

theorem WriteInv.room (h : WriteInv x) (hc : Compliant x i)
    (hp : selected (x.nowWrite i).addr = .iop) (hf : (x.cpuWrite i).wFires = true) :
    x.bus.iop_w_buf_valid_q = false ∧
      ((x.cpuWrite i).awFires = true ∨ x.bus.iop_aw_buf_valid_q = true) := by
  obtain ⟨hcapture, hwcapture⟩ := h.captures hc hp
  rw [← hwcapture] at hf
  unfold DataBus.iop_w_capture_w at hf
  rw [hcapture, Bool.and_eq_true, Bool.and_eq_true, Bool.or_eq_true, Bool.not_eq_true'] at hf
  exact ⟨hf.2, hf.1.2.symm⟩

theorem WriteInv.full (h : WriteInv x) (hc : Compliant x i)
    (hp : selected (x.nowWrite i).addr = .iop) {sent : Bool}
    (hv : (x.bus.iop_write_ready_w && !sent) = true) :
    x.bus.iop_aw_buf_valid_q = true ∧ x.bus.iop_w_buf_valid_q = true ∧ sent = false ∧
      (x.cpuWrite i).awFires = false ∧ (x.cpuWrite i).wFires = false := by
  have hb := hp ▸ (h.now hc).1.buffered hp
  unfold DataBus.iop_write_ready_w at hv
  rw [Bool.and_eq_true, Bool.and_eq_true, Bool.not_eq_true'] at hv
  refine ⟨hv.1.1, hv.1.2, hv.2, ?_, ?_⟩
  · cases hf : (x.cpuWrite i).awFires with
    | false => rfl
    | true => exact absurd ((hb.fresh hc hf).1.symm.trans hv.1.1) Bool.false_ne_true
  · cases hf : (x.cpuWrite i).wFires with
    | false => rfl
    | true => exact absurd ((h.room hc hp hf).1.symm.trans hv.1.2) Bool.false_ne_true

theorem WriteInv.buffered_on (h : WriteInv x) (hc : Compliant x i)
    (hp : selected (x.nowWrite i).addr = .iop) (hends : (x.cpuWrite i).bFires = false) :
    Buffered (x.cycle i).bus (x.cycle i).cpuWrites ((x.cycle i).portWrites .iop) := by
  have hends' : (x.portWrite i .iop).bFires = false := (h.iop_bFires hc hp).trans hends
  have hb := hp ▸ (h.now hc).1.buffered hp
  obtain ⟨hcapture, hwcapture⟩ := h.captures hc hp
  have hawbuf : (x.cycle i).bus.iop_aw_buf_valid_q =
      if (x.cpuWrite i).awFires then true else x.bus.iop_aw_buf_valid_q := by
    change (if (x.portWrite i .iop).bFires then false
      else if x.bus.iop_aw_capture_w i then true else _) = _
    rw [hends', hcapture]
    rfl
  have hwbuf : (x.cycle i).bus.iop_w_buf_valid_q =
      if (x.cpuWrite i).wFires then true else x.bus.iop_w_buf_valid_q := by
    change (if (x.portWrite i .iop).bFires then false
      else if x.bus.iop_w_capture_w i then true else _) = _
    rw [hends', hwcapture]
    rfl
  have hawsent : (x.cycle i).bus.iop_aw_sent_q =
      if (x.portWrite i .iop).awFires then true
      else if (x.cpuWrite i).awFires then false else x.bus.iop_aw_sent_q := by
    change (if (x.portWrite i .iop).bFires then false
      else if (x.portWrite i .iop).awFires then true
      else if x.bus.iop_aw_capture_w i then false else _) = _
    rw [hends', hcapture]
    rfl
  have hwsent : (x.cycle i).bus.iop_w_sent_q =
      if (x.portWrite i .iop).wFires then true
      else if (x.cpuWrite i).wFires then false else x.bus.iop_w_sent_q := by
    change (if (x.portWrite i .iop).bFires then false
      else if (x.portWrite i .iop).wFires then true
      else if x.bus.iop_w_capture_w i then false else _) = _
    rw [hends', hwcapture]
    rfl
  have hawq : (x.cycle i).bus.iop_aw_q =
      if (x.cpuWrite i).awFires then i.cpu.aw else x.bus.iop_aw_q := by
    change (if x.bus.iop_aw_capture_w i then _ else _) = _
    rw [hcapture]
  have hwq : { (x.cycle i).bus.iop_w_q with last := true } =
      if (x.cpuWrite i).wFires then { i.cpu.w with last := true }
      else { x.bus.iop_w_q with last := true } := by
    change ({ (if x.bus.iop_w_capture_w i then { i.cpu.w with last := _ } else x.bus.iop_w_q :
      BusBeat) with last := true } : BusBeat) = _
    rw [hwcapture]
    cases (x.cpuWrite i).wFires <;> rfl
  have hcpuAw : (x.cycle i).cpuWrites.aw =
      if (x.cpuWrite i).awFires then some i.cpu.aw else x.cpuWrites.aw :=
    (WriteLink.step_of_open hends).1
  have hcpuBeats : (x.cycle i).cpuWrites.beats =
      if (x.cpuWrite i).wFires then x.cpuWrites.beats ++ [i.cpu.w] else x.cpuWrites.beats :=
    (WriteLink.step_of_open hends).2
  have hportAw : ((x.cycle i).portWrites .iop).aw =
      if (x.portWrite i .iop).awFires then some (DataBus.single x.bus.iop_aw_q)
      else (x.portWrites .iop).aw := (WriteLink.step_of_open hends').1
  have hportBeats : ((x.cycle i).portWrites .iop).beats =
      if (x.portWrite i .iop).wFires then
        (x.portWrites .iop).beats ++ [{ x.bus.iop_w_q with last := true }]
      else (x.portWrites .iop).beats := (WriteLink.step_of_open hends').2
  constructor
  case aw_buf =>
    rw [hawbuf, hcpuAw, hb.aw_buf]
    split_ifs <;> rfl
  case aw_q =>
    intro a ha
    rw [hcpuAw] at ha
    rw [hawq]
    split_ifs at ha ⊢
    · exact Option.some.inj ha
    · exact hb.aw_q a ha
  case w_buf =>
    cases hf : (x.cpuWrite i).wFires with
    | true =>
      obtain ⟨hoff, hsome⟩ := h.room hc hp hf
      have hempty : x.cpuWrites.beats = [] := by
        rcases hb.w_buf with ⟨-, hnil⟩ | ⟨hon, -, -⟩
        · exact hnil
        · exact absurd (hoff.symm.trans hon) Bool.false_ne_true
      have hv : i.cpu.wvalid = true := (Bool.and_eq_true_iff.mp hf).1
      have hlen := h.now_single hc (hc.writes.address_first hv) (by
        rw [hp]
        exact BusPort.noConfusion)
      have hlast : i.cpu.w.last = true := (hc.writes.last hv).mpr (by
        rw [hempty]
        exact (congrArg BitVec.toNat hlen).symm)
      right
      refine ⟨by rw [hwbuf, hf]; rfl, ?_, ?_⟩
      · rw [hcpuAw]
        split_ifs with haw
        · rfl
        · rw [← hb.aw_buf]
          exact hsome.resolve_left haw
      · rw [hcpuBeats, hf, hempty, hwq, hf]
        change [i.cpu.w] = [{ i.cpu.w with last := true }]
        rw [← hlast]
    | false =>
      rw [hwbuf, hcpuBeats, hwq, hf, hcpuAw]
      rcases hb.w_buf with hoff | ⟨hon, hsome, hbeats⟩
      · exact Or.inl hoff
      · right
        refine ⟨hon, ?_, hbeats⟩
        split_ifs
        · rfl
        · exact hsome
  case aw_sent =>
    intro hs
    rw [hwbuf]
    by_cases hw : (x.cpuWrite i).wFires = true
    · rw [if_pos hw]
    · rw [if_neg hw]
      rw [hawsent] at hs
      by_cases hf : (x.portWrite i .iop).awFires = true
      · exact (h.full hc hp (Bool.and_eq_true_iff.mp hf).1).2.1
      · rw [if_neg hf] at hs
        split_ifs at hs
        exact hb.aw_sent hs
  case w_sent =>
    intro hs
    rw [hwbuf]
    by_cases hw : (x.cpuWrite i).wFires = true
    · rw [if_pos hw]
    · rw [if_neg hw]
      rw [hwsent] at hs
      by_cases hf : (x.portWrite i .iop).wFires = true
      · exact (h.full hc hp (Bool.and_eq_true_iff.mp hf).1).2.1
      · rw [if_neg hf, if_neg hw] at hs
        exact hb.w_sent hs
  case port_aw =>
    rw [hportAw, hawsent, hcpuAw]
    cases hf : (x.portWrite i .iop).awFires with
    | true =>
      obtain ⟨hbuf, -, -, haw, -⟩ := h.full hc hp (Bool.and_eq_true_iff.mp hf).1
      obtain ⟨a, ha⟩ := Option.isSome_iff_exists.mp (hb.aw_buf.symm.trans hbuf)
      rw [haw, ha, hb.aw_q a ha]
      rfl
    | false =>
      rw [if_neg Bool.false_ne_true, if_neg Bool.false_ne_true, hb.port_aw]
      cases haw : (x.cpuWrite i).awFires with
      | true =>
        rw [(hb.unsent (hb.fresh hc haw).2).1]
        rfl
      | false => rfl
  case port_beats =>
    rw [hportBeats, hwsent, hcpuBeats]
    cases hf : (x.portWrite i .iop).wFires with
    | true =>
      obtain ⟨-, hbuf, hsent, -, hw⟩ := h.full hc hp (Bool.and_eq_true_iff.mp hf).1
      rcases hb.w_buf with ⟨hoff, -⟩ | ⟨-, -, hbeats⟩
      · exact absurd (hoff.symm.trans hbuf) Bool.false_ne_true
      · rw [hw, hb.port_beats, hsent, hbeats]
        rfl
    | false =>
      rw [if_neg Bool.false_ne_true, if_neg Bool.false_ne_true, hb.port_beats]
      cases hw : (x.cpuWrite i).wFires with
      | true =>
        rw [(hb.unsent (h.room hc hp hw).1).2]
        rfl
      | false => rfl
  case heldAw =>
    intro a ha
    obtain ⟨hv, hready, rfl⟩ := held_eq_some.mp ha
    obtain ⟨-, hbuf, hsent, haw, hw⟩ := h.full hc hp hv
    have hoff : (x.portWrite i .iop).awFires = false := by
      unfold WriteSignals.awFires
      rw [hready, Bool.and_false]
    rw [hwbuf, hawsent, hawq, hoff, haw, hw]
    exact ⟨hbuf, hsent, rfl⟩
  case heldW =>
    intro w hheld
    obtain ⟨hv, hready, rfl⟩ := held_eq_some.mp hheld
    obtain ⟨-, hbuf, hsent, haw, hw⟩ := h.full hc hp hv
    have hoff : (x.portWrite i .iop).wFires = false := by
      unfold WriteSignals.wFires
      rw [hready, Bool.and_false]
    rw [hwbuf, hwsent, hwq, hoff, hw]
    exact ⟨hbuf, hsent, rfl⟩
  case heldB =>
    obtain ⟨hbvalid, hresp⟩ := h.cpuWrite_b hc
    rw [hp] at hbvalid hresp
    change held (i.slave .iop).bvalid (x.portWrite i .iop).bready (i.slave .iop).b =
      held (x.cpuWrite i).bvalid i.cpu.bready (x.cpuWrite i).b
    rw [h.iop_bready hp]
    cases hv : (x.cpuWrite i).bvalid with
    | true => rw [← hbvalid, hv, hresp hv]
    | false =>
      rw [← hbvalid, hv]
      rfl

theorem WriteInv.serves_now (h : WriteInv x) (hc : Compliant x i) (ht : DdrTimed x i) :
    Serves (selected (x.nowWrite i).addr) (x.cycle i).bus (x.cycle i).cpuWrites
        ((x.cycle i).portWrites (selected (x.nowWrite i).addr)) ∧
      ∀ q, q ≠ selected (x.nowWrite i).addr → ((x.cycle i).portWrites q).Idle ∧
        ((x.cycle i).portWrites q).done = (x.portWrites q).done := by
  refine ⟨⟨fun hp => ⟨h.joined_step hc ht hp, h.buffers_empty_step hc hp⟩, fun hp => ?_,
    h.count_step hc ht⟩, fun q hq => ?_⟩
  · rw [hp]
    cases hends : (x.cpuWrite i).bFires with
    | true => exact h.buffered_end hc hp hends
    | false => exact h.buffered_on hc hp hends
  · obtain ⟨hawoff, hwoff⟩ := h.others_off hc ht hq
    exact ((h.now hc).2 q hq).step hawoff hwoff (h.others_quiet hc hq)

end Cycle

theorem Serves.idle {p : BusPort} {s : DataBus} {l port : BusWriteLink} (hs : Serves p s l port)
    (hl : l.Idle) : port.Idle ∧ (s.iop_aw_buf_valid_q = false ∧ s.iop_w_buf_valid_q = false ∧
      s.iop_aw_sent_q = false ∧ s.iop_w_sent_q = false) ∧ s.d_w_count_q = 0 := by
  have hcount : s.d_w_count_q = 0 := by
    rcases hs.count with hzero | ⟨-, -, a, ha, -⟩
    · exact hzero
    · unfold WriteLink.current at ha
      rw [hl.aw, hl.heldAw] at ha
      cases ha
  by_cases hp : p = .iop
  · have hb := hs.buffered hp
    have haw : s.iop_aw_buf_valid_q = false := by
      rw [hb.aw_buf, hl.aw]
      rfl
    have hw : s.iop_w_buf_valid_q = false := by
      rcases hb.w_buf with ⟨hoff, -⟩ | ⟨-, hsome, -⟩
      · exact hoff
      · rw [hl.aw] at hsome
        cases hsome
    have hawsent : s.iop_aw_sent_q = false := by
      cases hsent : s.iop_aw_sent_q with
      | false => rfl
      | true => exact absurd (hw.symm.trans (hb.aw_sent hsent)) Bool.false_ne_true
    have hwsent : s.iop_w_sent_q = false := by
      cases hsent : s.iop_w_sent_q with
      | false => rfl
      | true => exact absurd (hw.symm.trans (hb.w_sent hsent)) Bool.false_ne_true
    refine ⟨⟨?_, ?_, ?_, ?_, hb.heldB.trans hl.heldB⟩, ⟨haw, hw, hawsent, hwsent⟩, hcount⟩
    · rw [hb.port_aw, hawsent]
      rfl
    · rw [hb.port_beats, hwsent]
      rfl
    · cases hheld : port.heldAw with
      | none => rfl
      | some a => exact absurd (hw.symm.trans (hb.heldAw a hheld).1) Bool.false_ne_true
    · cases hheld : port.heldW with
      | none => rfl
      | some w => exact absurd (hw.symm.trans (hb.heldW w hheld).1) Bool.false_ne_true
  · obtain ⟨hjoined, hempty⟩ := hs.joined hp
    refine ⟨⟨?_, hjoined.beats.trans hl.beats, ?_, hjoined.heldW.trans hl.heldW,
      hjoined.heldB.trans hl.heldB⟩, hempty, hcount⟩
    · rw [hjoined.aw, hl.aw]
      rfl
    · cases hheld : port.heldAw with
      | none => rfl
      | some y =>
        obtain ⟨a, ha, -⟩ := hjoined.heldAw y hheld
        exact absurd (ha.symm.trans hl.heldAw) (Option.some_ne_none a)

theorem serves_of_idle (p : BusPort) {s : DataBus} {l port : BusWriteLink} (hl : l.Idle)
    (hport : port.Idle) (hempty : s.iop_aw_buf_valid_q = false ∧ s.iop_w_buf_valid_q = false ∧
      s.iop_aw_sent_q = false ∧ s.iop_w_sent_q = false) (hcount : s.d_w_count_q = 0) :
    Serves p s l port where
  joined _ := by
    refine ⟨⟨⟨?_, hport.beats.trans hl.beats.symm, hport.heldW.trans hl.heldW.symm,
      hport.heldB.trans hl.heldB.symm⟩, fun y hy => ?_⟩, hempty⟩
    · rw [hport.aw, hl.aw]
      rfl
    · rw [hport.heldAw] at hy
      cases hy
  buffered _ := by
    obtain ⟨haw, hw, hawsent, hwsent⟩ := hempty
    constructor
    · rw [haw, hl.aw]
      rfl
    · intro a ha
      rw [hl.aw] at ha
      cases ha
    · exact Or.inl ⟨hw, hl.beats⟩
    · exact fun hs => absurd (hawsent.symm.trans hs) Bool.false_ne_true
    · exact fun hs => absurd (hwsent.symm.trans hs) Bool.false_ne_true
    · rw [hawsent, hport.aw]
      rfl
    · rw [hwsent, hport.beats]
      rfl
    · intro a ha
      rw [hport.heldAw] at ha
      cases ha
    · intro w hheld
      rw [hport.heldW] at hheld
      cases hheld
    · exact hport.heldB.trans hl.heldB.symm
  count := Or.inl hcount

theorem writeInv_start : WriteInv start where
  tidy := WriteLink.start_tidy
  pending := rfl
  routes _ h := nomatch h
  len _ h := nomatch h
  single _ h := nomatch h
  serves p _ :=
    ⟨serves_of_idle p WriteLink.start_idle WriteLink.start_idle ⟨rfl, rfl, rfl, rfl⟩ rfl,
      fun _ _ => WriteLink.start_idle⟩
  done _ := rfl

section Cycle

variable {x : BusRun} {i : BusIn}

theorem WriteInv.answered (h : WriteInv x) (hc : Compliant x i) (ht : DdrTimed x i)
    (hends : (x.cpuWrite i).bFires = true) :
    ∃ a, x.cpuWrites.aw = some a ∧ x.nowWrite i = a ∧
      (x.portWrites (selected a.addr)).aw = some (awAt (selected a.addr) a) ∧
      (x.portWrites (selected a.addr)).beats = x.cpuWrites.beats ∧
      (x.portWrite i (selected a.addr)).bFires = true ∧
      (x.portWrite i (selected a.addr)).b = (x.cpuWrite i).b := by
  obtain ⟨hv, -⟩ := Bool.and_eq_true_iff.mp hends
  obtain ⟨a, ha, -⟩ := (h.slaveOk hc).whole hv
  obtain ⟨hbvalid, hb⟩ := h.cpuWrite_b hc
  obtain ⟨hserves, -⟩ := h.now hc
  have hiopFires := h.iop_bFires hc
  have hsame := h.same hc ht
  have hnow : x.nowWrite i = a := by
    unfold nowWrite WriteLink.now
    rw [ha]
    rfl
  rw [hnow] at hbvalid hb hserves hiopFires hsame
  refine ⟨a, ha, hnow, ?_⟩
  obtain ⟨y, hy, hwhole, -⟩ := (hc.slave_writes (selected a.addr)).whole (hbvalid.symm.trans hv)
  by_cases hp : selected a.addr = .iop
  · have hbuffered := hserves.buffered hp
    rw [hp] at hbuffered hy hwhole hb ⊢
    refine ⟨?_, ?_, (hiopFires hp).trans hends, (hb hv).symm⟩
    · rw [hbuffered.port_aw] at hy ⊢
      split_ifs at hy ⊢
      rw [ha]
      rfl
    · rw [hbuffered.port_beats] at hwhole ⊢
      split_ifs at hwhole ⊢
      rfl
  · obtain ⟨hjoined, -⟩ := hserves.joined hp
    refine ⟨?_, hjoined.beats, (hsame hp).bFires.trans hends, (hb hv).symm⟩
    rw [hjoined.aw, ha]
    rfl

theorem WriteInv.port_done_step (h : WriteInv x) (hc : Compliant x i) (ht : DdrTimed x i)
    (p : BusPort) :
    ((x.cycle i).portWrites p).done =
      if (x.cpuWrite i).bFires ∧ selected (x.nowWrite i).addr = p then
        (x.portWrites p).done ++ x.cpuWrites.aw.toList.map
          fun a => ⟨awAt p a, x.cpuWrites.beats, (x.cpuWrite i).b⟩
      else (x.portWrites p).done := by
  by_cases hp : selected (x.nowWrite i).addr = p
  · have hport : ((x.cycle i).portWrites p).done =
        if (x.portWrite i p).bFires then (x.portWrites p).done ++ (x.portWrites p).aw.toList.map
          (⟨·, (x.portWrites p).beats, (x.portWrite i p).b⟩) else (x.portWrites p).done := rfl
    rw [hport]
    cases hends : (x.cpuWrite i).bFires with
    | true =>
      obtain ⟨a, ha, hnow, haw, hbeats, hfires, hb⟩ := h.answered hc ht hends
      rw [hnow] at hp
      rw [hp] at haw hbeats hfires hb
      rw [hfires, haw, hbeats, hb, ha, if_pos rfl, if_pos ⟨rfl, by rw [hnow, hp]⟩]
      rfl
    | false =>
      have hoff : (x.portWrite i p).bFires = false := by
        rw [← hp]
        by_cases hiop : selected (x.nowWrite i).addr = .iop
        · rw [hiop]
          exact (h.iop_bFires hc hiop).trans hends
        · exact (h.same hc ht hiop).bFires.trans hends
      rw [hoff, if_neg Bool.false_ne_true, if_neg (fun hand => Bool.false_ne_true hand.1)]
  · rw [((h.serves_now hc ht).2 p (fun heq => hp heq.symm)).2, if_neg (fun hand => hp hand.2)]

theorem WriteInv.step (h : WriteInv x) (hc : Compliant x i) (ht : DdrTimed x i) :
    WriteInv (x.cycle i) where
  tidy := WriteLink.step_tidy h.tidy hc.writes (h.slaveOk hc)
  pending := by
    rw [h.aw_step hc]
    change (if (x.cpuWrite i).awFires then true else if (x.cpuWrite i).bFires then false
      else x.bus.d_aw_pending_q) = _
    rw [h.pending]
    split_ifs <;> rfl
  routes a ha := ⟨h.route_step hc (fun b hb => (h.routes b hb).1) ha,
    h.route_step hc (fun b hb => (h.routes b hb).2.1) ha,
    h.route_step hc (fun b hb => (h.routes b hb).2.2.1) ha,
    h.route_step hc (fun b hb => (h.routes b hb).2.2.2) ha⟩
  len a ha := by
    rw [h.aw_step hc] at ha
    change (if (x.cpuWrite i).awFires then i.cpu.aw.len else x.bus.d_awlen_q) = _
    split_ifs at ha ⊢ with hfires hends
    · rw [Option.some.inj ha]
    · exact h.len a ha
  single a ha := by
    rw [h.aw_step hc] at ha
    split_ifs at ha with hfires hends
    · rw [← Option.some.inj ha]
      exact hc.single_write (awFires_awvalid hfires)
    · exact h.single a ha
  serves p hp := by
    obtain ⟨hserves, hidle⟩ := h.serves_now hc ht
    cases hnow : (x.cycle i).cpuWrites.current with
    | some a =>
      have hnowa : a = x.nowWrite i := hc.writes.current_step hnow
      have hpa : selected (x.nowWrite i).addr = p := by
        rw [← hnowa]
        exact hp a hnow
      rw [hpa] at hserves hidle
      exact ⟨hserves, fun q hq => (hidle q hq).1⟩
    | none =>
      have hcpu := (WriteLink.step_tidy h.tidy hc.writes (h.slaveOk hc)).owned hnow
      obtain ⟨hport, hempty, hcount⟩ := hserves.idle hcpu
      have hall : ∀ q, ((x.cycle i).portWrites q).Idle := by
        intro q
        by_cases hq : q = selected (x.nowWrite i).addr
        · rw [hq]
          exact hport
        · exact (hidle q hq).1
      exact ⟨serves_of_idle p hcpu (hall p) hempty hcount, fun q _ => hall q⟩
  done p := by
    have hdone : (x.cycle i).cpuWrites.done =
        if (x.cpuWrite i).bFires then x.cpuWrites.done ++ x.cpuWrites.aw.toList.map
          (⟨·, x.cpuWrites.beats, (x.cpuWrite i).b⟩) else x.cpuWrites.done := rfl
    rw [hdone, h.port_done_step hc ht p, h.done p]
    cases hends : (x.cpuWrite i).bFires with
    | false => rfl
    | true =>
      obtain ⟨a, ha, hnow, -⟩ := h.answered hc ht hends
      rw [ha, hnow]
      by_cases hp : selected a.addr = p
      · simp [hp]
      · simp [hp]

end Cycle

end BusRun

end vibeos.fpga
