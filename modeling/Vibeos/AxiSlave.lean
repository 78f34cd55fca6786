-- An AXI slave against any master: the handshakes of the five channels over a run of clock cycles,
-- and what an exact slave makes of them.
import Vibeos.EventRuns

namespace vibeos.Axi

structure Master (Id Addr Data Strb : Type) where
  awvalid : Bool
  awaddr : Addr
  awid : Id
  wvalid : Bool
  wdata : Data
  wstrb : Strb
  bready : Bool
  arvalid : Bool
  araddr : Addr
  arid : Id
  rready : Bool

/-- The responses that a slave holds out in a cycle. -/
structure Responses (Id Data : Type) where
  bvalid : Bool
  bid : Id
  rvalid : Bool
  rid : Id
  rdata : Data

/-- What a slave is ready to accept in a cycle. -/
structure Ready where
  awready : Bool
  wready : Bool
  arready : Bool

structure Write (Id Addr Data Strb : Type) where
  id : Id
  addr : Addr
  data : Data
  strb : Strb
deriving DecidableEq

/-- A clocked slave. In a cycle it performs at most one write, and a read that it accepts has the
value of the state before the clock edge. -/
structure Slave (S In Id Addr Data Strb : Type) where
  master : In → Master Id Addr Data Strb
  responses : S → Responses Id Data
  ready : S → In → Ready
  performs : S → In → Option (Write Id Addr Data Strb)
  value : S → Addr → Data
  step : S → In → S

/-- The handshakes of a run, oldest first, and the writes performed. -/
structure Log (Id Addr Data Strb : Type) where
  aw : List (Id × Addr)
  w : List (Data × Strb)
  b : List Id
  reads : List (Id × Data)
  r : List (Id × Data)
  performed : List (Write Id Addr Data Strb)

def Log.empty {Id Addr Data Strb : Type} : Log Id Addr Data Strb := ⟨[], [], [], [], [], []⟩

/-- The writes whose address and data were both accepted. -/
def Log.writes {Id Addr Data Strb : Type} (l : Log Id Addr Data Strb) :
    List (Write Id Addr Data Strb) :=
  List.zipWith (fun a d => ⟨a.1, a.2, d.1, d.2⟩) l.aw l.w

section

variable {S In Id Addr Data Strb : Type}

def entry {α : Type} (shake : Bool) (x : α) : List α := if shake then [x] else []

theorem length_entry {α : Type} (shake : Bool) (x : α) : (entry shake x).length = shake.toNat := by
  cases shake <;> rfl

def Slave.record (d : Slave S In Id Addr Data Strb) (s : S) (i : In)
    (l : Log Id Addr Data Strb) : Log Id Addr Data Strb :=
  let m := d.master i
  let p := d.responses s
  let r := d.ready s i
  { aw := l.aw ++ entry (m.awvalid && r.awready) (m.awid, m.awaddr)
    w := l.w ++ entry (m.wvalid && r.wready) (m.wdata, m.wstrb)
    b := l.b ++ entry (p.bvalid && m.bready) p.bid
    reads := l.reads ++ entry (m.arvalid && r.arready) (m.arid, d.value s m.araddr)
    r := l.r ++ entry (p.rvalid && m.rready) (p.rid, p.rdata)
    performed := l.performed ++ (d.performs s i).toList }

def Slave.cycle (d : Slave S In Id Addr Data Strb) (x : S × Log Id Addr Data Strb) (i : In) :
    S × Log Id Addr Data Strb :=
  (d.step x.1 i, d.record x.1 i x.2)

def Slave.run (d : Slave S In Id Addr Data Strb) (s : S) (cycles : List In) :
    S × Log Id Addr Data Strb :=
  cycles.foldl d.cycle (s, .empty)

/-- A master that holds what it offers until it is accepted. -/
def Slave.Compliant (d : Slave S In Id Addr Data Strb) (s : S) (cycles : List In) : Prop :=
  ∀ h i j t, cycles = h ++ i :: j :: t →
    let x := (d.run s h).1
    let m := d.master i
    let n := d.master j
    (m.awvalid = true → (d.ready x i).awready = false →
      n.awvalid = true ∧ n.awaddr = m.awaddr ∧ n.awid = m.awid) ∧
    (m.wvalid = true → (d.ready x i).wready = false →
      n.wvalid = true ∧ n.wdata = m.wdata ∧ n.wstrb = m.wstrb) ∧
    (m.arvalid = true → (d.ready x i).arready = false →
      n.arvalid = true ∧ n.araddr = m.araddr ∧ n.arid = m.arid)

/-- Every write accepted in full is performed once and answered once, every read accepted is
answered once with its value, in order, and an answer stands until it is taken. With no answer
standing the slave accepts what it is offered. -/
structure Slave.Exact (d : Slave S In Id Addr Data Strb) (x : S × Log Id Addr Data Strb) :
    Prop where
  performed : x.2.performed = x.2.writes
  answered :
    x.2.b ++ entry (d.responses x.1).bvalid (d.responses x.1).bid = x.2.writes.map Write.id
  read : x.2.r ++ entry (d.responses x.1).rvalid ((d.responses x.1).rid, (d.responses x.1).rdata) =
    x.2.reads
  heldWrite : ∀ i, (d.responses x.1).bvalid = true → (d.master i).bready = false →
    (d.responses (d.step x.1 i)).bvalid = true ∧
      (d.responses (d.step x.1 i)).bid = (d.responses x.1).bid
  heldRead : ∀ i, (d.responses x.1).rvalid = true → (d.master i).rready = false →
    (d.responses (d.step x.1 i)).rvalid = true ∧
      (d.responses (d.step x.1 i)).rid = (d.responses x.1).rid ∧
      (d.responses (d.step x.1 i)).rdata = (d.responses x.1).rdata
  acceptsWrite : ∀ i, (d.responses x.1).bvalid = false → (d.master i).awvalid = true →
    (d.master i).wvalid = true → (d.ready x.1 i).awready = true ∧ (d.ready x.1 i).wready = true
  acceptsRead : ∀ i, (d.responses x.1).rvalid = false → (d.ready x.1 i).arready = true

theorem Slave.foldl_performed {d : Slave S In Id Addr Data Strb} {α : Type} {view : S → α}
    {write : α → Write Id Addr Data Strb → α}
    (hstep : ∀ s i, view (d.step s i) = (d.performs s i).toList.foldl write (view s)) (s : S)
    (cycles : List In) :
    view (d.run s cycles).1 = (d.run s cycles).2.performed.foldl write (view s) := by
  induction cycles using List.reverseRecOn with
  | nil => rfl
  | append_singleton cycles i ih =>
    unfold Slave.run at ih ⊢
    rw [List.foldl_append]
    change view (d.step _ i) = List.foldl write (view s) (_ ++ (d.performs _ i).toList)
    rw [hstep, ih, List.foldl_append]

/-! ## Slaves with one answer at a time -/

/-- A slave that answers a write that it performs and a read that it accepts from the next cycle on,
and takes on no other while that answer stands. -/
structure Slave.Clocked (d : Slave S In Id Addr Data Strb) (s : S) : Prop where
  free : ∀ i w, d.performs s i = some w → (d.responses s).bvalid = false
  bvalid : ∀ i, (d.responses (d.step s i)).bvalid =
    ((d.performs s i).isSome || ((d.responses s).bvalid && !(d.master i).bready))
  bid : ∀ i, (d.responses (d.step s i)).bid =
    ((d.performs s i).map Write.id).getD (d.responses s).bid
  arready : ∀ i, (d.ready s i).arready = !(d.responses s).rvalid
  rvalid : ∀ i, (d.responses (d.step s i)).rvalid =
    ((d.master i).arvalid && !(d.responses s).rvalid ||
      (d.responses s).rvalid && !(d.master i).rready)
  rid : ∀ i, (d.responses (d.step s i)).rid =
    if (d.master i).arvalid && !(d.responses s).rvalid then (d.master i).arid
    else (d.responses s).rid
  rdata : ∀ i, (d.responses (d.step s i)).rdata =
    if (d.master i).arvalid && !(d.responses s).rvalid then d.value s (d.master i).araddr
    else (d.responses s).rdata
  accepts : ∀ i, (d.responses s).bvalid = false → (d.master i).awvalid = true →
    (d.master i).wvalid = true → (d.ready s i).awready = true ∧ (d.ready s i).wready = true

/-- In the cycle an address is accepted together with its data, and the write is performed. -/
structure Slave.Pairs (d : Slave S In Id Addr Data Strb) (s : S) (i : In) : Prop where
  together : ((d.master i).awvalid && (d.ready s i).awready) =
    ((d.master i).wvalid && (d.ready s i).wready)
  performs : d.performs s i =
    if (d.master i).awvalid && (d.ready s i).awready then
      some ⟨(d.master i).awid, (d.master i).awaddr, (d.master i).wdata, (d.master i).wstrb⟩
    else none

/-- What a run of paired cycles keeps. -/
structure Slave.Agrees (d : Slave S In Id Addr Data Strb) (x : S × Log Id Addr Data Strb) :
    Prop where
  even : x.2.aw.length = x.2.w.length
  performed : x.2.performed = x.2.writes
  answered :
    x.2.b ++ entry (d.responses x.1).bvalid (d.responses x.1).bid = x.2.writes.map Write.id
  read : x.2.r ++ entry (d.responses x.1).rvalid ((d.responses x.1).rid, (d.responses x.1).rdata) =
    x.2.reads

theorem Slave.Agrees.cycle {d : Slave S In Id Addr Data Strb} {x : S × Log Id Addr Data Strb}
    (h : d.Agrees x) (hclocked : d.Clocked x.1) {i : In} (hpairs : d.Pairs x.1 i) :
    d.Agrees (d.cycle x i) := by
  obtain ⟨s, l⟩ := x
  -- the writes of the cycle
  have hwrites : (d.record s i l).writes = l.writes ++ (d.performs s i).toList := by
    unfold Log.writes Slave.record
    dsimp only
    rw [← hpairs.together, hpairs.performs]
    cases (d.master i).awvalid && (d.ready s i).awready with
    | false => simp [entry]
    | true =>
      simp only [entry, if_true, Option.toList_some]
      rw [List.zipWith_append h.even]
      rfl
  refine ⟨?_, ?_, ?_, ?_⟩
  · change (l.aw ++ _).length = (l.w ++ _).length
    rw [List.length_append, List.length_append, ← hpairs.together, h.even]
    cases (d.master i).awvalid && (d.ready s i).awready <;> rfl
  · change l.performed ++ _ = (d.record s i l).writes
    rw [hwrites, h.performed]
  · change (l.b ++ entry ((d.responses s).bvalid && (d.master i).bready) (d.responses s).bid) ++
      entry (d.responses (d.step s i)).bvalid (d.responses (d.step s i)).bid =
        (d.record s i l).writes.map Write.id
    rw [hwrites, List.map_append, ← h.answered, hclocked.bvalid, hclocked.bid]
    cases hperf : d.performs s i with
    | none =>
      cases (d.responses s).bvalid <;> cases (d.master i).bready <;> simp [entry]
    | some w =>
      rw [hclocked.free i w hperf]
      simp [entry]
  · change (l.r ++ entry ((d.responses s).rvalid && (d.master i).rready)
        ((d.responses s).rid, (d.responses s).rdata)) ++
      entry (d.responses (d.step s i)).rvalid
        ((d.responses (d.step s i)).rid, (d.responses (d.step s i)).rdata) =
      l.reads ++ entry ((d.master i).arvalid && (d.ready s i).arready)
        ((d.master i).arid, d.value s (d.master i).araddr)
    rw [← h.read, hclocked.rvalid, hclocked.rid, hclocked.rdata, hclocked.arready]
    cases (d.responses s).rvalid <;> cases (d.master i).arvalid <;>
      cases (d.master i).rready <;> simp [entry]

theorem Slave.Agrees.exact {d : Slave S In Id Addr Data Strb} {x : S × Log Id Addr Data Strb}
    (h : d.Agrees x) (hclocked : d.Clocked x.1) : d.Exact x := by
  refine ⟨h.performed, h.answered, h.read, fun i hvalid hwait => ?_, fun i hvalid hwait => ?_,
    hclocked.accepts, fun i hfree => ?_⟩
  · have hnone : d.performs x.1 i = none := by
      cases hperf : d.performs x.1 i with
      | none => rfl
      | some w =>
        rw [hclocked.free i w hperf] at hvalid
        cases hvalid
    rw [hclocked.bvalid, hclocked.bid, hnone, hvalid, hwait]
    exact ⟨rfl, rfl⟩
  · rw [hclocked.rvalid, hclocked.rid, hclocked.rdata, hvalid, hwait]
    simp
  · rw [hclocked.arready, hfree]
    rfl

theorem Slave.exact_of_pairs {d : Slave S In Id Addr Data Strb} {s : S}
    (hstart : (d.responses s).bvalid = false ∧ (d.responses s).rvalid = false)
    {Inv : S → Prop} (hinv : Inv s) (hstep : ∀ s i, Inv s → Inv (d.step s i))
    (hclocked : ∀ s, Inv s → d.Clocked s) {cycles : List In}
    (hpairs : Runs.Each (fun h i => d.Pairs (d.run s h).1 i) cycles) :
    d.Exact (d.run s cycles) := by
  have hboth : Inv (d.run s cycles).1 ∧ d.Agrees (d.run s cycles) := by
    refine @Runs.inv_of_each _ _ d.cycle (fun x => Inv x.1 ∧ d.Agrees x)
      (fun x i => d.Pairs x.1 i) _ ⟨hinv, rfl, rfl, ?_, ?_⟩ ?_ cycles hpairs
    · change [] ++ entry (d.responses s).bvalid _ = []
      rw [hstart.1]
      rfl
    · change [] ++ entry (d.responses s).rvalid _ = []
      rw [hstart.2]
      rfl
    · rintro x i ⟨hi, hagrees⟩ hp
      exact ⟨hstep x.1 i hi, hagrees.cycle (hclocked x.1 hi) hp⟩
  exact hboth.2.exact (hclocked _ hboth.1)

/-- A slave that performs a write exactly when address and data are accepted together, over a run in
which as many addresses as data were accepted: if as many writes were performed, all cycles accepted
them together. -/
theorem Slave.together_of_exact {d : Slave S In Id Addr Data Strb} {s : S}
    (hperforms : ∀ h i, (d.performs (d.run s h).1 i).isSome =
      ((d.master i).awvalid && (d.ready (d.run s h).1 i).awready &&
        ((d.master i).wvalid && (d.ready (d.run s h).1 i).wready)))
    {cycles : List In} (hexact : d.Exact (d.run s cycles))
    (hwhole : (d.run s cycles).2.aw.length = (d.run s cycles).2.w.length) :
    Runs.Each (fun h i => ((d.master i).awvalid && (d.ready (d.run s h).1 i).awready) =
      ((d.master i).wvalid && (d.ready (d.run s h).1 i).wready)) cycles := by
  have hcount : (d.run s cycles).2.performed.length = (d.run s cycles).2.aw.length := by
    rw [hexact.performed, Log.writes, List.length_zipWith, ← hwhole, Nat.min_self]
  suffices hall : ∀ cycles : List In,
      (d.run s cycles).2.performed.length ≤ (d.run s cycles).2.aw.length ∧
      (d.run s cycles).2.performed.length ≤ (d.run s cycles).2.w.length ∧
      ((d.run s cycles).2.performed.length = (d.run s cycles).2.aw.length →
        (d.run s cycles).2.performed.length = (d.run s cycles).2.w.length →
        Runs.Each (fun h i => ((d.master i).awvalid && (d.ready (d.run s h).1 i).awready) =
          ((d.master i).wvalid && (d.ready (d.run s h).1 i).wready)) cycles) from
    (hall cycles).2.2 hcount (hcount.trans hwhole)
  clear hexact hwhole hcount cycles
  intro cycles
  induction cycles using List.reverseRecOn with
  | nil => exact ⟨Nat.le_refl _, Nat.le_refl _, fun _ _ => Runs.each_nil _⟩
  | append_singleton cycles i ih =>
    obtain ⟨haw, hw, heach⟩ := ih
    have hrun : d.run s (cycles ++ [i]) = d.cycle (d.run s cycles) i := by
      unfold Slave.run
      rw [List.foldl_append]
      rfl
    have hlast := hperforms cycles i
    rcases hx : d.run s cycles with ⟨x, l⟩
    rw [hx] at haw hw heach hlast
    dsimp only at haw hw heach hlast
    rw [hrun, hx, Runs.each_snoc, hx]
    simp only [Slave.cycle, Slave.record, List.length_append, length_entry]
    have hcount : (d.performs x i).toList.length = (d.performs x i).isSome.toNat := by
      cases d.performs x i <;> rfl
    rw [hcount, hlast]
    generalize ((d.master i).awvalid && (d.ready x i).awready) = a
    generalize ((d.master i).wvalid && (d.ready x i).wready) = b
    have hle : (a && b).toNat ≤ a.toNat ∧ (a && b).toNat ≤ b.toNat := by
      cases a <;> cases b <;> decide
    refine ⟨by omega, by omega, fun ha hb => ⟨heach (by omega) (by omega), ?_⟩⟩
    have hsame : a.toNat = b.toNat := by omega
    cases a <;> cases b <;> first | rfl | cases hsame

end

end vibeos.Axi
