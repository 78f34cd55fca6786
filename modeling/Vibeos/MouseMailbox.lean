-- The mouse registers as a mailbox: what every run keeps, as long as no two accesses that
-- exclude each other meet in one cycle.
import Vibeos.EventRuns
import Vibeos.RingWindow
import Vibeos.PlMouse

namespace vibeos.fpga.Mouse

open Mail (Op)
open Runs (Each)

/-! ## What happens in a cycle -/

/-- The debug port writes a part of the state. -/
def dbgSets (i : MouseIn) : Bool :=
  match i.dbg with
  | some w => 0x2c#6 ≤ w.addr.extractLsb' 2 6 && w.addr.extractLsb' 2 6 ≤ 0x30#6
  | none => false

/-- The CPU writes a part of the state. -/
def cpuSets (c : Mouse) (i : MouseIn) : Bool :=
  match c.performs i.axi with
  | some w => w.strb ≠ 0 && 1#4 ≤ w.addr.extractLsb' 2 4 && w.addr.extractLsb' 2 4 ≤ 4#4
  | none => false

/-- The wheel value that the debug port writes. -/
def dbgWheel (i : MouseIn) : Option (BitVec 8) :=
  match i.dbg with
  | some w =>
    if w.addr.extractLsb' 2 6 = 0x2f then some (w.data.setWidth 8)
    else if w.addr.extractLsb' 2 6 = 0x30 then some (w.data.extractLsb' 16 8)
    else none
  | none => none

def cpuWheel (c : Mouse) (i : MouseIn) : Option (BitVec 8) :=
  match c.performs i.axi with
  | some w =>
    if w.strb ≠ 0 ∧ w.addr.extractLsb' 2 4 = 4 then some (w.data.setWidth 8) else none
  | none => none

def reads (c : Mouse) (i : MouseIn) : Bool := i.axi.arvalid && c.s_axi_arready

def takes (c : Mouse) (i : MouseIn) : Bool := c.reads i && clears i.axi.araddr

/-- The wheel value in the answer of a read. -/
def wheelOf (addr data : BitVec 32) : BitVec 8 :=
  if addr.extractLsb' 2 4 = 4 then data.setWidth 8 else data.extractLsb' 16 8

/-- The history of a run: what happens to the wheel, how often the state is written, each read with
the registers at its moment, and the answers taken. -/
structure History where
  wheel : List (Op (BitVec 8))
  sets : Nat
  reads : List (BitVec 32 × Mouse)
  answers : List (BitVec 32)

def History.empty : History := ⟨[], 0, [], []⟩

/-- A read has the value from before the edge, so it stands before the writes of its cycle. -/
def record (c : Mouse) (i : MouseIn) (l : History) : History where
  wheel := l.wheel ++
    (Axi.entry (c.takes i) (.take (wheelOf i.axi.araddr (c.mmio_read i.axi.araddr))) ++
      ((dbgWheel i).toList.map .put ++ (c.cpuWheel i).toList.map .put))
  sets := l.sets + (dbgSets i).toNat + (c.cpuSets i).toNat
  reads := l.reads ++ Axi.entry (c.reads i) (i.axi.araddr, c)
  answers := l.answers ++ Axi.entry (c.rvalid_q && i.axi.rready) c.rdata_q

def cycle (x : Mouse × History) (i : MouseIn) : Mouse × History :=
  (x.1.step i, x.1.record i x.2)

def run (cycles : List MouseIn) : Mouse × History := cycles.foldl cycle (reset, .empty)

/-- The wheel is delivered once, every write of the state counts, the place is on the screen, and
the answer of a read is what it read in its cycle, the packed register in one piece. -/
structure Serves (x : Mouse × History) : Prop where
  wheel : Mail.Served 0 x.2.wheel
  seq : x.1.mouse_seq_q = 1 + BitVec.ofNat 16 x.2.sets
  x_le : x.1.mouse_x_q ≤ 511
  y_le : x.1.mouse_y_q ≤ 383
  answered : x.2.answers ++ Axi.entry x.1.rvalid_q x.1.rdata_q =
    x.2.reads.map fun q => q.2.mmio_read q.1
  packed : ∀ q ∈ x.2.reads, q.1.extractLsb' 2 4 = 7 →
    q.2.mmio_read q.1 = q.2.mouse_buttons_q ++ q.2.mouse_wheel_q ++ q.2.mouse_seq_q

/-- Two accesses exclude each other: the wheel is read and written, or both sides write the state. -/
def meets (c : Mouse) (i : MouseIn) : Bool :=
  c.takes i && ((dbgWheel i).isSome || (c.cpuWheel i).isSome) || dbgSets i && c.cpuSets i

/-! ## What a writer does to the registers -/

theorem clamp_coord_le (v : BitVec 32) {max_v : BitVec 16} : clamp_coord v max_v ≤ max_v := by
  unfold clamp_coord
  split_ifs with h
  · exact BitVec.le_refl max_v
  · rw [BitVec.lt_def, BitVec.toNat_setWidth] at h
    rw [BitVec.le_def, BitVec.toNat_setWidth]
    omega

/-- `r` comes from `n` by a write, where `sets` tells whether it is one of the state, `wheel` is the
wheel value, and `c` are the registers before the edge. -/
structure Wrote (c n : Mouse) (sets : Bool) (wheel : Option (BitVec 8)) (r : Mouse) : Prop where
  wheel : r.mouse_wheel_q = wheel.getD n.mouse_wheel_q
  seq : r.mouse_seq_q = if sets then c.mouse_seq_q + 1 else n.mouse_seq_q
  x_le : n.mouse_x_q ≤ 511 → r.mouse_x_q ≤ 511
  y_le : n.mouse_y_q ≤ 383 → r.mouse_y_q ≤ 383
  rvalid : r.rvalid_q = n.rvalid_q
  rdata : r.rdata_q = n.rdata_q

section Writers

variable (c n : Mouse)

theorem wrote_none : Wrote c n false none n := ⟨rfl, rfl, id, id, rfl, rfl⟩

theorem dbg_write_wrote (w : DebugWrite) (m : BusMaster) :
    Wrote c n (dbgSets ⟨some w, m⟩) (dbgWheel ⟨some w, m⟩) (dbg_write c n w) := by
  unfold dbg_write dbgSets dbgWheel
  dsimp only
  generalize w.addr.extractLsb' 2 6 = reg
  by_cases h1 : reg = 0x2c
  · subst h1
    exact ⟨rfl, rfl, fun _ => clamp_coord_le _, id, rfl, rfl⟩
  by_cases h2 : reg = 0x2d
  · subst h2
    exact ⟨rfl, rfl, id, fun _ => clamp_coord_le _, rfl, rfl⟩
  by_cases h3 : reg = 0x2e
  · subst h3
    exact ⟨rfl, rfl, id, id, rfl, rfl⟩
  by_cases h4 : reg = 0x2f
  · subst h4
    exact ⟨rfl, rfl, id, id, rfl, rfl⟩
  by_cases h5 : reg = 0x30
  · subst h5
    exact ⟨rfl, rfl, fun _ => clamp_coord_le _, fun _ => clamp_coord_le _, rfl, rfl⟩
  have hsets : (0x2c#6 ≤ reg && reg ≤ 0x30#6) = false := by
    simp only [Bool.and_eq_false_iff, decide_eq_false_iff_not]
    bv_omega
  rw [if_neg h1, if_neg h2, if_neg h3, if_neg h4, if_neg h5, if_neg h4, if_neg h5, hsets]
  exact wrote_none c n

theorem dbg_wrote (i : MouseIn) : Wrote c c (dbgSets i) (dbgWheel i) (c.dbg i) := by
  obtain ⟨w, m⟩ := i
  cases w with
  | none => exact wrote_none c c
  | some w => exact dbg_write_wrote c c w m

theorem accept_wrote (m : BusMaster) : Wrote c n false none (accept c n m) := by
  unfold accept
  split_ifs <;> exact ⟨rfl, rfl, id, id, rfl, rfl⟩

theorem mmio_write_wrote (w : BusWrite) :
    Wrote c n (w.strb ≠ 0 && 1#4 ≤ w.addr.extractLsb' 2 4 && w.addr.extractLsb' 2 4 ≤ 4#4)
      (if w.strb ≠ 0 ∧ w.addr.extractLsb' 2 4 = 4 then some (w.data.setWidth 8) else none)
      (mmio_write c n w) := by
  unfold mmio_write
  dsimp only
  generalize w.addr.extractLsb' 2 4 = reg
  by_cases h0 : w.strb = 0
  · simp only [h0, ne_eq, not_true_eq_false, decide_false, Bool.false_and, false_and, if_true,
      if_false]
    exact wrote_none c n
  simp only [h0, ne_eq, not_false_eq_true, decide_true, Bool.true_and, true_and, if_false]
  by_cases h1 : reg = 1
  · subst h1
    exact ⟨rfl, rfl, fun _ => clamp_coord_le _, id, rfl, rfl⟩
  by_cases h2 : reg = 2
  · subst h2
    exact ⟨rfl, rfl, id, fun _ => clamp_coord_le _, rfl, rfl⟩
  by_cases h3 : reg = 3
  · subst h3
    exact ⟨rfl, rfl, id, id, rfl, rfl⟩
  by_cases h4 : reg = 4
  · subst h4
    exact ⟨rfl, rfl, id, id, rfl, rfl⟩
  have hsets : (1#4 ≤ reg && reg ≤ 4#4) = false := by
    simp only [Bool.and_eq_false_iff, decide_eq_false_iff_not]
    bv_omega
  rw [if_neg h1, if_neg h2, if_neg h3, if_neg h4, if_neg h4, hsets]
  split_ifs <;> exact ⟨rfl, rfl, id, id, rfl, rfl⟩

theorem write_wrote (i : MouseIn) : Wrote c n (c.cpuSets i) (c.cpuWheel i) (c.write i.axi n) := by
  unfold write cpuSets cpuWheel
  cases c.performs i.axi with
  | none =>
    dsimp only
    split_ifs <;> exact ⟨rfl, rfl, id, id, rfl, rfl⟩
  | some w =>
    dsimp only
    obtain ⟨hwheel, hseq, hx, hy, hrvalid, hrdata⟩ := mmio_write_wrote c
      { n with bid_q := w.id, bvalid_q := true, aw_full_q := false, w_full_q := false } w
    exact ⟨hwheel, hseq, hx, hy, hrvalid, hrdata⟩

theorem Wrote.trans {c n r r' : Mouse} {sets sets' : Bool} {wheel wheel' : Option (BitVec 8)}
    (h : Wrote c n sets wheel r) (h' : Wrote c r sets' wheel' r') :
    Wrote c n (sets || sets') (wheel'.or wheel) r' where
  wheel := by
    rw [h'.wheel, h.wheel]
    cases wheel' <;> rfl
  seq := by
    rw [h'.seq, h.seq]
    cases sets <;> cases sets' <;> rfl
  x_le := h'.x_le ∘ h.x_le
  y_le := h'.y_le ∘ h.y_le
  rvalid := h'.rvalid.trans h.rvalid
  rdata := h'.rdata.trans h.rdata

theorem writers_wrote (i : MouseIn) :
    Wrote c c (dbgSets i || c.cpuSets i) ((c.cpuWheel i).or (dbgWheel i))
      (c.write i.axi (accept c (c.dbg i) i.axi)) := by
  have h := ((dbg_wrote c i).trans (accept_wrote c _ i.axi)).trans (write_wrote c _ i)
  rwa [Bool.or_false, Option.none_or] at h

end Writers

/-! ## A clock edge -/

section Step

variable (c : Mouse) (i : MouseIn)

theorem step_eq :
    ∃ n id, Wrote c c (dbgSets i || c.cpuSets i) ((c.cpuWheel i).or (dbgWheel i)) n ∧
      c.step i = { n with
        rid_q := id
        rvalid_q := c.reads i || c.rvalid_q && !i.axi.rready
        rdata_q := if c.reads i then c.mmio_read i.axi.araddr else c.rdata_q
        mouse_wheel_q := if c.takes i then 0 else n.mouse_wheel_q } := by
  have hn := writers_wrote c i
  unfold step
  generalize c.write i.axi (accept c (c.dbg i) i.axi) = n at hn
  unfold read takes
  rw [show (i.axi.arvalid && !c.rvalid_q) = c.reads i from rfl]
  cases hreads : c.reads i with
  | true =>
    refine ⟨n, i.axi.arid, hn, ?_⟩
    rw [if_pos rfl, if_pos rfl, Bool.true_and]
    split_ifs <;> rfl
  | false =>
    refine ⟨n, n.rid_q, hn, ?_⟩
    rw [if_neg Bool.false_ne_true, ← hn.rvalid, ← hn.rdata]
    obtain ⟨_, _, rvalid_q⟩ := n
    cases rvalid_q <;> cases i.axi.rready <;> rfl

theorem step_wheel :
    (c.step i).mouse_wheel_q =
      if c.takes i then 0 else ((c.cpuWheel i).or (dbgWheel i)).getD c.mouse_wheel_q := by
  obtain ⟨n, _, hn, hstep⟩ := step_eq c i
  rw [hstep, ← hn.wheel]

theorem step_seq :
    (c.step i).mouse_seq_q =
      if dbgSets i || c.cpuSets i then c.mouse_seq_q + 1 else c.mouse_seq_q := by
  obtain ⟨n, _, hn, hstep⟩ := step_eq c i
  rw [hstep]
  exact hn.seq

theorem step_x_le (h : c.mouse_x_q ≤ 511) : (c.step i).mouse_x_q ≤ 511 := by
  obtain ⟨n, _, hn, hstep⟩ := step_eq c i
  rw [hstep]
  exact hn.x_le h

theorem step_y_le (h : c.mouse_y_q ≤ 383) : (c.step i).mouse_y_q ≤ 383 := by
  obtain ⟨n, _, hn, hstep⟩ := step_eq c i
  rw [hstep]
  exact hn.y_le h

theorem step_rvalid : (c.step i).rvalid_q = (c.reads i || c.rvalid_q && !i.axi.rready) := by
  obtain ⟨n, _, -, hstep⟩ := step_eq c i
  rw [hstep]

theorem step_rdata :
    (c.step i).rdata_q = if c.reads i then c.mmio_read i.axi.araddr else c.rdata_q := by
  obtain ⟨n, _, -, hstep⟩ := step_eq c i
  rw [hstep]

end Step

/-! ## The answers -/

theorem mmio_read_packed (c : Mouse) {addr : BitVec 32} (h : addr.extractLsb' 2 4 = 7) :
    c.mmio_read addr = c.mouse_buttons_q ++ c.mouse_wheel_q ++ c.mouse_seq_q := by
  unfold mmio_read
  rw [h]
  rfl

theorem extract_middle {p q r : Nat} (b : BitVec p) (w : BitVec q) (s : BitVec r) :
    (b ++ w ++ s).extractLsb' r q = w := by
  ext k hk
  have hk' : ¬ r + k < r := by omega
  simp [BitVec.getLsbD_append, hk, hk', BitVec.getLsbD_eq_getElem]

theorem wheelOf_mmio_read (c : Mouse) {addr : BitVec 32} (h : clears addr = true) :
    wheelOf addr (c.mmio_read addr) = c.mouse_wheel_q := by
  unfold wheelOf
  by_cases h4 : addr.extractLsb' 2 4 = 4
  · rw [if_pos h4]
    unfold mmio_read
    rw [h4]
    change (c.mouse_wheel_q.signExtend 32).setWidth 8 = c.mouse_wheel_q
    generalize c.mouse_wheel_q = w
    revert w
    decide +kernel
  · have h7 : addr.extractLsb' 2 4 = 7 := by
      have hor : addr.extractLsb' 2 4 = 4 ∨ addr.extractLsb' 2 4 = 7 := by
        simpa [clears] using h
      exact hor.resolve_left h4
    rw [if_neg h4, mmio_read_packed c h7]
    exact extract_middle _ _ _

theorem answered_step (c : Mouse) (i : MouseIn) :
    Axi.entry (c.rvalid_q && i.axi.rready) c.rdata_q ++
        Axi.entry (c.step i).rvalid_q (c.step i).rdata_q =
      Axi.entry c.rvalid_q c.rdata_q ++ Axi.entry (c.reads i) (c.mmio_read i.axi.araddr) := by
  rw [step_rvalid, step_rdata]
  unfold reads s_axi_arready
  cases c.rvalid_q <;> cases i.axi.rready <;> cases i.axi.arvalid <;> rfl

/-! ## A run -/

/-- What a run keeps: the wheel register holds the value that stands. -/
structure Inv (x : Mouse × History) : Prop extends Serves x where
  standing : Mail.standing 0 x.2.wheel = x.1.mouse_wheel_q

theorem inv_start : Inv (reset, .empty) where
  wheel := Mail.served_nil 0
  seq := rfl
  x_le := by decide
  y_le := by decide
  answered := rfl
  packed := fun _ h => absurd h (List.not_mem_nil)
  standing := rfl

section

variable {x : Mouse × History} {i : MouseIn}

theorem no_wheel_of_takes (hmeet : x.1.meets i = false) (ht : x.1.takes i = true) :
    dbgWheel i = none ∧ x.1.cpuWheel i = none := by
  unfold meets at hmeet
  rw [ht] at hmeet
  simpa using (Bool.or_eq_false_iff.mp hmeet).1

theorem wheel_step (h : Inv x) (hmeet : x.1.meets i = false) :
    Mail.Served 0 (cycle x i).2.wheel ∧
      Mail.standing 0 (cycle x i).2.wheel = (cycle x i).1.mouse_wheel_q := by
  have hreg : (cycle x i).1.mouse_wheel_q = _ := step_wheel x.1 i
  rw [hreg]
  unfold cycle record
  dsimp only
  cases ht : x.1.takes i with
  | true =>
    obtain ⟨hdbg, hcpu⟩ := no_wheel_of_takes hmeet ht
    have hclears : clears i.axi.araddr = true := (Bool.and_eq_true_iff.mp ht).2
    rw [hdbg, hcpu, wheelOf_mmio_read x.1 hclears]
    exact ⟨h.wheel.take h.standing.symm, Mail.standing_take 0 _ _⟩
  | false =>
    constructor
    · have hput := (h.wheel.put (dbgWheel i)).put (x.1.cpuWheel i)
      rwa [List.append_assoc] at hput
    · have hstand : Mail.standing 0 (x.2.wheel ++ (dbgWheel i).toList.map .put ++
          (x.1.cpuWheel i).toList.map .put) =
          (x.1.cpuWheel i).getD ((dbgWheel i).getD x.1.mouse_wheel_q) := by
        rw [Mail.standing_puts, Mail.standing_puts, h.standing]
      rw [List.append_assoc] at hstand
      refine hstand.trans ?_
      cases x.1.cpuWheel i <;> rfl

theorem seq_step (h : Inv x) (hmeet : x.1.meets i = false) :
    (cycle x i).1.mouse_seq_q = 1 + BitVec.ofNat 16 (cycle x i).2.sets := by
  have hreg : (cycle x i).1.mouse_seq_q = _ := step_seq x.1 i
  have hone : (dbgSets i && x.1.cpuSets i) = false := (Bool.or_eq_false_iff.mp hmeet).2
  have hnext (n : Nat) : 1 + BitVec.ofNat 16 n + 1 = 1 + BitVec.ofNat 16 (n + 1) := by
    rw [BitVec.ofNat_add, BitVec.add_assoc]
    rfl
  rw [hreg, h.seq]
  unfold cycle record
  dsimp only
  cases hd : dbgSets i <;> cases hc : x.1.cpuSets i
  · rfl
  · exact hnext _
  · exact hnext _
  · rw [hd, hc] at hone
    exact absurd hone Bool.noConfusion

theorem inv_step (h : Inv x) (hmeet : x.1.meets i = false) : Inv (cycle x i) where
  wheel := (wheel_step h hmeet).1
  seq := seq_step h hmeet
  x_le := step_x_le x.1 i h.x_le
  y_le := step_y_le x.1 i h.y_le
  answered := by
    unfold cycle record
    dsimp only
    rw [List.append_assoc, answered_step, ← List.append_assoc, h.answered, List.map_append]
    cases x.1.reads i <;> rfl
  packed := fun q _ haddr => mmio_read_packed q.2 haddr
  standing := (wheel_step h hmeet).2

end

/-- As long as no two such accesses meet, every wheel value is delivered once and every write of the
state is counted. -/
theorem run_serves {cycles : List MouseIn}
    (h : Each (fun before i => (run before).1.meets i = false) cycles) : Serves (run cycles) := by
  have hinv : Inv (run cycles) :=
    @Runs.inv_of_each _ _ _ Inv (fun x i => x.1.meets i = false) _ inv_start
      (fun hinv hgood => inv_step hinv hgood) _ h
  exact hinv.toServes

/-! ## Accesses in one cycle -/

def idle : BusMaster := ⟨false, 0, 0, false, 0, 0, true, false, 0, 0, true⟩

def wheelWrite : Option DebugWrite := some ⟨0xbc, 5⟩

def wheelRead : BusMaster := { idle with arvalid := true, araddr := 0x10 }

/-- The wheel is written, and read in the cycle after. -/
def turned : List MouseIn := [⟨wheelWrite, idle⟩, ⟨none, wheelRead⟩, ⟨none, idle⟩]

theorem turned_served : Serves (run turned) ∧ (run turned).2.answers = [5] := by
  have hcheck : Runs.check cycle (fun x i => !x.1.meets i) (reset, .empty) turned = true := by
    decide
  exact ⟨run_serves fun before i after hsplit =>
    (Bool.not_eq_true' _).mp (Runs.each_of_check hcheck before i after hsplit), by decide⟩

/-- The wheel is written in the cycle of a read, and read again. -/
def turnedLate : List MouseIn :=
  [⟨wheelWrite, wheelRead⟩, ⟨none, idle⟩, ⟨none, wheelRead⟩, ⟨none, idle⟩]

def movedTwice : List MouseIn :=
  [⟨some ⟨0xb0, 7⟩, ⟨true, 0x8, 0, true, 9, 0xf, true, false, 0, 0, true⟩⟩]

/-- A wheel value is lost to the read of its cycle, and two writes in one cycle count as one. -/
theorem same_cycle_lost :
    (¬ Serves (run turnedLate) ∧ (run turnedLate).2.answers = [0, 0]) ∧
      ¬ Serves (run movedTwice) := by
  refine ⟨⟨fun h => ?_, by decide⟩, fun h => ?_⟩
  · have hlost : (0 : BitVec 8) = Mail.standing 0 [.take 0, .put 5] :=
      h.wheel [.take 0, .put 5] 0 [] (by decide)
    exact absurd hlost (by decide)
  · exact absurd h.seq (by decide)

end vibeos.fpga.Mouse
