-- The receive ring of ps_gem.c: descriptors that share cache lines, the driver step by step, and the
-- device that fills what it owns.
import Vibeos.CacheLines
import Vibeos.RingWindow
import Vibeos.EventRuns

namespace vibeos.net

open Lines (Cached)
open Runs (Each)

namespace gem

/-! ## The code -/

def GEM_RX_COUNT : Nat := 32
def GEM_FRAME_SIZE : Nat := 1536

def GEM_RXBUF_WRAP : BitVec 32 := 0x00000002#32
def GEM_RXBUF_NEW : BitVec 32 := 0x00000001#32
def GEM_RXBUF_ADDR_MASK : BitVec 32 := 0xfffffffc#32
def GEM_RXBUF_SOF : BitVec 32 := 0x00004000#32
def GEM_RXBUF_EOF : BitVec 32 := 0x00008000#32
def GEM_RXBUF_LEN_MASK : BitVec 32 := 0x00001fff#32

structure gem_bd where
  addr : BitVec 32
  stat : BitVec 32
deriving DecidableEq

/-- A cache line of 32 bytes has four descriptors. -/
def LINE : Nat := 4

abbrev Frame := List (BitVec 8)

/-- The address word of a descriptor that the device owns. `phys` are the addresses of the
buffers. -/
def freeAddr (phys : Nat → BitVec 32) (i : Nat) : BitVec 32 :=
  let addr := phys i &&& GEM_RXBUF_ADDR_MASK
  if i = GEM_RX_COUNT - 1 then addr ||| GEM_RXBUF_WRAP else addr

/-- The receive part of `ps_gem_init_rings`: the descriptors are written and written back. -/
def ps_gem_init_rings (phys : Nat → BitVec 32) (ring : Cached gem_bd) : Cached gem_bd :=
  let ring := (List.range GEM_RX_COUNT).foldl
    (fun r i => r.store LINE i fun _ => ⟨freeAddr phys i, 0⟩) ring
  (List.range (GEM_RX_COUNT / LINE)).foldl (fun r l => r.writeback LINE l) ring

/-- Where `ps_gem_rx_one` is: not running, with the line invalidated, with the new bit seen, with the
frame handled, or with one or both words of the descriptor written. -/
inductive RxAt where
  | idle
  | invalidated
  | seen
  | handled
  | addrWritten
  | statWritten
deriving DecidableEq

/-- The driver and the device around the ring. `buf` is the memory of the buffers, `done` are the
frames that the device completed with their status words, and `handled` those that the driver took
from the ring, of which `passed` went on to lwIP. -/
structure Gem where
  phys : Nat → BitVec 32
  ring : Cached gem_bd
  buf : Nat → Frame
  at_ : RxAt
  ps_gem_rx_idx : Nat
  ps_gem_rx_packets : Nat
  ps_gem_rx_drops : Nat
  dev_idx : Nat
  done : List (BitVec 32 × Frame)
  handled : List (BitVec 32 × Frame)
  passed : List Frame

/-- The driver does its next step, with what `pbuf_alloc` and `input` answer, or the device completes
a frame. -/
inductive GemEvent where
  | driver (alloc input : Bool)
  | complete (stat : BitVec 32) (frame : Frame)

namespace Gem

/-- The status word is one of a whole frame that the driver takes. -/
def whole (stat : BitVec 32) : Bool :=
  let len := (stat &&& GEM_RXBUF_LEN_MASK).toNat
  stat &&& (GEM_RXBUF_SOF ||| GEM_RXBUF_EOF) = GEM_RXBUF_SOF ||| GEM_RXBUF_EOF &&
    14 ≤ len && len ≤ GEM_FRAME_SIZE

/-- The frame in the buffer, by the status word of its descriptor. -/
def handle (g : Gem) (stat : BitVec 32) (alloc input : Bool) : Gem :=
  let frame := g.buf g.ps_gem_rx_idx
  let g := { g with handled := g.handled ++ [(stat, frame)] }
  if whole stat && alloc && input then
    { g with
      passed := g.passed ++ [frame.take (stat &&& GEM_RXBUF_LEN_MASK).toNat]
      ps_gem_rx_packets := g.ps_gem_rx_packets + 1 }
  else { g with ps_gem_rx_drops := g.ps_gem_rx_drops + 1 }

/-- A step of `ps_gem_rx_one`. With `idle` the next call of `ps_gem_poll`'s loop begins. -/
def driver (g : Gem) (alloc input : Bool) : Gem :=
  let i := g.ps_gem_rx_idx
  match g.at_ with
  | .idle => { g with ring := g.ring.invalidate (i / LINE), at_ := .invalidated }
  | .invalidated =>
    let ring := g.ring.load LINE i
    if (ring.get LINE i).addr &&& GEM_RXBUF_NEW = 0 then { g with ring := ring, at_ := .idle }
    else { g with ring := ring, at_ := .seen }
  | .seen => { g.handle (g.ring.get LINE i).stat alloc input with at_ := .handled }
  | .handled =>
    { g with
      ring := g.ring.store LINE i fun d => { d with addr := freeAddr g.phys i }
      at_ := .addrWritten }
  | .addrWritten =>
    { g with ring := g.ring.store LINE i fun d => { d with stat := 0 }, at_ := .statWritten }
  | .statWritten =>
    { g with
      ring := g.ring.writeback LINE (i / LINE)
      at_ := .idle
      ps_gem_rx_idx := (i + 1) % GEM_RX_COUNT }

/-! ## The device -/

/-- The device fills the buffer of its next descriptor, and sets its new bit and status. -/
def complete (g : Gem) (stat : BitVec 32) (frame : Frame) : Gem :=
  let addr := (g.ring.mem g.dev_idx).addr
  { g with
    ring := g.ring.behind g.dev_idx ⟨addr ||| GEM_RXBUF_NEW, stat⟩
    buf := fun i => if i = g.dev_idx then frame else g.buf i
    dev_idx := if addr &&& GEM_RXBUF_WRAP = 0 then g.dev_idx + 1 else 0
    done := g.done ++ [(stat, frame)] }

def step (g : Gem) : GemEvent → Gem
  | .driver alloc input => g.driver alloc input
  | .complete stat frame => g.complete stat frame

/-- The device only completes a descriptor that it owns. -/
def Possible (g : Gem) : GemEvent → Prop
  | .driver _ _ => True
  | .complete _ _ => (g.ring.mem g.dev_idx).addr &&& GEM_RXBUF_NEW = 0

def start (phys : Nat → BitVec 32) (ring : Cached gem_bd) (buf : Nat → Frame) : Gem :=
  ⟨phys, ps_gem_init_rings phys ring, buf, .idle, 0, 0, 0, 0, [], [], []⟩

def run (g : Gem) (evs : List GemEvent) : Gem := evs.foldl step g

/-! ## What the driver makes of it -/

/-- The driver took the first of the completed frames, in order, and each of the others stands in
its descriptor and its buffer as the device left it. -/
structure Faithful (g : Gem) : Prop where
  isPrefix : g.handled <+: g.done
  stands : ∀ k stat frame, g.handled.length ≤ k → g.done[k]? = some (stat, frame) →
    g.ring.mem (k % GEM_RX_COUNT) =
        ⟨freeAddr g.phys (k % GEM_RX_COUNT) ||| GEM_RXBUF_NEW, stat⟩ ∧
      g.buf (k % GEM_RX_COUNT) = frame

/-- The driver has seen a new descriptor and not yet written its line back. -/
def Busy (g : Gem) : Prop :=
  g.at_ = .seen ∨ g.at_ = .handled ∨ g.at_ = .addrWritten ∨ g.at_ = .statWritten

/-- The event reaches no defect: the device completes no descriptor of the line that the driver is
about to write back. -/
def Sound (g : Gem) : GemEvent → Prop
  | .driver _ _ => True
  | .complete _ _ => g.Busy → g.dev_idx / LINE ≠ g.ps_gem_rx_idx / LINE

/-- The steps of `ps_gem_rx_one` with a frame, from its call to its return. -/
def next : RxAt → RxAt
  | .idle => .invalidated
  | .invalidated => .seen
  | .seen => .handled
  | .handled => .addrWritten
  | .addrWritten => .statWritten
  | .statWritten => .idle

def driverSteps (evs : List GemEvent) : Nat :=
  evs.countP fun | .driver _ _ => true | .complete _ _ => false

/-! ## The address words -/

theorem masked {bit : BitVec 32} (h : GEM_RXBUF_ADDR_MASK &&& bit = 0) (x : BitVec 32) :
    x &&& GEM_RXBUF_ADDR_MASK &&& bit = 0 := by
  rw [BitVec.and_assoc, h]
  exact BitVec.and_zero

theorem freeAddr_new (phys : Nat → BitVec 32) (i : Nat) :
    freeAddr phys i &&& GEM_RXBUF_NEW = 0 := by
  have hmasked := masked (by decide : GEM_RXBUF_ADDR_MASK &&& GEM_RXBUF_NEW = 0) (phys i)
  unfold freeAddr
  dsimp only
  split
  · rw [BitVec.and_or_distrib_right, hmasked]
    decide
  · exact hmasked

theorem taken_new (phys : Nat → BitVec 32) (i : Nat) :
    (freeAddr phys i ||| GEM_RXBUF_NEW) &&& GEM_RXBUF_NEW ≠ 0 := by
  rw [BitVec.and_or_distrib_right, freeAddr_new]
  decide

theorem freeAddr_wrap (phys : Nat → BitVec 32) (i : Nat) :
    freeAddr phys i &&& GEM_RXBUF_WRAP = 0 ↔ i ≠ GEM_RX_COUNT - 1 := by
  have hmasked := masked (by decide : GEM_RXBUF_ADDR_MASK &&& GEM_RXBUF_WRAP = 0) (phys i)
  unfold freeAddr
  dsimp only
  by_cases hlast : i = GEM_RX_COUNT - 1
  · rw [if_pos hlast, BitVec.and_or_distrib_right, hmasked]
    exact iff_of_false (by decide) (not_not_intro hlast)
  · rw [if_neg hlast]
    exact iff_of_true hmasked hlast

theorem mem_init (phys : Nat → BitVec 32) (ring : Cached gem_bd) {i : Nat} (hi : i < GEM_RX_COUNT) :
    (ps_gem_init_rings phys ring).mem i = ⟨freeAddr phys i, 0⟩ := by
  have hcell (n : Nat) (hin : i < n) :
      ((List.range n).foldl
        (fun r i => r.store LINE i fun _ => (⟨freeAddr phys i, 0⟩ : gem_bd)) ring).cell LINE i =
        some ⟨freeAddr phys i, 0⟩ := by
    induction n with
    | zero => exact absurd hin (Nat.not_lt_zero _)
    | succ n ih =>
      rw [List.range_succ, List.foldl_append, List.foldl_cons, List.foldl_nil]
      by_cases hlast : i = n
      · rw [hlast]
        exact Cached.cell_store_self _ n _
      · exact Cached.cell_store_ne hlast _ (ih (by omega))
  unfold ps_gem_init_rings
  refine Cached.mem_writebacks (hcell GEM_RX_COUNT hi) ?_
  unfold GEM_RX_COUNT LINE at *
  omega

/-! ## The invariant -/

/-- The cells that the driver has of its line: those of the memory, but for what it wrote. -/
def Line (g : Gem) (own : gem_bd → gem_bd) : Prop :=
  ∃ cells, g.ring.Holds (g.ps_gem_rx_idx / LINE) cells ∧
    ∀ a, a / LINE = g.ps_gem_rx_idx / LINE →
      cells a = if a = g.ps_gem_rx_idx then own (g.ring.mem a) else g.ring.mem a

/-- With `r` descriptors recycled, the completed frames from there on stand in the ring, and the rest
of the ring belongs to the device. -/
structure Ring (g : Gem) (r : Nat) : Prop where
  le : r ≤ g.done.length
  room : g.done.length ≤ r + GEM_RX_COUNT
  idx : g.ps_gem_rx_idx = r % GEM_RX_COUNT
  dev : g.dev_idx = g.done.length % GEM_RX_COUNT
  full : ∀ k stat frame, r ≤ k → g.done[k]? = some (stat, frame) →
    g.ring.mem (k % GEM_RX_COUNT) =
        ⟨freeAddr g.phys (k % GEM_RX_COUNT) ||| GEM_RXBUF_NEW, stat⟩ ∧
      g.buf (k % GEM_RX_COUNT) = frame
  free : ∀ k, g.done.length ≤ k → k < r + GEM_RX_COUNT →
    (g.ring.mem (k % GEM_RX_COUNT)).addr = freeAddr g.phys (k % GEM_RX_COUNT)

/-- What the driver has done of the descriptor that it works on. -/
def Works (g : Gem) (r : Nat) : Prop :=
  match g.at_ with
  | .idle => g.handled = g.done.take r
  | .invalidated =>
    g.handled = g.done.take r ∧ g.ring.line (g.ps_gem_rx_idx / LINE) = none
  | .seen => g.handled = g.done.take r ∧ r < g.done.length ∧ g.Line id
  | .handled => g.handled = g.done.take (r + 1) ∧ r < g.done.length ∧ g.Line id
  | .addrWritten =>
    g.handled = g.done.take (r + 1) ∧ r < g.done.length ∧
      g.Line fun d => { d with addr := freeAddr g.phys g.ps_gem_rx_idx }
  | .statWritten =>
    g.handled = g.done.take (r + 1) ∧ r < g.done.length ∧
      g.Line fun _ => ⟨freeAddr g.phys g.ps_gem_rx_idx, 0⟩

def Inv (g : Gem) : Prop := ∃ r, g.Ring r ∧ g.Works r

theorem Ring.head {g : Gem} {r : Nat} (h : g.Ring r) (hr : r < g.done.length) :
    ∃ stat frame, g.done[r]? = some (stat, frame) ∧
      g.ring.mem g.ps_gem_rx_idx =
        ⟨freeAddr g.phys g.ps_gem_rx_idx ||| GEM_RXBUF_NEW, stat⟩ ∧
      g.buf g.ps_gem_rx_idx = frame := by
  obtain ⟨⟨stat, frame⟩, hget⟩ : ∃ x, g.done[r]? = some x :=
    ⟨_, List.getElem?_eq_getElem hr⟩
  obtain ⟨hmem, hbuf⟩ := h.full r stat frame (Nat.le_refl r) hget
  rw [← h.idx] at hmem hbuf
  exact ⟨stat, frame, hget, hmem, hbuf⟩

/-! ## The steps of the driver -/

theorem Ring.new_iff {g : Gem} {r : Nat} (h : g.Ring r) :
    (g.ring.mem g.ps_gem_rx_idx).addr &&& GEM_RXBUF_NEW ≠ 0 ↔ r < g.done.length := by
  constructor
  · intro hnew
    by_contra hnot
    have hle := h.le
    have hfree := h.free r (by omega) (by unfold GEM_RX_COUNT; omega)
    rw [← h.idx] at hfree
    rw [hfree] at hnew
    exact hnew (freeAddr_new _ _)
  · intro hr
    obtain ⟨stat, frame, -, hmem, -⟩ := h.head hr
    rw [hmem]
    exact taken_new _ _

theorem Ring.store {g : Gem} {r : Nat} (h : g.Ring r) (f : gem_bd → gem_bd) (next : RxAt) :
    ({ g with ring := g.ring.store LINE g.ps_gem_rx_idx f, at_ := next } : Gem).Ring r := by
  refine ⟨h.le, h.room, h.idx, h.dev, ?_, ?_⟩
  all_goals
    dsimp only
    rw [Cached.mem_store]
  · exact h.full
  · exact h.free

theorem Line.store {g : Gem} {own : gem_bd → gem_bd} (h : g.Line own) (f : gem_bd → gem_bd)
    (next : RxAt) :
    ({ g with ring := g.ring.store LINE g.ps_gem_rx_idx f, at_ := next } : Gem).Line
      fun d => f (own d) := by
  obtain ⟨cells, hholds, hcells⟩ := h
  refine ⟨_, Cached.holds_store hholds f, fun a ha => ?_⟩
  dsimp only
  rw [Cached.mem_store, hcells a ha]
  by_cases hown : a = g.ps_gem_rx_idx
  · rw [if_pos hown, if_pos hown, if_pos hown]
  · rw [if_neg hown, if_neg hown, if_neg hown]

theorem Ring.writeback {g : Gem} {r : Nat} (h : g.Ring r) (hr : r < g.done.length)
    (hline : g.Line fun _ => ⟨freeAddr g.phys g.ps_gem_rx_idx, 0⟩) :
    ({ g with
        ring := g.ring.writeback LINE (g.ps_gem_rx_idx / LINE)
        at_ := .idle
        ps_gem_rx_idx := (g.ps_gem_rx_idx + 1) % GEM_RX_COUNT } : Gem).Ring (r + 1) := by
  obtain ⟨cells, hholds, hcells⟩ := hline
  have hmem (a : Nat) : (g.ring.writeback LINE (g.ps_gem_rx_idx / LINE)).mem a =
      if a = g.ps_gem_rx_idx then ⟨freeAddr g.phys g.ps_gem_rx_idx, 0⟩ else g.ring.mem a := by
    rw [Cached.mem_writeback hholds]
    by_cases ha : a / LINE = g.ps_gem_rx_idx / LINE
    · rw [if_pos ha, hcells a ha]
    · rw [if_neg ha, if_neg fun heq => ha (by rw [heq])]
  have hle := h.le
  have hroom := h.room
  refine ⟨hr, by dsimp only; omega, ?_, h.dev, fun k stat frame hk hget => ?_, fun k hk hlt => ?_⟩
  · dsimp only
    rw [h.idx, Nat.mod_add_mod]
  · obtain ⟨hlen, -⟩ := List.getElem?_eq_some_iff.mp hget
    have hlen : k < g.done.length := hlen
    have hne : k % GEM_RX_COUNT ≠ g.ps_gem_rx_idx := by
      rw [h.idx]
      exact (Ring.place_ne (by omega) (by omega)).symm
    dsimp only
    rw [hmem, if_neg hne]
    exact h.full k stat frame (by omega) hget
  · dsimp only at hk ⊢
    rw [hmem]
    by_cases hlast : k = r + GEM_RX_COUNT
    · have heq : k % GEM_RX_COUNT = g.ps_gem_rx_idx := by
        rw [h.idx, hlast, Nat.add_mod_right]
      rw [heq, if_pos rfl]
    · have hne : k % GEM_RX_COUNT ≠ g.ps_gem_rx_idx := by
        rw [h.idx]
        exact (Ring.place_ne (by omega) (by omega)).symm
      rw [if_neg hne]
      exact h.free k hk (by omega)

theorem inv_driver {g : Gem} (h : g.Inv) (alloc input : Bool) : (g.driver alloc input).Inv := by
  obtain ⟨r, hring, hworks⟩ := h
  unfold Works at hworks
  unfold driver
  cases hat : g.at_ with
  | idle =>
    rw [hat] at hworks
    exact ⟨r, ⟨hring.le, hring.room, hring.idx, hring.dev, hring.full, hring.free⟩, hworks,
      Cached.line_invalidate _ _⟩
  | invalidated =>
    rw [hat] at hworks
    obtain ⟨hhandled, hnone⟩ := hworks
    have hholds := Cached.holds_fetch hnone
    have hmem : (g.ring.load LINE g.ps_gem_rx_idx).mem = g.ring.mem := Cached.mem_fetch _ _
    have hget : (g.ring.load LINE g.ps_gem_rx_idx).get LINE g.ps_gem_rx_idx =
        g.ring.mem g.ps_gem_rx_idx := Cached.get_of_holds hholds
    have hring' {next : RxAt} :
        ({ g with ring := g.ring.load LINE g.ps_gem_rx_idx, at_ := next } : Gem).Ring r := by
      refine ⟨hring.le, hring.room, hring.idx, hring.dev, ?_, ?_⟩
      all_goals
        dsimp only
        rw [hmem]
      · exact hring.full
      · exact hring.free
    dsimp only
    rw [hget]
    by_cases hnew : (g.ring.mem g.ps_gem_rx_idx).addr &&& GEM_RXBUF_NEW = 0
    · rw [if_pos hnew]
      exact ⟨r, hring', hhandled⟩
    · rw [if_neg hnew]
      refine ⟨r, hring', hhandled, hring.new_iff.mp hnew, g.ring.mem, hholds, fun a _ => ?_⟩
      dsimp only
      rw [hmem]
      exact (ite_self _).symm
  | seen =>
    rw [hat] at hworks
    obtain ⟨hhandled, hr, cells, hholds, hcells⟩ := hworks
    obtain ⟨stat, frame, hget, hmem, hbuf⟩ := hring.head hr
    have hstat : (g.ring.get LINE g.ps_gem_rx_idx).stat = stat := by
      rw [Cached.get_of_holds hholds, hcells _ rfl, if_pos rfl, hmem]
      rfl
    have htaken : g.handled ++ [(stat, frame)] = g.done.take (r + 1) := by
      rw [hhandled, List.take_add_one, hget]
      rfl
    dsimp only
    rw [hstat]
    unfold handle
    dsimp only
    rw [hbuf]
    split
    · exact ⟨r, ⟨hring.le, hring.room, hring.idx, hring.dev, hring.full, hring.free⟩, htaken, hr,
        cells, hholds, hcells⟩
    · exact ⟨r, ⟨hring.le, hring.room, hring.idx, hring.dev, hring.full, hring.free⟩, htaken, hr,
        cells, hholds, hcells⟩
  | handled =>
    rw [hat] at hworks
    obtain ⟨hhandled, hr, hline⟩ := hworks
    exact ⟨r, hring.store _ _, hhandled, hr, hline.store _ _⟩
  | addrWritten =>
    rw [hat] at hworks
    obtain ⟨hhandled, hr, hline⟩ := hworks
    exact ⟨r, hring.store _ _, hhandled, hr, hline.store _ _⟩
  | statWritten =>
    rw [hat] at hworks
    obtain ⟨hhandled, hr, hline⟩ := hworks
    exact ⟨r + 1, hring.writeback hr hline, hhandled⟩

/-! ## The steps of the device -/

theorem Ring.complete {g : Gem} {r : Nat} (h : g.Ring r) {stat : BitVec 32} {frame : Frame}
    (hposs : g.Possible (.complete stat frame)) : (g.complete stat frame).Ring r := by
  have hle := h.le
  have hposs : (g.ring.mem g.dev_idx).addr &&& GEM_RXBUF_NEW = 0 := hposs
  have hroom : g.done.length < r + GEM_RX_COUNT := by
    by_contra hnot
    have hlen : g.done.length = r + GEM_RX_COUNT := by
      have := h.room
      omega
    have hsame : g.dev_idx = g.ps_gem_rx_idx := by
      rw [h.dev, h.idx, hlen, Nat.add_mod_right]
    rw [hsame] at hposs
    exact h.new_iff.mpr (by rw [hlen]; unfold GEM_RX_COUNT; omega) hposs
  have hfree := h.free g.done.length (Nat.le_refl _) hroom
  rw [← h.dev] at hfree
  have hlen : (g.complete stat frame).done.length = g.done.length + 1 := by
    change (g.done ++ [(stat, frame)]).length = _
    rw [List.length_append]
    rfl
  have hmem (a : Nat) : (g.complete stat frame).ring.mem a =
      if a = g.dev_idx then ⟨(g.ring.mem g.dev_idx).addr ||| GEM_RXBUF_NEW, stat⟩
      else g.ring.mem a := rfl
  have hbuf (a : Nat) : (g.complete stat frame).buf a =
      if a = g.dev_idx then frame else g.buf a := rfl
  refine ⟨by omega, by omega, h.idx, ?_, fun k stat' frame' hk hget => ?_, fun k hk hlt => ?_⟩
  · rw [hlen]
    change (if (g.ring.mem g.dev_idx).addr &&& GEM_RXBUF_WRAP = 0 then g.dev_idx + 1 else 0) = _
    rw [hfree, h.dev]
    by_cases hwrap : g.done.length % GEM_RX_COUNT = GEM_RX_COUNT - 1
    · rw [if_neg fun hzero => (freeAddr_wrap _ _).mp hzero hwrap]
      unfold GEM_RX_COUNT at *
      omega
    · rw [if_pos ((freeAddr_wrap _ _).mpr hwrap)]
      unfold GEM_RX_COUNT at *
      omega
  · have hget : (g.done ++ [(stat, frame)])[k]? = some (stat', frame') := hget
    obtain ⟨hk', -⟩ := List.getElem?_eq_some_iff.mp hget
    rw [List.length_append] at hk'
    have hk' : k < g.done.length + 1 := hk'
    rw [hmem, hbuf]
    by_cases hlast : k = g.done.length
    · rw [hlast, List.getElem?_append_right (Nat.le_refl _), Nat.sub_self] at hget
      obtain ⟨rfl, rfl⟩ := Prod.mk.inj (Option.some.inj hget)
      rw [hlast, ← h.dev, if_pos rfl, if_pos rfl, hfree]
      exact ⟨rfl, rfl⟩
    · rw [List.getElem?_append_left (by omega)] at hget
      have hne : k % GEM_RX_COUNT ≠ g.dev_idx := by
        rw [h.dev]
        exact Ring.place_ne (by omega) (by omega)
      rw [if_neg hne, if_neg hne]
      exact h.full k stat' frame' hk hget
  · rw [hlen] at hk
    have hne : k % GEM_RX_COUNT ≠ g.dev_idx := by
      rw [h.dev]
      exact (Ring.place_ne (by omega) (by omega)).symm
    rw [hmem, if_neg hne]
    exact h.free k (by omega) hlt

theorem Line.complete {g : Gem} {own : gem_bd → gem_bd} (h : g.Line own) {stat : BitVec 32}
    {frame : Frame} (hline : g.dev_idx / LINE ≠ g.ps_gem_rx_idx / LINE) :
    (g.complete stat frame).Line own := by
  obtain ⟨cells, hholds, hcells⟩ := h
  refine ⟨cells, hholds, fun a ha => ?_⟩
  have ha : a / LINE = g.ps_gem_rx_idx / LINE := ha
  have hne : a ≠ g.dev_idx := fun heq => hline (by rw [← heq]; exact ha)
  have hmem : (g.complete stat frame).ring.mem a = g.ring.mem a := if_neg hne
  rw [hmem]
  exact hcells a ha

theorem inv_complete {g : Gem} (h : g.Inv) {stat : BitVec 32} {frame : Frame}
    (hposs : g.Possible (.complete stat frame)) (hsound : g.Sound (.complete stat frame)) :
    (g.complete stat frame).Inv := by
  obtain ⟨r, hring, hworks⟩ := h
  have hle := hring.le
  have htake {m : Nat} (hm : m ≤ g.done.length) :
      (g.done ++ [(stat, frame)]).take m = g.done.take m := List.take_append_of_le_length hm
  have hlt (hr : r < g.done.length) : r < (g.complete stat frame).done.length := by
    change r < (g.done ++ [(stat, frame)]).length
    rw [List.length_append]
    omega
  have hsound : g.Busy → g.dev_idx / LINE ≠ g.ps_gem_rx_idx / LINE := hsound
  refine ⟨r, hring.complete hposs, ?_⟩
  unfold Works Busy at *
  change match g.at_ with
    | .idle => _ | .invalidated => _ | .seen => _ | .handled => _ | .addrWritten => _
    | .statWritten => _
  cases hat : g.at_ with
  | idle =>
    rw [hat] at hworks
    exact hworks.trans (htake hle).symm
  | invalidated =>
    rw [hat] at hworks
    exact ⟨hworks.1.trans (htake hle).symm, hworks.2⟩
  | seen =>
    rw [hat] at hworks
    exact ⟨hworks.1.trans (htake hle).symm, hlt hworks.2.1,
      hworks.2.2.complete (hsound (.inl hat))⟩
  | handled =>
    rw [hat] at hworks
    exact ⟨hworks.1.trans (htake hworks.2.1).symm, hlt hworks.2.1,
      hworks.2.2.complete (hsound (.inr (.inl hat)))⟩
  | addrWritten =>
    rw [hat] at hworks
    exact ⟨hworks.1.trans (htake hworks.2.1).symm, hlt hworks.2.1,
      hworks.2.2.complete (hsound (.inr (.inr (.inl hat))))⟩
  | statWritten =>
    rw [hat] at hworks
    exact ⟨hworks.1.trans (htake hworks.2.1).symm, hlt hworks.2.1,
      hworks.2.2.complete (hsound (.inr (.inr (.inr hat))))⟩

/-! ## Runs -/

theorem inv_start (phys : Nat → BitVec 32) (ring : Cached gem_bd) (buf : Nat → Frame) :
    (start phys ring buf).Inv := by
  refine ⟨0, ⟨Nat.le_refl 0, Nat.zero_le _, rfl, rfl, fun k stat frame _ hget => (nomatch hget),
    fun k _ hk => ?_⟩, rfl⟩
  have hlt : k % GEM_RX_COUNT < GEM_RX_COUNT := Nat.mod_lt _ (by decide)
  exact congrArg gem_bd.addr (mem_init phys ring hlt)

theorem Inv.faithful {g : Gem} (h : g.Inv) : g.Faithful := by
  obtain ⟨r, hring, hworks⟩ := h
  have hle := hring.le
  have hhandled : ∃ m, r ≤ m ∧ m ≤ g.done.length ∧ g.handled = g.done.take m := by
    unfold Works at hworks
    cases hat : g.at_ with
    | idle => rw [hat] at hworks; exact ⟨r, Nat.le_refl r, hle, hworks⟩
    | invalidated => rw [hat] at hworks; exact ⟨r, Nat.le_refl r, hle, hworks.1⟩
    | seen => rw [hat] at hworks; exact ⟨r, Nat.le_refl r, hle, hworks.1⟩
    | handled => rw [hat] at hworks; exact ⟨r + 1, Nat.le_succ r, hworks.2.1, hworks.1⟩
    | addrWritten => rw [hat] at hworks; exact ⟨r + 1, Nat.le_succ r, hworks.2.1, hworks.1⟩
    | statWritten => rw [hat] at hworks; exact ⟨r + 1, Nat.le_succ r, hworks.2.1, hworks.1⟩
  obtain ⟨m, hrm, hm, htake⟩ := hhandled
  refine ⟨by rw [htake]; exact List.take_prefix _ _, fun k stat frame hk hget => ?_⟩
  rw [htake, List.length_take, Nat.min_eq_left hm] at hk
  exact hring.full k stat frame (Nat.le_trans hrm hk) hget

theorem run_append (g : Gem) (h t : List GemEvent) : g.run (h ++ t) = (g.run h).run t :=
  List.foldl_append

theorem inv_run {g : Gem} (hinv : g.Inv) {evs : List GemEvent}
    (hgood : Each (fun h ev => (g.run h).Possible ev ∧ (g.run h).Sound ev) evs) :
    (g.run evs).Inv :=
  @Runs.inv_of_each _ _ step Inv (fun g ev => g.Possible ev ∧ g.Sound ev) g hinv
    (by
      rintro g ev hg ⟨hp, hs⟩
      cases ev with
      | driver alloc input => exact inv_driver hg alloc input
      | complete stat frame => exact inv_complete hg hp hs)
    evs hgood

/-! ## A call with a waiting frame -/

theorem Inv.sees {g : Gem} (h : g.Inv) (hat : g.at_ = .invalidated)
    (hwait : g.handled.length < g.done.length) (alloc input : Bool) :
    (g.driver alloc input).at_ = .seen ∧ (g.driver alloc input).handled = g.handled := by
  obtain ⟨r, hring, hworks⟩ := h
  unfold Works at hworks
  rw [hat] at hworks
  obtain ⟨hhandled, hnone⟩ := hworks
  rw [hhandled, List.length_take, Nat.min_eq_left hring.le] at hwait
  have hget : (g.ring.load LINE g.ps_gem_rx_idx).get LINE g.ps_gem_rx_idx =
      g.ring.mem g.ps_gem_rx_idx := Cached.get_of_holds (Cached.holds_fetch hnone)
  unfold driver
  rw [hat]
  dsimp only
  rw [hget, if_neg (hring.new_iff.mpr hwait)]
  exact ⟨rfl, rfl⟩

theorem Inv.advances {g : Gem} (h : g.Inv)
    (hwait : g.at_ = .invalidated → g.handled.length < g.done.length) (alloc input : Bool) :
    (g.driver alloc input).at_ = next g.at_ ∧
      (g.driver alloc input).handled.length =
        g.handled.length + if g.at_ = .seen then 1 else 0 := by
  cases hat : g.at_ with
  | invalidated =>
    obtain ⟨hseen, hhandled⟩ := h.sees hat (hwait hat) alloc input
    exact ⟨hseen, congrArg List.length hhandled⟩
  | seen =>
    unfold driver handle
    rw [hat]
    dsimp only
    split
    · exact ⟨rfl, List.length_append⟩
    · exact ⟨rfl, List.length_append⟩
  | idle | handled | addrWritten | statWritten =>
    unfold driver
    rw [hat]
    exact ⟨rfl, rfl⟩

theorem done_driver (g : Gem) (alloc input : Bool) : (g.driver alloc input).done = g.done := by
  unfold driver handle
  cases g.at_ with
  | invalidated | seen =>
    dsimp only
    split <;> rfl
  | idle | handled | addrWritten | statWritten => rfl

theorem looks_or_handles {n : Nat} (hn : n < 6) :
    (next^[n] .idle = .invalidated → n ≤ 2) ∧
      ((if n ≤ 2 then 0 else 1) + if next^[n] .idle = .seen then 1 else 0) =
        if n + 1 ≤ 2 then 0 else 1 := by
  revert n
  decide

theorem call_run {g : Gem} (hinv : g.Inv) (hat : g.at_ = .idle)
    (hwait : g.handled.length < g.done.length) {evs : List GemEvent}
    (hgood : Each (fun h ev => (g.run h).Possible ev ∧ (g.run h).Sound ev) evs)
    (hsteps : driverSteps evs ≤ 6) :
    g.done.length ≤ (g.run evs).done.length ∧
      (g.run evs).at_ = next^[driverSteps evs] .idle ∧
      (g.run evs).handled.length = g.handled.length + if driverSteps evs ≤ 2 then 0 else 1 := by
  induction evs using List.reverseRecOn with
  | nil => exact ⟨Nat.le_refl _, hat, rfl⟩
  | append_singleton evs ev ih =>
    obtain ⟨hbefore, -⟩ := Runs.each_snoc.mp hgood
    cases ev with
    | complete stat frame =>
      have hcount : driverSteps (evs ++ [.complete stat frame]) = driverSteps evs :=
        List.countP_append.trans (Nat.add_zero _)
      rw [hcount] at hsteps ⊢
      obtain ⟨hdone, hat', hhandled⟩ := ih hbefore hsteps
      rw [run_append]
      refine ⟨?_, hat', hhandled⟩
      change _ ≤ ((g.run evs).done ++ [(stat, frame)]).length
      rw [List.length_append]
      exact Nat.le_trans hdone (Nat.le_add_right _ _)
    | driver alloc input =>
      have hcount : driverSteps (evs ++ [.driver alloc input]) = driverSteps evs + 1 :=
        List.countP_append
      rw [hcount] at hsteps ⊢
      obtain ⟨hdone, hat', hhandled⟩ := ih hbefore (by omega)
      have hlooks : (g.run evs).at_ = .invalidated →
          (g.run evs).handled.length < (g.run evs).done.length := by
        intro hinvalidated
        rw [hat'] at hinvalidated
        rw [hhandled, if_pos ((looks_or_handles (by omega)).1 hinvalidated)]
        omega
      obtain ⟨hnext, hlength⟩ := (inv_run hinv hbefore).advances hlooks alloc input
      rw [run_append, Function.iterate_succ_apply', ← hat']
      refine ⟨?_, hnext, hlength.trans ?_⟩
      · exact hdone.trans_eq (congrArg List.length (done_driver _ alloc input)).symm
      · rw [hhandled, hat', Nat.add_assoc, (looks_or_handles (by omega)).2]

/-- In a run in which the device leaves alone the line that the driver works on, no frame is lost
or taken twice, and a call of `ps_gem_rx_one` that begins when a frame waits takes the next one. -/
theorem frames_taken_once (phys : Nat → BitVec 32) (ring : Cached gem_bd) (buf : Nat → Frame)
    (evs : List GemEvent)
    (hposs : Each (fun h ev => ((start phys ring buf).run h).Possible ev) evs)
    (hsound : Each (fun h ev => ((start phys ring buf).run h).Sound ev) evs) :
    (∀ h t, evs = h ++ t → ((start phys ring buf).run h).Faithful) ∧
    ∀ h call t, evs = h ++ (call ++ t) → driverSteps call = 6 →
      ((start phys ring buf).run h).at_ = .idle →
      ((start phys ring buf).run h).handled.length < ((start phys ring buf).run h).done.length →
      ((start phys ring buf).run (h ++ call)).at_ = .idle ∧
        ((start phys ring buf).run (h ++ call)).handled =
          ((start phys ring buf).run (h ++ call)).done.take
            (((start phys ring buf).run h).handled.length + 1) := by
  have hgood : Each (fun h ev => ((start phys ring buf).run h).Possible ev ∧
      ((start phys ring buf).run h).Sound ev) evs :=
    fun h ev t hevs => ⟨hposs h ev t hevs, hsound h ev t hevs⟩
  have hfaithful (h t : List GemEvent) (hevs : evs = h ++ t) :
      ((start phys ring buf).run h).Faithful :=
    (inv_run (inv_start phys ring buf) (hgood.front hevs)).faithful
  refine ⟨hfaithful, fun h call t hevs hsix hat hwait => ?_⟩
  have hcall : Each (fun g ev => (((start phys ring buf).run h).run g).Possible ev ∧
      (((start phys ring buf).run h).run g).Sound ev) call := by
    intro g ev u hg
    rw [← run_append]
    exact hgood (h ++ g) ev (u ++ t) (by rw [hevs, hg]; simp)
  obtain ⟨-, hidle, hlength⟩ :=
    call_run (inv_run (inv_start phys ring buf) (hgood.front hevs)) hat hwait hcall
      (Nat.le_of_eq hsix)
  rw [hsix] at hidle hlength
  have hprefix := (hfaithful (h ++ call) t (by rw [hevs, List.append_assoc])).isPrefix
  rw [List.prefix_iff_eq_take.mp hprefix, run_append, hlength]
  exact ⟨hidle, rfl⟩

/-- A ring with buffers of 1536 bytes, before any frame. -/
def fresh : Gem :=
  start (fun i => BitVec.ofNat 32 (0x01100000 + 1536 * i)) ⟨fun _ => ⟨0, 0⟩, fun _ => none⟩
    fun _ => []

def oneFrame : List GemEvent :=
  .complete 0xc040 [1] :: List.replicate 6 (.driver true true)

instance (g : Gem) (ev : GemEvent) : Decidable (g.Possible ev) :=
  match ev with
  | .driver _ _ => inferInstanceAs (Decidable True)
  | .complete _ _ => inferInstanceAs (Decidable (_ = _))

instance (g : Gem) : Decidable g.Busy := inferInstanceAs (Decidable (_ ∨ _ ∨ _ ∨ _))

instance (g : Gem) (ev : GemEvent) : Decidable (g.Sound ev) :=
  match ev with
  | .driver _ _ => inferInstanceAs (Decidable True)
  | .complete _ _ => inferInstanceAs (Decidable (_ → _))

theorem each_possible {evs : List GemEvent}
    (h : Runs.check step (fun g ev => decide (g.Possible ev)) fresh evs = true) :
    Each (fun h ev => (fresh.run h).Possible ev) evs :=
  fun g ev t hevs => of_decide_eq_true (Runs.each_of_check h g ev t hevs)

theorem one_frame_taken :
    (fresh.run oneFrame).Faithful ∧ (fresh.run oneFrame).handled = [(0xc040, [1])] := by
  have hsound : Runs.check step (fun g ev => decide (g.Sound ev)) fresh oneFrame = true := by
    decide
  obtain ⟨hfaithful, htakes⟩ := frames_taken_once _ _ _ oneFrame (each_possible (by decide))
    (fun g ev t hevs => of_decide_eq_true (Runs.each_of_check hsound g ev t hevs))
  have htaken := (htakes [.complete 0xc040 [1]] (List.replicate 6 (.driver true true)) [] rfl rfl
    rfl (Nat.zero_lt_one)).2
  exact ⟨hfaithful oneFrame [] (List.append_nil _).symm, htaken.trans (by decide)⟩

/-- The device completes a second frame after the driver read the line of the first. -/
def secondFrame : List GemEvent :=
  .complete 0xc040 [1] :: List.replicate 2 (.driver true true) ++
    .complete 0xc040 [2] :: List.replicate 4 (.driver true true)

/-- The write back of the first descriptor takes away the new bit of the second. -/
theorem second_frame_lost :
    Each (fun h ev => (fresh.run h).Possible ev) secondFrame ∧
      ¬ (fresh.run secondFrame).Faithful := by
  refine ⟨each_possible (by decide), fun h => ?_⟩
  have hhandled : (fresh.run secondFrame).handled.length = 1 := by decide
  have hdone : (fresh.run secondFrame).done[1]? = some (0xc040, [2]) := by decide
  have hstands := (h.stands 1 0xc040 [2] (by rw [hhandled]) hdone).1
  have hmem : (fresh.run secondFrame).ring.mem 1 = ⟨freeAddr (fresh.run secondFrame).phys 1, 0⟩ := by
    decide
  change (fresh.run secondFrame).ring.mem 1 =
    ⟨freeAddr (fresh.run secondFrame).phys 1 ||| GEM_RXBUF_NEW, 0xc040⟩ at hstands
  rw [hmem] at hstands
  exact absurd (congrArg gem_bd.stat hstands) (by decide)

end Gem

end gem

end vibeos.net
