-- The bytes that the host reads over JTAG, against those that the transmit queue accepted.
import Vibeos.JtagConsole

namespace vibeos.fpga

open Runs (Each)

/-! ## The two clock domains -/

/-- The console and the JTAG register. `scan` counts the shift clocks since the capture of a scan
that is not yet at its update, `words` are the words captured and `bits` the bits that the host read
since the last capture. `accepted` are the bytes that entered the queue, and `dropped` says of each
byte that did not whether the queue was full. -/
structure Link where
  c : Console
  j : jtag_console_tx
  scan : Option Nat
  words : List (BitVec 18)
  bits : List Bool
  accepted : List (BitVec 8)
  dropped : List Bool

/-- An edge of the system clock, or of the clocks of the JTAG side. -/
inductive LinkEvent where
  | clk (axi : BusMaster) (net_irq_event debug_irq_clear : Bool)
  | capture
  | shift (tdi : Bool)
  | update

namespace Link

def reset (tx_fifo_q pl_uart_fifo_q : BitVec 8 → BitVec 8) : Link :=
  ⟨.reset tx_fifo_q pl_uart_fifo_q, .reset, none, [], [], [], []⟩

/-- The inputs of the console, with no pop from the processing system. -/
def input (s : Link) (axi : BusMaster) (net_irq_event debug_irq_clear : Bool) : ConsoleIn :=
  ⟨axi, net_irq_event, debug_irq_clear, false, s.j.pop_toggle⟩

def clk (s : Link) (i : ConsoleIn) : Link :=
  match s.c.written i with
  | some byte =>
    if (s.c.txRead i).Room then { s with c := s.c.step i, accepted := s.accepted ++ [byte] }
    else { s with c := s.c.step i, dropped := s.dropped ++ [decide ((s.c.txRead i).count = 256)] }
  | none => { s with c := s.c.step i }

def step (s : Link) : LinkEvent → Link
  | .clk axi net_irq_event debug_irq_clear => s.clk (s.input axi net_irq_event debug_irq_clear)
  | .capture =>
    { s with j := s.j.capture s.c, scan := some 0, words := s.words ++ [s.j.word], bits := [] }
  | .shift tdi =>
    { s with
      j := s.j.shift s.c tdi
      scan := s.scan.map (· + 1)
      bits := s.bits ++ [s.j.tdo_w] }
  | .update => { s with j := s.j.update, scan := none }

/-- The pop that the last update asked for has taken effect. -/
def Settled (s : Link) : Prop :=
  s.c.tx_pop_meta_q = s.j.pop_toggle ∧ s.c.tx_pop_sync_q = s.j.pop_toggle ∧
    s.c.tx_pop_last_q = s.j.pop_toggle

/-- A scan is a capture, at least 18 shift clocks, and an update, and its pop has taken effect by
the seventeenth shift clock of the next scan. -/
def Possible (s : Link) : LinkEvent → Prop
  | .clk _ _ _ => True
  | .capture => s.scan = none
  | .shift _ => ∃ n, s.scan = some n ∧ (16 ≤ n → s.Settled)
  | .update => ∃ n, s.scan = some n ∧ 18 ≤ n

/-! ## What the host makes of it -/

/-- The valid entries among the captured words, with their sequence numbers. -/
def entry (word : BitVec 18) : Option (BitVec 8 × BitVec 8) :=
  if word.getLsbD 16 then some (word.extractLsb' 8 8, word.extractLsb' 0 8) else none

/-- One more entry behind the last sequence number and the bytes so far. -/
def merge (x : Option (BitVec 8) × List (BitVec 8)) (e : BitVec 8 × BitVec 8) :
    Option (BitVec 8) × List (BitVec 8) :=
  if x.1 = some e.1 then x else (some e.1, x.2 ++ [e.2])

/-- The bytes of the entries, with consecutive entries of one sequence number merged. -/
def merged (words : List (BitVec 18)) : Option (BitVec 8) × List (BitVec 8) :=
  (words.filterMap entry).foldl merge (none, [])

def delivered (s : Link) : List (BitVec 8) := (merged s.words).2

/-- The accepted byte of this number stands in the queue. -/
def InFifo (s : Link) (n : Nat) : Prop :=
  s.accepted.length ≤ n + s.c.tx_count_q.toNat ∧
    s.accepted[n]? = some (s.c.tx_fifo_q (BitVec.ofNat 8 n))

/-- The accepted byte of this number stands in the synchroniser, for the next capture. -/
def Sampled (s : Link) (n : Nat) : Prop :=
  s.scan = none ∧ s.j.tx_valid_sync_q = true ∧ s.j.tx_seq_sync_q = BitVec.ofNat 8 n ∧
    s.accepted[n]? = some s.j.tx_data_sync_q

/-- The host has the first of the accepted bytes, each of the others is on its way, the host reads
what was captured, and a byte was only dropped when the queue was full. -/
structure Faithful (s : Link) : Prop where
  isPrefix : s.delivered <+: s.accepted
  kept : ∀ n, s.delivered.length ≤ n → n < s.accepted.length → s.InFifo n ∨ s.Sampled n
  read : ∀ k, k < 18 → k < s.bits.length →
    s.bits[k]? = s.words.getLast?.map fun word => word.getLsbD k
  dropped : ∀ full ∈ s.dropped, full = true
  flagged : s.dropped ≠ [] → s.c.uart_overflow_q = true

/-- The event reaches no defect. While a pop is due no byte enters the empty queue, and when the
update asks for one after a scan that found the queue empty at last, it is still empty. The queue of
the UART is not full before that of the JTAG side. -/
def Sound (s : Link) : LinkEvent → Prop
  | .clk axi net_irq_event debug_irq_clear =>
    s.c.written (s.input axi net_irq_event debug_irq_clear) ≠ none →
      ¬ (s.c.tx_pop_last_q ≠ s.j.pop_toggle ∧ s.c.tx_pop_event_w = false ∧ s.c.tx_count_q = 0) ∧
      (s.c.pl_uart_full_w = true → s.c.u_simple_pl_uart_tx.tx_busy = true →
        s.c.tx_full_w = true ∧ s.c.tx_pop_event_w = false)
  | .update =>
    s.j.captured_valid_q = true → s.j.tx_valid_sync_q = false → s.c.tx_count_q = 0
  | .capture | .shift _ => True

end Link

/-! ## The queue -/

namespace Console

/-- The queue holds the accepted bytes from the one of this number on. -/
structure Tx.Holds (x : Tx) (acc : List (BitVec 8)) (p : Nat) : Prop where
  count : p + x.count.toNat = acc.length
  le : x.count.toNat ≤ 256
  rd : x.rd_ptr = BitVec.ofNat 8 p
  wr : x.wr_ptr = BitVec.ofNat 8 acc.length
  at_ : ∀ n, p ≤ n → n < acc.length → acc[n]? = some (x.fifo (BitVec.ofNat 8 n))

theorem Tx.Holds.enqueue {x : Tx} {acc : List (BitVec 8)} {p : Nat} (h : x.Holds acc p)
    (hroom : x.Room) (byte : BitVec 8) : (x.enqueue byte).Holds (acc ++ [byte]) p := by
  have hcount := h.count
  have hle := h.le
  have hlt : x.count.toNat < 256 := by
    have hne : x.count.toNat ≠ 256 := fun heq => hroom.1 (BitVec.eq_of_toNat_eq heq)
    omega
  unfold Tx.enqueue
  rw [if_pos hroom]
  have hsucc : (x.count + 1).toNat = x.count.toNat + 1 := by
    rw [BitVec.toNat_add]
    change (x.count.toNat + 1) % 2 ^ 9 = _
    omega
  refine ⟨?_, ?_, h.rd, ?_, fun n hn hlen => ?_⟩
  · dsimp only
    rw [hsucc, List.length_append, ← hcount]
    rfl
  · dsimp only
    omega
  · dsimp only
    rw [h.wr, List.length_append]
    exact (BitVec.ofNat_add _ _).symm
  · rw [List.length_append] at hlen
    have hlen : n < acc.length + 1 := hlen
    dsimp only [poke]
    by_cases hlast : n = acc.length
    · rw [hlast, h.wr, if_pos rfl, List.getElem?_append_right (Nat.le_refl _), Nat.sub_self]
      rfl
    · have hne : BitVec.ofNat 8 n ≠ x.wr_ptr := by
        rw [h.wr]
        intro heq
        have hmod := congrArg BitVec.toNat heq
        rw [BitVec.toNat_ofNat, BitVec.toNat_ofNat] at hmod
        exact Ring.place_ne (by omega) (by omega) hmod
      rw [if_neg hne, List.getElem?_append_left (by omega)]
      exact h.at_ n hn (by omega)

theorem Tx.Holds.refuse {x : Tx} {acc : List (BitVec 8)} {p : Nat} (h : x.Holds acc p)
    (hroom : ¬ x.Room) (byte : BitVec 8) : (x.enqueue byte).Holds acc p := by
  unfold Tx.enqueue
  rw [if_neg hroom]
  exact ⟨h.count, h.le, h.rd, h.wr, h.at_⟩

theorem Tx.Holds.drain {x : Tx} {acc : List (BitVec 8)} {p : Nat} (h : x.Holds acc p)
    (busy : Bool) : (x.drain busy).Holds acc p := by
  unfold Tx.drain
  split
  · exact ⟨h.count, h.le, h.rd, h.wr, h.at_⟩
  · exact h

theorem Tx.Holds.zero_iff {x : Tx} {acc : List (BitVec 8)} {p : Nat} (h : x.Holds acc p) :
    x.count = 0 ↔ p = acc.length := by
  have hcount := h.count
  constructor
  · intro hzero
    rw [hzero] at hcount
    exact hcount
  · intro hp
    apply BitVec.eq_of_toNat_eq
    change x.count.toNat = 0
    omega

theorem Tx.Holds.dequeue {x : Tx} {acc : List (BitVec 8)} {p : Nat} (h : x.Holds acc p)
    (pop : Bool) :
    (x.dequeue pop).Holds acc (if pop = true ∧ p < acc.length then p + 1 else p) := by
  have hcount := h.count
  have hle := h.le
  unfold Tx.dequeue
  by_cases hpop : pop = true ∧ p < acc.length
  · have hne : x.count ≠ 0 := fun hzero => by
      have := h.zero_iff.mp hzero
      omega
    have hpos : x.count.toNat ≠ 0 := fun hzero => hne (BitVec.eq_of_toNat_eq hzero)
    rw [if_pos hpop, if_pos (by rw [hpop.1, decide_eq_true hne]; rfl)]
    have hpred : (x.count - 1).toNat = x.count.toNat - 1 := by
      rw [BitVec.toNat_sub]
      change (2 ^ 9 - 1 + x.count.toNat) % 2 ^ 9 = _
      omega
    refine ⟨?_, ?_, ?_, h.wr, fun n hn hlen => h.at_ n (by omega) hlen⟩
    · dsimp only
      omega
    · dsimp only
      omega
    · dsimp only
      rw [h.rd]
      exact (BitVec.ofNat_add _ _).symm
  · rw [if_neg hpop]
    have hno : ¬ (pop && decide (x.count ≠ 0)) = true := by
      rw [Bool.and_eq_true, decide_eq_true_eq]
      rintro ⟨hp, hne⟩
      have hge : ¬ p < acc.length := fun hlt => hpop ⟨hp, hlt⟩
      exact hne (h.zero_iff.mpr (by omega))
    rw [if_neg hno]
    exact h

/-- The bytes that enter the queue at a clock edge. -/
def accepts (c : Console) (i : ConsoleIn) : List (BitVec 8) :=
  match c.written i with
  | some byte => if (c.txRead i).Room then [byte] else []
  | none => []

theorem Tx.Holds.step {c : Console} {acc : List (BitVec 8)} {p : Nat} (h : c.tx.Holds acc p)
    (i : ConsoleIn) :
    (c.step i).tx.Holds (acc ++ c.accepts i)
      (if (c.tx_pop_event_w || i.ps_console_pop) = true ∧ p < acc.length then p + 1 else p) := by
  have hread := (h.drain c.u_simple_pl_uart_tx.tx_busy).dequeue (c.tx_pop_event_w || i.ps_console_pop)
  rw [tx_step]
  unfold accepts
  cases c.written i with
  | none =>
    rw [List.append_nil]
    exact hread
  | some byte =>
    dsimp only
    by_cases hroom : (c.txRead i).Room
    · rw [if_pos hroom]
      exact hread.enqueue hroom byte
    · rw [if_neg hroom, List.append_nil]
      exact hread.refuse hroom byte

end Console

namespace Link

/-! ## The invariant -/

/-- The synchronised head of the queue, if there is one, is the accepted byte of this number. -/
def Heads (acc : List (BitVec 8)) (valid : Bool) (seq data : BitVec 8) (h : Nat) : Prop :=
  valid = true → seq = BitVec.ofNat 8 h ∧ acc[h]? = some data

/-- The pop toggle on its way through the synchroniser. -/
structure Chain (c : Console) (toggle : Bool) : Prop where
  settled : c.tx_pop_last_q = toggle → c.tx_pop_meta_q = toggle ∧ c.tx_pop_sync_q = toggle
  flying : c.tx_pop_last_q ≠ toggle → c.tx_pop_meta_q ≠ toggle → c.tx_pop_sync_q ≠ toggle

/-- Outside of a scan, with `p` bytes popped and `d` delivered. The synchroniser has the head before
a pop that is due, or that is done. -/
structure Idle (s : Link) (p d : Nat) : Prop where
  flying : s.c.tx_pop_last_q ≠ s.j.pop_toggle →
    Heads s.accepted s.j.tx_valid_sync_q s.j.tx_seq_sync_q s.j.tx_data_sync_q p ∧
      (s.j.tx_valid_sync_q = true → d = p ∨ d = p + 1) ∧
      (s.j.tx_valid_sync_q = false → d = p ∧ p = s.accepted.length)
  settled : s.c.tx_pop_last_q = s.j.pop_toggle →
    (∃ h, p = h + 1 ∧ s.j.tx_valid_sync_q = true ∧ (d = h ∨ d = h + 1) ∧
      Heads s.accepted s.j.tx_valid_sync_q s.j.tx_seq_sync_q s.j.tx_data_sync_q h) ∨
    (d = p ∧ Heads s.accepted s.j.tx_valid_sync_q s.j.tx_seq_sync_q s.j.tx_data_sync_q p)

/-- In a scan after `n` shift clocks. -/
structure Scanning (s : Link) (n p d : Nat) : Prop where
  flying : s.c.tx_pop_last_q ≠ s.j.pop_toggle → n ≤ 16 ∧
    (s.j.captured_valid_q = true → d = p + 1) ∧
      (s.j.captured_valid_q = false → d = p ∧ p = s.accepted.length)
  settled : s.c.tx_pop_last_q = s.j.pop_toggle →
    (d = p ∨ d = p + 1) ∧ (s.j.captured_valid_q = false → d = p)
  meta_ : 17 ≤ n →
    Heads s.accepted s.j.tx_valid_meta_q s.j.tx_seq_meta_q s.j.tx_data_meta_q p ∧
      (d = p + 1 → s.j.tx_valid_meta_q = true)
  sync : 18 ≤ n →
    Heads s.accepted s.j.tx_valid_sync_q s.j.tx_seq_sync_q s.j.tx_data_sync_q p ∧
      (d = p + 1 → s.j.tx_valid_sync_q = true)

/-- What the host has after `d` bytes. -/
def last (d : Nat) : Option (BitVec 8) := if d = 0 then none else some (BitVec.ofNat 8 (d - 1))

structure At (s : Link) (p d : Nat) : Prop where
  holds : s.c.tx.Holds s.accepted p
  merged : merged s.words = (last d, s.accepted.take d)
  d_le : d ≤ s.accepted.length
  chain : Chain s.c s.j.pop_toggle
  idle : s.scan = none → s.Idle p d
  scanning : ∀ n, s.scan = some n → s.Scanning n p d

/-- The bits that the host read are those of the captured word, and the others still stand in the
shift register. -/
structure Reads (s : Link) : Prop where
  bits : ∀ k, k < 18 → k < s.bits.length →
    s.bits[k]? = s.words.getLast?.map fun word => word.getLsbD k
  rest : ∀ n, s.scan = some n → n = s.bits.length ∧ s.words ≠ [] ∧
    ∀ k, k + n < 18 → some (s.j.shift_reg_q.getLsbD k) =
      s.words.getLast?.map fun word => word.getLsbD (k + n)

structure Drops (s : Link) : Prop where
  full : ∀ full ∈ s.dropped, full = true
  flagged : s.dropped ≠ [] → s.c.uart_overflow_q = true
  pl_le : s.c.pl_uart_count_q.toNat ≤ 256

theorem Heads.append {acc : List (BitVec 8)} {valid : Bool} {seq data : BitVec 8} {h : Nat}
    (hh : Heads acc valid seq data h) (more : List (BitVec 8)) :
    Heads (acc ++ more) valid seq data h := by
  intro hvalid
  obtain ⟨hseq, hdata⟩ := hh hvalid
  obtain ⟨hlt, -⟩ := List.getElem?_eq_some_iff.mp hdata
  exact ⟨hseq, by rw [List.getElem?_append_left hlt]; exact hdata⟩

theorem Heads.lt {acc : List (BitVec 8)} {seq data : BitVec 8} {h : Nat}
    (hh : Heads acc true seq data h) : h < acc.length :=
  (List.getElem?_eq_some_iff.mp (hh rfl).2).1

theorem heads_now {c : Console} {acc : List (BitVec 8)} {p : Nat} (h : c.tx.Holds acc p) :
    Heads acc c.tx_valid_w c.tx_rd_ptr_q c.tx_data_w p ∧
      (p < acc.length → c.tx_valid_w = true) := by
  have hiff : c.tx_valid_w = true ↔ p < acc.length := by
    have hcount := h.count
    unfold Console.tx_valid_w
    rw [decide_eq_true_eq, ne_eq]
    have hzero : c.tx_count_q = 0 ↔ p = acc.length := h.zero_iff
    rw [hzero]
    omega
  refine ⟨fun hvalid => ⟨h.rd, ?_⟩, hiff.mpr⟩
  have hrd : c.tx_rd_ptr_q = BitVec.ofNat 8 p := h.rd
  unfold Console.tx_data_w
  rw [hrd]
  exact h.at_ p (Nat.le_refl _) (hiff.mp hvalid)

/-! ## A clock edge -/

theorem clk_accepted (s : Link) (i : ConsoleIn) :
    (s.clk i).accepted = s.accepted ++ s.c.accepts i := by
  unfold clk Console.accepts
  cases s.c.written i with
  | none => exact (List.append_nil _).symm
  | some byte =>
    dsimp only
    split
    · rfl
    · exact (List.append_nil _).symm

theorem clk_rest (s : Link) (i : ConsoleIn) :
    (s.clk i).c = s.c.step i ∧ (s.clk i).j = s.j ∧ (s.clk i).scan = s.scan ∧
      (s.clk i).words = s.words ∧ (s.clk i).bits = s.bits := by
  unfold clk
  cases s.c.written i with
  | none => exact ⟨rfl, rfl, rfl, rfl, rfl⟩
  | some byte =>
    dsimp only
    split <;> exact ⟨rfl, rfl, rfl, rfl, rfl⟩

theorem clk_queue {s : Link} {p : Nat} (h : s.c.tx.Holds s.accepted p) (i : ConsoleIn)
    (hps : i.ps_console_pop = false) :
    ∃ more, (s.clk i).accepted = s.accepted ++ more ∧
      (more ≠ [] → s.c.written i ≠ none) ∧
      (s.clk i).c.tx.Holds (s.clk i).accepted
        (if s.c.tx_pop_event_w = true ∧ p < s.accepted.length then p + 1 else p) := by
  have hstep := h.step i
  rw [hps, Bool.or_false] at hstep
  refine ⟨s.c.accepts i, clk_accepted s i, fun hmore hnone => hmore ?_, ?_⟩
  · unfold Console.accepts
    rw [hnone]
  · rw [clk_accepted, (clk_rest s i).1]
    exact hstep

theorem chain_step {c : Console} {toggle : Bool} (h : Chain c toggle) (i : ConsoleIn)
    (htoggle : i.tx_pop_toggle_w = toggle) :
    Chain (c.step i) toggle ∧
      (c.tx_pop_event_w = true →
        c.tx_pop_last_q ≠ toggle ∧ (c.step i).tx_pop_last_q = toggle) ∧
      (c.tx_pop_event_w = false → (c.step i).tx_pop_last_q = c.tx_pop_last_q) := by
  obtain ⟨hmeta, hsync, hlast⟩ := Console.toggles_step c i
  obtain ⟨hsettled, hflying⟩ := h
  rw [htoggle] at hmeta
  unfold Console.tx_pop_event_w
  refine ⟨⟨?_, ?_⟩, ?_, ?_⟩
  all_goals
    rw [hlast]
  · rw [hmeta, hsync]
    revert hsettled hflying
    cases c.tx_pop_meta_q <;> cases c.tx_pop_sync_q <;> cases c.tx_pop_last_q <;>
      cases toggle <;> simp
  · rw [hmeta]
    exact fun _ hne => absurd rfl hne
  · revert hsettled hflying
    cases c.tx_pop_meta_q <;> cases c.tx_pop_sync_q <;> cases c.tx_pop_last_q <;>
      cases toggle <;> simp
  · cases c.tx_pop_sync_q <;> cases c.tx_pop_last_q <;> simp

theorem At.clk {s : Link} {p d : Nat} (h : s.At p d) {i : ConsoleIn}
    (hps : i.ps_console_pop = false) (htoggle : i.tx_pop_toggle_w = s.j.pop_toggle)
    (hsound : s.c.written i ≠ none →
      ¬ (s.c.tx_pop_last_q ≠ s.j.pop_toggle ∧ s.c.tx_pop_event_w = false ∧
        s.c.tx_count_q = 0)) : ∃ p', (s.clk i).At p' d := by
  obtain ⟨more, hacc, hmore, hholds⟩ := clk_queue h.holds i hps
  obtain ⟨hc, hj, hscan, hwords, -⟩ := clk_rest s i
  obtain ⟨hchain, hevent, hno⟩ := chain_step h.chain i htoggle
  have hdle := h.d_le
  have hlen : s.accepted.length ≤ (s.clk i).accepted.length := by
    rw [hacc, List.length_append]
    omega
  -- with no pop due, and with one that takes effect now or later
  have hmerged : Link.merged (s.clk i).words = (last d, (s.clk i).accepted.take d) := by
    rw [hwords, h.merged, hacc, List.take_append_of_le_length hdle]
  have hheads {valid : Bool} {seq data : BitVec 8} {k : Nat}
      (hh : Heads s.accepted valid seq data k) : Heads (s.clk i).accepted valid seq data k := by
    rw [hacc]
    exact hh.append more
  have hzero : s.c.tx_count_q = 0 ↔ p = s.accepted.length := h.holds.zero_iff
  have hquiet (hflying : s.c.tx_pop_last_q ≠ s.j.pop_toggle) (he : s.c.tx_pop_event_w = false)
      (hp : p = s.accepted.length) : more = [] := by
    by_contra hne
    exact hsound (hmore hne) ⟨hflying, he, hzero.mpr hp⟩
  cases he : s.c.tx_pop_event_w with
  | false =>
    have hlast := hno he
    have hp : (if s.c.tx_pop_event_w = true ∧ p < s.accepted.length then p + 1 else p) = p :=
      if_neg (by rw [he]; simp)
    rw [hp] at hholds
    refine ⟨p, hholds, hmerged, hdle.trans hlen, by rw [hc, hj]; exact hchain,
      fun hnone => ?_, fun n hn => ?_⟩
    · rw [hscan] at hnone
      have hidle := h.idle hnone
      refine ⟨fun hflying => ?_, fun hsettled => ?_⟩
      · rw [hc, hj, hlast] at hflying
        obtain ⟨hh, hvalid, hempty⟩ := hidle.flying hflying
        rw [hj]
        refine ⟨hheads hh, hvalid, fun hv => ?_⟩
        obtain ⟨hd, hplen⟩ := hempty hv
        rw [hacc, hquiet hflying he hplen, List.append_nil]
        exact ⟨hd, hplen⟩
      · rw [hc, hj, hlast] at hsettled
        rw [hj]
        rcases hidle.settled hsettled with ⟨k, hk, hv, hd, hh⟩ | ⟨hd, hh⟩
        · exact .inl ⟨k, hk, hv, hd, hheads hh⟩
        · exact .inr ⟨hd, hheads hh⟩
    · rw [hscan] at hn
      have hscanning := h.scanning n hn
      refine ⟨fun hflying => ?_, fun hsettled => ?_, fun hge => ?_, fun hge => ?_⟩
      · rw [hc, hj, hlast] at hflying
        obtain ⟨hle, hvalid, hempty⟩ := hscanning.flying hflying
        rw [hj]
        refine ⟨hle, hvalid, fun hv => ?_⟩
        obtain ⟨hd, hplen⟩ := hempty hv
        rw [hacc, hquiet hflying he hplen, List.append_nil]
        exact ⟨hd, hplen⟩
      · rw [hc, hj, hlast] at hsettled
        rw [hj]
        exact hscanning.settled hsettled
      · rw [hj]
        exact ⟨hheads (hscanning.meta_ hge).1, (hscanning.meta_ hge).2⟩
      · rw [hj]
        exact ⟨hheads (hscanning.sync hge).1, (hscanning.sync hge).2⟩
  | true =>
    obtain ⟨hflying, hdone⟩ := hevent he
    rw [he] at hholds
    refine ⟨_, hholds, hmerged, hdle.trans hlen, by rw [hc, hj]; exact hchain,
      fun hnone => ?_, fun n hn => ?_⟩
    · rw [hscan] at hnone
      obtain ⟨hh, hvalid, hempty⟩ := (h.idle hnone).flying hflying
      refine ⟨fun hfly => ?_, fun _ => ?_⟩
      · rw [hc, hj] at hfly
        exact absurd hdone hfly
      · rw [hj]
        cases hv : s.j.tx_valid_sync_q with
        | true =>
          rw [hv] at hh
          rw [if_pos ⟨rfl, hh.lt⟩]
          exact .inl ⟨p, rfl, rfl, hvalid hv, hheads hh⟩
        | false =>
          obtain ⟨hd, hplen⟩ := hempty hv
          rw [if_neg (by omega)]
          exact .inr ⟨hd, fun hfalse => (nomatch hfalse)⟩
    · rw [hscan] at hn
      obtain ⟨hle, hvalid, hempty⟩ := (h.scanning n hn).flying hflying
      refine ⟨fun hfly => ?_, fun _ => ?_, fun hge => ?_, fun hge => ?_⟩
      · rw [hc, hj] at hfly
        exact absurd hdone hfly
      · rw [hj]
        cases hv : s.j.captured_valid_q with
        | true =>
          have hd := hvalid hv
          rw [if_pos ⟨rfl, by omega⟩]
          exact ⟨.inl hd, fun hfalse => (nomatch hfalse)⟩
        | false =>
          obtain ⟨hd, hplen⟩ := hempty hv
          rw [if_neg (by omega)]
          exact ⟨.inl hd, fun _ => hd⟩
      · omega
      · omega

/-! ## The edges of the JTAG side -/

theorem word_bits (overflow valid : BitVec 1) (seq data : BitVec 8) (k : Nat) :
    (overflow ++ valid ++ seq ++ data).getLsbD k =
      if k < 8 then data.getLsbD k
      else if k < 16 then seq.getLsbD (k - 8)
      else if k < 17 then valid.getLsbD (k - 16)
      else overflow.getLsbD (k - 17) := by
  rw [BitVec.getLsbD_append, BitVec.getLsbD_append, BitVec.getLsbD_append]
  by_cases h8 : k < 8
  · rw [if_pos h8, if_pos h8]
  · rw [if_neg h8, if_neg h8]
    by_cases h16 : k < 16
    · rw [if_pos (by omega), if_pos h16]
    · rw [if_neg (by omega), if_neg h16, Nat.sub_sub]
      by_cases h17 : k < 17
      · rw [if_pos (by omega), if_pos h17]
      · rw [if_neg (by omega), if_neg h17, Nat.sub_sub]

theorem entry_word (j : jtag_console_tx) :
    entry j.word =
      if j.tx_valid_sync_q then some (j.tx_seq_sync_q, j.tx_data_sync_q) else none := by
  have hbits := word_bits (BitVec.ofBool j.overflow_sync_q) (BitVec.ofBool j.tx_valid_sync_q)
    j.tx_seq_sync_q (if j.tx_valid_sync_q then j.tx_data_sync_q else 0xa5#8)
  have hvalid : j.word.getLsbD 16 = j.tx_valid_sync_q := by
    refine (hbits 16).trans ?_
    cases j.tx_valid_sync_q <;> rfl
  have hseq : j.word.extractLsb' 8 8 = j.tx_seq_sync_q := by
    apply BitVec.eq_of_getLsbD_eq
    intro i hi
    rw [BitVec.getLsbD_extractLsb', decide_eq_true hi, Bool.true_and]
    refine (hbits (8 + i)).trans ?_
    rw [if_neg (by omega), if_pos (by omega), Nat.add_sub_cancel_left]
  have hdata : j.word.extractLsb' 0 8 =
      if j.tx_valid_sync_q then j.tx_data_sync_q else 0xa5#8 := by
    apply BitVec.eq_of_getLsbD_eq
    intro i hi
    rw [BitVec.getLsbD_extractLsb', decide_eq_true hi, Bool.true_and, Nat.zero_add]
    exact (hbits i).trans (if_pos hi)
  unfold entry
  rw [hvalid, hseq, hdata]
  cases j.tx_valid_sync_q <;> rfl

theorem last_ne (d : Nat) : last d ≠ some (BitVec.ofNat 8 d) := by
  unfold last
  by_cases hd : d = 0
  · rw [if_pos hd]
    exact fun h => (nomatch h)
  · rw [if_neg hd]
    intro h
    have hmod := congrArg BitVec.toNat (Option.some.inj h)
    rw [BitVec.toNat_ofNat, BitVec.toNat_ofNat] at hmod
    omega

theorem last_succ (d : Nat) : last (d + 1) = some (BitVec.ofNat 8 d) := if_neg (Nat.succ_ne_zero d)

theorem merged_capture {s : Link} {d h : Nat}
    (hmerged : merged s.words = (last d, s.accepted.take d))
    (hd : s.j.tx_valid_sync_q = true → d = h ∨ d = h + 1)
    (hh : Heads s.accepted s.j.tx_valid_sync_q s.j.tx_seq_sync_q s.j.tx_data_sync_q h) :
    merged (s.words ++ [s.j.word]) =
      (last (if s.j.tx_valid_sync_q then h + 1 else d),
        s.accepted.take (if s.j.tx_valid_sync_q then h + 1 else d)) := by
  have hfold : merged (s.words ++ [s.j.word]) =
      (entry s.j.word).toList.foldl merge (merged s.words) := by
    unfold merged
    rw [List.filterMap_append, List.foldl_append]
    cases he : entry s.j.word <;> simp [he]
  rw [hfold, entry_word, hmerged]
  cases hv : s.j.tx_valid_sync_q with
  | false => rfl
  | true =>
    rw [hv] at hh
    obtain ⟨hseq, hdata⟩ := hh rfl
    simp only [if_true, Option.toList_some, List.foldl_cons, List.foldl_nil]
    unfold merge
    rcases hd hv with rfl | rfl
    · dsimp only
      rw [if_neg (by rw [hseq]; exact last_ne d), hseq, last_succ, List.take_add_one, hdata]
      rfl
    · dsimp only
      rw [if_pos (by rw [hseq]; exact last_succ h)]

theorem At.capture {s : Link} {p d : Nat} (h : s.At p d) (hscan : s.scan = none) :
    ∃ d', (s.step .capture).At p d' := by
  have hidle := h.idle hscan
  -- the number of the synchronised head
  have hhead : ∃ k, Heads s.accepted s.j.tx_valid_sync_q s.j.tx_seq_sync_q s.j.tx_data_sync_q k ∧
      (s.j.tx_valid_sync_q = true → d = k ∨ d = k + 1) ∧
      ((s.step .capture).Scanning 0 p (if s.j.tx_valid_sync_q then k + 1 else d)) := by
    by_cases hflying : s.c.tx_pop_last_q = s.j.pop_toggle
    · rcases hidle.settled hflying with ⟨k, rfl, hv, hd, hh⟩ | ⟨rfl, hh⟩
      · refine ⟨k, hh, fun _ => hd, fun hfly => absurd hflying hfly, fun _ => ?_,
          fun hge => absurd hge (by decide), fun hge => absurd hge (by decide)⟩
        rw [hv]
        exact ⟨.inl rfl, fun hfalse => absurd (hv.symm.trans hfalse) (by decide)⟩
      · refine ⟨d, hh, fun _ => .inl rfl, fun hfly => absurd hflying hfly, fun _ => ?_,
          fun hge => absurd hge (by decide), fun hge => absurd hge (by decide)⟩
        refine ⟨?_, fun hfalse => ?_⟩
        · cases s.j.tx_valid_sync_q with
          | true => exact .inr rfl
          | false => exact .inl rfl
        · have hfalse : s.j.tx_valid_sync_q = false := hfalse
          rw [hfalse]
          rfl
    · obtain ⟨hh, hvalid, hempty⟩ := hidle.flying hflying
      refine ⟨p, hh, hvalid, fun _ => ⟨by decide, fun hv => ?_, fun hv => ?_⟩,
        fun hset => absurd hset hflying, fun hge => absurd hge (by decide),
        fun hge => absurd hge (by decide)⟩
      · have hv : s.j.tx_valid_sync_q = true := hv
        rw [hv]
        rfl
      · have hv : s.j.tx_valid_sync_q = false := hv
        rw [hv]
        exact hempty hv
  obtain ⟨k, hh, hd, hscanning⟩ := hhead
  refine ⟨_, h.holds, merged_capture h.merged hd hh, ?_, h.chain, fun hnone => (nomatch hnone),
    fun n hn => ?_⟩
  · cases hv : s.j.tx_valid_sync_q with
    | true =>
      rw [hv] at hh
      exact hh.lt
    | false => exact h.d_le
  · obtain rfl : 0 = n := Option.some.inj hn
    exact hscanning

theorem At.shift {s : Link} {p d : Nat} (h : s.At p d) {n : Nat} (hscan : s.scan = some n)
    (hsettled : 16 ≤ n → s.Settled) (tdi : Bool) : (s.step (.shift tdi)).At p d := by
  obtain ⟨hflying, hset, hmeta, hsync⟩ := h.scanning n hscan
  obtain ⟨hh, hvalid⟩ := heads_now h.holds
  have hnone (hs : (s.step (.shift tdi)).scan = none) : False := by
    change s.scan.map (· + 1) = none at hs
    rw [hscan] at hs
    cases hs
  refine ⟨h.holds, h.merged, h.d_le, h.chain, fun hs => (hnone hs).elim, fun m hm => ?_⟩
  change s.scan.map (· + 1) = some m at hm
  rw [hscan] at hm
  obtain rfl : n + 1 = m := Option.some.inj hm
  refine ⟨fun hfly => ?_, hset, fun hge => ⟨hh, fun hd => ?_⟩, fun hge => hmeta (by omega)⟩
  · obtain ⟨hle, hrest⟩ := hflying hfly
    have hlt : ¬ 16 ≤ n := fun hge => hfly (hsettled hge).2.2
    exact ⟨by omega, hrest⟩
  · have hle := h.d_le
    exact hvalid (by omega)

theorem At.update {s : Link} {p d : Nat} (h : s.At p d) {n : Nat} (hscan : s.scan = some n)
    (hn : 18 ≤ n) (hsound : s.Sound .update) : (s.step .update).At p d := by
  obtain ⟨hflying, hset, -, hsync⟩ := h.scanning n hscan
  have hsettled : s.c.tx_pop_last_q = s.j.pop_toggle := by
    by_contra hfly
    have := (hflying hfly).1
    omega
  obtain ⟨hd, hempty⟩ := hset hsettled
  obtain ⟨hh, hvalid⟩ := hsync hn
  have hzero : s.c.tx_count_q = 0 ↔ p = s.accepted.length := h.holds.zero_iff
  cases hv : s.j.captured_valid_q with
  | false =>
    have hj : s.j.update = { s.j with pop_consumed_q := false } :=
      if_neg (by rw [hv]; decide)
    refine ⟨h.holds, h.merged, h.d_le, ?_, fun _ => ⟨fun hfly => ?_, fun _ => ?_⟩,
      fun m hm => (nomatch hm)⟩
    all_goals
      simp only [step, hj]
    · exact h.chain
    · simp only [step, hj] at hfly
      exact absurd hsettled hfly
    · exact .inr ⟨hempty hv, hh⟩
  | true =>
    have hj : s.j.update = { s.j with pop_toggle := !s.j.pop_toggle, pop_consumed_q := true } :=
      if_pos hv
    obtain ⟨hmeta, hsyncq⟩ := h.chain.settled hsettled
    have hne : s.c.tx_pop_last_q ≠ !s.j.pop_toggle := by
      rw [hsettled]
      exact (Bool.not_ne_self _).symm
    refine ⟨h.holds, h.merged, h.d_le, ?_, fun _ => ⟨fun _ => ?_, fun hset' => ?_⟩,
      fun m hm => (nomatch hm)⟩
    all_goals
      simp only [step, hj]
    · refine ⟨fun hl => absurd hl hne, fun _ _ => ?_⟩
      rw [hsyncq]
      exact (Bool.not_ne_self _).symm
    · refine ⟨hh, fun _ => hd, fun hfalse => ?_⟩
      have hdp : d = p := hd.resolve_right fun hd' => by
        rw [hvalid hd'] at hfalse
        cases hfalse
      exact ⟨hdp, hzero.mp (hsound hv hfalse)⟩
    · simp only [step, hj] at hset'
      exact absurd hset' hne

/-! ## What the host reads, and what is dropped -/

theorem Reads.step {s : Link} (h : s.Reads) {ev : LinkEvent} (hposs : s.Possible ev) :
    (s.step ev).Reads := by
  cases ev with
  | clk axi net_irq_event debug_irq_clear =>
    obtain ⟨-, hj, hscan, hwords, hbits⟩ := clk_rest s (s.input axi net_irq_event debug_irq_clear)
    refine ⟨?_, ?_⟩
    all_goals
      simp only [Link.step, hj, hscan, hwords, hbits]
    · exact h.bits
    · exact h.rest
  | capture =>
    refine ⟨fun k _ hk => absurd hk (Nat.not_lt_zero k), fun n hn => ?_⟩
    obtain rfl : 0 = n := Option.some.inj hn
    refine ⟨rfl, List.append_ne_nil_of_right_ne_nil _ (List.cons_ne_nil _ _), fun k _ => ?_⟩
    change some (s.j.word.getLsbD k) = ((s.words ++ [s.j.word]).getLast?).map _
    rw [List.getLast?_concat]
    rfl
  | shift tdi =>
    obtain ⟨n, hscan, -⟩ := hposs
    obtain ⟨hlen, hne, hrest⟩ := h.rest n hscan
    refine ⟨fun k h18 hk => ?_, fun m hm => ?_⟩
    · change (s.bits ++ [s.j.tdo_w])[k]? = _
      have hk : k < (s.bits ++ [s.j.tdo_w]).length := hk
      rw [List.length_append] at hk
      have hk : k < s.bits.length + 1 := hk
      by_cases hlast : k = s.bits.length
      · have hword := hrest 0 (by omega)
        rw [Nat.zero_add, hlen, ← hlast] at hword
        rw [hlast, List.getElem?_append_right (Nat.le_refl _), Nat.sub_self, ← hlast]
        exact hword
      · rw [List.getElem?_append_left (by omega)]
        exact h.bits k h18 (by omega)
    · change s.scan.map (· + 1) = some m at hm
      rw [hscan] at hm
      obtain rfl : n + 1 = m := Option.some.inj hm
      refine ⟨?_, hne, fun k hk => ?_⟩
      · change n + 1 = (s.bits ++ [s.j.tdo_w]).length
        rw [List.length_append, hlen]
        rfl
      · change some ((BitVec.ofBool tdi ++ s.j.shift_reg_q.extractLsb' 1 17).getLsbD k) = _
        rw [BitVec.getLsbD_append, if_pos (by omega), BitVec.getLsbD_extractLsb',
          decide_eq_true (by omega : k < 17), Bool.true_and, hrest (1 + k) (by omega)]
        have hsum : 1 + k + n = k + (n + 1) := by omega
        rw [hsum]
        rfl
  | update =>
    exact ⟨h.bits, fun n hn => (nomatch hn)⟩

theorem txRead_pl_le {c : Console} (h : c.pl_uart_count_q.toNat ≤ 256) (i : ConsoleIn) :
    (c.txRead i).pl_count.toNat ≤ 256 := by
  have hdrain (x : Console.Tx) (hx : x.pl_count.toNat ≤ 256) (busy : Bool) :
      (x.drain busy).pl_count.toNat ≤ 256 := by
    unfold Console.Tx.drain
    split
    · rename_i hcond
      rw [Bool.and_eq_true, decide_eq_true_eq] at hcond
      have hpos : x.pl_count.toNat ≠ 0 := fun hzero => hcond.2 (BitVec.eq_of_toNat_eq hzero)
      dsimp only
      rw [BitVec.toNat_sub]
      change (2 ^ 9 - 1 + x.pl_count.toNat) % 2 ^ 9 ≤ 256
      omega
    · exact hx
  have hpl (x : Console.Tx) (pop : Bool) : (x.dequeue pop).pl_count = x.pl_count := by
    unfold Console.Tx.dequeue
    split <;> rfl
  unfold Console.txRead
  rw [hpl]
  exact hdrain c.tx h _

theorem enqueue_pl_le {x : Console.Tx} (h : x.pl_count.toNat ≤ 256) (byte : BitVec 8) :
    (x.enqueue byte).pl_count.toNat ≤ 256 := by
  unfold Console.Tx.enqueue
  split
  · rename_i hroom
    have hne : x.pl_count.toNat ≠ 256 := fun heq => hroom.2 (BitVec.eq_of_toNat_eq heq)
    dsimp only
    rw [BitVec.toNat_add]
    change (x.pl_count.toNat + 1) % 2 ^ 9 ≤ 256
    omega
  · exact h

theorem full_of_no_room {c : Console} (hle : c.pl_uart_count_q.toNat ≤ 256) {i : ConsoleIn}
    (hps : i.ps_console_pop = false)
    (hpl : c.pl_uart_full_w = true → c.u_simple_pl_uart_tx.tx_busy = true →
      c.tx_full_w = true ∧ c.tx_pop_event_w = false)
    (hroom : ¬ (c.txRead i).Room) : (c.txRead i).count = 256 := by
  by_contra hcount
  have hfull : (c.txRead i).pl_count = 256 := by
    by_contra hne
    exact hroom ⟨hcount, hne⟩
  have hkeep : (c.txRead i).pl_count = (c.tx.drain c.u_simple_pl_uart_tx.tx_busy).pl_count := by
    unfold Console.txRead Console.Tx.dequeue
    split <;> rfl
  rw [hkeep] at hfull
  -- the UART did not take a byte in this cycle
  have hbusy : c.u_simple_pl_uart_tx.tx_busy = true ∧ c.pl_uart_count_q = 256 := by
    unfold Console.Tx.drain at hfull
    split at hfull
    · rename_i hcond
      have hnat := congrArg BitVec.toNat hfull
      dsimp only at hnat
      rw [BitVec.toNat_sub] at hnat
      change (2 ^ 9 - 1 + c.pl_uart_count_q.toNat) % 2 ^ 9 = 256 at hnat
      omega
    · rename_i hcond
      have hpl : c.pl_uart_count_q = 256 := hfull
      refine ⟨?_, hpl⟩
      have hcond : ¬ (!c.u_simple_pl_uart_tx.tx_busy && decide (c.pl_uart_count_q ≠ 0)) = true :=
        hcond
      rw [hpl] at hcond
      cases hb : c.u_simple_pl_uart_tx.tx_busy with
      | true => rfl
      | false =>
        rw [hb] at hcond
        exact absurd rfl hcond
  obtain ⟨htx, hevent⟩ := hpl (decide_eq_true hbusy.2) hbusy.1
  have htx : c.tx_count_q = 256 := of_decide_eq_true htx
  apply hcount
  unfold Console.txRead Console.Tx.dequeue
  rw [hps, hevent]
  change (c.tx.drain c.u_simple_pl_uart_tx.tx_busy).count = 256
  unfold Console.Tx.drain
  split <;> exact htx

theorem Drops.step {s : Link} (h : s.Drops) {ev : LinkEvent} (hsound : s.Sound ev) :
    (s.step ev).Drops := by
  cases ev with
  | clk axi net_irq_event debug_irq_clear =>
    have htx := Console.tx_step s.c (s.input axi net_irq_event debug_irq_clear)
    simp only [Link.step]
    simp only [Sound] at hsound
    generalize hi : s.input axi net_irq_event debug_irq_clear = i at hsound htx ⊢
    have hps : i.ps_console_pop = false := by rw [← hi]; rfl
    have hplread := txRead_pl_le h.pl_le i
    -- the flag is never cleared
    have hover : (s.c.txRead i).overflow = s.c.uart_overflow_q := by
      unfold Console.txRead Console.Tx.dequeue Console.Tx.drain
      split_ifs <;> rfl
    unfold clk
    cases hw : s.c.written i with
    | none =>
      rw [hw] at htx
      refine ⟨h.full, fun hne => ?_, ?_⟩
      · change (s.c.step i).tx.overflow = true
        rw [htx]
        exact hover.trans (h.flagged hne)
      · change (s.c.step i).tx.pl_count.toNat ≤ 256
        rw [htx]
        exact hplread
    | some byte =>
      rw [hw] at htx
      dsimp only at htx ⊢
      have hple : (s.c.step i).pl_uart_count_q.toNat ≤ 256 := by
        change (s.c.step i).tx.pl_count.toNat ≤ 256
        rw [htx]
        exact enqueue_pl_le hplread byte
      by_cases hroom : (s.c.txRead i).Room
      · rw [if_pos hroom]
        refine ⟨h.full, fun hne => ?_, hple⟩
        change (s.c.step i).tx.overflow = true
        rw [htx, Console.Tx.enqueue, if_pos hroom]
        exact hover.trans (h.flagged hne)
      · rw [if_neg hroom]
        refine ⟨fun full hfull => ?_, fun _ => ?_, hple⟩
        · rcases List.mem_append.mp hfull with hold | hnew
          · exact h.full full hold
          · rw [List.mem_singleton.mp hnew, decide_eq_true_eq]
            have hsome : s.c.written i ≠ none := by rw [hw]; exact fun hn => (nomatch hn)
            exact full_of_no_room h.pl_le hps (hsound hsome).2 hroom
        · change (s.c.step i).tx.overflow = true
          rw [htx, Console.Tx.enqueue, if_neg hroom]
  | capture => exact ⟨h.full, h.flagged, h.pl_le⟩
  | shift tdi => exact ⟨h.full, h.flagged, h.pl_le⟩
  | update => exact ⟨h.full, h.flagged, h.pl_le⟩

/-! ## Runs -/

def run (s : Link) (evs : List LinkEvent) : Link := evs.foldl step s

theorem At.step {s : Link} {p d : Nat} (h : s.At p d) {ev : LinkEvent} (hposs : s.Possible ev)
    (hsound : s.Sound ev) : ∃ p' d', (s.step ev).At p' d' := by
  cases ev with
  | clk axi net_irq_event debug_irq_clear =>
    obtain ⟨p', h'⟩ := @At.clk s p d h (s.input axi net_irq_event debug_irq_clear) rfl rfl
      fun hw => (hsound hw).1
    exact ⟨p', d, h'⟩
  | capture =>
    obtain ⟨d', h'⟩ := h.capture hposs
    exact ⟨p, d', h'⟩
  | shift tdi =>
    obtain ⟨n, hscan, hsettled⟩ := hposs
    exact ⟨p, d, h.shift hscan hsettled tdi⟩
  | update =>
    obtain ⟨n, hscan, hn⟩ := hposs
    exact ⟨p, d, h.update hscan hn hsound⟩

theorem At.start (tx_fifo_q pl_uart_fifo_q : BitVec 8 → BitVec 8) :
    (reset tx_fifo_q pl_uart_fifo_q).At 0 0 := by
  refine ⟨⟨rfl, Nat.zero_le 256, rfl, rfl, fun n _ hn => absurd hn (Nat.not_lt_zero n)⟩, rfl,
    Nat.le_refl _, ⟨fun _ => ⟨rfl, rfl⟩, fun hne => absurd rfl hne⟩, fun _ => ⟨?_, ?_⟩,
    fun n hn => (nomatch hn)⟩
  · exact fun hne => absurd rfl hne
  · exact fun _ => .inr ⟨rfl, fun hfalse => (nomatch hfalse)⟩

theorem At.faithful {s : Link} {p d : Nat} (h : s.At p d) (hreads : s.Reads) (hdrops : s.Drops) :
    s.Faithful := by
  have hdelivered : s.delivered = s.accepted.take d := congrArg Prod.snd h.merged
  have hlen : s.delivered.length = d := by
    rw [hdelivered, List.length_take, Nat.min_eq_left h.d_le]
  have hfifo (n : Nat) (hp : p ≤ n) (hn : n < s.accepted.length) : s.InFifo n := by
    have hcount : p + s.c.tx_count_q.toNat = s.accepted.length := h.holds.count
    exact ⟨by omega, h.holds.at_ n hp hn⟩
  refine ⟨by rw [hdelivered]; exact List.take_prefix _ _, fun n hd hn => ?_, hreads.bits,
    hdrops.full, hdrops.flagged⟩
  rw [hlen] at hd
  by_cases hp : p ≤ n
  · exact .inl (hfifo n hp hn)
  · -- the byte was popped, so that it is the one in the synchroniser
    right
    by_cases hset : s.c.tx_pop_last_q = s.j.pop_toggle
    · cases hscan : s.scan with
      | none =>
        rcases (h.idle hscan).settled hset with ⟨k, hk, hv, hdk, hh⟩ | ⟨hdp, -⟩
        · obtain rfl : n = k := by omega
          exact ⟨hscan, hv, (hh hv).1, (hh hv).2⟩
        · omega
      | some m =>
        have hdp := ((h.scanning m hscan).settled hset).1
        omega
    · cases hscan : s.scan with
      | none =>
        obtain ⟨-, hvalid, hempty⟩ := (h.idle hscan).flying hset
        cases hv : s.j.tx_valid_sync_q with
        | true =>
          have := hvalid hv
          omega
        | false =>
          have := (hempty hv).1
          omega
      | some m =>
        obtain ⟨-, hvalid, hempty⟩ := (h.scanning m hscan).flying hset
        cases hv : s.j.captured_valid_q with
        | true =>
          have := hvalid hv
          omega
        | false =>
          have := (hempty hv).1
          omega

/-- In a run of sound events the host gets the accepted bytes. -/
theorem console_delivers (tx_fifo_q pl_uart_fifo_q : BitVec 8 → BitVec 8) (evs : List LinkEvent)
    (hposs : Each (fun h ev => ((reset tx_fifo_q pl_uart_fifo_q).run h).Possible ev) evs)
    (hsound : Each (fun h ev => ((reset tx_fifo_q pl_uart_fifo_q).run h).Sound ev) evs) :
    ∀ h t, evs = h ++ t → ((reset tx_fifo_q pl_uart_fifo_q).run h).Faithful := by
  intro h t hevs
  obtain ⟨⟨p, d, hat⟩, hreads, hdrops⟩ :=
    @Runs.inv_of_each _ _ step (fun s => (∃ p d, s.At p d) ∧ s.Reads ∧ s.Drops)
      (fun s ev => s.Possible ev ∧ s.Sound ev) (reset tx_fifo_q pl_uart_fifo_q)
      ⟨⟨0, 0, At.start _ _⟩, ⟨fun k _ hk => absurd hk (Nat.not_lt_zero k),
        fun n hn => (nomatch hn)⟩, ⟨fun full hfull => (nomatch hfull), fun hne => absurd rfl hne,
        Nat.zero_le 256⟩⟩
      (by
        rintro s ev ⟨⟨p, d, hat⟩, hreads, hdrops⟩ ⟨hp, hs⟩
        exact ⟨hat.step hp hs, hreads.step hp, hdrops.step hs⟩)
      h fun g ev u hg =>
        ⟨hposs.front hevs g ev u hg, hsound.front hevs g ev u hg⟩
  exact hat.faithful hreads hdrops

instance (s : Link) : Decidable s.Settled := inferInstanceAs (Decidable (_ ∧ _))

instance (s : Link) (ev : LinkEvent) : Decidable (s.Possible ev) :=
  match ev with
  | .clk _ _ _ => inferInstanceAs (Decidable True)
  | .capture => inferInstanceAs (Decidable (s.scan = none))
  | .shift _ =>
    match hscan : s.scan with
    | none => .isFalse fun ⟨_, hn, _⟩ => by rw [hscan] at hn; cases hn
    | some n => decidable_of_iff (16 ≤ n → s.Settled)
        ⟨fun h => ⟨n, hscan, h⟩, fun ⟨_, hn, h⟩ => by rw [hscan] at hn; cases hn; exact h⟩
  | .update =>
    match hscan : s.scan with
    | none => .isFalse fun ⟨_, hn, _⟩ => by rw [hscan] at hn; cases hn
    | some n => decidable_of_iff (18 ≤ n)
        ⟨fun h => ⟨n, hscan, h⟩, fun ⟨_, hn, h⟩ => by rw [hscan] at hn; cases hn; exact h⟩

instance (s : Link) (ev : LinkEvent) : Decidable (s.Sound ev) :=
  match ev with
  | .clk _ _ _ => inferInstanceAs (Decidable (_ → _ ∧ (_ → _ → _)))
  | .update => inferInstanceAs (Decidable (_ → _ → _))
  | .capture | .shift _ => inferInstanceAs (Decidable True)

/-- A cycle in which the bus is idle, and one that writes the transmit register. -/
def quiet : LinkEvent := .clk ⟨false, 0, 0, false, 0, 0, true, false, 0, 0, true⟩ false false

def transmit (byte : BitVec 32) : LinkEvent :=
  .clk ⟨true, UART_BASE, 0, true, byte, 1, true, false, 0, 0, true⟩ false false

def scanned : List LinkEvent := .capture :: List.replicate 18 (.shift false)

/-- A byte is captured and popped while the queue holds no other. -/
def oneByte : List LinkEvent :=
  transmit 0x41 :: scanned ++ .update :: scanned ++ [.update, quiet, quiet, quiet, quiet]

/-- Behind it a byte enters after the last shift clock of the next scan. -/
def lateByte : List LinkEvent :=
  oneByte ++ scanned ++ [transmit 0x42, .update, quiet, quiet, quiet, quiet]

theorem each_possible {evs : List LinkEvent}
    (h : Runs.check step (fun s ev => decide (s.Possible ev)) (reset (fun _ => 0) (fun _ => 0)) evs
      = true) :
    Each (fun h ev => ((reset (fun _ => 0) (fun _ => 0)).run h).Possible ev) evs :=
  fun g ev t hevs => of_decide_eq_true (Runs.each_of_check h g ev t hevs)

theorem one_byte_delivered :
    ((reset (fun _ => 0) (fun _ => 0)).run oneByte).Faithful ∧
      ((reset (fun _ => 0) (fun _ => 0)).run oneByte).delivered = [0x41] := by
  have hsound : Runs.check step (fun s ev => decide (s.Sound ev))
      (reset (fun _ => 0) (fun _ => 0)) oneByte = true := by decide
  exact ⟨console_delivers (fun _ => 0) (fun _ => 0) oneByte (each_possible (by decide))
    (fun g ev t hevs => of_decide_eq_true (Runs.each_of_check hsound g ev t hevs)) oneByte []
    (List.append_nil _).symm, by decide⟩

/-- The late byte leaves the queue with the pop of a scan that found it empty. -/
theorem late_byte_lost :
    Each (fun h ev => ((reset (fun _ => 0) (fun _ => 0)).run h).Possible ev) lateByte ∧
      ((reset (fun _ => 0) (fun _ => 0)).run lateByte).accepted = [0x41, 0x42] ∧
      ((reset (fun _ => 0) (fun _ => 0)).run lateByte).delivered = [0x41] ∧
      ¬ ((reset (fun _ => 0) (fun _ => 0)).run lateByte).Faithful := by
  have hdelivered : ((reset (fun _ => 0) (fun _ => 0)).run lateByte).delivered = [0x41] := by
    decide +kernel
  have haccepted : ((reset (fun _ => 0) (fun _ => 0)).run lateByte).accepted = [0x41, 0x42] := by
    decide +kernel
  refine ⟨each_possible (by decide), haccepted, hdelivered, fun h => ?_⟩
  have hkept := h.kept 1 (by rw [hdelivered]; decide) (by rw [haccepted]; decide)
  rcases hkept with ⟨hcount, -⟩ | ⟨-, hvalid, -⟩
  · rw [haccepted] at hcount
    have hempty : ((reset (fun _ => 0) (fun _ => 0)).run lateByte).c.tx_count_q = 0 := by
      decide +kernel
    rw [hempty] at hcount
    exact absurd hcount (by decide)
  · have hnone : ((reset (fun _ => 0) (fun _ => 0)).run lateByte).j.tx_valid_sync_q = false := by
      decide +kernel
    rw [hnone] at hvalid
    cases hvalid

end Link

end vibeos.fpga
