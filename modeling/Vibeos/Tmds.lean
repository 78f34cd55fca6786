-- tmds_encoder_dvi.v: a byte of a colour as ten bits for the cable, one clock edge after the other.
-- The words of a run are read back into what was sent, and the bias register counts the ones and
-- zeros that they hold.
import Mathlib.Algebra.Ring.Int.Defs
import Mathlib.Tactic.Common

namespace vibeos.fpga.Tmds

/-! ## The encoder -/

def signed5 (x : Int) : Int := (x + 16) % 32 - 16

def ones {n : Nat} (x : BitVec n) : Nat := ((List.range n).filter fun i => x.getLsbD i).length

def use_xnor (i_data : BitVec 8) : Bool :=
  ones i_data > 4 || (ones i_data == 4 && !i_data.getLsbD 0)

/-- Bit `i` of `enc_qm`: the xor, or the xnor, of the bit of the byte and the bit before. -/
def qm_bit (i_data : BitVec 8) : Nat → Bool
  | 0 => i_data.getLsbD 0
  | i + 1 =>
    if use_xnor i_data then !(qm_bit i_data i ^^ i_data.getLsbD (i + 1))
    else qm_bit i_data i ^^ i_data.getLsbD (i + 1)

def enc_qm (i_data : BitVec 8) : BitVec 8 :=
  (List.range 8).foldl (fun q i => if qm_bit i_data i then q ||| 1#8 <<< i else q) 0

def qm8 (i_data : BitVec 8) : BitVec 1 := if use_xnor i_data then 0 else 1

def balance (i_data : BitVec 8) : Int :=
  let ones : Int := ones (enc_qm i_data)
  let zeros := signed5 (8 - ones)
  signed5 (ones - zeros)

structure Pins where
  i_rst : Bool
  i_data : BitVec 8
  i_ctrl : BitVec 2
  i_de : Bool

structure tmds_encoder_dvi where
  o_tmds : BitVec 10
  bias : Int

def control (i_ctrl : BitVec 2) : BitVec 10 :=
  if i_ctrl = 0 then 0b1101010100 else if i_ctrl = 1 then 0b0010101011
  else if i_ctrl = 2 then 0b0101010100 else 0b1010101011

def pixel (bias : Int) (i_data : BitVec 8) : tmds_encoder_dvi :=
  let q := enc_qm i_data
  let two : Int := if qm8 i_data = 1 then 2 else 0
  if bias = 0 ∨ balance i_data = 0 then
    if qm8 i_data = 0 then ⟨0b10#2 ++ ~~~q, signed5 (bias - balance i_data)⟩
    else ⟨0b01#2 ++ q, signed5 (bias + balance i_data)⟩
  else if (0 < bias ∧ 0 < balance i_data) ∨ (bias < 0 ∧ balance i_data < 0) then
    ⟨1#1 ++ qm8 i_data ++ ~~~q, signed5 (bias + two - balance i_data)⟩
  else ⟨0#1 ++ qm8 i_data ++ q, signed5 (bias - (2 - two) + balance i_data)⟩

def edge (c : tmds_encoder_dvi) (p : Pins) : tmds_encoder_dvi :=
  if p.i_rst then ⟨0b1101010100, 0⟩
  else if p.i_de = false then ⟨control p.i_ctrl, 0⟩
  else pixel c.bias p.i_data

/-- The words that the edges of a run send. -/
def words (c : tmds_encoder_dvi) : List Pins → List (BitVec 10)
  | [] => []
  | p :: ps => (edge c p).o_tmds :: words (edge c p) ps

/-! ## The other end of the cable -/

inductive Symbol
  | ctrl (c : BitVec 2)
  | data (d : BitVec 8)
  deriving DecidableEq

def Pins.symbol (p : Pins) : Symbol :=
  if p.i_rst then .ctrl 0 else if p.i_de then .data p.i_data else .ctrl p.i_ctrl

def received (w : BitVec 10) : BitVec 8 :=
  let q := w.setWidth 8 ^^^ if w.getLsbD 9 then 0xff else 0
  q ^^^ (q <<< 1) ^^^ if w.getLsbD 8 then 0 else 0xfe

def decode (w : BitVec 10) : Symbol :=
  match [0, 1, 2, 3].find? fun c => control c == w with
  | some c => .ctrl c
  | none => .data (received w)

def transitions (w : BitVec 10) : Nat :=
  ((List.range 9).filter fun i => w.getLsbD i != w.getLsbD (i + 1)).length

def disparity (w : BitVec 10) : Int := 2 * ones w - 10

def sent (i_data : BitVec 8) (inverted : Bool) : BitVec 10 :=
  if inverted then 1#1 ++ qm8 i_data ++ ~~~enc_qm i_data else 0#1 ++ qm8 i_data ++ enc_qm i_data

theorem sent_decodes : ∀ d : BitVec 8, ∀ inv : Bool,
    decode (sent d inv) = .data d ∧ transitions (sent d inv) ≤ 5 := by
  decide +kernel

theorem sent_disparity : ∀ d : BitVec 8, (-8 ≤ balance d ∧ balance d ≤ 8 ∧ balance d % 2 = 0) ∧
    disparity (sent d true) = (if qm8 d = 1 then 2 else 0) - balance d ∧
    disparity (sent d false) = (if qm8 d = 1 then 0 else -2) + balance d := by
  decide +kernel

theorem control_decodes : ∀ c : BitVec 2,
    decode (control c) = .ctrl c ∧ 7 ≤ transitions (control c) := by
  decide

theorem pixel_cases (bias : Int) (d : BitVec 8) : ∃ inv, (pixel bias d).o_tmds = sent d inv ∧
    (pixel bias d).bias = signed5 (bias + disparity (sent d inv)) ∧
    (bias % 2 = 0 → -8 ≤ bias → bias ≤ 8 →
      -8 ≤ bias + disparity (sent d inv) ∧ bias + disparity (sent d inv) ≤ 8) := by
  obtain ⟨hbalance, htrue, hfalse⟩ := sent_disparity d
  have hq : qm8 d = 0 ∨ qm8 d = 1 := by
    unfold qm8
    split
    · exact Or.inl rfl
    · exact Or.inr rfl
  unfold pixel
  dsimp only
  by_cases hflat : bias = 0 ∨ balance d = 0
  · rcases hq with hq | hq
    · simp only [hq] at htrue
      refine ⟨true, by simp [sent, hflat, hq], ?_, ?_⟩
      · rw [if_pos hflat, if_pos hq, htrue]
        exact congrArg signed5 (by simp; omega)
      · simp at htrue
        omega
    · simp only [hq] at hfalse
      refine ⟨false, by simp [sent, hflat, hq], ?_, ?_⟩
      · rw [if_pos hflat, if_neg (by simp [hq]), hfalse]
        exact congrArg signed5 (by simp)
      · simp at hfalse
        omega
  · rw [if_neg hflat]
    by_cases hsame : (0 < bias ∧ 0 < balance d) ∨ (bias < 0 ∧ balance d < 0)
    · rw [if_pos hsame]
      refine ⟨true, rfl, ?_, ?_⟩ <;> rw [htrue]
      · exact congrArg signed5 (by omega)
      · split <;> omega
    · rw [if_neg hsame]
      refine ⟨false, rfl, ?_, ?_⟩ <;> rw [hfalse]
      · exact congrArg signed5 (by split <;> omega)
      · split <;> omega

theorem edge_received (c : tmds_encoder_dvi) (p : Pins) :
    decode (edge c p).o_tmds = p.symbol ∧
      (transitions (edge c p).o_tmds ≤ 5 ↔ p.i_rst = false ∧ p.i_de = true) := by
  unfold edge Pins.symbol
  cases p.i_rst with
  | true => exact ⟨(control_decodes 0).1, iff_of_false (by decide : ¬ transitions 852#10 ≤ 5) (by simp)⟩
  | false =>
    cases p.i_de with
    | false =>
      obtain ⟨hdecode, hmany⟩ := control_decodes p.i_ctrl
      simp [hdecode]
      omega
    | true =>
      obtain ⟨inv, hword, -⟩ := pixel_cases c.bias p.i_data
      obtain ⟨hdecode, hfew⟩ := sent_decodes p.i_data inv
      simp [hword, hdecode, hfew]

/-- Each word of a run, alone, gives back what its edge sent, whatever the state before. -/
theorem stream_received (c : tmds_encoder_dvi) (ps : List Pins) :
    (words c ps).map decode = ps.map Pins.symbol ∧
      List.Forall₂ (fun w p => transitions w ≤ 5 ↔ p.i_rst = false ∧ p.i_de = true)
        (words c ps) ps := by
  induction ps generalizing c with
  | nil => exact ⟨rfl, .nil⟩
  | cons p ps ih =>
    obtain ⟨hdecode, hfew⟩ := edge_received c p
    obtain ⟨hrest, hall⟩ := ih (edge c p)
    exact ⟨List.cons_eq_cons.mpr ⟨hdecode, hrest⟩, .cons hfew hall⟩

theorem edge_bias {c : tmds_encoder_dvi} (heven : c.bias % 2 = 0) (hlow : -8 ≤ c.bias)
    (hhigh : c.bias ≤ 8) (p : Pins) :
    let q := edge c { p with i_rst := false, i_de := true }
    q.bias = c.bias + disparity q.o_tmds ∧ q.bias % 2 = 0 ∧ -8 ≤ q.bias ∧ q.bias ≤ 8 := by
  obtain ⟨inv, hword, hbias, hfits⟩ := pixel_cases c.bias p.i_data
  obtain ⟨hl, hh⟩ := hfits heven hlow hhigh
  have heq : signed5 (c.bias + disparity (sent p.i_data inv)) =
      c.bias + disparity (sent p.i_data inv) := by
    unfold signed5
    omega
  simp only [edge, Bool.false_eq_true, if_false, Bool.true_eq_false]
  rw [hword, hbias, heq]
  refine ⟨rfl, ?_, hl, hh⟩
  unfold disparity
  omega

theorem pixels_bias (ps : List Pins) {c : tmds_encoder_dvi} (heven : c.bias % 2 = 0)
    (hlow : -8 ≤ c.bias) (hhigh : c.bias ≤ 8) :
    let pixels := ps.map fun q => { q with i_rst := false, i_de := true }
    (pixels.foldl edge c).bias = c.bias + ((words c pixels).map disparity).sum ∧
      -8 ≤ (pixels.foldl edge c).bias ∧ (pixels.foldl edge c).bias ≤ 8 := by
  induction ps generalizing c with
  | nil => exact ⟨(Int.add_zero _).symm, hlow, hhigh⟩
  | cons q ps ih =>
    obtain ⟨hbias, heven', hlow', hhigh'⟩ := edge_bias heven hlow hhigh q
    obtain ⟨hsum, hbounds⟩ := ih heven' hlow' hhigh'
    refine ⟨?_, hbounds⟩
    simp only [List.map_cons, List.foldl_cons, words, List.sum_cons]
    rw [hsum, hbias]
    omega

/-- Since the last edge without a pixel the cable had as many ones as zeros, but for eight at
most, and the register says which there are more of. -/
theorem bias_counts (c : tmds_encoder_dvi) (p : Pins) (ps : List Pins) :
    let start := edge c { p with i_de := false }
    let pixels := ps.map fun q => { q with i_rst := false, i_de := true }
    (pixels.foldl edge start).bias = ((words start pixels).map disparity).sum ∧
      -8 ≤ (pixels.foldl edge start).bias ∧ (pixels.foldl edge start).bias ≤ 8 := by
  have hzero : (edge c { p with i_de := false }).bias = 0 := by
    unfold edge
    cases p.i_rst <;> rfl
  simpa [hzero] using @pixels_bias ps (edge c { p with i_de := false }) (by simp [hzero])
    (by simp [hzero]) (by simp [hzero])

end vibeos.fpga.Tmds
