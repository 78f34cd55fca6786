-- Control flow of RV32IMC: which instruction comes after the one at `pc`. A compressed
-- instruction has the flow of the instruction that it expands to. Then the integer instructions of
-- RV32I that compute a register from registers and a constant, and the pairs of them that load a
-- 32-bit constant.
import Mathlib.Tactic.IntervalCases
import Mathlib.Data.Nat.Bitwise
import Mathlib.Tactic.Common

namespace vibeos.Rv32

abbrev Word := BitVec 32

/-- What an instruction does to the program counter. -/
inductive Flow where
  | jal (rd : BitVec 5) (imm : Word)
  | jalr (rd rs1 : BitVec 5) (imm : Word)
  | branch (funct3 : BitVec 3) (rs1 rs2 : BitVec 5) (imm : Word)
  | next
deriving DecidableEq

/-! ## Immediates -/

section

variable (w : Word) (h : BitVec 16)

def immI : Word := (w.extractLsb' 20 12).signExtend 32

/-- The bits 20, 10 to 1, 11 and 19 to 12 of the offset of a jump, from bit 31 down. -/
def immJ : Word :=
  (w.extractLsb' 31 1 ++ w.extractLsb' 12 8 ++ w.extractLsb' 20 1 ++ w.extractLsb' 21 10 ++
    0#1).signExtend 32

/-- The bits 12 and 10 to 5 in front, 4 to 1 and 11 in the place of `rd`. -/
def immB : Word :=
  (w.extractLsb' 31 1 ++ w.extractLsb' 7 1 ++ w.extractLsb' 25 6 ++ w.extractLsb' 8 4 ++
    0#1).signExtend 32

/-- The bits 11, 4, 9 to 8, 10, 6, 7, 3 to 1 and 5 of the offset, from bit 12 down. -/
def immCJ : Word :=
  (h.extractLsb' 12 1 ++ h.extractLsb' 8 1 ++ h.extractLsb' 9 2 ++ h.extractLsb' 6 1 ++
    h.extractLsb' 7 1 ++ h.extractLsb' 2 1 ++ h.extractLsb' 11 1 ++ h.extractLsb' 3 3 ++
    0#1).signExtend 32

/-- The bits 8, 4 to 3, 7 to 6, 2 to 1 and 5 of the offset, around the register. -/
def immCB : Word :=
  (h.extractLsb' 12 1 ++ h.extractLsb' 5 2 ++ h.extractLsb' 2 1 ++ h.extractLsb' 10 2 ++
    h.extractLsb' 3 2 ++ 0#1).signExtend 32

end

/-! ## Decoding -/

/-- The flow of a 32-bit instruction; `none` for the encodings of the jumps and branches
that are reserved. -/
def decode32 (w : Word) : Option Flow :=
  let opcode := w.extractLsb' 0 7
  let rd := w.extractLsb' 7 5
  let funct3 := w.extractLsb' 12 3
  let rs1 := w.extractLsb' 15 5
  let rs2 := w.extractLsb' 20 5
  if opcode = 0b1101111#7 then some (.jal rd (immJ w))
  else if opcode = 0b1100111#7 then
    if funct3 = 0#3 then some (.jalr rd rs1 (immI w)) else none
  else if opcode = 0b1100011#7 then
    if funct3 = 2#3 ∨ funct3 = 3#3 then none else some (.branch funct3 rs1 rs2 (immB w))
  else some .next

/-- The flow of a compressed instruction: `c.jal`, `c.j`, `c.beqz` and `c.bnez` in quadrant 1,
`c.jr` and `c.jalr` in quadrant 2. -/
def decode16 (h : BitVec 16) : Flow :=
  let quadrant := h.extractLsb' 0 2
  let funct3 := h.extractLsb' 13 3
  let rs1 := h.extractLsb' 7 5
  let rs1' := 0b01#2 ++ h.extractLsb' 7 3
  if quadrant = 0b01#2 then
    if funct3 = 0b001#3 then .jal 1 (immCJ h)
    else if funct3 = 0b101#3 then .jal 0 (immCJ h)
    else if funct3 = 0b110#3 then .branch 0 rs1' 0 (immCB h)
    else if funct3 = 0b111#3 then .branch 1 rs1' 0 (immCB h)
    else .next
  else if quadrant = 0b10#2 ∧ funct3 = 0b100#3 ∧ rs1 ≠ 0 ∧ h.extractLsb' 2 5 = 0#5 then
    .jalr (if h.extractLsb' 12 1 = 1#1 then 1 else 0) rs1 0
  else .next

/-! ## The next instruction -/

/-- Whether a branch on `a` and `b` is taken. -/
def taken (funct3 : BitVec 3) (a b : Word) : Bool :=
  if funct3 = 0b000#3 then a == b
  else if funct3 = 0b001#3 then a != b
  else if funct3 = 0b100#3 then a.slt b
  else if funct3 = 0b101#3 then !a.slt b
  else if funct3 = 0b110#3 then a.ult b
  else if funct3 = 0b111#3 then !a.ult b
  else false

/-- The address of the next instruction, after one of `len` bytes at `pc`, where `x` are the
registers. -/
def Flow.nextPc (x : BitVec 5 → Word) (pc len : Word) : Flow → Word
  | .jal _ imm => pc + imm
  | .jalr _ rs1 imm => (x rs1 + imm) &&& ~~~1#32
  | .branch funct3 rs1 rs2 imm => if taken funct3 (x rs1) (x rs2) then pc + imm else pc + len
  | .next => pc + len

/-- The length and the flow of the instruction at `pc`, whose first half is `h`, and which is
`w` if it has 32 bits. Instructions are at even addresses. -/
def fetch (pc : Word) (h : BitVec 16) (w : Word) : Option (Word × Flow) :=
  if pc.toNat % 2 = 1 then none
  else if h.extractLsb' 0 2 = 0b11#2 then (decode32 w).map fun flow => (4, flow)
  else some (2, decode16 h)

/-- A jump that saves a return address. -/
def Flow.IsCall : Flow → Prop
  | .jal rd _ => rd ≠ 0
  | .jalr rd _ _ => rd ≠ 0
  | _ => False

instance (flow : Flow) : Decidable flow.IsCall := by
  unfold Flow.IsCall
  cases flow <;> infer_instance

/-- The fields of a compressed jump through a register. -/
def IsCJr (h : BitVec 16) : Prop :=
  h.extractLsb' 0 2 = 0b10#2 ∧ h.extractLsb' 13 3 = 0b100#3 ∧ h.extractLsb' 7 5 ≠ 0 ∧
    h.extractLsb' 2 5 = 0#5

theorem decode16_cases (h : BitVec 16) :
    (h.extractLsb' 0 2 = 0b01#2 ∧ h.extractLsb' 13 3 = 0b001#3 ∧ decode16 h = .jal 1 (immCJ h)) ∨
    (h.extractLsb' 0 2 = 0b01#2 ∧ h.extractLsb' 13 3 = 0b101#3 ∧ decode16 h = .jal 0 (immCJ h)) ∨
    (h.extractLsb' 0 2 = 0b01#2 ∧ h.extractLsb' 13 3 = 0b110#3 ∧
      decode16 h = .branch 0 (0b01#2 ++ h.extractLsb' 7 3) 0 (immCB h)) ∨
    (h.extractLsb' 0 2 = 0b01#2 ∧ h.extractLsb' 13 3 = 0b111#3 ∧
      decode16 h = .branch 1 (0b01#2 ++ h.extractLsb' 7 3) 0 (immCB h)) ∨
    (IsCJr h ∧ decode16 h =
      .jalr (if h.extractLsb' 12 1 = 1#1 then 1 else 0) (h.extractLsb' 7 5) 0) ∨
    ((h.extractLsb' 0 2 = 0b01#2 → h.extractLsb' 13 3 ≠ 0b001#3 ∧ h.extractLsb' 13 3 ≠ 0b101#3 ∧
      h.extractLsb' 13 3 ≠ 0b110#3 ∧ h.extractLsb' 13 3 ≠ 0b111#3) ∧ ¬ IsCJr h ∧
      decode16 h = .next) := by
  unfold decode16 IsCJr
  generalize h.extractLsb' 0 2 = q
  generalize h.extractLsb' 13 3 = f3
  by_cases hq : q = 0b01#2
  · simp only [hq, if_true, true_and]
    by_cases h1 : f3 = 0b001#3
    · simp [h1]
    by_cases h5 : f3 = 0b101#3
    · simp [h5]
    by_cases h6 : f3 = 0b110#3
    · simp [h6]
    by_cases h7 : f3 = 0b111#3
    · simp [h7]
    simp [h1, h5, h6, h7]
  · simp only [hq, if_false, false_and, false_or]
    split
    · rename_i hjr
      exact Or.inl ⟨hjr, rfl⟩
    · rename_i hjr
      exact Or.inr ⟨fun h => absurd h id, hjr, rfl⟩

theorem decode16_jalr_imm {h : BitVec 16} {rd rs1 : BitVec 5} {imm : Word}
    (hd : decode16 h = .jalr rd rs1 imm) : imm = 0 := by
  rcases decode16_cases h with ⟨_, _, h'⟩ | ⟨_, _, h'⟩ | ⟨_, _, h'⟩ | ⟨_, _, h'⟩ | ⟨_, h'⟩ |
    ⟨_, _, h'⟩
  all_goals rw [hd] at h'
  all_goals cases h'
  rfl

theorem decode16_branch_even {h : BitVec 16} {f3 : BitVec 3} {rs1 rs2 : BitVec 5} {imm : Word}
    (hd : decode16 h = .branch f3 rs1 rs2 imm) : imm.toNat % 2 = 0 := by
  have hbit : (immCB h).toNat.testBit 0 = false := by
    show (immCB h).getLsbD 0 = false
    unfold immCB
    simp only [BitVec.getLsbD_signExtend, BitVec.getLsbD_append]
    rfl
  have heven : (immCB h).toNat % 2 = 0 := by
    simpa [Nat.testBit_zero] using hbit
  rcases decode16_cases h with ⟨_, _, h'⟩ | ⟨_, _, h'⟩ | ⟨_, _, h'⟩ | ⟨_, _, h'⟩ | ⟨_, h'⟩ |
    ⟨_, _, h'⟩
  all_goals rw [hd] at h'
  all_goals cases h'
  · exact heven
  · exact heven

theorem decode32_branch_even {w : Word} {f3 : BitVec 3} {rs1 rs2 : BitVec 5} {imm : Word}
    (hd : decode32 w = some (.branch f3 rs1 rs2 imm)) : imm.toNat % 2 = 0 := by
  have hbit : (immB w).toNat.testBit 0 = false := by
    show (immB w).getLsbD 0 = false
    unfold immB
    simp only [BitVec.getLsbD_signExtend, BitVec.getLsbD_append]
    rfl
  have heven : (immB w).toNat % 2 = 0 := by
    simpa [Nat.testBit_zero] using hbit
  unfold decode32 at hd
  dsimp only at hd
  split at hd
  · cases hd
  split at hd
  · split at hd <;> cases hd
  split at hd
  · split at hd
    · cases hd
    · cases hd
      exact heven
  · cases hd

/-! ## Sign extension by an exclusive or -/

theorem xor_two_pow {x k : Nat} (h : x < 2 ^ k) : x ^^^ 2 ^ k = x + 2 ^ k := by
  have hor : 2 ^ k * 1 + x = 2 ^ k * 1 ||| x := Nat.two_pow_add_eq_or_of_lt h 1
  have hx : x.testBit k = false := Nat.testBit_lt_two_pow h
  rw [Nat.add_comm, ← Nat.mul_one (2 ^ k), hor]
  apply Nat.eq_of_testBit_eq
  intro i
  simp only [Nat.testBit_xor, Nat.testBit_or, Nat.mul_one, Nat.testBit_two_pow]
  by_cases hi : k = i
  · subst hi
    simp [hx]
  · simp [hi]

theorem xor_sub_signExtend {n : Nat} (hn : 0 < n) (hn' : n ≤ 32) (x : BitVec n) :
    (x.setWidth 32 ^^^ 1#32 <<< (n - 1)) - 1#32 <<< (n - 1) = x.signExtend 32 := by
  have hpow : 2 ^ n = 2 * 2 ^ (n - 1) := by
    rw [← Nat.pow_succ']
    congr 1
    omega
  have hle : 2 ^ n ≤ 2 ^ 32 := Nat.pow_le_pow_right (by decide) hn'
  have hx := x.isLt
  have hm : (1#32 <<< (n - 1)).toNat = 2 ^ (n - 1) := by
    rw [BitVec.toNat_shiftLeft, BitVec.toNat_ofNat, Nat.one_mod, Nat.one_shiftLeft,
      Nat.mod_eq_of_lt (by omega)]
  apply BitVec.eq_of_toNat_eq
  rw [BitVec.toNat_sub, BitVec.toNat_xor, hm, BitVec.toNat_setWidth, BitVec.toNat_signExtend,
    BitVec.toNat_setWidth, Nat.mod_eq_of_lt (by omega : x.toNat < 2 ^ 32), BitVec.msb_eq_decide]
  by_cases hlow : x.toNat < 2 ^ (n - 1)
  · rw [xor_two_pow hlow]
    simp only [decide_eq_true_eq, Nat.not_le.mpr hlow, if_false]
    omega
  · obtain ⟨y, hy⟩ : ∃ y, x.toNat = y + 2 ^ (n - 1) := ⟨x.toNat - 2 ^ (n - 1), by omega⟩
    have hylt : y < 2 ^ (n - 1) := by omega
    rw [hy, ← xor_two_pow hylt, Nat.xor_assoc, Nat.xor_self, Nat.xor_zero, xor_two_pow hylt]
    simp only [decide_eq_true_eq, Nat.le_add_left, if_true]
    omega

theorem and_mask_eq {w : Nat} (x : BitVec w) (k n : Nat) :
    x >>> k &&& BitVec.ofNat w (2 ^ n - 1) = (x.extractLsb' k n).setWidth w := by
  apply BitVec.eq_of_getLsbD_eq
  intro i hi
  rw [BitVec.getLsbD_and, BitVec.getLsbD_ushiftRight, BitVec.getLsbD_setWidth,
    BitVec.getLsbD_extractLsb', BitVec.getLsbD_ofNat, Nat.testBit_two_pow_sub_one]
  simp [hi, Bool.and_comm]

theorem toNat_and_mask {w n : Nat} (hn : n ≤ w) (x : BitVec w) (k : Nat) :
    (x >>> k &&& BitVec.ofNat w (2 ^ n - 1)).toNat = (x.extractLsb' k n).toNat := by
  have hle : 2 ^ n ≤ 2 ^ w := Nat.pow_le_pow_right (by decide) hn
  have hlt := (x.extractLsb' k n).isLt
  rw [and_mask_eq, BitVec.toNat_setWidth, Nat.mod_eq_of_lt (by omega)]

theorem and_mask_eq_iff {w : Nat} (x : BitVec w) (k : Nat) {n : Nat} (hn : n ≤ w) (v : BitVec n) :
    x >>> k &&& BitVec.ofNat w (2 ^ n - 1) = v.setWidth w ↔ x.extractLsb' k n = v := by
  rw [and_mask_eq]
  constructor
  · intro h
    apply BitVec.eq_of_toNat_eq
    have h' := congrArg BitVec.toNat h
    have hle : 2 ^ n ≤ 2 ^ w := Nat.pow_le_pow_right (by decide) hn
    have h1 := (x.extractLsb' k n).isLt
    have h2 := v.isLt
    rwa [BitVec.toNat_setWidth, BitVec.toNat_setWidth, Nat.mod_eq_of_lt (by omega),
      Nat.mod_eq_of_lt (by omega)] at h'
  · intro h
    rw [h]

abbrev Reg := Fin 32

scoped instance instNeZero32 : NeZero 32 := ⟨by decide⟩

/-- The registers. Register 0 is 0, whatever is written to it. -/
@[ext]
structure Regs where
  val : Reg → Word
  x0 : val 0 = 0

def Regs.zero : Regs := ⟨fun _ => 0, rfl⟩

def Regs.write (x : Regs) (rd : Reg) (v : Word) : Regs :=
  ⟨fun r => if r = rd ∧ rd ≠ 0 then v else x.val r, by
    rw [if_neg]
    · exact x.x0
    · intro h
      exact h.2 h.1.symm⟩

theorem Regs.write_val (x : Regs) (rd r : Reg) (v : Word) :
    (x.write rd v).val r = if r = rd ∧ rd ≠ 0 then v else x.val r := rfl

@[simp]
theorem Regs.write_zero (x : Regs) (v : Word) : x.write 0 v = x := by
  apply Regs.ext
  funext r
  rw [Regs.write_val, if_neg (fun h => h.2 rfl)]

@[simp]
theorem Regs.write_write (x : Regs) (rd : Reg) (v w : Word) :
    (x.write rd v).write rd w = x.write rd w := by
  apply Regs.ext
  funext r
  simp only [Regs.write_val]
  split
  · rfl
  · rfl

/-! ## Instructions -/

inductive Base where
  | addi (rd rs1 : Reg) (imm : BitVec 12)
  | add (rd rs1 rs2 : Reg)
  | sub (rd rs1 rs2 : Reg)
  | lui (rd : Reg) (imm : BitVec 20)
deriving DecidableEq

def Base.exec (x : Regs) : Base → Regs
  | .addi rd rs1 imm => x.write rd (x.val rs1 + imm.signExtend 32)
  | .add rd rs1 rs2 => x.write rd (x.val rs1 + x.val rs2)
  | .sub rd rs1 rs2 => x.write rd (x.val rs1 - x.val rs2)
  | .lui rd imm => x.write rd (imm ++ 0#12)

/-! ## Constants -/

/-- The upper part of a constant. `addi` extends the sign of the lower part, so that the upper
part is one more where the lower part is negative. -/
def hi20 (v : Word) : BitVec 20 := (v + 0x800#32).extractLsb' 12 20

def lo12 (v : Word) : BitVec 12 := v.extractLsb' 0 12

/-- The two instructions that load a constant. -/
def loadConstant (rd : Reg) (v : Word) : List Base := [.lui rd (hi20 v), .addi rd rd (lo12 v)]

theorem hi20_add_lo12 (v : Word) : (hi20 v ++ 0#12) + (lo12 v).signExtend 32 = v := by
  have hhi : hi20 v ++ 0#12 = BitVec.ofNat 32 ((v.toNat + 2048) / 4096 * 4096) := by
    apply BitVec.eq_of_toNat_eq
    rw [hi20, BitVec.toNat_append, BitVec.extractLsb'_toNat, BitVec.toNat_add]
    simp [Nat.shiftRight_eq_div_pow, Nat.shiftLeft_eq]
    omega
  have hlo : (lo12 v).signExtend 32 = BitVec.ofInt 32 ((v.toNat + 2048) % 4096 - 2048 : Int) := by
    apply BitVec.eq_of_toInt_eq
    rw [BitVec.toInt_signExtend_of_le (by decide),
      BitVec.toInt_ofInt_eq_self (by decide) (by omega) (by omega), lo12,
      BitVec.toInt_eq_toNat_cond, BitVec.extractLsb'_toNat]
    simp
    omega
  rw [hhi, hlo]
  apply BitVec.eq_of_toNat_eq
  simp
  omega

theorem loadConstant_exec (x : Regs) (rd : Reg) (v : Word) :
    (loadConstant rd v).foldl Base.exec x = x.write rd v := by
  simp only [loadConstant, List.foldl_cons, List.foldl_nil, Base.exec, Regs.write_write]
  by_cases hrd : rd = 0
  · rw [hrd, Regs.write_zero, Regs.write_zero]
  · rw [Regs.write_val, if_pos ⟨rfl, hrd⟩, hi20_add_lo12]

theorem signExtend_ofInt {i : Int} (hlo : -2048 ≤ i) (hhi : i < 2048) :
    (BitVec.ofInt 12 i).signExtend 32 = BitVec.ofInt 32 i := by
  apply BitVec.eq_of_toInt_eq
  rw [BitVec.toInt_signExtend_of_le (by decide), BitVec.toInt_ofInt_eq_self (by decide) hlo hhi,
    BitVec.toInt_ofInt_eq_self (by decide) (by omega) (by omega)]

theorem append_ofInt {i : Int} (hlo : 0 ≤ i) (hhi : i < 1048576) :
    BitVec.ofInt 20 i ++ 0#12 = BitVec.ofInt 32 i <<< 12 := by
  apply BitVec.eq_of_toNat_eq
  rw [BitVec.toNat_append, BitVec.toNat_shiftLeft]
  simp [Nat.shiftLeft_eq]
  omega

end vibeos.Rv32
