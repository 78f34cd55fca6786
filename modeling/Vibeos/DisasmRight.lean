-- The lines of the disassembler against the notation of the instruction set. For every instruction
-- the printed line is the line of some instruction, and the two differ in three places.
import Vibeos.DebugStep
import Vibeos.Disasm

namespace vibeos.jit_debug

open Rv32
open wget (ascii)

variable {pc w : Word} {h : BitVec 16} {i : Instr} {c : Compressed}

/-! ## Registers -/

theorem reg_name_eq (r : BitVec 5) : reg_name r.toNat = ascii (abiName r) := by
  revert r
  decide

theorem reg_field_text {n : Nat} (hn : 5 ≤ n) (x : BitVec n) (k : Nat) :
    reg_name (x >>> k &&& BitVec.ofNat n 31).toNat = ascii (abiName (x.extractLsb' k 5)) := by
  rw [← reg_name_eq, ← toNat_and_mask hn]
  rfl

theorem reg_field_eq_iff (h : BitVec 16) (k : Nat) (r : BitVec 5) :
    (h >>> k &&& 31#16).toNat = r.toNat ↔ h.extractLsb' k 5 = r := by
  have hfield : (h >>> k &&& 31#16).toNat = (h.extractLsb' k 5).toNat :=
    toNat_and_mask (n := 5) (by decide) h k
  rw [hfield, BitVec.toNat_eq]

theorem half_regs (h : BitVec 16) (k : Nat) :
    reg_name (h >>> k &&& 31#16).toNat = ascii (abiName (h.extractLsb' k 5)) ∧
    reg_name (8 + (h >>> k &&& 7#16).toNat) = ascii (abiName (0b01#2 ++ h.extractLsb' k 3)) ∧
    ((h >>> k &&& 31#16).toNat = 0 ↔ h.extractLsb' k 5 = 0) :=
  ⟨reg_field_text (by decide) h k, by rw [toNat_low_reg, reg_name_eq], reg_field_eq_iff h k 0⟩

theorem word_fields (w : Word) :
    reg_name (w >>> 7 &&& 31#32).toNat = ascii (abiName (w.extractLsb' 7 5)) ∧
    w >>> 12 &&& 7#32 = (w.extractLsb' 12 3).setWidth 32 ∧
    reg_name (w >>> 15 &&& 31#32).toNat = ascii (abiName (w.extractLsb' 15 5)) ∧
    reg_name (w >>> 20 &&& 31#32).toNat = ascii (abiName (w.extractLsb' 20 5)) :=
  ⟨reg_field_text (by decide) w 7, and_mask_eq w 12 3, reg_field_text (by decide) w 15,
    reg_field_text (by decide) w 20⟩

/-! ## Immediates -/

theorem addi4spn_imm_eq (h : BitVec 16) : addi4spn_imm (h.setWidth 32) = immCIW h := by
  apply BitVec.eq_of_getLsbD_eq
  intro i hi
  simp only [addi4spn_imm, immCIW, BitVec.getLsbD_setWidth, BitVec.getLsbD_append,
    BitVec.getLsbD_extractLsb']
  interval_cases i <;> simp [-BitVec.getLsbD_eq_getElem]

theorem c_lw_imm_eq (h : BitVec 16) : c_lw_imm (h.setWidth 32) = immCL h := by
  apply BitVec.eq_of_getLsbD_eq
  intro i hi
  simp only [c_lw_imm, immCL, BitVec.getLsbD_setWidth, BitVec.getLsbD_append,
    BitVec.getLsbD_extractLsb']
  interval_cases i <;> simp [-BitVec.getLsbD_eq_getElem]

theorem ci_imm_eq (h : BitVec 16) : ci_imm (h.setWidth 32) = immCI h := by
  refine sext_eq (n := 6) (by decide) (by decide) fun i hi => ?_
  simp only [BitVec.getLsbD_setWidth, BitVec.getLsbD_append, BitVec.getLsbD_extractLsb']
  interval_cases i <;> simp [-BitVec.getLsbD_eq_getElem]

theorem slli_imm_eq (h : BitVec 16) : slli_imm (h.setWidth 32) = shamtC h := by
  apply BitVec.eq_of_getLsbD_eq
  intro i hi
  simp only [slli_imm, shamtC, BitVec.getLsbD_setWidth, BitVec.getLsbD_append,
    BitVec.getLsbD_extractLsb']
  interval_cases i <;> simp [-BitVec.getLsbD_eq_getElem]

theorem swsp_imm_eq (h : BitVec 16) : swsp_imm (h.setWidth 32) = immSwsp h := by
  apply BitVec.eq_of_getLsbD_eq
  intro i hi
  simp only [swsp_imm, immSwsp, BitVec.getLsbD_setWidth, BitVec.getLsbD_append,
    BitVec.getLsbD_extractLsb']
  interval_cases i <;> simp [-BitVec.getLsbD_eq_getElem]

theorem lwsp_imm_eq (h : BitVec 16) : lwsp_imm (h.setWidth 32) = immLwsp h &&& 0x7f#32 := by
  apply BitVec.eq_of_getLsbD_eq
  intro i hi
  simp only [lwsp_imm, immLwsp, BitVec.getLsbD_and, BitVec.getLsbD_setWidth,
    BitVec.getLsbD_append, BitVec.getLsbD_extractLsb']
  interval_cases i <;> simp [-BitVec.getLsbD_eq_getElem]

/-- The six bits that `c.addi` has for its immediate, where `c.addi16sp` has those of `imm`. -/
def ciOf (imm : Word) : Word :=
  (imm.extractLsb' 9 1 ++ imm.extractLsb' 4 1 ++ imm.extractLsb' 6 1 ++ imm.extractLsb' 7 2 ++
    imm.extractLsb' 5 1).signExtend 32

theorem immCI_eq (h : BitVec 16) : immCI h = ciOf (immCI16 h) := by
  unfold immCI ciOf
  congr 1
  apply BitVec.eq_of_getLsbD_eq
  intro i hi
  simp only [immCI16, BitVec.getLsbD_signExtend, BitVec.getLsbD_append, BitVec.getLsbD_extractLsb']
  interval_cases i <;> simp [-BitVec.getLsbD_eq_getElem]

theorem store_imm_eq (insn : Word) : store_imm insn = immS insn := by
  refine sext_eq (n := 12) (by decide) (by decide) fun i hi => ?_
  simp only [BitVec.getLsbD_setWidth, BitVec.getLsbD_append, BitVec.getLsbD_extractLsb']
  interval_cases i <;> simp [-BitVec.getLsbD_eq_getElem]

theorem shamt_eq (insn : Word) : immI insn &&& 31#32 = shamt insn := by
  apply BitVec.eq_of_getLsbD_eq
  intro i hi
  simp only [immI, shamt, BitVec.getLsbD_and, BitVec.getLsbD_setWidth, BitVec.getLsbD_signExtend,
    BitVec.getLsbD_extractLsb']
  interval_cases i <;> simp [-BitVec.getLsbD_eq_getElem]

theorem lui_imm_eq (insn : Word) : insn >>> 12 = (insn.extractLsb' 12 20).setWidth 32 := by
  apply BitVec.eq_of_getLsbD_eq
  intro i hi
  simp only [BitVec.getLsbD_setWidth, BitVec.getLsbD_extractLsb']
  interval_cases i <;> simp [-BitVec.getLsbD_eq_getElem]

theorem u_imm20_eq (insn : Word) : u_imm20 insn = (insn.extractLsb' 12 20).signExtend 32 := by
  apply BitVec.eq_of_getLsbD_eq
  intro i hi
  simp only [u_imm20, BitVec.getLsbD_signExtend, BitVec.getLsbD_extractLsb']
  interval_cases i <;>
    simp [-BitVec.getLsbD_eq_getElem, BitVec.getLsbD_sshiftRight, BitVec.msb_eq_getLsbD_last]

theorem top_eq (insn : Word) :
    insn >>> 30 = ((insn.extractLsb' 25 7).extractLsb' 5 2).setWidth 32 := by
  apply BitVec.eq_of_getLsbD_eq
  intro i hi
  simp only [BitVec.getLsbD_setWidth, BitVec.getLsbD_extractLsb']
  interval_cases i <;> simp [-BitVec.getLsbD_eq_getElem]

/-! ## Mnemonics -/

theorem funct3_cases (f : BitVec 3) : f = 0b000#3 ∨ f = 0b001#3 ∨ f = 0b010#3 ∨ f = 0b011#3 ∨
    f = 0b100#3 ∨ f = 0b101#3 ∨ f = 0b110#3 ∨ f = 0b111#3 := by
  revert f
  decide

theorem branch_mn_eq (f : BitVec 3) :
    ∀ op ∈ BranchOp.read f, branch_mn (f.setWidth 32) = ascii op.name := by
  revert f
  decide

theorem load_mn_eq (f : BitVec 3) :
    ∀ op ∈ LoadOp.read f, load_mn (f.setWidth 32) = ascii op.name := by
  revert f
  decide

theorem store_mn_eq (f : BitVec 3) :
    ∀ op ∈ StoreOp.read f, store_mn (f.setWidth 32) = ascii op.name := by
  revert f
  decide

/-- The operation whose name is printed for one of the M extension. -/
def baseOp : RegOp → RegOp
  | .mul => .add | .mulh => .sll | .mulhsu => .slt | .mulhu => .sltu | .div => .xor | .divu => .srl
  | .rem => .or | .remu => .and
  | op => op

theorem alu_mn_eq (f7 : BitVec 7) (f : BitVec 3) : ∀ op ∈ RegOp.read f7 f,
    alu_mn (f.setWidth 32) ((f7.extractLsb' 5 2).setWidth 32) = ascii (baseOp op).name := by
  revert f7 f
  decide

theorem imm_mn_eq (f7 : BitVec 7) (f : BitVec 3) (imm : Word) : ∀ op ∈ ImmOp.read f7 f,
    imm_mn (f.setWidth 32) ((f7.extractLsb' 5 2).setWidth 32) imm =
      (ascii op.name, if op.isShift then imm &&& 31#32 else imm) := by
  intro op hop
  rcases funct3_cases f with rfl | rfl | rfl | rfl | rfl | rfl | rfl | rfl
  case inr.inl =>
    by_cases h0 : f7 = 0
    · subst h0
      cases hop
      rfl
    · rw [show ImmOp.read f7 0b001#3 = none from if_neg h0] at hop
      cases hop
  case inr.inr.inr.inr.inr.inl =>
    by_cases h0 : f7 = 0
    · subst h0
      cases hop
      rfl
    by_cases h20 : f7 = 0b0100000#7
    · subst h20
      cases hop
      rfl
    · rw [show ImmOp.read f7 0b101#3 = none from (if_neg h0).trans (if_neg h20)] at hop
      cases hop
  all_goals
    cases hop
    rfl

/-! ## Words -/

/-- The instruction whose line is printed for `i`: the base operation for the M extension, the
bits of `c.addi16sp` in the order of `c.addi`, and no bit 7 for `c.lwsp`. -/
def shown : Instr → Instr
  | .arith op rd rs1 rs2 => .arith (baseOp op) rd rs1 rs2
  | .compressed (.addi16sp imm) => .compressed (.addi16sp (ciOf imm))
  | .compressed (.lwsp rd imm) => .compressed (.lwsp rd (imm &&& 0x7f#32))
  | i => i

theorem auipc_eq (rd : BitVec 5) (imm : BitVec 20) :
    (if (imm.signExtend 32).slt 0#32 then
      say [ascii "auipc ", ascii (abiName rd), ascii ",-0x", hex (-imm.signExtend 32)]
    else say [ascii "auipc ", ascii (abiName rd), ascii ",0x", hex (imm.signExtend 32)]) =
      instrText pc (.auipc rd imm) := by
  have hsign : (imm.signExtend 32).slt 0#32 = imm.msb := by
    rw [BitVec.slt_zero_eq_msb, BitVec.msb_signExtend]
    simp
  simp only [instrText, Instr.line]
  rw [hsign]
  by_cases hneg : imm.msb = true
  · rw [if_pos hneg, if_pos hneg]
    rfl
  · rw [if_neg hneg, if_neg hneg, BitVec.signExtend_eq_setWidth_of_msb_false (by simpa using hneg)]
    rfl

theorem word_text_eq (hi : readWord w = some i) (hb : w ≠ 0x00100073#32)
    (hc : w ≠ 0x00000073#32) : word_text pc w = instrText pc (shown i) := by
  obtain ⟨hrd, hf, hrs1, hrs2⟩ := word_fields w
  unfold readWord at hi
  dsimp only at hi
  rw [if_neg hb, if_neg hc] at hi
  unfold word_text
  simp only [hrd, hf, hrs1, hrs2]
  by_cases hlui : w.extractLsb' 0 7 = 0b0110111#7
  · rw [if_pos hlui] at hi
    have hop : w &&& 0x7f#32 = 0x37#32 := (opcode_eq_iff w 0b0110111#7).mpr hlui
    cases hi
    rw [if_pos hop, lui_imm_eq]
    rfl
  rw [if_neg hlui] at hi
  by_cases hauipc : w.extractLsb' 0 7 = 0b0010111#7
  · rw [if_pos hauipc] at hi
    have hop : w &&& 0x7f#32 = 0x17#32 := (opcode_eq_iff w 0b0010111#7).mpr hauipc
    cases hi
    rw [hop, if_neg (by decide), if_pos rfl, u_imm20_eq]
    exact auipc_eq _ _
  rw [if_neg hauipc] at hi
  by_cases hjal : w.extractLsb' 0 7 = 0b1101111#7
  · rw [if_pos hjal] at hi
    have hop : w &&& 0x7f#32 = 0x6f#32 := (opcode_eq_iff w 0b1101111#7).mpr hjal
    cases hi
    simp only [hop, BitVec.reduceEq, if_false, if_true, jal_imm_eq]
    rfl
  rw [if_neg hjal] at hi
  by_cases hjalr : w.extractLsb' 0 7 = 0b1100111#7
  · rw [if_pos hjalr] at hi
    have hop : w &&& 0x7f#32 = 0x67#32 := (opcode_eq_iff w 0b1100111#7).mpr hjalr
    obtain ⟨-, rfl⟩ : w.extractLsb' 12 3 = 0b000#3 ∧ _ = i := by
      split at hi
      · exact ⟨‹_›, Option.some.inj hi⟩
      · cases hi
    simp only [hop, BitVec.reduceEq, if_false, if_true, jalr_imm_eq]
    rfl
  rw [if_neg hjalr] at hi
  by_cases hbranch : w.extractLsb' 0 7 = 0b1100011#7
  · rw [if_pos hbranch] at hi
    have hop : w &&& 0x7f#32 = 0x63#32 := (opcode_eq_iff w 0b1100011#7).mpr hbranch
    obtain ⟨op, hread, rfl⟩ := Option.map_eq_some_iff.mp hi
    simp only [hop, BitVec.reduceEq, if_false, if_true, branch_imm_eq, branch_mn_eq _ op hread]
    rfl
  rw [if_neg hbranch] at hi
  by_cases hload : w.extractLsb' 0 7 = 0b0000011#7
  · rw [if_pos hload] at hi
    have hop : w &&& 0x7f#32 = 0x03#32 := (opcode_eq_iff w 0b0000011#7).mpr hload
    obtain ⟨op, hread, rfl⟩ := Option.map_eq_some_iff.mp hi
    have himm : sext (w >>> 20) 12 = immI w := jalr_imm_eq w
    simp only [hop, BitVec.reduceEq, if_false, if_true, himm, load_mn_eq _ op hread]
    rfl
  rw [if_neg hload] at hi
  by_cases hstore : w.extractLsb' 0 7 = 0b0100011#7
  · rw [if_pos hstore] at hi
    have hop : w &&& 0x7f#32 = 0x23#32 := (opcode_eq_iff w 0b0100011#7).mpr hstore
    obtain ⟨op, hread, rfl⟩ := Option.map_eq_some_iff.mp hi
    simp only [hop, BitVec.reduceEq, if_false, if_true, store_imm_eq, store_mn_eq _ op hread]
    rfl
  rw [if_neg hstore] at hi
  by_cases hconst : w.extractLsb' 0 7 = 0b0010011#7
  · rw [if_pos hconst] at hi
    have hop : w &&& 0x7f#32 = 0x13#32 := (opcode_eq_iff w 0b0010011#7).mpr hconst
    obtain ⟨op, hread, rfl⟩ := Option.map_eq_some_iff.mp hi
    have himm : sext (w >>> 20) 12 = immI w := jalr_imm_eq w
    simp only [hop, BitVec.reduceEq, if_false, if_true, himm, top_eq, imm_mn_eq _ _ _ op hread,
      shamt_eq]
    rfl
  rw [if_neg hconst] at hi
  by_cases harith : w.extractLsb' 0 7 = 0b0110011#7
  · rw [if_pos harith] at hi
    have hop : w &&& 0x7f#32 = 0x33#32 := (opcode_eq_iff w 0b0110011#7).mpr harith
    obtain ⟨op, hread, rfl⟩ := Option.map_eq_some_iff.mp hi
    simp only [hop, BitVec.reduceEq, if_false, if_true, top_eq, alu_mn_eq _ _ op hread]
    rfl
  · rw [if_neg harith] at hi
    cases hi

/-! ## Compressed instructions -/

theorem c_insn_text_quadrant0 (h0 : h ≠ 0) (hq : h.extractLsb' 0 2 = 0b00#2)
    (hc : readHalf h = some c) : c_insn_text pc h = instrText pc (shown (.compressed c)) := by
  obtain ⟨-, hlow, -⟩ := half_regs h 2
  obtain ⟨-, hhigh, -⟩ := half_regs h 7
  have hop : h &&& 3#16 = 0#16 := (quadrant_eq_iff h 0b00#2).mpr hq
  rcases funct3_cases (h.extractLsb' 13 3) with hf | hf | hf | hf | hf | hf | hf | hf
  all_goals
    have hf3 := (c_funct3_eq_iff h _).mpr hf
    simp only [c_insn_text, h0, hop, hf3, BitVec.reduceSetWidth, BitVec.reduceEq, and_self,
      and_false, reduceIte]
    simp only [readHalf, hq, hf, BitVec.reduceEq, reduceIte, reduceCtorEq] at hc
  · by_cases himm : immCIW h = 0
    · rw [if_pos himm] at hc
      cases hc
    · rw [if_neg himm] at hc
      cases hc
      rw [addi4spn_imm_eq, if_neg himm, hlow]
      rfl
  · cases hc
    rw [c_lw_imm_eq, hlow, hhigh]
    rfl
  · cases hc
    rw [c_lw_imm_eq, hlow, hhigh]
    rfl

theorem c_insn_text_quadrant1 (h0 : h ≠ 0) (hq : h.extractLsb' 0 2 = 0b01#2)
    (hc : readHalf h = some c) : c_insn_text pc h = instrText pc (shown (.compressed c)) := by
  obtain ⟨hrd, hhigh, hrd0⟩ := half_regs h 7
  have hrd2 : (h >>> 7 &&& 31#16).toNat = 2 ↔ h.extractLsb' 7 5 = 2 := reg_field_eq_iff h 7 2
  have hop : h &&& 3#16 = 1#16 := (quadrant_eq_iff h 0b01#2).mpr hq
  rcases funct3_cases (h.extractLsb' 13 3) with hf | hf | hf | hf | hf | hf | hf | hf
  all_goals
    have hf3 := (c_funct3_eq_iff h _).mpr hf
    simp only [c_insn_text, h0, hop, hf3, BitVec.reduceSetWidth, BitVec.reduceEq, and_self,
      and_false, false_and, or_self, or_true, true_or, reduceIte, hrd0, hrd2, hrd, hhigh, ci_imm_eq,
      cj_imm_eq, cb_imm_eq]
    simp only [readHalf, hq, hf, BitVec.reduceEq, reduceIte, reduceCtorEq] at hc
  · by_cases hzero : h.extractLsb' 7 5 = 0
    · rw [if_pos hzero] at hc
      by_cases himm : immCI h = 0
      · rw [if_pos himm] at hc
        cases hc
        rw [if_pos ⟨hzero, himm⟩]
        rfl
      · rw [if_neg himm] at hc
        cases hc
    · rw [if_neg hzero] at hc
      split at hc
      · cases hc
      · cases hc
        rw [if_neg fun h => hzero h.1]
        rfl
  · cases hc
    rfl
  · split at hc
    · cases hc
    · cases hc
      rfl
  · by_cases htwo : h.extractLsb' 7 5 = 2
    · rw [if_pos htwo] at hc
      rw [if_pos htwo]
      split at hc
      · cases hc
      · cases hc
        rw [immCI_eq]
        rfl
    · rw [if_neg htwo] at hc
      rw [if_neg htwo]
      split at hc
      · cases hc
      split at hc
      · cases hc
      · cases hc
        rfl
  · cases hc
    rfl
  · cases hc
    rfl
  · cases hc
    rfl

theorem c_misc_text_eq (hq : h.extractLsb' 0 2 = 0b10#2) (hf : h.extractLsb' 13 3 = 0b100#3)
    (hc : readHalf h = some c) :
    c_misc_text h (h >>> 7 &&& 31#16).toNat (h >>> 2 &&& 31#16).toNat =
      instrText pc (shown (.compressed c)) := by
  obtain ⟨hrd, -, hrd0⟩ := half_regs h 7
  obtain ⟨hrs2, -, hrs20⟩ := half_regs h 2
  have hbit : h >>> 12 &&& 1#16 = 0#16 ↔ h.extractLsb' 12 1 = 0#1 :=
    and_mask_eq_iff (n := 1) h 12 (by decide) 0#1
  simp only [readHalf, hq, hf, BitVec.reduceEq, reduceIte] at hc
  simp only [c_misc_text, ne_eq, hbit, hrd0, hrs20, hrd, hrs2]
  by_cases hb : h.extractLsb' 12 1 = 0#1
  all_goals by_cases hd : h.extractLsb' 7 5 = 0
  all_goals by_cases hs : h.extractLsb' 2 5 = 0
  all_goals
    simp only [hb, hd, hs, reduceIte, reduceCtorEq, not_true_eq_false, not_false_eq_true, and_self,
      and_false, and_true] at hc ⊢
  all_goals
    cases hc
    rfl

theorem c_insn_text_quadrant2 (h0 : h ≠ 0) (hq : h.extractLsb' 0 2 = 0b10#2)
    (hc : readHalf h = some c) : c_insn_text pc h = instrText pc (shown (.compressed c)) := by
  obtain ⟨hrd, -, hrd0⟩ := half_regs h 7
  obtain ⟨hrs2, -, -⟩ := half_regs h 2
  have hop : h &&& 3#16 = 2#16 := (quadrant_eq_iff h 0b10#2).mpr hq
  by_cases hmisc : h.extractLsb' 13 3 = 0b100#3
  · have hf3 : h >>> 13 &&& 7#16 = 4#16 := (c_funct3_eq_iff h _).mpr hmisc
    simp only [c_insn_text, h0, hop, hf3, BitVec.reduceEq, and_self, and_false, false_and,
      reduceIte]
    exact c_misc_text_eq hq hmisc hc
  rcases funct3_cases (h.extractLsb' 13 3) with hf | hf | hf | hf | hf | hf | hf | hf
  all_goals
    have hf3 := (c_funct3_eq_iff h _).mpr hf
    simp only [c_insn_text, h0, hop, hf3, BitVec.reduceSetWidth, BitVec.reduceEq, and_self,
      and_false, false_and, reduceIte, hrd, hrs2, slli_imm_eq, lwsp_imm_eq, swsp_imm_eq]
    simp only [readHalf, hq, hf, BitVec.reduceEq, reduceIte, reduceCtorEq] at hc
  · split at hc
    · cases hc
    split at hc
    · cases hc
    split at hc
    · cases hc
    · cases hc
      rfl
  · split at hc
    · cases hc
    · cases hc
      rfl
  · exact absurd hf hmisc
  · cases hc
    rfl

theorem c_insn_text_eq (hc : readHalf h = some c) :
    c_insn_text pc h = instrText pc (shown (.compressed c)) := by
  have h0 : h ≠ 0 := by
    rintro rfl
    cases hc
  have hq : h.extractLsb' 0 2 = 0b00#2 ∨ h.extractLsb' 0 2 = 0b01#2 ∨ h.extractLsb' 0 2 = 0b10#2 ∨
      h.extractLsb' 0 2 = 0b11#2 := by
    generalize h.extractLsb' 0 2 = q
    revert q
    decide
  rcases hq with hq | hq | hq | hq
  · exact c_insn_text_quadrant0 h0 hq hc
  · exact c_insn_text_quadrant1 h0 hq hc
  · exact c_insn_text_quadrant2 h0 hq hc
  · simp only [readHalf, hq, BitVec.reduceEq, reduceIte, reduceCtorEq] at hc

theorem insn_text_eq {insn : Word} (hi : readInstr insn = some i) :
    insn_text pc insn = instrText pc (shown i) := by
  have hword : insn &&& 3#32 = 3#32 ↔ insn.extractLsb' 0 2 = 0b11#2 := by
    have h := and_mask_eq_iff insn 0 (by decide) 0b11#2
    rwa [BitVec.ushiftRight_zero] at h
  have hhalf : insn.setWidth 16 = insn.extractLsb' 0 16 := by
    ext i hi
    simp
  unfold readInstr at hi
  unfold insn_text insn_is_rv32_word
  simp only [hword, decide_eq_true_eq, hhalf]
  by_cases hw : insn.extractLsb' 0 2 = 0b11#2
  · rw [if_pos hw] at hi
    rw [if_neg (not_not.mpr hw)]
    by_cases hbreak : insn = 0x00100073#32
    · subst hbreak
      cases hi
      rfl
    by_cases hcall : insn = 0x00000073#32
    · subst hcall
      cases hi
      rfl
    · rw [if_neg hbreak, if_neg hcall]
      exact word_text_eq hi hbreak hcall
  · rw [if_neg hw] at hi
    rw [if_pos hw]
    obtain ⟨c, hc, rfl⟩ := Option.map_eq_some_iff.mp hi
    exact c_insn_text_eq hc

/-! ## The length of a line -/

theorem length_hex (v : Word) : (hex v).length ≤ 8 :=
  lib.length_print_unsigned (by decide : 1 < 16) (by decide : 0 < 8) v.isLt false

theorem length_dec (v : Word) : (dec v).length ≤ 11 := by
  have hlt := v.isLt
  have hlength := fun n (hn : n < 10 ^ 10) =>
    lib.length_print_unsigned (by decide : 1 < 10) (by decide : 0 < 10) hn false
  unfold dec lib.print_signed
  split
  · have := hlength v.toNat (by omega)
    omega
  · rw [List.length_cons]
    have := hlength (2 ^ 32 - v.toNat) (by omega)
    omega

theorem length_reg (r : BitVec 5) : (pieceText (.reg r)).length ≤ 4 := by
  revert r
  decide

/-- A piece that takes up at most eleven characters. -/
def Short (p : Piece) : Prop := (pieceText p).length ≤ 11

theorem short_reg (r : BitVec 5) : Short (.reg r) := (length_reg r).trans (by decide)

theorem short_hex (v : Word) : Short (.hex v) := (length_hex v).trans (by decide)

theorem short_dec (v : Word) : Short (.dec v) := length_dec v

theorem short_text {s : String} (h : (ascii s).length ≤ 11) : Short (.text s) := h

theorem length_branch (op : BranchOp) : (ascii op.name).length ≤ 6 := by
  cases op <;> decide

theorem length_load (op : LoadOp) : (ascii op.name).length ≤ 6 := by
  cases op <;> decide

theorem length_store (op : StoreOp) : (ascii op.name).length ≤ 6 := by
  cases op <;> decide

theorem length_imm (op : ImmOp) : (ascii op.name).length ≤ 6 := by
  cases op <;> decide

theorem length_arith (op : RegOp) : (ascii op.name).length ≤ 6 := by
  cases op <;> decide

theorem length_short {l : List Piece} (hcount : l.length ≤ 7) (h : ∀ p ∈ l, Short p) :
    (say (l.map pieceText)).length ≤ 77 := by
  have hsum : (say (l.map pieceText)).length ≤ 11 * l.length := by
    clear hcount
    induction l with
    | nil => exact Nat.zero_le _
    | cons p l ih =>
      obtain ⟨hp, hl⟩ := List.forall_mem_cons.mp h
      have hrest := ih hl
      unfold Short at hp
      unfold say at hrest ⊢
      rw [List.map_cons, List.flatten_cons, List.length_append, List.length_cons]
      omega
  omega

theorem length_access {name : String} (hname : (ascii name).length ≤ 6) (r r' : BitVec 5)
    (v : Word) : (say ([.text name, .text " ", .reg r, .text ",", .dec v, .text "(", .reg r',
      .text ")"].map pieceText)).length ≤ 77 := by
  have hr := length_reg r
  have hr' := length_reg r'
  have hv := length_dec v
  have hone : ∀ s ∈ [" ", ",", "(", ")"], (ascii s).length = 1 := by decide
  simp only [List.forall_mem_cons] at hone
  obtain ⟨hblank, hcomma, hopen, hclose, -⟩ := hone
  simp only [say, List.map_cons, List.map_nil, List.flatten_cons, List.flatten_nil,
    List.length_append, List.length_nil]
  simp only [pieceText] at *
  omega

theorem length_compressed (pc : Word) (c : Compressed) :
    (say ((c.line pc).map pieceText)).length ≤ 77 := by
  have htext := fun s => @short_text s
  cases c
  all_goals
    refine length_short (Nat.le_of_ble_eq_true rfl) ?_
    simp +decide only [Compressed.line, List.forall_mem_cons, List.not_mem_nil, short_reg,
      short_hex, short_dec, htext, implies_true, false_implies, and_self]

theorem length_instrText (pc : Word) (i : Instr) : (instrText pc i).length ≤ 77 := by
  have htext := fun s => @short_text s
  unfold instrText
  cases i with
  | compressed c => exact length_compressed pc c
  | load op => exact length_access (length_load op) _ _ _
  | store op => exact length_access (length_store op) _ _ _
  | auipc rd imm =>
    simp only [Instr.line]
    by_cases hneg : imm.msb
    · rw [if_pos hneg]
      refine length_short (Nat.le_of_ble_eq_true rfl) ?_
      simp +decide [short_reg, short_hex, htext]
    · rw [if_neg hneg]
      refine length_short (Nat.le_of_ble_eq_true rfl) ?_
      simp +decide [short_reg, short_hex, htext]
  | branch op =>
    refine length_short (Nat.le_of_ble_eq_true rfl) ?_
    have hname := short_text ((length_branch op).trans (by decide))
    simp +decide [Instr.line, hname, short_reg, short_hex, htext]
  | opImm op =>
    refine length_short (Nat.le_of_ble_eq_true rfl) ?_
    have hname := short_text ((length_imm op).trans (by decide))
    simp +decide [Instr.line, hname, short_reg, short_dec, htext]
  | arith op =>
    refine length_short (Nat.le_of_ble_eq_true rfl) ?_
    have hname := short_text ((length_arith op).trans (by decide))
    simp +decide [Instr.line, hname, short_reg, htext]
  | _ =>
    refine length_short (Nat.le_of_ble_eq_true rfl) ?_
    simp +decide [Instr.line, short_reg, short_hex, short_dec, htext]

theorem format_insn_eq {insn : Word} (hi : readInstr insn = some i) :
    format_insn pc insn INSN_TEXT = instrText pc (shown i) := by
  unfold format_insn
  rw [insn_text_eq hi, List.take_of_length_le]
  exact (length_instrText pc (shown i)).trans (by decide)

/-! ## Misread instructions -/

theorem dec_injective {v w : Word} (h : dec v = dec w) : v = w := by
  apply BitVec.eq_of_toNat_eq
  have hv := v.isLt
  have hw := w.isLt
  have hsign : ∀ a b, lib.print_unsigned a 10 false ≠ 45 :: lib.print_unsigned b 10 false := by
    intro a b hab
    have := lib.print_unsigned_decimal (hab ▸ List.mem_cons_self (a := (45 : UInt8)))
    exact absurd this.1 (by decide)
  unfold dec lib.print_signed at h
  split at h
  · split at h
    · exact lib.print_unsigned_injective h
    · exact absurd h (hsign _ _)
  · split at h
    · exact absurd h.symm (hsign _ _)
    · have := lib.print_unsigned_injective (List.cons.inj h).2
      omega

theorem ciOf_eq_iff (h : BitVec 16) (hne : immCI16 h ≠ 0) :
    ciOf (immCI16 h) = immCI16 h ↔ immCI16 h = 16#32 := by
  revert hne
  unfold immCI16
  generalize h.extractLsb' 12 1 = b9
  generalize h.extractLsb' 3 2 = b8
  generalize h.extractLsb' 5 1 = b6
  generalize h.extractLsb' 2 1 = b5
  generalize h.extractLsb' 6 1 = b4
  revert b9 b8 b6 b5 b4
  decide

theorem and_low_eq_iff (imm : Word) : imm &&& 0x7f#32 = imm ↔ imm.toNat < 128 := by
  have hmask := BitVec.toNat_and imm 0x7f#32
  have htoNat : (imm &&& 0x7f#32).toNat = imm.toNat % 128 := by
    rw [hmask]
    exact Nat.and_two_pow_sub_one_eq_mod imm.toNat 7
  constructor
  · intro h
    rw [h] at htoNat
    omega
  · intro h
    apply BitVec.eq_of_toNat_eq
    omega

theorem baseOp_head (op : RegOp) (t u : Text) (hop : op.isMulDiv = true) :
    ascii (baseOp op).name ++ t ≠ ascii op.name ++ u := by
  intro h
  have hhead := congrArg List.head? h
  cases op
  all_goals first
    | exact absurd hop (by decide)
    | exact absurd (Option.some.inj hhead) (by decide)

theorem baseOp_of_base {op : RegOp} (hop : op.isMulDiv = false) : baseOp op = op := by
  cases op
  all_goals first | rfl | cases hop

theorem readWord_ne_compressed (w : Word) (c : Compressed) :
    readWord w ≠ some (.compressed c) := by
  unfold readWord
  dsimp only
  repeat'
    refine iteInduction (motive := fun o => o ≠ some (Instr.compressed c)) (fun _ => ?_)
      fun _ => ?_
  all_goals simp

theorem readHalf_addi16sp {h : BitVec 16} {imm : Word} (hc : readHalf h = some (.addi16sp imm)) :
    imm = immCI16 h ∧ immCI16 h ≠ 0 := by
  revert hc
  unfold readHalf
  dsimp only
  repeat'
    refine iteInduction (motive := fun o => o = some (Compressed.addi16sp imm) →
      imm = immCI16 h ∧ immCI16 h ≠ 0) (fun _ => ?_) fun _ => ?_
  all_goals
    intro hc
    cases hc
  exact ⟨rfl, ‹_›⟩

theorem addi16sp_read {insn imm : Word} (hi : readInstr insn = some (.compressed (.addi16sp imm))) :
    ∃ h : BitVec 16, imm = immCI16 h ∧ immCI16 h ≠ 0 := by
  unfold readInstr at hi
  split at hi
  · exact absurd hi (readWord_ne_compressed insn _)
  · obtain ⟨c, hc, hcomp⟩ := Option.map_eq_some_iff.mp hi
    cases hcomp
    exact ⟨_, readHalf_addi16sp hc⟩

theorem instrText_shown_iff {insn : Word} (hi : readInstr insn = some i) :
    instrText pc (shown i) = instrText pc i ↔ ¬ Misread i := by
  cases i with
  | arith op rd rs1 rs2 =>
    simp only [shown, Misread, Bool.not_eq_true]
    constructor
    · intro h
      by_contra hop
      exact baseOp_head op _ _ (by simpa using hop) h
    · intro hop
      rw [baseOp_of_base hop]
  | compressed c =>
    cases c with
    | addi16sp imm =>
      obtain ⟨h, rfl, hne⟩ := addi16sp_read hi
      simp only [Misread, ne_eq, not_not, shown]
      rw [← ciOf_eq_iff h hne]
      constructor
      · intro heq
        have htail : dec (ciOf (immCI16 h)) ++ [] = dec (immCI16 h) ++ [] :=
          @List.append_cancel_left _ (ascii "c.addi16sp ") _ _ heq
        exact dec_injective (List.append_cancel_right htail)
      · intro heq
        rw [heq]
    | lwsp rd imm =>
      simp only [Misread, Nat.not_le, shown]
      rw [← and_low_eq_iff]
      constructor
      · intro heq
        have htail : dec (imm &&& 0x7f#32) ++ (ascii "(sp)" ++ []) =
            dec imm ++ (ascii "(sp)" ++ []) :=
          List.append_cancel_left (List.append_cancel_left (List.append_cancel_left heq))
        exact dec_injective (List.append_cancel_right htail)
      · intro heq
        rw [heq]
    | _ => simp only [shown, Misread, not_false_eq_true]
  | _ => simp only [shown, Misread, not_false_eq_true]

theorem printedRight_iff (pc insn : Word) :
    PrintedRight pc insn ↔ ∀ i ∈ readInstr insn, ¬ Misread i := by
  unfold PrintedRight
  refine forall₂_congr fun i hi => ?_
  rw [format_insn_eq hi, instrText_shown_iff hi]

/-- `mul a0,a1,a2` is printed as `add a0,a1,a2`. -/
theorem mul_misread : ¬ PrintedRight 0 0x02c58533#32 := by
  intro h
  have hmul := h (.arith .mul 10#5 11#5 12#5) (by decide)
  revert hmul
  decide

end vibeos.jit_debug
