-- The single step of the debugger against the control flow of RV32IMC: which plans hold
-- on to the next instruction, and which ones let the program run away.
import Vibeos.DebugBreaks

namespace vibeos.jit_debug

open vibeos.Mem vibeos.Rv32

variable {s s' : JitDebug} {a b pc : Word}

/-! ## The immediates of the decoders are those of the instruction set -/

theorem sext_eq {n : Nat} (hn : 0 < n) (hn' : n ≤ 32) {v : Word} {x : BitVec n}
    (hv : ∀ i < 32, v.getLsbD i = (x.setWidth 32).getLsbD i) : sext v n = x.signExtend 32 := by
  rw [BitVec.eq_of_getLsbD_eq hv]
  exact xor_sub_signExtend hn hn' x

theorem cj_imm_eq (h : BitVec 16) : cj_imm h = immCJ h := by
  refine sext_eq (n := 12) (by decide) (by decide) fun i hi => ?_
  simp only [BitVec.getLsbD_setWidth, BitVec.getLsbD_append, BitVec.getLsbD_extractLsb']
  interval_cases i <;> simp [-BitVec.getLsbD_eq_getElem]

theorem cb_imm_eq (h : BitVec 16) : cb_imm h = immCB h := by
  refine sext_eq (n := 9) (by decide) (by decide) fun i hi => ?_
  simp only [BitVec.getLsbD_setWidth, BitVec.getLsbD_append, BitVec.getLsbD_extractLsb']
  interval_cases i <;> simp [-BitVec.getLsbD_eq_getElem]

theorem jal_imm_eq (insn : Word) : jal_imm insn = immJ insn := by
  refine sext_eq (n := 21) (by decide) (by decide) fun i hi => ?_
  simp only [BitVec.getLsbD_setWidth, BitVec.getLsbD_append, BitVec.getLsbD_extractLsb']
  interval_cases i <;> simp [-BitVec.getLsbD_eq_getElem]

theorem branch_imm_eq (insn : Word) : branch_imm insn = immB insn := by
  refine sext_eq (n := 13) (by decide) (by decide) fun i hi => ?_
  simp only [BitVec.getLsbD_setWidth, BitVec.getLsbD_append, BitVec.getLsbD_extractLsb']
  interval_cases i <;> simp [-BitVec.getLsbD_eq_getElem]

theorem jalr_imm_eq (insn : Word) : jalr_imm insn = immI insn := by
  refine sext_eq (n := 12) (by decide) (by decide) fun i hi => ?_
  simp only [BitVec.getLsbD_setWidth, BitVec.getLsbD_extractLsb']
  interval_cases i <;> simp [-BitVec.getLsbD_eq_getElem]

/-! ## The registers and the fields of an instruction -/

/-- The saved registers as those of the instruction set. -/
def regs (r : Nat → Word) (i : BitVec 5) : Word := if i = 0 then 0 else r (i.toNat - 1)

theorem reg_value_eq (r : Nat → Word) (i : BitVec 5) : reg_value r i.toNat = regs r i := by
  have hlt := i.isLt
  unfold reg_value regs
  by_cases hi : i = 0
  · subst hi
    rfl
  · have hne : i.toNat ≠ 0 := fun h => hi (BitVec.eq_of_toNat_eq h)
    rw [if_neg (by omega), if_neg (by omega), if_neg hi]

theorem reg_field_eq {w : Nat} (hw : 5 ≤ w) (r : Nat → Word) (insn : BitVec w) (k : Nat) :
    reg_value r (insn >>> k &&& BitVec.ofNat w 31).toNat = regs r (insn.extractLsb' k 5) := by
  rw [← reg_value_eq, ← toNat_and_mask hw]
  rfl

theorem toNat_low_reg (h : BitVec 16) (k : Nat) :
    8 + (h >>> k &&& 7#16).toNat = (0b01#2 ++ h.extractLsb' k 3).toNat := by
  have hfield : (h >>> k &&& 7#16).toNat = (h.extractLsb' k 3).toNat :=
    toNat_and_mask (n := 3) (by decide) h k
  rw [hfield, BitVec.toNat_append]
  exact Nat.two_pow_add_eq_or_of_lt (h.extractLsb' k 3).isLt 1

theorem reg_field3_eq (r : Nat → Word) (h : BitVec 16) :
    reg_value r (8 + (h >>> 7 &&& 7#16).toNat) = regs r (0b01#2 ++ h.extractLsb' 7 3) := by
  rw [toNat_low_reg, reg_value_eq]

theorem opcode_eq_iff (insn : Word) (v : BitVec 7) :
    insn &&& 0x7f#32 = v.setWidth 32 ↔ insn.extractLsb' 0 7 = v := by
  rw [← and_mask_eq_iff insn 0 (by decide) v, BitVec.ushiftRight_zero]
  exact Iff.rfl

theorem funct3_eq_iff (insn : Word) (v : BitVec 3) :
    insn >>> 12 &&& 7#32 = v.setWidth 32 ↔ insn.extractLsb' 12 3 = v :=
  and_mask_eq_iff insn 12 (by decide) v

theorem branch_taken_eq (insn : Word) (r : Nat → Word) :
    branch_taken insn r = taken (insn.extractLsb' 12 3) (regs r (insn.extractLsb' 15 5))
      (regs r (insn.extractLsb' 20 5)) := by
  have h0 := funct3_eq_iff insn 0b000#3
  have h1 := funct3_eq_iff insn 0b001#3
  have h4 := funct3_eq_iff insn 0b100#3
  have h5 := funct3_eq_iff insn 0b101#3
  have h6 := funct3_eq_iff insn 0b110#3
  have h7 := funct3_eq_iff insn 0b111#3
  unfold branch_taken taken
  simp only [reg_field_eq (w := 32) (by decide), ← h0, ← h1, ← h4, ← h5, ← h6, ← h7]
  rfl

theorem quadrant_eq_iff (h : BitVec 16) (v : BitVec 2) :
    h &&& 3#16 = v.setWidth 16 ↔ h.extractLsb' 0 2 = v := by
  rw [← and_mask_eq_iff h 0 (by decide) v, BitVec.ushiftRight_zero]
  exact Iff.rfl

theorem c_funct3_eq_iff (h : BitVec 16) (v : BitVec 3) :
    h >>> 13 &&& 7#16 = v.setWidth 16 ↔ h.extractLsb' 13 3 = v :=
  and_mask_eq_iff h 13 (by decide) v

/-! ## The flow that the planner sees -/

/-- The fields that `jit_debug_step_target_compressed` looks at. -/
structure CFields (h : BitVec 16) : Prop where
  op1 : h &&& 3#16 = 1#16 ↔ h.extractLsb' 0 2 = 0b01#2
  op2 : h &&& 3#16 = 2#16 ↔ h.extractLsb' 0 2 = 0b10#2
  f1 : h >>> 13 &&& 7#16 = 1#16 ↔ h.extractLsb' 13 3 = 0b001#3
  f4 : h >>> 13 &&& 7#16 = 4#16 ↔ h.extractLsb' 13 3 = 0b100#3
  f5 : h >>> 13 &&& 7#16 = 5#16 ↔ h.extractLsb' 13 3 = 0b101#3
  f6 : h >>> 13 &&& 7#16 = 6#16 ↔ h.extractLsb' 13 3 = 0b110#3
  f7 : h >>> 13 &&& 7#16 = 7#16 ↔ h.extractLsb' 13 3 = 0b111#3
  rs1 : h >>> 7 &&& 31#16 = 0#16 ↔ h.extractLsb' 7 5 = 0#5
  rs2 : h >>> 2 &&& 31#16 = 0#16 ↔ h.extractLsb' 2 5 = 0#5

theorem cFields (h : BitVec 16) : CFields h where
  op1 := quadrant_eq_iff h 0b01#2
  op2 := quadrant_eq_iff h 0b10#2
  f1 := c_funct3_eq_iff h 0b001#3
  f4 := c_funct3_eq_iff h 0b100#3
  f5 := c_funct3_eq_iff h 0b101#3
  f6 := c_funct3_eq_iff h 0b110#3
  f7 := c_funct3_eq_iff h 0b111#3
  rs1 := and_mask_eq_iff (n := 5) h 7 (by decide) 0#5
  rs2 := and_mask_eq_iff (n := 5) h 2 (by decide) 0#5

/-- The target and the next address that the planner has for a compressed instruction. -/
def stepTarget (r : Nat → Word) (pc : Word) : Flow → StepTarget
  | .jal _ imm => ⟨pc + imm, true, pc + imm⟩
  | .jalr _ rs1 _ => ⟨regs r rs1, true, regs r rs1⟩
  | .branch f3 rs1 rs2 imm =>
    ⟨if taken f3 (regs r rs1) (regs r rs2) then pc + imm else pc + 2#32, true, pc + imm⟩
  | .next => ⟨pc + 2#32, false, 0⟩

theorem step_target_compressed_eq (pc : Word) (h : BitVec 16) (r : Nat → Word) :
    step_target_compressed pc h r = stepTarget r pc (decode16 h) := by
  obtain ⟨hop1, hop2, hf1, hf4, hf5, hf6, hf7, hrs1, hrs2⟩ := cFields h
  have hreg : reg_value r (h >>> 7 &&& 31#16).toNat = regs r (h.extractLsb' 7 5) :=
    reg_field_eq (by decide) r h 7
  have hzero : regs r 0#5 = 0#32 := rfl
  unfold step_target_compressed
  simp only [hop1, hop2, hf1, hf4, hf5, hf6, hf7, hrs1, hrs2, ne_eq, hreg, reg_field3_eq,
    cj_imm_eq, cb_imm_eq]
  rcases decode16_cases h with ⟨hq, hf, hd⟩ | ⟨hq, hf, hd⟩ | ⟨hq, hf, hd⟩ | ⟨hq, hf, hd⟩ |
    ⟨⟨hq, hf, h1, h2⟩, hd⟩ | ⟨hq, hjr, hd⟩
  · rw [hd, hq, hf]
    rfl
  · rw [hd, hq, hf]
    rfl
  · rw [hd, hq, hf]
    simp only [stepTarget, taken, hzero, BitVec.ofNat_eq_ofNat]
    by_cases hv : regs r (0b01#2 ++ h.extractLsb' 7 3) = 0#32
    · simp [hv]
    · simp [hv]
  · rw [hd, hq, hf]
    simp only [stepTarget, taken, hzero, BitVec.ofNat_eq_ofNat]
    by_cases hv : regs r (0b01#2 ++ h.extractLsb' 7 3) = 0#32
    · simp [hv]
    · simp [hv]
  · rw [hd, hq, hf]
    have h1' : ¬ h.extractLsb' 7 5 = 0#5 := h1
    by_cases hbit : h >>> 12 &&& 1#16 = 0#16
    · simp [stepTarget, h1', h2, hbit]
    · simp [stepTarget, h1', h2, hbit]
  · rw [hd]
    by_cases hq1 : h.extractLsb' 0 2 = 0b01#2
    · obtain ⟨h1, h5, h6, h7⟩ := hq hq1
      simp [stepTarget, hq1, h1, h5, h6, h7]
    · unfold IsCJr at hjr
      simp only [if_neg hq1, stepTarget]
      split
      · rename_i hq2
        have hno : ¬ (¬ h.extractLsb' 7 5 = 0#5 ∧ h.extractLsb' 2 5 = 0#5) := fun h =>
          hjr ⟨hq2.1, hq2.2, h.1, h.2⟩
        rw [if_neg fun h => hno h.2, if_neg fun h => hno h.2]
      · rfl

/-! ## The plan for a flow -/

/-- The plan for a compressed jump to `target`. -/
def planJump16 (s : JitDebug) (pc target : Word) : Int × JitDebug :=
  if target = pc then (-1, s)
  else if target ≠ 0 ∧ ¬ addr_stepable s target then (-1, s)
  else install_breaks s target (pc + 2#32) (if target ≠ 0 then some target else none)

/-- The plan for a compressed instruction with a flow. -/
def planFlow16 (s : JitDebug) (pc : Word) (r : Nat → Word) : Flow → Int × JitDebug
  | .jal _ imm => planJump16 s pc (pc + imm)
  | .jalr _ rs1 _ => planJump16 s pc (regs r rs1)
  | .branch f3 rs1 rs2 imm =>
    if taken f3 (regs r rs1) (regs r rs2) ∧ pc + imm = pc then (-1, s)
    else arm_branch s (pc + imm) (pc + 2#32)
  | .next => install_breaks s (pc + 2#32) (pc + 2#32) none

theorem add_two_ne (pc : Word) : pc + 2#32 ≠ pc := by
  intro h
  have := congrArg BitVec.toNat h
  rw [BitVec.toNat_add] at this
  have := pc.isLt
  simp only [BitVec.toNat_ofNat] at *
  omega

/-- The plan for a compressed instruction that is not a branch. -/
def planTail16 (s : JitDebug) (pc : Word) (t : StepTarget) : Int × JitDebug :=
  let has_target := t.is_control && t.target ≠ 0
  if t.is_control ∧ t.step_pc = pc then (-1, s)
  else if t.step_pc ≠ 0 ∧ ¬ addr_stepable s t.step_pc then
    if has_target ∧ t.step_pc = t.target then (-1, s)
    else install_breaks s (pc + 2#32) (pc + 2#32) (if has_target then some t.target else none)
  else install_breaks s t.step_pc (pc + 2#32) (if has_target then some t.target else none)

theorem planTail16_jump (s : JitDebug) (pc target : Word) :
    planTail16 s pc ⟨target, true, target⟩ = planJump16 s pc target := by
  unfold planTail16 planJump16
  by_cases hself : target = pc
  · simp [hself]
  by_cases hzero : target = 0#32
  · simp [hzero]
  by_cases hstep : addr_stepable s target
  · simp [hself, hstep]
  · simp [hself, hzero, hstep]

theorem planTail16_next (s : JitDebug) (pc : Word) :
    planTail16 s pc ⟨pc + 2#32, false, 0⟩ = install_breaks s (pc + 2#32) (pc + 2#32) none := by
  unfold planTail16
  simp

def IsCBranch (h : BitVec 16) : Prop :=
  h.extractLsb' 0 2 = 0b01#2 ∧ (h.extractLsb' 13 3 = 0b110#3 ∨ h.extractLsb' 13 3 = 0b111#3)

theorem plan_compressed_cases (s : JitDebug) (pc : Word) (r : Nat → Word)
    (hvalid : c_insn_valid (load16 s.mem pc)) :
    (¬ IsCBranch (load16 s.mem pc) → plan_compressed s pc r =
      planTail16 s pc (stepTarget r pc (decode16 (load16 s.mem pc)))) ∧
    (IsCBranch (load16 s.mem pc) → plan_compressed s pc r =
      let t := stepTarget r pc (decode16 (load16 s.mem pc))
      if t.is_control ∧ t.step_pc = pc then (-1, s)
      else arm_branch s (pc + immCB (load16 s.mem pc)) (pc + 2#32)) := by
  unfold plan_compressed planTail16 IsCBranch
  dsimp only
  generalize load16 s.mem pc = h at hvalid
  rw [if_neg (not_not.mpr hvalid), step_target_compressed_eq]
  obtain ⟨hop1, _, _, _, _, hf6, hf7, _, _⟩ := cFields h
  simp only [hop1, hf6, hf7, cb_imm_eq]
  constructor
  · intro hbranch
    simp only [if_neg hbranch]
  · intro hbranch
    simp only [if_pos hbranch]

theorem plan_compressed_eq (s : JitDebug) (pc : Word) (r : Nat → Word)
    (hvalid : c_insn_valid (load16 s.mem pc)) :
    plan_compressed s pc r = planFlow16 s pc r (decode16 (load16 s.mem pc)) := by
  obtain ⟨htail, hbranch⟩ := plan_compressed_cases s pc r hvalid
  generalize load16 s.mem pc = h at htail hbranch
  have hnot : h.extractLsb' 13 3 ≠ 0b110#3 → h.extractLsb' 13 3 ≠ 0b111#3 → ¬ IsCBranch h :=
    fun h6 h7 hb => hb.2.elim h6 h7
  have htaken : ∀ f3 rs1 rs2 imm, ((stepTarget r pc (.branch f3 rs1 rs2 imm)).is_control ∧
      (stepTarget r pc (.branch f3 rs1 rs2 imm)).step_pc = pc ↔
        taken f3 (regs r rs1) (regs r rs2) ∧ pc + imm = pc) := by
    intro f3 rs1 rs2 imm
    simp only [stepTarget, true_and]
    split
    · rename_i ht
      exact ⟨fun h => ⟨ht, h⟩, And.right⟩
    · rename_i ht
      exact ⟨fun h => absurd h (add_two_ne pc), fun h => absurd h.1 ht⟩
  rcases decode16_cases h with ⟨hq, hf, hd⟩ | ⟨hq, hf, hd⟩ | ⟨hq, hf, hd⟩ | ⟨hq, hf, hd⟩ |
    ⟨⟨hq, hf, h1, h2⟩, hd⟩ | ⟨hq, hjr, hd⟩
  · rw [htail (hnot (by rw [hf]; decide) (by rw [hf]; decide)), hd]
    exact planTail16_jump s pc _
  · rw [htail (hnot (by rw [hf]; decide) (by rw [hf]; decide)), hd]
    exact planTail16_jump s pc _
  · rw [hbranch ⟨hq, Or.inl hf⟩, hd]
    simp only [htaken, planFlow16]
  · rw [hbranch ⟨hq, Or.inr hf⟩, hd]
    simp only [htaken, planFlow16]
  · rw [htail (hnot (by rw [hf]; decide) (by rw [hf]; decide)), hd]
    exact planTail16_jump s pc _
  · have hno : ¬ IsCBranch h := fun hb => by
      obtain ⟨_, _, h6, h7⟩ := hq hb.1
      exact hb.2.elim h6 h7
    rw [htail hno, hd]
    exact planTail16_next s pc

/-- The plan for a 32-bit instruction with a flow. -/
def planFlow32 (s : JitDebug) (pc : Word) (r : Nat → Word) : Flow → Int × JitDebug
  | .jal rd imm => plan_jump s pc (pc + imm) (rd.setWidth 32)
  | .jalr rd rs1 imm => plan_jump s pc ((regs r rs1 + imm) &&& ~~~1#32) (rd.setWidth 32)
  | .branch f3 rs1 rs2 imm =>
    if pc + imm = pc ∧ taken f3 (regs r rs1) (regs r rs2) then (-1, s)
    else arm_branch s (pc + imm) (pc + 4#32)
  | .next => step_to s (pc + 4#32) (pc + 4#32) none

theorem decode32_of_bare_mem {insn : Word} (h : rv32_bare_mem_fault insn) :
    decode32 insn = some .next := by
  have hload : insn &&& 0x7f#32 = 0x03#32 ↔ _ := opcode_eq_iff insn 0b0000011#7
  have hstore : insn &&& 0x7f#32 = 0x23#32 ↔ _ := opcode_eq_iff insn 0b0100011#7
  have hop : insn.extractLsb' 0 7 = 0b0000011#7 ∨ insn.extractLsb' 0 7 = 0b0100011#7 := by
    unfold rv32_bare_mem_fault at h
    simp only [hload, hstore] at h
    split at h
    · exact Or.inl ‹_›
    split at h
    · exact Or.inr ‹_›
    · cases h
  unfold decode32
  rcases hop with hop | hop
  · rw [hop]
    rfl
  · rw [hop]
    rfl

theorem plan_word_eq (s : JitDebug) (pc : Word) (r : Nat → Word) {flow : Flow}
    (hlen : insn_len s.mem pc = 4) (hd : decode32 (load32 s.mem pc) = some flow) :
    (flow = .next ∧ plan_word s pc r = (-1, s)) ∨ plan_word s pc r = planFlow32 s pc r flow := by
  have hword := insn_is_rv32_word_iff.mpr hlen
  have hj : load32 s.mem pc &&& 0x7f#32 = 0x6f#32 ↔ _ := opcode_eq_iff (load32 s.mem pc) 0b1101111#7
  have hjr : load32 s.mem pc &&& 0x7f#32 = 0x67#32 ↔ _ :=
    opcode_eq_iff (load32 s.mem pc) 0b1100111#7
  have hb : load32 s.mem pc &&& 0x7f#32 = 0x63#32 ↔ _ := opcode_eq_iff (load32 s.mem pc) 0b1100011#7
  have hrd : load32 s.mem pc >>> 7 &&& 31#32 = ((load32 s.mem pc).extractLsb' 7 5).setWidth 32 :=
    and_mask_eq (n := 5) (load32 s.mem pc) 7
  have hrs1 : reg_value r (load32 s.mem pc >>> 15 &&& 31#32).toNat = _ :=
    reg_field_eq (w := 32) (by decide) r (load32 s.mem pc) 15
  unfold plan_word
  simp only [hword, not_true_eq_false, if_false, hj, hjr, hb, hrd, hrs1, jal_imm_eq, jalr_imm_eq,
    branch_imm_eq, branch_taken_eq]
  split
  · rename_i hbare
    rw [decode32_of_bare_mem hbare] at hd
    cases hd
    exact Or.inl ⟨rfl, rfl⟩
  right
  unfold decode32 at hd
  simp only at hd
  split at hd
  · rename_i hop
    cases hd
    rw [if_pos hop]
    rfl
  rename_i hop
  rw [if_neg hop]
  split at hd
  · rename_i hop
    rw [if_pos hop]
    split at hd
    · cases hd
      rfl
    · cases hd
  rename_i hop
  rw [if_neg hop]
  split at hd
  · rename_i hop
    rw [if_pos hop]
    split at hd
    · cases hd
    · cases hd
      rfl
  · rename_i hop
    cases hd
    rw [if_neg hop]
    rfl

/-! ## What a plan sets -/

def Armed (s : JitDebug) (a : Word) : Prop :=
  ∃ i, (s.temp_breaks i).active ∧ (s.temp_breaks i).addr = a

theorem OneBreak.armed_iff (h : OneBreak s a s') (x : Word) : Armed s' x ↔ x = a := by
  constructor
  · rintro ⟨i, hi, rfl⟩
    match i with
    | 0 =>
      rw [h.slot0]
      rfl
    | 1 =>
      rw [h.slot1] at hi
      cases hi
  · rintro rfl
    refine ⟨0, ?_, ?_⟩
    · rw [h.slot0]
      rfl
    · rw [h.slot0]
      rfl

theorem TwoBreaks.armed_iff (h : TwoBreaks s a b s') (x : Word) : Armed s' x ↔ x = a ∨ x = b := by
  constructor
  · rintro ⟨i, hi, rfl⟩
    match i with
    | 0 =>
      rw [h.slot0]
      exact Or.inl rfl
    | 1 =>
      rw [h.slot1]
      exact Or.inr rfl
  · rintro (rfl | rfl)
    · refine ⟨0, ?_, ?_⟩
      · rw [h.slot0]
        rfl
      · rw [h.slot0]
        rfl
    · refine ⟨1, ?_, ?_⟩
      · rw [h.slot1]
        rfl
      · rw [h.slot1]
        rfl

theorem armed_of_armed (h : Armed s a) : armed s = (0, s) := by
  obtain ⟨i, hi, _⟩ := h
  unfold armed
  rw [if_neg fun hno => by simp [hno i] at hi]

theorem armed_of_noBreaks (h : NoBreaks s) : armed s = (-1, s) := if_pos h

/-- The call `flow` leaves the text: its target is outside, or a jump through the table
that goes outside. -/
def LeavesText (s : JitDebug) (target : Word) : Prop :=
  ¬ addr_stepable s target ∨
    ∃ stub_target, try_resolve_jit_stub_target s target = some stub_target ∧
      ¬ addr_stepable s stub_target

/-- What a plan for `flow` in the code of `s` has to fulfil: it fails, or it sets a breakpoint
at the next instruction, or at the return address of a call that leaves the text. -/
def StaysInControl (s : JitDebug) (pc len : Word) (r : Nat → Word) (flow : Flow)
    (plan : Int × JitDebug) : Prop :=
  plan.1 = -1 ∨ Armed plan.2 (flow.nextPc (regs r) pc len) ∨
    (flow.IsCall ∧ LeavesText s (flow.nextPc (regs r) pc len) ∧ Armed plan.2 (pc + len))

theorem staysInControl_one (hs : NoBreaks s) {len : Word} {r : Nat → Word} {flow : Flow} :
    StaysInControl s pc len r flow (armed (add_temp_break s a)) ↔
      (Armable s a → flow.nextPc (regs r) pc len = a ∨
        (flow.IsCall ∧ LeavesText s (flow.nextPc (regs r) pc len) ∧ pc + len = a)) := by
  by_cases harm : Armable s a
  · have hone := oneBreak_add hs harm
    rw [armed_of_armed ((hone.armed_iff a).mpr rfl)]
    unfold StaysInControl
    simp only [hone.armed_iff, harm, true_imp_iff]
    constructor
    · rintro (h | h)
      · cases h
      · exact h
    · exact Or.inr
  · rw [add_temp_break_of_not_armable harm, armed_of_noBreaks hs]
    exact ⟨fun _ h => absurd h harm, fun _ => Or.inl rfl⟩

/-! ## Two breakpoints beside each other -/

theorem not_armable_upper (hlen : insn_len s.mem a = 4) (hb : b.toNat = a.toNat + 2) :
    ¬ Armable (broken s a) b := by
  have hload : load16 (broken s a).mem b = 0x0010#16 := by
    apply BitVec.eq_of_toNat_eq
    rw [toNat_load16, hb]
    have hbyte : ∀ k < 4, (broken s a).mem (a.toNat + k) = byteOf EBREAK k := by
      intro k hk
      simp only [broken, with_break, hlen]
      exact patch_add hk
    have h2 := hbyte 2 (by decide)
    have h3 := hbyte 3 (by decide)
    simp only [readLE, Nat.add_zero, Nat.add_assoc, h2, h3]
    rfl
  intro harm
  have hvalid := harm.2
  simp only [insn_len, hload] at hvalid
  exact absurd (hvalid rfl) (by decide)

/-- A break instruction at an address of the same parity changes whether another address takes
a breakpoint only when it covers that address. -/
theorem armable_broken_iff (hpar : a.toNat % 2 = b.toNat % 2) (hne : b ≠ a) :
    Armable (broken s a) b ↔
      Armable s b ∧ ¬ (b.toNat = a.toNat + 2 ∧ insn_len s.mem a = 4) := by
  have hne' : b.toNat ≠ a.toNat := fun h => hne (BitVec.eq_of_toNat_eq h)
  by_cases hcover : b.toNat = a.toNat + 2 ∧ insn_len s.mem a = 4
  · exact ⟨fun h => absurd h (not_armable_upper hcover.2 hcover.1), fun h => absurd hcover h.2⟩
  · have hread : readLE (broken s a).mem b.toNat 2 = readLE s.mem b.toNat 2 := by
      refine readLE_writeLE_out ?_
      have := insn_len_cases s.mem a
      omega
    have hload : load16 (broken s a).mem b = load16 s.mem b := by
      unfold load16
      rw [hread]
    have hiff : Armable (broken s a) b ↔ Armable s b := by
      unfold Armable insn_len
      rw [hload]
      exact Iff.rfl
    rw [hiff]
    exact ⟨fun h => ⟨h, hcover⟩, And.left⟩

theorem arm_branch_eq (s : JitDebug) (target next : Word) :
    arm_branch s target next = armed (add_temp_break (add_temp_break s target) next) := by
  have hadd : ∀ (s : JitDebug) a, (if addr_stepable s a then add_temp_break s a else s) =
      add_temp_break s a := by
    intro s a
    split
    · rfl
    · exact (add_temp_break_of_not_armable fun h => ‹¬ _› h.1).symm
  unfold arm_branch
  simp only [hadd]

theorem arm_branch_spec (hs : NoBreaks s) {target next : Word}
    (hpar : target.toNat % 2 = next.toNat % 2) :
    ((arm_branch s target next).1 = -1 ∨ Armed (arm_branch s target next).2 target ↔
      ¬ (¬ Armable s target ∧ Armable s next)) ∧
    ((arm_branch s target next).1 = -1 ∨ Armed (arm_branch s target next).2 next ↔
      ¬ (Armable s target ∧ (¬ Armable s next ∨
        next.toNat = target.toNat + 2 ∧ insn_len s.mem target = 4))) := by
  rw [arm_branch_eq]
  by_cases ht : Armable s target
  · have hone := oneBreak_add hs ht
    by_cases hsame : next = target ∨ ¬ Armable (broken s target) next
    · -- only the target is set
      rw [hone.add_same hsame, armed_of_armed ((hone.armed_iff target).mpr rfl)]
      have hnext : (next = target ↔ ¬ (¬ Armable s next ∨
          next.toNat = target.toNat + 2 ∧ insn_len s.mem target = 4)) := by
        by_cases heq : next = target
        · subst heq
          simp [ht]
        · have hn := hsame.resolve_left heq
          rw [armable_broken_iff hpar heq] at hn
          tauto
      simp only [hone.armed_iff, ht]
      refine ⟨by simp, ?_⟩
      rw [hnext]
      simp
    · rw [not_or, not_not] at hsame
      have htwo := hone.add hsame.1 hsame.2
      rw [armed_of_armed ((htwo.armed_iff target).mpr (Or.inl rfl))]
      have hn := (armable_broken_iff hpar hsame.1).mp hsame.2
      simp only [htwo.armed_iff, ht]
      refine ⟨by simp, ?_⟩
      tauto
  · rw [add_temp_break_of_not_armable ht]
    by_cases hn : Armable s next
    · have hone := oneBreak_add hs hn
      have hne : target ≠ next := fun h => ht (h ▸ hn)
      rw [armed_of_armed ((hone.armed_iff next).mpr rfl)]
      simp [hone.armed_iff, ht, hn, hne]
    · rw [add_temp_break_of_not_armable hn, armed_of_noBreaks hs]
      simp [ht, hn]

/-! ## The steps that run away -/

/-- The steps that the planner loses: a compressed jump to 0, a compressed jump to an odd
address, and a branch with a breakpoint on its other side only. -/
def RunsAway (s : JitDebug) (pc len : Word) (r : Nat → Word) : Flow → Prop
  | .jal rd imm => len = 2 ∧ rd = 0 ∧ pc + imm = 0 ∧ Armable s (pc + len)
  | .jalr rd rs1 _ => len = 2 ∧
      ((rd = 0 ∧ regs r rs1 = 0 ∧ Armable s (pc + len)) ∨
        ((regs r rs1).toNat % 2 = 1 ∧ Armable s (regs r rs1)))
  | .branch f3 rs1 rs2 imm =>
    if taken f3 (regs r rs1) (regs r rs2) then
      ¬ Armable s (pc + imm) ∧ Armable s (pc + len)
    else
      Armable s (pc + imm) ∧ (¬ Armable s (pc + len) ∨
        (pc + len).toNat = (pc + imm).toNat + 2 ∧ insn_len s.mem (pc + imm) = 4)
  | .next => False

theorem branch_parity {pc imm len : Word} (himm : imm.toNat % 2 = 0) (hlen : len.toNat % 2 = 0) :
    (pc + imm).toNat % 2 = (pc + len).toNat % 2 := by
  rw [BitVec.toNat_add, BitVec.toNat_add]
  omega

theorem arm_branch_iff (hs : NoBreaks s) {f3 : BitVec 3} {rs1 rs2 : BitVec 5} {imm len : Word}
    {r : Nat → Word} (himm : imm.toNat % 2 = 0) (hlen : len.toNat % 2 = 0) :
    StaysInControl s pc len r (.branch f3 rs1 rs2 imm) (arm_branch s (pc + imm) (pc + len)) ↔
      ¬ RunsAway s pc len r (.branch f3 rs1 rs2 imm) := by
  have hpar : (pc + imm).toNat % 2 = (pc + len).toNat % 2 := branch_parity himm hlen
  obtain ⟨htaken, hnot⟩ := arm_branch_spec hs hpar
  unfold StaysInControl RunsAway
  simp only [Flow.IsCall, false_and, or_false, Flow.nextPc]
  split
  · exact htaken
  · exact hnot

theorem ne_zero_of_stepable (h : addr_stepable s a) : a ≠ 0 := by
  rintro rfl
  simp only [addr_stepable, decide_eq_true_eq] at h
  exact h.1 (BitVec.le_zero_iff.mp h.2.2.1)

theorem not_armable_zero : ¬ Armable s 0 := fun h => ne_zero_of_stepable h.1 rfl

theorem stays_of_failed {len : Word} {r : Nat → Word} {flow : Flow} :
    StaysInControl s pc len r flow (-1, s) := Or.inl rfl

theorem install_breaks_of_ne {next : Word} {target : Option Word} (h : a ≠ 0) :
    install_breaks s a next target = armed (add_temp_break s a) := if_pos h

theorem install_breaks_zero {next : Word} :
    install_breaks s 0 next none = armed (add_temp_break s next) := by
  unfold install_breaks
  rw [if_neg (not_not.mpr rfl)]

theorem stays_next (hs : NoBreaks s) {len : Word} {r : Nat → Word} :
    StaysInControl s pc len r .next (install_breaks s (pc + len) (pc + len) none) := by
  by_cases hzero : pc + len = 0
  · rw [hzero, install_breaks_zero, staysInControl_one hs]
    exact fun h => absurd h not_armable_zero
  · rw [install_breaks_of_ne hzero, staysInControl_one hs]
    exact fun _ => Or.inl rfl

theorem stays_jump16_zero (hs : NoBreaks s) (hpc : pc ≠ 0) {r : Nat → Word} {flow : Flow}
    (hnext : flow.nextPc (regs r) pc 2 = 0) :
    StaysInControl s pc 2 r flow (planJump16 s pc 0) ↔ ¬ (¬ flow.IsCall ∧ Armable s (pc + 2)) := by
  have hleave : LeavesText s 0 := Or.inl fun h => ne_zero_of_stepable h rfl
  unfold planJump16
  rw [if_neg (Ne.symm hpc), if_neg (fun h => h.1 rfl), if_neg (not_not.mpr rfl), install_breaks_zero,
    staysInControl_one hs, hnext]
  constructor
  · rintro h ⟨hcall, harm⟩
    rcases h harm with h0 | ⟨hc, _⟩
    · exact not_armable_zero (h0 ▸ harm)
    · exact hcall hc
  · intro h harm
    exact Or.inr ⟨by_contra fun hcall => h ⟨hcall, harm⟩, hleave, rfl⟩

theorem stays_jump16 (hs : NoBreaks s) {r : Nat → Word} {flow : Flow} (ha : a ≠ 0) :
    StaysInControl s pc 2 r flow (planJump16 s pc a) ↔
      (a ≠ pc → Armable s a → flow.nextPc (regs r) pc 2 = a ∨
        (flow.IsCall ∧ LeavesText s (flow.nextPc (regs r) pc 2) ∧ pc + 2 = a)) := by
  unfold planJump16
  by_cases hself : a = pc
  · rw [if_pos hself]
    exact ⟨fun _ h => absurd hself h, fun _ => stays_of_failed⟩
  rw [if_neg hself]
  by_cases hstep : addr_stepable s a
  · rw [if_neg (fun h => h.2 hstep), install_breaks_of_ne ha, staysInControl_one hs]
    exact ⟨fun h _ => h, fun h => h hself⟩
  · rw [if_pos ⟨ha, hstep⟩]
    exact ⟨fun _ _ harm => absurd harm.1 hstep, fun _ => stays_of_failed⟩

theorem stays_jal16_iff (hs : NoBreaks s) (hpc : pc ≠ 0) {r : Nat → Word} {rd : BitVec 5}
    {imm : Word} :
    StaysInControl s pc 2 r (.jal rd imm) (planJump16 s pc (pc + imm)) ↔
      ¬ RunsAway s pc 2 r (.jal rd imm) := by
  unfold RunsAway
  by_cases hzero : pc + imm = 0
  · have hnext : (Flow.jal rd imm).nextPc (regs r) pc 2 = 0 := hzero
    rw [hzero, stays_jump16_zero hs hpc hnext]
    simp only [Flow.IsCall, ne_eq, not_not, true_and, hzero]
  · rw [stays_jump16 hs hzero]
    exact ⟨fun _ h => hzero h.2.2.1, fun _ _ _ => Or.inl rfl⟩

theorem even_target_eq_iff (v : Word) : (v + 0) &&& ~~~1#32 = v ↔ v.toNat % 2 = 0 := by
  have hbit : v.getLsbD 0 = decide (v.toNat % 2 = 1) := Nat.testBit_zero _
  have hadd : v + 0 = v := BitVec.add_zero v
  rw [hadd]
  constructor
  · intro h
    have h0 := congrArg (fun x => BitVec.getLsbD x 0) h
    simp only [BitVec.getLsbD_and, BitVec.getLsbD_not] at h0
    rw [hbit] at h0
    simp at h0
    omega
  · intro heven
    apply BitVec.eq_of_getLsbD_eq
    intro i hi
    rw [BitVec.getLsbD_and, BitVec.getLsbD_not]
    by_cases hi0 : i = 0
    · subst hi0
      rw [hbit]
      simp [heven]
    · simp [hi, hi0]

theorem stays_jalr16_iff (hs : NoBreaks s) (hpc : pc ≠ 0) (heven : pc.toNat % 2 = 0)
    {r : Nat → Word} {rd rs1 : BitVec 5} :
    StaysInControl s pc 2 r (.jalr rd rs1 0) (planJump16 s pc (regs r rs1)) ↔
      ¬ RunsAway s pc 2 r (.jalr rd rs1 0) := by
  unfold RunsAway
  by_cases hzero : regs r rs1 = 0
  · have hnext : (Flow.jalr rd rs1 0).nextPc (regs r) pc 2 = 0 := by
      simp only [Flow.nextPc, hzero]
      decide
    have hodd : ¬ (regs r rs1).toNat % 2 = 1 := by
      rw [hzero]
      decide
    simp only [hodd, false_and, or_false]
    rw [hzero, stays_jump16_zero hs hpc hnext]
    simp only [Flow.IsCall, ne_eq, not_not, true_and]
  · rw [stays_jump16 hs hzero]
    by_cases hodd : (regs r rs1).toNat % 2 = 1
    · have hself : regs r rs1 ≠ pc := fun h => by
        rw [h] at hodd
        omega
      have hnext : (Flow.jalr rd rs1 0).nextPc (regs r) pc 2 ≠ regs r rs1 := fun h => by
        have := (even_target_eq_iff (regs r rs1)).mp h
        omega
      have hret : pc + 2 ≠ regs r rs1 := fun h => by
        have h2 := congrArg BitVec.toNat h
        rw [BitVec.toNat_add] at h2
        have h3 : (2 : Word).toNat = 2 := rfl
        omega
      constructor
      · rintro h ⟨_, ⟨_, h0, _⟩ | ⟨_, harm⟩⟩
        · exact hzero h0
        · rcases h hself harm with h | h
          · exact hnext h
          · exact hret h.2.2
      · exact fun h _ harm => absurd ⟨rfl, Or.inr ⟨hodd, harm⟩⟩ h
    · have hnext : (Flow.jalr rd rs1 0).nextPc (regs r) pc 2 = regs r rs1 :=
        (even_target_eq_iff (regs r rs1)).mpr (by omega)
      constructor
      · rintro _ ⟨_, ⟨_, h0, _⟩ | ⟨h1, _⟩⟩
        · exact hzero h0
        · exact hodd h1
      · exact fun _ _ _ => Or.inl hnext

theorem stays_plan_jump (hs : NoBreaks s) (hlen : insn_len s.mem pc = 4) {r : Nat → Word}
    {flow : Flow} {target rd : Word} (hnext : flow.nextPc (regs r) pc 4 = target)
    (hcall : rd ≠ 0 → flow.IsCall) :
    StaysInControl s pc 4 r flow (plan_jump s pc target rd) := by
  have hret : next_addr s.mem pc = pc + 4#32 := by
    unfold next_addr
    rw [hlen]
  -- a breakpoint at the target
  have hinto : addr_stepable s target →
      StaysInControl s pc 4 r flow (step_to s target (pc + 4#32) (some target)) := by
    intro hstep
    unfold step_to
    rw [if_neg (fun h => h.2 hstep), install_breaks_of_ne (ne_zero_of_stepable hstep),
      staysInControl_one hs]
    exact fun _ => Or.inl hnext
  -- a breakpoint at the return address
  have hover : rd ≠ 0 → LeavesText s target →
      StaysInControl s pc 4 r flow (step_to s (pc + 4#32) (pc + 4#32) (some target)) := by
    intro hrd hleave
    unfold step_to
    by_cases hzero : pc + 4#32 = 0
    · rw [if_neg (fun h => h.1 hzero), hzero]
      unfold install_breaks
      rw [if_neg (not_not.mpr rfl)]
      dsimp only
      rw [add_temp_break_of_not_armable not_armable_zero]
      split
      · rw [staysInControl_one hs]
        exact fun _ => Or.inl hnext
      · rw [armed_of_noBreaks hs]
        exact stays_of_failed
    split
    · exact stays_of_failed
    · rw [install_breaks_of_ne hzero, staysInControl_one hs, hnext]
      exact fun _ => Or.inr ⟨hcall hrd, hleave, rfl⟩
  unfold plan_jump
  dsimp only
  split
  · exact stays_of_failed
  split
  · split
    · exact stays_of_failed
    · exact hinto (not_not.mp ‹_›)
  · rename_i hrd
    unfold single_step_pc
    rw [if_neg hrd, hret]
    split
    · exact hover hrd (Or.inl ‹_›)
    rename_i hstep
    split
    · rename_i stub_target hstub
      split
      · exact hover hrd (Or.inr ⟨stub_target, hstub, ‹_›⟩)
      · exact hinto (not_not.mp hstep)
    · exact hinto (not_not.mp hstep)

theorem decode16_of_invalid {h : BitVec 16} (hinvalid : ¬ c_insn_valid h) :
    decode16 h = .next := by
  have hop : h.extractLsb' 0 2 = 0#2 := by
    have hop0 : h &&& 3#16 = 0#16 ↔ _ := quadrant_eq_iff h 0#2
    rw [← hop0]
    unfold c_insn_valid at hinvalid
    simp only at hinvalid
    split at hinvalid
    · rename_i hzero
      rw [hzero]
      rfl
    split at hinvalid
    · rename_i h0
      exact h0.1
    · exact absurd rfl hinvalid
  unfold decode16
  simp only [hop]
  rfl

theorem stays_compressed_iff (hs : NoBreaks s) (hstep : addr_stepable s pc)
    (heven : pc.toNat % 2 = 0) (r : Nat → Word) :
    StaysInControl s pc 2 r (decode16 (load16 s.mem pc)) (plan_compressed s pc r) ↔
      ¬ RunsAway s pc 2 r (decode16 (load16 s.mem pc)) := by
  have hpc := ne_zero_of_stepable hstep
  by_cases hvalid : c_insn_valid (load16 s.mem pc)
  · have harm : Armable s pc := ⟨hstep, fun _ => hvalid⟩
    rw [plan_compressed_eq s pc r hvalid]
    cases hd : decode16 (load16 s.mem pc) with
    | jal rd imm => exact stays_jal16_iff hs hpc
    | jalr rd rs1 imm =>
      have himm := decode16_jalr_imm hd
      subst himm
      exact stays_jalr16_iff hs hpc heven
    | branch f3 rs1 rs2 imm =>
      simp only [planFlow16]
      split
      · rename_i hself
        refine ⟨fun _ => ?_, fun _ => stays_of_failed⟩
        simp only [RunsAway]
        rw [if_pos hself.1, hself.2]
        exact fun h => h.1 harm
      · exact arm_branch_iff hs (decode16_branch_even hd) (by decide)
    | next => exact ⟨fun _ h => h, fun _ => stays_next hs⟩
  · rw [decode16_of_invalid hvalid]
    unfold plan_compressed
    rw [if_pos hvalid]
    exact ⟨fun _ h => h, fun _ => stays_of_failed⟩

theorem stays_word_iff (hs : NoBreaks s) (hstep : addr_stepable s pc)
    (hlen : insn_len s.mem pc = 4) (r : Nat → Word) {flow : Flow}
    (hd : decode32 (load32 s.mem pc) = some flow) :
    StaysInControl s pc 4 r flow (plan_word s pc r) ↔ ¬ RunsAway s pc 4 r flow := by
  have harm : Armable s pc := ⟨hstep, fun h => by omega⟩
  have hne : (4 : Word) ≠ 2 := by decide
  rcases plan_word_eq s pc r hlen hd with ⟨rfl, hplan⟩ | hplan
  · rw [hplan]
    exact ⟨fun _ h => h, fun _ => stays_of_failed⟩
  rw [hplan]
  have hcall : ∀ rd : BitVec 5, rd.setWidth 32 ≠ (0 : Word) → rd ≠ 0 := by
    rintro rd h rfl
    exact h rfl
  cases flow with
  | jal rd imm =>
    exact ⟨fun _ h => hne h.1, fun _ => stays_plan_jump hs hlen rfl (hcall rd)⟩
  | jalr rd rs1 imm =>
    exact ⟨fun _ h => hne h.1, fun _ => stays_plan_jump hs hlen rfl (hcall rd)⟩
  | branch f3 rs1 rs2 imm =>
    simp only [planFlow32]
    split
    · rename_i hself
      refine ⟨fun _ => ?_, fun _ => stays_of_failed⟩
      simp only [RunsAway]
      rw [if_pos hself.2, hself.1]
      exact fun h => h.1 harm
    · exact arm_branch_iff hs (decode32_branch_even hd) (by decide)
  | next =>
    refine ⟨fun _ h => h, fun _ => ?_⟩
    simp only [planFlow32, step_to]
    split
    · exact stays_of_failed
    · exact stays_next hs

/-- A single step at an instruction of the text stays in control exactly when it does not run
away, whatever the code and the registers are. -/
theorem install_single_step_breaks_iff (s : JitDebug) (r : Nat → Word) {len : Word} {flow : Flow}
    (hstep : addr_stepable s pc)
    (hfetch : fetch pc (load16 (restore_temp_breaks s).mem pc)
      (load32 (restore_temp_breaks s).mem pc) = some (len, flow)) :
    StaysInControl (restore_temp_breaks s) pc len r flow (install_single_step_breaks s pc r) ↔
      ¬ RunsAway (restore_temp_breaks s) pc len r flow := by
  have hs := noBreaks_restore s
  obtain ⟨hlo, hhi⟩ := code_restore s
  have hstep' : addr_stepable (restore_temp_breaks s) pc := by
    unfold addr_stepable at hstep ⊢
    rw [hlo, hhi]
    exact hstep
  have hlow : load16 (restore_temp_breaks s).mem pc &&& 3#16 = 3#16 ↔ _ :=
    quadrant_eq_iff (load16 (restore_temp_breaks s).mem pc) 0b11#2
  unfold install_single_step_breaks
  rw [if_neg (ne_zero_of_stepable hstep)]
  dsimp only
  rw [if_neg (not_not.mpr hstep')]
  unfold fetch at hfetch
  split at hfetch
  · cases hfetch
  rename_i hodd
  split at hfetch
  · rename_i hlong
    have hlen : insn_len (restore_temp_breaks s).mem pc = 4 := if_pos (hlow.mpr hlong)
    obtain ⟨flow', hd, heq⟩ := Option.map_eq_some_iff.mp hfetch
    cases heq
    rw [if_neg (by omega)]
    exact stays_word_iff hs hstep' hlen r hd
  · rename_i hshort
    have hlen : insn_len (restore_temp_breaks s).mem pc = 2 := if_neg fun h => hshort (hlow.mp h)
    cases hfetch
    rw [if_pos hlen]
    exact stays_compressed_iff hs hstep' (by omega) r

/-! ## A jump to the address 0 -/

/-- `c.jr x15` at 0x80000000 and `c.nop` behind it. -/
def jumpCode : JitDebug where
  mem := fun x => [0x82, 0x87, 0x01, 0x00].getD (x - 0x80000000) 0
  temp_breaks := fun _ => ⟨false, 0, 0, 0⟩
  code_lo := 0x80000000
  code_hi := 0x80000100

theorem jumpCode_fetch : addr_stepable jumpCode 0x80000000#32 ∧
    fetch 0x80000000#32 (load16 (restore_temp_breaks jumpCode).mem 0x80000000#32)
      (load32 (restore_temp_breaks jumpCode).mem 0x80000000#32) = some (2, .jalr 0 15 0) := by
  decide

/-- With 0 in `x15`, the plan waits behind the jump. -/
theorem null_jump_runs_away : addr_stepable jumpCode 0x80000000#32 ∧
    fetch 0x80000000#32 (load16 (restore_temp_breaks jumpCode).mem 0x80000000#32)
      (load32 (restore_temp_breaks jumpCode).mem 0x80000000#32) = some (2, .jalr 0 15 0) ∧
    ¬ StaysInControl (restore_temp_breaks jumpCode) 0x80000000#32 2 (fun _ => 0) (.jalr 0 15 0)
      (install_single_step_breaks jumpCode 0x80000000#32 fun _ => 0) := by
  refine ⟨jumpCode_fetch.1, jumpCode_fetch.2, ?_⟩
  rintro (hfail | hnext | ⟨hcall, _⟩)
  · revert hfail
    decide
  · revert hnext
    unfold Armed
    decide
  · exact hcall rfl

theorem install_single_step_breaks_iff_jump :
    StaysInControl (restore_temp_breaks jumpCode) 0x80000000#32 2 (fun _ => 0x80000002#32)
        (.jalr 0 15 0) (install_single_step_breaks jumpCode 0x80000000#32 fun _ => 0x80000002#32) ↔
      ¬ RunsAway (restore_temp_breaks jumpCode) 0x80000000#32 2 (fun _ => 0x80000002#32)
        (.jalr 0 15 0) :=
  install_single_step_breaks_iff jumpCode _ jumpCode_fetch.1 jumpCode_fetch.2

end vibeos.jit_debug
