-- The single step of the JIT debugger in trap.c: the temporary breakpoints, the decoding
-- of the instruction at the program counter, and the plan of a step.
import Mathlib.Data.Fintype.Basic
import Vibeos.ByteMem
import Vibeos.Rv32Flow

namespace vibeos.jit_debug

open vibeos.Mem vibeos.Rv32

structure TempBreak where
  active : Bool
  addr : Word
  orig : Word
  len : Nat

/-- The memory and the static variables that a step reads and writes. -/
structure JitDebug where
  mem : Mem
  temp_breaks : Fin 2 → TempBreak
  code_lo : Word
  code_hi : Word

def load16 (m : Mem) (a : Word) : BitVec 16 := BitVec.ofNat 16 (readLE m a.toNat 2)

def load32 (m : Mem) (a : Word) : Word := BitVec.ofNat 32 (readLE m a.toNat 4)

/-! ## Decoding -/

def sext (v : Word) (bits : Nat) : Word :=
  let m := 1#32 <<< (bits - 1)
  (v ^^^ m) - m

/-- `jit_debug_reg_value`, of the saved registers `x1` to `x31`. -/
def reg_value (r : Nat → Word) (idx : Nat) : Word :=
  if idx ≤ 0 then 0 else if 31 < idx then 0 else r (idx - 1)

def branch_taken (insn : Word) (r : Nat → Word) : Bool :=
  let f3 := insn >>> 12 &&& 7#32
  let v1 := reg_value r (insn >>> 15 &&& 31#32).toNat
  let v2 := reg_value r (insn >>> 20 &&& 31#32).toNat
  if f3 = 0#32 then v1 == v2
  else if f3 = 1#32 then v1 != v2
  else if f3 = 4#32 then v1.slt v2
  else if f3 = 5#32 then !v1.slt v2
  else if f3 = 6#32 then v1.ult v2
  else if f3 = 7#32 then !v1.ult v2
  else false

def insn_len (m : Mem) (a : Word) : Nat := if load16 m a &&& 3#16 = 3#16 then 4 else 2

def next_addr (m : Mem) (pc : Word) : Word := pc + BitVec.ofNat 32 (insn_len m pc)

def insn_is_rv32_word (insn : Word) : Bool := insn &&& 3#32 = 3#32

def rv32_bare_mem_fault (insn : Word) : Bool :=
  let op := insn &&& 0x7f#32
  let rs1 := insn >>> 15 &&& 31#32
  if op = 0x03#32 then
    let imm := sext (insn >>> 20) 12
    rs1 = 0#32 ∧ -16 ≤ imm.toInt ∧ imm.toInt < 4096
  else if op = 0x23#32 then
    let imm := sext ((insn >>> 25) <<< 5 ||| (insn >>> 7 &&& 0x1f#32)) 12
    rs1 = 0#32 ∧ -16 ≤ imm.toInt ∧ imm.toInt < 4096
  else false

def c_insn_valid (h : BitVec 16) : Bool :=
  let op := h &&& 3#16
  let f3 := h >>> 13 &&& 7#16
  if h = 0 then false
  else if op = 0#16 ∧ f3 = 0#16 then
    let nzuimm := (h >>> 7 &&& 0x30#16) ||| (h >>> 1 &&& 0x3c0#16) ||| (h >>> 4 &&& 0x4#16) |||
      (h >>> 2 &&& 0x8#16)
    nzuimm ≠ 0
  else true

def cj_imm (h : BitVec 16) : Word :=
  let h := h.setWidth 32
  let imm := (h >>> 12 &&& 1#32) <<< 11 ||| (h >>> 11 &&& 1#32) <<< 4 |||
    (h >>> 9 &&& 3#32) <<< 8 ||| (h >>> 8 &&& 1#32) <<< 10 ||| (h >>> 7 &&& 1#32) <<< 6 |||
    (h >>> 6 &&& 1#32) <<< 7 ||| (h >>> 3 &&& 7#32) <<< 1 ||| (h >>> 2 &&& 1#32) <<< 5
  sext imm 12

def cb_imm (h : BitVec 16) : Word :=
  let h := h.setWidth 32
  let imm := (h >>> 12 &&& 1#32) <<< 8 ||| (h >>> 10 &&& 3#32) <<< 3 |||
    (h >>> 5 &&& 3#32) <<< 6 ||| (h >>> 3 &&& 3#32) <<< 1 ||| (h >>> 2 &&& 1#32) <<< 5
  sext imm 9

/-- The offset of `jal` in `jit_debug_install_single_step_breaks`. -/
def jal_imm (insn : Word) : Word :=
  sext ((insn >>> 31) <<< 20 ||| (insn >>> 12 &&& 0xff#32) <<< 12 |||
    (insn >>> 20 &&& 1#32) <<< 11 ||| (insn >>> 21 &&& 0x3ff#32) <<< 1) 21

def jalr_imm (insn : Word) : Word := sext (insn >>> 20) 12

def branch_imm (insn : Word) : Word :=
  sext ((insn >>> 31) <<< 12 ||| (insn >>> 7 &&& 1#32) <<< 11 |||
    (insn >>> 25 &&& 0x3f#32) <<< 5 ||| (insn >>> 8 &&& 0xf#32) <<< 1) 13

/-- What `jit_debug_step_target_compressed` returns, and stores for its caller. -/
structure StepTarget where
  step_pc : Word
  is_control : Bool
  target : Word

def step_target_compressed (pc : Word) (h : BitVec 16) (r : Nat → Word) : StepTarget :=
  let next := pc + 2#32
  let f3 := h >>> 13 &&& 7#16
  let op := h &&& 3#16
  if op = 1#16 then
    if f3 = 1#16 ∨ f3 = 5#16 then
      let target := pc + cj_imm h
      ⟨target, true, target⟩
    else if f3 = 6#16 ∨ f3 = 7#16 then
      let v := reg_value r (8 + (h >>> 7 &&& 7#16).toNat)
      let target := pc + cb_imm h
      if (f3 = 6#16 ∧ v = 0) ∨ (f3 = 7#16 ∧ v ≠ 0) then ⟨target, true, target⟩
      else ⟨next, true, target⟩
    else ⟨next, false, 0⟩
  else if op = 2#16 ∧ f3 = 4#16 then
    let bit12 := h >>> 12 &&& 1#16
    let rs1 := h >>> 7 &&& 31#16
    let rs2 := h >>> 2 &&& 31#16
    if bit12 = 0#16 ∧ rs1 ≠ 0#16 ∧ rs2 = 0#16 then
      let target := reg_value r rs1.toNat
      ⟨target, true, target⟩
    else if bit12 ≠ 0#16 ∧ rs1 ≠ 0#16 ∧ rs2 = 0#16 then
      let target := reg_value r rs1.toNat
      ⟨target, true, target⟩
    else ⟨next, false, 0⟩
  else ⟨next, false, 0⟩

/-! ## Temporary breakpoints -/

/-- `jit_debug_addr_stepable`, which is `jit_debug_addr_in_code`. -/
def addr_stepable (s : JitDebug) (addr : Word) : Bool :=
  s.code_lo ≠ 0 ∧ s.code_hi ≠ 0 ∧ s.code_lo ≤ addr ∧ addr < s.code_hi

/-- One round of `jit_debug_restore_temp_breaks`. -/
def restore_slot (s : JitDebug) (i : Fin 2) : JitDebug :=
  let b := s.temp_breaks i
  if ¬ b.active then s
  else
    { s with
      mem := if b.len = 2 then writeLE s.mem b.addr.toNat 2 b.orig.toNat
        else writeLE s.mem b.addr.toNat 4 b.orig.toNat
      temp_breaks := Function.update s.temp_breaks i { b with active := false } }

def restore_temp_breaks (s : JitDebug) : JitDebug :=
  (List.finRange 2).foldl restore_slot s

def C_EBREAK : Nat := 0x9002
def EBREAK : Nat := 0x00100073

def add_temp_break (s : JitDebug) (addr : Word) : JitDebug :=
  if ¬ addr_stepable s addr then s
  else if ∃ i, (s.temp_breaks i).active ∧ (s.temp_breaks i).addr = addr then s
  else
    let len := insn_len s.mem addr
    if len = 2 ∧ ¬ c_insn_valid (load16 s.mem addr) then s
    else if len ≠ 2 ∧ ¬ insn_is_rv32_word (load32 s.mem addr) then s
    else
      match (List.finRange 2).find? fun i => !(s.temp_breaks i).active with
      | none => s
      | some i =>
        { s with
          mem := if len = 2 then writeLE s.mem addr.toNat 2 C_EBREAK
            else writeLE s.mem addr.toNat 4 EBREAK
          temp_breaks := Function.update s.temp_breaks i
            { active := true
              addr := addr
              orig := if len = 2 then (load16 s.mem addr).setWidth 32 else load32 s.mem addr
              len := len } }

def NoBreaks (s : JitDebug) : Prop := ∀ i, (s.temp_breaks i).active = false

instance (s : JitDebug) : Decidable (NoBreaks s) := by
  unfold NoBreaks
  infer_instance

/-! ## The plan of a step -/

/-- `jit_debug_try_resolve_jit_stub_target`: where the jump through a table at `pc` goes. -/
def try_resolve_jit_stub_target (s : JitDebug) (pc : Word) : Option Word :=
  if ¬ addr_stepable s pc then none
  else if insn_len s.mem pc ≠ 4 ∨ insn_len s.mem (pc + 4) ≠ 4 ∨ insn_len s.mem (pc + 8) ≠ 4 then
    none
  else
    let insn0 := load32 s.mem pc
    let insn1 := load32 s.mem (pc + 4)
    let insn2 := load32 s.mem (pc + 8)
    if insn0 &&& 0x7f#32 ≠ 0x17#32 then none
    else if insn1 &&& 0x7f#32 ≠ 0x03#32 ∨ insn1 >>> 12 &&& 7#32 ≠ 2#32 then none
    else if insn2 &&& 0x7f#32 ≠ 0x67#32 then none
    else
      let rd0 := insn0 >>> 7 &&& 31#32
      let rd1 := insn1 >>> 7 &&& 31#32
      let rs1_1 := insn1 >>> 15 &&& 31#32
      let rd2 := insn2 >>> 7 &&& 31#32
      let rs1_2 := insn2 >>> 15 &&& 31#32
      if rd0 = 0 ∨ rd1 ≠ rd0 ∨ rs1_1 ≠ rd0 ∨ rs1_2 ≠ rd0 ∨ rd2 = 0 then none
      else
        let hi20 := insn0 &&& 0xfffff000#32
        let lo12 := sext (insn1 >>> 20) 12
        let got_addr := pc + hi20 + lo12
        if got_addr = 0 then none
        else some ((load32 s.mem got_addr + sext (insn2 >>> 20) 12) &&& ~~~1#32)

def single_step_pc (s : JitDebug) (pc target rd : Word) : Word :=
  if rd = 0 then target
  else if ¬ addr_stepable s target then next_addr s.mem pc
  else
    match try_resolve_jit_stub_target s target with
    | some stub_target => if ¬ addr_stepable s stub_target then next_addr s.mem pc else target
    | none => target

/-- The end of a plan: -1 when no breakpoint is set. -/
def armed (s : JitDebug) : Int × JitDebug := if NoBreaks s then (-1, s) else (0, s)

/-- Breakpoints on both sides of a branch, where they are in the text. -/
def arm_branch (s : JitDebug) (target next : Word) : Int × JitDebug :=
  let s := if addr_stepable s target then add_temp_break s target else s
  let s := if addr_stepable s next then add_temp_break s next else s
  armed s

/-- The part of `jit_debug_install_single_step_breaks` from `install_breaks` on. -/
def install_breaks (s : JitDebug) (step_pc next : Word) (target : Option Word) : Int × JitDebug :=
  if step_pc ≠ 0 then armed (add_temp_break s step_pc)
  else
    let s := add_temp_break s next
    match target with
    | some target => armed (if addr_stepable s target then add_temp_break s target else s)
    | none => armed s

def plan_compressed (s : JitDebug) (pc : Word) (r : Nat → Word) : Int × JitDebug :=
  let h := load16 s.mem pc
  let next := pc + 2#32
  if ¬ c_insn_valid h then (-1, s)
  else
    let t := step_target_compressed pc h r
    let has_target := t.is_control && t.target ≠ 0
    if t.is_control ∧ t.step_pc = pc then (-1, s)
    else
      let f3 := h >>> 13 &&& 7#16
      let op := h &&& 3#16
      if op = 1#16 ∧ (f3 = 6#16 ∨ f3 = 7#16) then arm_branch s (pc + cb_imm h) next
      else if t.step_pc ≠ 0 ∧ ¬ addr_stepable s t.step_pc then
        if has_target ∧ t.step_pc = t.target then (-1, s)
        else install_breaks s next next (if has_target then some t.target else none)
      else install_breaks s t.step_pc next (if has_target then some t.target else none)

/-- The end of the plan for a 32-bit instruction that is not a branch. -/
def step_to (s : JitDebug) (step_pc next : Word) (target : Option Word) : Int × JitDebug :=
  if step_pc ≠ 0 ∧ ¬ addr_stepable s step_pc then (-1, s)
  else install_breaks s step_pc next target

/-- The plan for `jal` and `jalr` to `target`. -/
def plan_jump (s : JitDebug) (pc target rd : Word) : Int × JitDebug :=
  let next := pc + 4#32
  if target = pc then (-1, s)
  else if rd = 0 then
    if ¬ addr_stepable s target then (-1, s) else step_to s target next (some target)
  else step_to s (single_step_pc s pc target rd) next (some target)

def plan_word (s : JitDebug) (pc : Word) (r : Nat → Word) : Int × JitDebug :=
  let insn := load32 s.mem pc
  let next := pc + 4#32
  let op := insn &&& 0x7f#32
  let rd := insn >>> 7 &&& 31#32
  if ¬ insn_is_rv32_word insn then (-1, s)
  else if rv32_bare_mem_fault insn then (-1, s)
  else if op = 0x6f#32 then plan_jump s pc (pc + jal_imm insn) rd
  else if op = 0x67#32 then
    let target := (reg_value r (insn >>> 15 &&& 31#32).toNat + jalr_imm insn) &&& ~~~1#32
    plan_jump s pc target rd
  else if op = 0x63#32 then
    let target := pc + branch_imm insn
    if target = pc ∧ branch_taken insn r then (-1, s) else arm_branch s target next
  else step_to s next next none

/-- `jit_debug_install_single_step_breaks`, at `pc` with the saved registers `r`. -/
def install_single_step_breaks (s : JitDebug) (pc : Word) (r : Nat → Word) : Int × JitDebug :=
  if pc = 0 then (-1, s)
  else
    let s := restore_temp_breaks s
    if ¬ addr_stepable s pc then (-1, s)
    else if insn_len s.mem pc = 2 then plan_compressed s pc r
    else plan_word s pc r

end vibeos.jit_debug
