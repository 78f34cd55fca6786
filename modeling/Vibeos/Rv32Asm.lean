-- The instructions of RV32IM and of its compressed encodings in assembly notation: the fields of
-- a word, and the pieces of the line that names the instruction.
import Vibeos.Rv32Flow

namespace vibeos.Rv32

/-! ## Operations -/

inductive BranchOp
  | beq | bne | blt | bge | bltu | bgeu
deriving DecidableEq

inductive LoadOp
  | lb | lh | lw | lbu | lhu
deriving DecidableEq

inductive StoreOp
  | sb | sh | sw
deriving DecidableEq

inductive ImmOp
  | addi | slti | sltiu | xori | ori | andi | slli | srli | srai
deriving DecidableEq

/-- The operations between registers; those from `mul` on are the M extension. -/
inductive RegOp
  | add | sub | sll | slt | sltu | xor | srl | sra | or | and
  | mul | mulh | mulhsu | mulhu | div | divu | rem | remu
deriving DecidableEq

def BranchOp.read (funct3 : BitVec 3) : Option BranchOp :=
  if funct3 = 0b000#3 then some .beq
  else if funct3 = 0b001#3 then some .bne
  else if funct3 = 0b100#3 then some .blt
  else if funct3 = 0b101#3 then some .bge
  else if funct3 = 0b110#3 then some .bltu
  else if funct3 = 0b111#3 then some .bgeu
  else none

def LoadOp.read (funct3 : BitVec 3) : Option LoadOp :=
  if funct3 = 0b000#3 then some .lb
  else if funct3 = 0b001#3 then some .lh
  else if funct3 = 0b010#3 then some .lw
  else if funct3 = 0b100#3 then some .lbu
  else if funct3 = 0b101#3 then some .lhu
  else none

def StoreOp.read (funct3 : BitVec 3) : Option StoreOp :=
  if funct3 = 0b000#3 then some .sb
  else if funct3 = 0b001#3 then some .sh
  else if funct3 = 0b010#3 then some .sw
  else none

def ImmOp.read (funct7 : BitVec 7) (funct3 : BitVec 3) : Option ImmOp :=
  if funct3 = 0b000#3 then some .addi
  else if funct3 = 0b010#3 then some .slti
  else if funct3 = 0b011#3 then some .sltiu
  else if funct3 = 0b100#3 then some .xori
  else if funct3 = 0b110#3 then some .ori
  else if funct3 = 0b111#3 then some .andi
  else if funct3 = 0b001#3 then if funct7 = 0b0000000#7 then some .slli else none
  else if funct7 = 0b0000000#7 then some .srli
  else if funct7 = 0b0100000#7 then some .srai
  else none

def RegOp.read (funct7 : BitVec 7) (funct3 : BitVec 3) : Option RegOp :=
  if funct7 = 0b0000000#7 then
    if funct3 = 0b000#3 then some .add
    else if funct3 = 0b001#3 then some .sll
    else if funct3 = 0b010#3 then some .slt
    else if funct3 = 0b011#3 then some .sltu
    else if funct3 = 0b100#3 then some .xor
    else if funct3 = 0b101#3 then some .srl
    else if funct3 = 0b110#3 then some .or
    else some .and
  else if funct7 = 0b0100000#7 then
    if funct3 = 0b000#3 then some .sub
    else if funct3 = 0b101#3 then some .sra
    else none
  else if funct7 = 0b0000001#7 then
    if funct3 = 0b000#3 then some .mul
    else if funct3 = 0b001#3 then some .mulh
    else if funct3 = 0b010#3 then some .mulhsu
    else if funct3 = 0b011#3 then some .mulhu
    else if funct3 = 0b100#3 then some .div
    else if funct3 = 0b101#3 then some .divu
    else if funct3 = 0b110#3 then some .rem
    else some .remu
  else none

def BranchOp.name : BranchOp → String
  | .beq => "beq" | .bne => "bne" | .blt => "blt" | .bge => "bge" | .bltu => "bltu"
  | .bgeu => "bgeu"

def LoadOp.name : LoadOp → String
  | .lb => "lb" | .lh => "lh" | .lw => "lw" | .lbu => "lbu" | .lhu => "lhu"

def StoreOp.name : StoreOp → String
  | .sb => "sb" | .sh => "sh" | .sw => "sw"

def ImmOp.name : ImmOp → String
  | .addi => "addi" | .slti => "slti" | .sltiu => "sltiu" | .xori => "xori" | .ori => "ori"
  | .andi => "andi" | .slli => "slli" | .srli => "srli" | .srai => "srai"

def ImmOp.isShift : ImmOp → Bool
  | .slli | .srli | .srai => true
  | _ => false

def RegOp.name : RegOp → String
  | .add => "add" | .sub => "sub" | .sll => "sll" | .slt => "slt" | .sltu => "sltu"
  | .xor => "xor" | .srl => "srl" | .sra => "sra" | .or => "or" | .and => "and"
  | .mul => "mul" | .mulh => "mulh" | .mulhsu => "mulhsu" | .mulhu => "mulhu"
  | .div => "div" | .divu => "divu" | .rem => "rem" | .remu => "remu"

def RegOp.isMulDiv : RegOp → Bool
  | .mul | .mulh | .mulhsu | .mulhu | .div | .divu | .rem | .remu => true
  | _ => false

/-! ## Instructions -/

/-- The compressed instructions, without the arithmetic of the funct3 100 in quadrant 1. -/
inductive Compressed
  | addi4spn (rd : BitVec 5) (imm : Word)
  | lw (rd rs1 : BitVec 5) (imm : Word)
  | sw (rs2 rs1 : BitVec 5) (imm : Word)
  | nop
  | addi (rd : BitVec 5) (imm : Word)
  | jal (imm : Word)
  | li (rd : BitVec 5) (imm : Word)
  | addi16sp (imm : Word)
  | lui (rd : BitVec 5) (imm : Word)
  | j (imm : Word)
  | beqz (rs1 : BitVec 5) (imm : Word)
  | bnez (rs1 : BitVec 5) (imm : Word)
  | slli (rd : BitVec 5) (shamt : Word)
  | lwsp (rd : BitVec 5) (imm : Word)
  | jr (rs1 : BitVec 5)
  | mv (rd rs2 : BitVec 5)
  | ebreak
  | jalr (rs1 : BitVec 5)
  | add (rd rs2 : BitVec 5)
  | swsp (rs2 : BitVec 5) (imm : Word)
deriving DecidableEq

inductive Instr
  | lui (rd : BitVec 5) (imm : BitVec 20)
  | auipc (rd : BitVec 5) (imm : BitVec 20)
  | jal (rd : BitVec 5) (imm : Word)
  | jalr (rd rs1 : BitVec 5) (imm : Word)
  | branch (op : BranchOp) (rs1 rs2 : BitVec 5) (imm : Word)
  | load (op : LoadOp) (rd rs1 : BitVec 5) (imm : Word)
  | store (op : StoreOp) (rs2 rs1 : BitVec 5) (imm : Word)
  | opImm (op : ImmOp) (rd rs1 : BitVec 5) (imm : Word)
  | arith (op : RegOp) (rd rs1 rs2 : BitVec 5)
  | ecall
  | ebreak
  | compressed (i : Compressed)
deriving DecidableEq

/-! ## Immediates -/

section

variable (w : Word) (h : BitVec 16)

def immS : Word := (w.extractLsb' 25 7 ++ w.extractLsb' 7 5).signExtend 32

def shamt : Word := (w.extractLsb' 20 5).setWidth 32

/-- The bits 5 to 4, 9 to 6, 2 and 3, from bit 12 down. -/
def immCIW : Word :=
  (h.extractLsb' 7 4 ++ h.extractLsb' 11 2 ++ h.extractLsb' 5 1 ++ h.extractLsb' 6 1 ++
    0#2).setWidth 32

/-- The bits 5 to 3 in front, 2 and 6 between the registers. -/
def immCL : Word :=
  (h.extractLsb' 5 1 ++ h.extractLsb' 10 3 ++ h.extractLsb' 6 1 ++ 0#2).setWidth 32

def immCI : Word := (h.extractLsb' 12 1 ++ h.extractLsb' 2 5).signExtend 32

/-- The bit 9 in front, and the bits 4, 6, 8 to 7 and 5. -/
def immCI16 : Word :=
  (h.extractLsb' 12 1 ++ h.extractLsb' 3 2 ++ h.extractLsb' 5 1 ++ h.extractLsb' 2 1 ++
    h.extractLsb' 6 1 ++ 0#4).signExtend 32

/-- The bit 5 in front, and the bits 4 to 2 and 7 to 6. -/
def immLwsp : Word :=
  (h.extractLsb' 2 2 ++ h.extractLsb' 12 1 ++ h.extractLsb' 4 3 ++ 0#2).setWidth 32

def immSwsp : Word := (h.extractLsb' 7 2 ++ h.extractLsb' 9 4 ++ 0#2).setWidth 32

def shamtC : Word := (h.extractLsb' 12 1 ++ h.extractLsb' 2 5).setWidth 32

end

/-! ## Decoding -/

def readWord (w : Word) : Option Instr :=
  let opcode := w.extractLsb' 0 7
  let rd := w.extractLsb' 7 5
  let funct3 := w.extractLsb' 12 3
  let rs1 := w.extractLsb' 15 5
  let rs2 := w.extractLsb' 20 5
  let funct7 := w.extractLsb' 25 7
  if w = 0x00100073#32 then some .ebreak
  else if w = 0x00000073#32 then some .ecall
  else if opcode = 0b0110111#7 then some (.lui rd (w.extractLsb' 12 20))
  else if opcode = 0b0010111#7 then some (.auipc rd (w.extractLsb' 12 20))
  else if opcode = 0b1101111#7 then some (.jal rd (immJ w))
  else if opcode = 0b1100111#7 then
    if funct3 = 0b000#3 then some (.jalr rd rs1 (immI w)) else none
  else if opcode = 0b1100011#7 then
    (BranchOp.read funct3).map fun op => .branch op rs1 rs2 (immB w)
  else if opcode = 0b0000011#7 then (LoadOp.read funct3).map fun op => .load op rd rs1 (immI w)
  else if opcode = 0b0100011#7 then (StoreOp.read funct3).map fun op => .store op rs2 rs1 (immS w)
  else if opcode = 0b0010011#7 then
    (ImmOp.read funct7 funct3).map fun op =>
      .opImm op rd rs1 (if op.isShift then shamt w else immI w)
  else if opcode = 0b0110011#7 then (RegOp.read funct7 funct3).map fun op => .arith op rd rs1 rs2
  else none

/-- Hints and reserved encodings are no instructions. -/
def readHalf (h : BitVec 16) : Option Compressed :=
  let quadrant := h.extractLsb' 0 2
  let funct3 := h.extractLsb' 13 3
  let rd := h.extractLsb' 7 5
  let rs2 := h.extractLsb' 2 5
  let rd' := 0b01#2 ++ h.extractLsb' 2 3
  let rs1' := 0b01#2 ++ h.extractLsb' 7 3
  if quadrant = 0b00#2 then
    if funct3 = 0b000#3 then if immCIW h = 0 then none else some (.addi4spn rd' (immCIW h))
    else if funct3 = 0b010#3 then some (.lw rd' rs1' (immCL h))
    else if funct3 = 0b110#3 then some (.sw rd' rs1' (immCL h))
    else none
  else if quadrant = 0b01#2 then
    if funct3 = 0b000#3 then
      if rd = 0 then if immCI h = 0 then some .nop else none
      else if immCI h = 0 then none
      else some (.addi rd (immCI h))
    else if funct3 = 0b001#3 then some (.jal (immCJ h))
    else if funct3 = 0b010#3 then if rd = 0 then none else some (.li rd (immCI h))
    else if funct3 = 0b011#3 then
      if rd = 2 then if immCI16 h = 0 then none else some (.addi16sp (immCI16 h))
      else if rd = 0 then none
      else if immCI h = 0 then none
      else some (.lui rd (immCI h))
    else if funct3 = 0b101#3 then some (.j (immCJ h))
    else if funct3 = 0b110#3 then some (.beqz rs1' (immCB h))
    else if funct3 = 0b111#3 then some (.bnez rs1' (immCB h))
    else none
  else if quadrant = 0b10#2 then
    if funct3 = 0b000#3 then
      if rd = 0 then none
      else if h.extractLsb' 12 1 = 1#1 then none
      else if shamtC h = 0 then none
      else some (.slli rd (shamtC h))
    else if funct3 = 0b010#3 then if rd = 0 then none else some (.lwsp rd (immLwsp h))
    else if funct3 = 0b100#3 then
      if h.extractLsb' 12 1 = 0#1 then
        if rd = 0 then none
        else if rs2 = 0 then some (.jr rd)
        else some (.mv rd rs2)
      else if rs2 = 0 then if rd = 0 then some .ebreak else some (.jalr rd)
      else if rd = 0 then none
      else some (.add rd rs2)
    else if funct3 = 0b110#3 then some (.swsp rs2 (immSwsp h))
    else none
  else none

/-- The instruction in a word, or in its lower half. -/
def readInstr (w : Word) : Option Instr :=
  if w.extractLsb' 0 2 = 0b11#2 then readWord w
  else (readHalf (w.extractLsb' 0 16)).map .compressed

/-! ## Assembly notation -/

/-- The name of a register in the calling convention. -/
def abiName (r : BitVec 5) : String :=
  match r.toNat with
  | 0 => "zero" | 1 => "ra" | 2 => "sp" | 3 => "gp" | 4 => "tp"
  | 5 => "t0" | 6 => "t1" | 7 => "t2"
  | 8 => "s0" | 9 => "s1"
  | 10 => "a0" | 11 => "a1" | 12 => "a2" | 13 => "a3" | 14 => "a4" | 15 => "a5" | 16 => "a6"
  | 17 => "a7"
  | 18 => "s2" | 19 => "s3" | 20 => "s4" | 21 => "s5" | 22 => "s6" | 23 => "s7" | 24 => "s8"
  | 25 => "s9" | 26 => "s10" | 27 => "s11"
  | 28 => "t3" | 29 => "t4" | 30 => "t5" | _ => "t6"

/-- A piece of a line: text, a signed decimal number, or a hexadecimal number. -/
inductive Piece
  | text (s : String)
  | dec (v : Word)
  | hex (v : Word)
deriving DecidableEq

def Piece.reg (r : BitVec 5) : Piece := .text (abiName r)

open Piece (text dec hex reg) in
/-- Jumps and branches show their target. -/
def Compressed.line (pc : Word) : Compressed → List Piece
  | .addi4spn rd imm => [text "c.addi4spn ", reg rd, text ",sp,", dec imm]
  | .lw rd rs1 imm => [text "c.lw ", reg rd, text ",", dec imm, text "(", reg rs1, text ")"]
  | .sw rs2 rs1 imm => [text "c.sw ", reg rs2, text ",", dec imm, text "(", reg rs1, text ")"]
  | .nop => [text "c.nop"]
  | .addi rd imm => [text "c.addi ", reg rd, text ",", dec imm]
  | .jal imm => [text "c.jal", text " ", hex (pc + imm)]
  | .li rd imm => [text "c.li ", reg rd, text ",", dec imm]
  | .addi16sp imm => [text "c.addi16sp ", dec imm]
  | .lui rd imm => [text "c.lui ", reg rd, text ",", dec imm]
  | .j imm => [text "c.j", text " ", hex (pc + imm)]
  | .beqz rs1 imm => [text "c.beqz", text " ", reg rs1, text ",", hex (pc + imm)]
  | .bnez rs1 imm => [text "c.bnez", text " ", reg rs1, text ",", hex (pc + imm)]
  | .slli rd shamt => [text "c.slli ", reg rd, text ",", dec shamt]
  | .lwsp rd imm => [text "c.lwsp ", reg rd, text ",", dec imm, text "(sp)"]
  | .jr rs1 => [text "c.jr ", reg rs1]
  | .mv rd rs2 => [text "c.mv ", reg rd, text ",", reg rs2]
  | .ebreak => [text "c.ebreak"]
  | .jalr rs1 => [text "c.jalr ", reg rs1]
  | .add rd rs2 => [text "c.add ", reg rd, text ",", reg rs2]
  | .swsp rs2 imm => [text "c.swsp ", reg rs2, text ",", dec imm, text "(sp)"]

open Piece (text dec hex reg) in
/-- The upper immediate of `auipc` is shown with its sign. -/
def Instr.line (pc : Word) : Instr → List Piece
  | .lui rd imm => [text "lui ", reg rd, text ",0x", hex (imm.setWidth 32)]
  | .auipc rd imm =>
    if imm.msb then [text "auipc ", reg rd, text ",-0x", hex (-imm.signExtend 32)]
    else [text "auipc ", reg rd, text ",0x", hex (imm.setWidth 32)]
  | .jal rd imm => [text "jal ", reg rd, text ",", hex (pc + imm)]
  | .jalr rd rs1 imm => [text "jalr ", reg rd, text ",", dec imm, text "(", reg rs1, text ")"]
  | .branch op rs1 rs2 imm =>
    [text op.name, text " ", reg rs1, text ",", reg rs2, text ",", hex (pc + imm)]
  | .load op rd rs1 imm =>
    [text op.name, text " ", reg rd, text ",", dec imm, text "(", reg rs1, text ")"]
  | .store op rs2 rs1 imm =>
    [text op.name, text " ", reg rs2, text ",", dec imm, text "(", reg rs1, text ")"]
  | .opImm op rd rs1 imm =>
    [text op.name, text " ", reg rd, text ",", reg rs1, text ",", dec imm]
  | .arith op rd rs1 rs2 =>
    [text op.name, text " ", reg rd, text ",", reg rs1, text ",", reg rs2]
  | .ecall => [text "ecall"]
  | .ebreak => [text "ebreak"]
  | .compressed i => i.line pc

end vibeos.Rv32
