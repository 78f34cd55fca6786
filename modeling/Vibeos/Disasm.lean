-- The disassembler of the trap handler (trap.c).
import Vibeos.Debugger
import Vibeos.LibPrint
import Vibeos.Rv32Asm

namespace vibeos.jit_debug

open Rv32 (Word Piece Instr Compressed readInstr)
open wget (ascii)

abbrev Text := List UInt8

/-! ## Pieces of a text -/

def dec (v : Word) : Text := lib.print_signed v.toNat 32

def hex (v : Word) : Text := lib.print_unsigned v.toNat 16 false

/-- What a format prints: its plain text, and each conversion. -/
def say (pieces : List Text) : Text := pieces.flatten

def names : List String :=
  ["zero", "ra", "sp", "gp", "tp", "t0", "t1", "t2", "s0", "s1", "a0", "a1", "a2", "a3", "a4", "a5",
    "a6", "a7", "s2", "s3", "s4", "s5", "s6", "s7", "s8", "s9", "s10", "s11", "t3", "t4", "t5", "t6"]

def reg_name (r : Nat) : Text := ascii (names.getD r "x?")

/-! ## Compressed instructions -/

section

variable (h : Word)

def addi4spn_imm : Word :=
  (h >>> 7 &&& 0x30#32) ||| (h >>> 1 &&& 0x3c0#32) ||| (h >>> 4 &&& 0x4#32) ||| (h >>> 2 &&& 0x8#32)

def c_lw_imm : Word := (h >>> 4 &&& 0x4#32) ||| (h >>> 7 &&& 0x38#32) ||| (h <<< 1 &&& 0x40#32)

/-- The immediate of `c.addi`, `c.li`, `c.lui` and `c.addi16sp`. -/
def ci_imm : Word := sext ((h >>> 2 &&& 0x1f#32) ||| (h >>> 7 &&& 0x20#32)) 6

def slli_imm : Word := (h >>> 2 &&& 0x1f#32) ||| (h >>> 7 &&& 0x20#32)

def lwsp_imm : Word := (h >>> 2 &&& 0x1c#32) ||| (h >>> 7 &&& 0x20#32) ||| (h <<< 4 &&& 0x40#32)

def swsp_imm : Word := (h >>> 7 &&& 0x3c#32) ||| (h >>> 1 &&& 0xc0#32)

end

/-- The jumps through a register, `c.mv`, `c.add` and `c.ebreak`. -/
def c_misc_text (h : BitVec 16) (rd rs2 : Nat) : Text :=
  let bit12 := h >>> 12 &&& 1#16
  if bit12 = 0#16 ∧ rd ≠ 0 ∧ rs2 = 0 then say [ascii "c.jr ", reg_name rd]
  else if bit12 = 0#16 ∧ rd ≠ 0 ∧ rs2 ≠ 0 then
    say [ascii "c.mv ", reg_name rd, ascii ",", reg_name rs2]
  else if bit12 ≠ 0#16 ∧ rd ≠ 0 ∧ rs2 = 0 then say [ascii "c.jalr ", reg_name rd]
  else if bit12 ≠ 0#16 ∧ rd = 0 ∧ rs2 = 0 then say [ascii "c.ebreak"]
  else if bit12 ≠ 0#16 ∧ rd ≠ 0 ∧ rs2 ≠ 0 then
    say [ascii "c.add ", reg_name rd, ascii ",", reg_name rs2]
  else say [ascii "c.misc h=", hex (h.setWidth 32)]

/-- `jit_debug_format_c_insn`, before the text is cut at the buffer. -/
def c_insn_text (pc : Word) (h : BitVec 16) : Text :=
  let op := h &&& 3#16
  let f3 := h >>> 13 &&& 7#16
  let rd := (h >>> 7 &&& 31#16).toNat
  let rs2 := (h >>> 2 &&& 31#16).toNat
  let low := reg_name (8 + (h >>> 2 &&& 7#16).toNat)
  let high := reg_name (8 + (h >>> 7 &&& 7#16).toNat)
  let w := h.setWidth 32
  if h = 0 then say [ascii "c.invalid h=", hex w]
  else if op = 0#16 ∧ f3 = 0#16 then
    if addi4spn_imm w = 0 then say [ascii "c.invalid-addi4spn h=", hex w]
    else say [ascii "c.addi4spn ", low, ascii ",sp,", dec (addi4spn_imm w)]
  else if op = 0#16 ∧ f3 = 2#16 then
    say [ascii "c.lw ", low, ascii ",", dec (c_lw_imm w), ascii "(", high, ascii ")"]
  else if op = 0#16 ∧ f3 = 6#16 then
    say [ascii "c.sw ", low, ascii ",", dec (c_lw_imm w), ascii "(", high, ascii ")"]
  else if op = 1#16 ∧ f3 = 0#16 then
    if rd = 0 ∧ ci_imm w = 0 then say [ascii "c.nop"]
    else say [ascii "c.addi ", reg_name rd, ascii ",", dec (ci_imm w)]
  else if op = 1#16 ∧ (f3 = 1#16 ∨ f3 = 5#16) then
    say [if f3 = 1#16 then ascii "c.jal" else ascii "c.j", ascii " ", hex (pc + cj_imm h)]
  else if op = 1#16 ∧ f3 = 2#16 then
    say [ascii "c.li ", reg_name rd, ascii ",", dec (ci_imm w)]
  else if op = 1#16 ∧ f3 = 3#16 then
    if rd = 2 then say [ascii "c.addi16sp ", dec (ci_imm w)]
    else say [ascii "c.lui ", reg_name rd, ascii ",", dec (ci_imm w)]
  else if op = 1#16 ∧ (f3 = 6#16 ∨ f3 = 7#16) then
    say [if f3 = 6#16 then ascii "c.beqz" else ascii "c.bnez", ascii " ", high, ascii ",",
      hex (pc + cb_imm h)]
  else if op = 2#16 ∧ f3 = 0#16 then
    say [ascii "c.slli ", reg_name rd, ascii ",", dec (slli_imm w)]
  else if op = 2#16 ∧ f3 = 2#16 then
    say [ascii "c.lwsp ", reg_name rd, ascii ",", dec (lwsp_imm w), ascii "(sp)"]
  else if op = 2#16 ∧ f3 = 4#16 then c_misc_text h rd rs2
  else if op = 2#16 ∧ f3 = 6#16 then
    say [ascii "c.swsp ", reg_name rs2, ascii ",", dec (swsp_imm w), ascii "(sp)"]
  else say [ascii "c.unknown h=", hex w]

/-! ## Words -/

def branch_mn (f3 : Word) : Text :=
  if f3 = 0#32 then ascii "beq"
  else if f3 = 1#32 then ascii "bne"
  else if f3 = 4#32 then ascii "blt"
  else if f3 = 5#32 then ascii "bge"
  else if f3 = 6#32 then ascii "bltu"
  else if f3 = 7#32 then ascii "bgeu"
  else ascii "b?"

def load_mn (f3 : Word) : Text :=
  if f3 = 0#32 then ascii "lb"
  else if f3 = 1#32 then ascii "lh"
  else if f3 = 2#32 then ascii "lw"
  else if f3 = 4#32 then ascii "lbu"
  else if f3 = 5#32 then ascii "lhu"
  else ascii "l?"

def store_mn (f3 : Word) : Text :=
  if f3 = 0#32 then ascii "sb"
  else if f3 = 1#32 then ascii "sh"
  else if f3 = 2#32 then ascii "sw"
  else ascii "s?"

/-- The `mn` with a constant, and the constant, where `top` are the two highest bits. -/
def imm_mn (f3 top imm : Word) : Text × Word :=
  if f3 = 0#32 then (ascii "addi", imm)
  else if f3 = 2#32 then (ascii "slti", imm)
  else if f3 = 3#32 then (ascii "sltiu", imm)
  else if f3 = 4#32 then (ascii "xori", imm)
  else if f3 = 6#32 then (ascii "ori", imm)
  else if f3 = 7#32 then (ascii "andi", imm)
  else if f3 = 1#32 then (ascii "slli", imm &&& 31#32)
  else if f3 = 5#32 then (if top ≠ 0#32 then ascii "srai" else ascii "srli", imm &&& 31#32)
  else (ascii "imm?", imm)

def alu_mn (f3 top : Word) : Text :=
  if f3 = 0#32 then if top ≠ 0#32 then ascii "sub" else ascii "add"
  else if f3 = 1#32 then ascii "sll"
  else if f3 = 2#32 then ascii "slt"
  else if f3 = 3#32 then ascii "sltu"
  else if f3 = 4#32 then ascii "xor"
  else if f3 = 5#32 then if top ≠ 0#32 then ascii "sra" else ascii "srl"
  else if f3 = 6#32 then ascii "or"
  else if f3 = 7#32 then ascii "and"
  else ascii "alu?"

def u_imm20 (insn : Word) : Word := insn.sshiftRight 12

def store_imm (insn : Word) : Word :=
  sext ((insn >>> 25) <<< 5 ||| (insn >>> 7 &&& 0x1f#32)) 12

def word_text (pc insn : Word) : Text :=
  let op := insn &&& 0x7f#32
  let rd := reg_name (insn >>> 7 &&& 31#32).toNat
  let f3 := insn >>> 12 &&& 7#32
  let rs1 := reg_name (insn >>> 15 &&& 31#32).toNat
  let rs2 := reg_name (insn >>> 20 &&& 31#32).toNat
  if op = 0x37#32 then say [ascii "lui ", rd, ascii ",0x", hex (insn >>> 12)]
  else if op = 0x17#32 then
    let imm := u_imm20 insn
    if imm.slt 0 then say [ascii "auipc ", rd, ascii ",-0x", hex (-imm)]
    else say [ascii "auipc ", rd, ascii ",0x", hex imm]
  else if op = 0x6f#32 then say [ascii "jal ", rd, ascii ",", hex (pc + jal_imm insn)]
  else if op = 0x67#32 then
    say [ascii "jalr ", rd, ascii ",", dec (jalr_imm insn), ascii "(", rs1, ascii ")"]
  else if op = 0x63#32 then
    say [branch_mn f3, ascii " ", rs1, ascii ",", rs2, ascii ",", hex (pc + branch_imm insn)]
  else if op = 0x03#32 then
    say [load_mn f3, ascii " ", rd, ascii ",", dec (sext (insn >>> 20) 12), ascii "(", rs1,
      ascii ")"]
  else if op = 0x23#32 then
    say [store_mn f3, ascii " ", rs2, ascii ",", dec (store_imm insn), ascii "(", rs1, ascii ")"]
  else if op = 0x13#32 then
    let mn := imm_mn f3 (insn >>> 30) (sext (insn >>> 20) 12)
    say [mn.1, ascii " ", rd, ascii ",", rs1, ascii ",", dec mn.2]
  else if op = 0x33#32 then
    say [alu_mn f3 (insn >>> 30), ascii " ", rd, ascii ",", rs1, ascii ",", rs2]
  else say [ascii "unknown-rv32 word=", hex insn, ascii " op=", hex op]

/-- `jit_debug_format_insn`, before the text is cut at the buffer. -/
def insn_text (pc insn : Word) : Text :=
  if ¬ insn_is_rv32_word insn then c_insn_text pc (insn.setWidth 16)
  else if insn = 0x00100073#32 then say [ascii "ebreak"]
  else if insn = 0x00000073#32 then say [ascii "ecall"]
  else word_text pc insn

def format_insn (pc insn : Word) (out_max : Nat) : Text := (insn_text pc insn).take (out_max - 1)

/-- The buffer `insn_text` of `jit_debug_asm_dump`. -/
def INSN_TEXT : Nat := 80

/-! ## The notation of the instruction set -/

def pieceText : Piece → Text
  | .text s => ascii s
  | .dec v => dec v
  | .hex v => hex v

def instrText (pc : Word) (i : Instr) : Text := say ((i.line pc).map pieceText)

/-- The instruction in the word is printed as the instruction set has it. -/
def PrintedRight (pc insn : Word) : Prop :=
  ∀ i ∈ readInstr insn, format_insn pc insn INSN_TEXT = instrText pc i

/-- The M extension, `c.addi16sp` with another immediate than 16, and `c.lwsp` from 128 on. -/
def Misread : Instr → Prop
  | .arith op _ _ _ => op.isMulDiv = true
  | .compressed (.addi16sp imm) => imm ≠ 16#32
  | .compressed (.lwsp _ imm) => 128 ≤ imm.toNat
  | _ => False

end vibeos.jit_debug
