-- What an assembler program is: its lines with their layout, what the words of a
-- statement mean, and how the program runs.
import Vibeos.Asm
import Vibeos.LabelledCode
import Mathlib.Data.Nat.Digits.Defs

namespace vibeos.asm

open vibeos.fs vibeos.wget vibeos.Rv32 vibeos.Labelled

/-! ## Words -/

def IsBlank (c : UInt8) : Prop := c = chr ' ' ∨ c = chr '\t' ∨ c = chr '\r'

instance (c : UInt8) : Decidable (IsBlank c) := inferInstanceAs (Decidable (_ ∨ _ ∨ _))

/-- Blanks, or nothing. -/
structure Gap where
  bytes : List UInt8
  blank : ∀ c ∈ bytes, IsBlank c

/-- What stands between two words: blanks and commas. -/
structure Sep where
  bytes : List UInt8
  nonempty : bytes ≠ []
  seps : ∀ c ∈ bytes, IsBlank c ∨ c = chr ','

/-- A word of a statement. -/
structure Token where
  bytes : List UInt8
  nonempty : bytes ≠ []
  chars : ∀ c ∈ bytes, ¬ IsBlank c ∧ c ≠ chr ',' ∧ c ≠ chr ':' ∧ c ≠ chr '\n' ∧ c ≠ 0

/-- The name of a label: a letter, `_` or `.`, and then digits as well. -/
structure Label where
  bytes : List UInt8
  start : bytes.head?.any asm_is_ident_start
  chars : bytes.all asm_is_ident_char

/-! ## Lines -/

structure Stmt where
  op : Token
  args : List (Sep × Token)

def Stmt.tokens (st : Stmt) : List (List UInt8) := st.op.bytes :: st.args.map (·.2.bytes)

def argsText (args : List (Sep × Token)) : List UInt8 :=
  args.flatMap fun a => a.1.bytes ++ a.2.bytes

def Stmt.text (st : Stmt) : List UInt8 := st.op.bytes ++ argsText st.args

def labelsText (labels : List (Label × Gap)) : List UInt8 :=
  labels.flatMap fun l => l.1.bytes ++ chr ':' :: l.2.bytes

def stmtText (stmt : Option Stmt) : List UInt8 := (stmt.map Stmt.text).getD []

def lineText (lead : Gap) (labels : List (Label × Gap)) (stmt : Option Stmt) (trail : Gap) :
    List UInt8 :=
  lead.bytes ++ (labelsText labels ++ stmtText stmt) ++ trail.bytes

/-- A comment does not start before the end of `s`. -/
structure NoComment (s : List UInt8) : Prop where
  hash : chr '#' ∉ s
  slashes : s.IsChain fun a b => ¬ (a = chr '/' ∧ b = chr '/')

/-- A comment that stands behind `s`, or no comment. -/
def CommentAfter (s comment : List UInt8) : Prop :=
  comment = [] ∨ comment.head? = some (chr '#') ∨
    comment.take 2 = [chr '/', chr '/'] ∧ s.getLast? ≠ some (chr '/')

structure SourceLine where
  lead : Gap
  labels : List (Label × Gap)
  stmt : Option Stmt
  trail : Gap
  comment : List UInt8
  no_comment : NoComment (lineText lead labels stmt trail)
  comment_after : CommentAfter (lineText lead labels stmt trail) comment
  comment_chars : ∀ c ∈ comment, c ≠ chr '\n' ∧ c ≠ 0

def SourceLine.text (ln : SourceLine) : List UInt8 :=
  lineText ln.lead ln.labels ln.stmt ln.trail ++ ln.comment

/-- The text of a program; a last line without text is a newline at the end. -/
def sourceText (src : List SourceLine) : List UInt8 :=
  [chr '\n'].intercalate (src.map SourceLine.text)

/-- A statement that starts with a `.` is a directive, which is no instruction. -/
def Stmt.IsDirective (st : Stmt) : Prop := st.op.bytes.head? = some (chr '.')

instance (st : Stmt) : Decidable st.IsDirective := inferInstanceAs (Decidable (_ = _))

def SourceLine.line (ln : SourceLine) : Line (List UInt8) Stmt :=
  ⟨ln.labels.map (·.1.bytes), ln.stmt.filter fun st => !decide st.IsDirective⟩

def lines (src : List SourceLine) : List (Line (List UInt8) Stmt) := src.map SourceLine.line

/-! ## Operands -/

def abiNames : List (List UInt8) :=
  ["zero", "ra", "sp", "gp", "tp", "t0", "t1", "t2", "s0", "s1", "a0", "a1", "a2", "a3", "a4",
    "a5", "a6", "a7", "s2", "s3", "s4", "s5", "s6", "s7", "s8", "s9", "s10", "s11", "t3", "t4",
    "t5", "t6"].map ascii

def number (base : Nat) (s : List UInt8) : Option Nat :=
  if s = [] then none else (s.mapM (digit_value base)).map fun ds => Nat.ofDigits base ds.reverse

/-- The digits behind the `x` of a numbered register. -/
def numbered (t : List UInt8) : Option (List UInt8) :=
  match t with
  | c :: d :: rest => if c = chr 'x' ∧ is_digit d then some (d :: rest) else none
  | _ => none

def regNumber (t : List UInt8) : Option Reg :=
  match numbered t with
  | some ds => (number 10 ds).bind fun n => if h : n < 32 then some ⟨n, h⟩ else none
  | none => if t = ascii "fp" then some 8 else if h : abiNames.idxOf t < 32 then some ⟨_, h⟩ else none

/-- A number in base 16 behind `0x` or `0X`, or in base 10. -/
def magnitude (t : List UInt8) : Option Nat :=
  match t with
  | z :: x :: rest =>
    if z = chr '0' ∧ (x = chr 'x' ∨ x = chr 'X') then number 16 rest else number 10 t
  | _ => number 10 t

/-- The integer that an operand is, of any size. -/
def immValue (t : List UInt8) : Option Int :=
  match t with
  | [] => none
  | c :: rest =>
    if c = chr '+' then (magnitude rest).map Int.ofNat
    else if c = chr '-' then (magnitude rest).map Int.negOfNat
    else (magnitude t).map Int.ofNat

/-! ## Instructions -/

inductive Operation where
  | li (rd : Reg) (imm : Int)
  | mv (rd rs1 : Reg)
  | addi (rd rs1 : Reg) (imm : Int)
  | add (rd rs1 rs2 : Reg)
  | sub (rd rs1 rs2 : Reg)
  | lui (rd : Reg) (imm : Int)
  | j (l : List UInt8)
  | beq (rs1 rs2 : Reg) (l : List UInt8)
  | bne (rs1 rs2 : Reg) (l : List UInt8)
  | ecall
  | nop
deriving DecidableEq

def regImm (f : Reg → Int → Operation) : List (List UInt8) → Option Operation
  | a :: b :: _ => (regNumber a).bind fun rd => (immValue b).map (f rd)
  | _ => none

def twoRegs (f : Reg → Reg → Operation) : List (List UInt8) → Option Operation
  | a :: b :: _ => (regNumber a).bind fun rd => (regNumber b).map (f rd)
  | _ => none

def regsImm (f : Reg → Reg → Int → Operation) : List (List UInt8) → Option Operation
  | a :: b :: c :: _ =>
    (regNumber a).bind fun rd => (regNumber b).bind fun rs1 => (immValue c).map (f rd rs1)
  | _ => none

def threeRegs (f : Reg → Reg → Reg → Operation) : List (List UInt8) → Option Operation
  | a :: b :: c :: _ =>
    (regNumber a).bind fun rd => (regNumber b).bind fun rs1 => (regNumber c).map (f rd rs1)
  | _ => none

def regsLabel (f : Reg → Reg → List UInt8 → Operation) : List (List UInt8) → Option Operation
  | a :: b :: c :: _ =>
    (regNumber a).bind fun rs1 => (regNumber b).map fun rs2 => f rs1 rs2 c
  | _ => none

/-- The instruction that the words of a statement are; words behind the operands do not count. -/
def operation : List (List UInt8) → Option Operation
  | [] => none
  | op :: args =>
    if op = ascii "li" then regImm .li args
    else if op = ascii "mv" then twoRegs .mv args
    else if op = ascii "addi" then regsImm .addi args
    else if op = ascii "add" then threeRegs .add args
    else if op = ascii "sub" then threeRegs .sub args
    else if op = ascii "lui" then regImm .lui args
    else if op = ascii "j" then args.head?.map .j
    else if op = ascii "beq" then regsLabel .beq args
    else if op = ascii "bne" then regsLabel .bne args
    else if op = ascii "ecall" then some .ecall
    else if op = ascii "nop" then some .nop
    else none

structure Machine where
  regs : Regs
  printed : List UInt8

def Machine.initial : Machine := ⟨.zero, []⟩

def Machine.print (m : Machine) (s : List UInt8) : Machine := { m with printed := m.printed ++ s }

/-- The services that `a7` chooses: a number, a number in base 16, and the end. -/
def Machine.ecall (m : Machine) : Option (Machine × Next (List UInt8)) :=
  if m.regs.val 17 = 1 then
    some (m.print (ascii (toString (m.regs.val 10).toInt) ++ ascii "\n"), .fall)
  else if m.regs.val 17 = 2 then
    some (m.print (append_hex32_local (m.regs.val 10) ++ ascii "\n"), .fall)
  else if m.regs.val 17 = 10 then some (m, .halt)
  else none

/-- `li`, `mv` and `nop` are their RV32I instructions. An immediate that `addi` or `lui` cannot
encode is added, or shifted, modulo `2 ^ 32`. -/
def Operation.exec (m : Machine) : Operation → Option (Machine × Next (List UInt8))
  | .li rd imm =>
    some ({ m with regs := (loadConstant rd (BitVec.ofInt 32 imm)).foldl Base.exec m.regs }, .fall)
  | .mv rd rs1 => some ({ m with regs := (Base.addi rd rs1 0).exec m.regs }, .fall)
  | .addi rd rs1 imm =>
    if -2048 ≤ imm ∧ imm < 2048 then
      some ({ m with regs := (Base.addi rd rs1 (BitVec.ofInt 12 imm)).exec m.regs }, .fall)
    else
      some ({ m with regs := m.regs.write rd (m.regs.val rs1 + BitVec.ofInt 32 imm) }, .fall)
  | .add rd rs1 rs2 => some ({ m with regs := (Base.add rd rs1 rs2).exec m.regs }, .fall)
  | .sub rd rs1 rs2 => some ({ m with regs := (Base.sub rd rs1 rs2).exec m.regs }, .fall)
  | .lui rd imm =>
    if 0 ≤ imm ∧ imm < 1048576 then
      some ({ m with regs := (Base.lui rd (BitVec.ofInt 20 imm)).exec m.regs }, .fall)
    else some ({ m with regs := m.regs.write rd (BitVec.ofInt 32 imm <<< 12) }, .fall)
  | .j l => some (m, .branch true l)
  | .beq rs1 rs2 l => some (m, .branch (m.regs.val rs1 = m.regs.val rs2) l)
  | .bne rs1 rs2 l => some (m, .branch (m.regs.val rs1 ≠ m.regs.val rs2) l)
  | .ecall => m.ecall
  | .nop => some ({ m with regs := (Base.addi 0 0 0).exec m.regs }, .fall)

def sem (st : Stmt) (m : Machine) : Option (Machine × Next (List UInt8)) :=
  (operation st.tokens).bind fun op => op.exec m

/-- A run of at most `n` instructions from the start. -/
def execute (src : List SourceLine) (n : Nat) : Verdict Machine :=
  run sem (lines src) n (lines src) .initial

/-! ## Well-formed programs -/

/-- The immediate fits in the field of the instruction. -/
def Operation.Encodable : Operation → Prop
  | .li _ imm => -2147483648 ≤ imm ∧ imm < 4294967296
  | .addi _ _ imm => -2048 ≤ imm ∧ imm < 2048
  | .lui _ imm => 0 ≤ imm ∧ imm < 1048576
  | _ => True

def Operation.target : Operation → Option (List UInt8)
  | .j l => some l
  | .beq _ _ l => some l
  | .bne _ _ l => some l
  | _ => none

/-- The labels are distinct, and each statement is an instruction with an immediate that it can
encode and a label that the program defines. -/
structure WellFormed (src : List SourceLine) : Prop where
  distinct : (labels (lines src)).Nodup
  known : ∀ st ∈ code (lines src), ∃ op, operation st.tokens = some op ∧ op.Encodable ∧
    ∀ l ∈ op.target, l ∈ labels (lines src)

/-! ## The limits -/

/-- Two lines do not define the same label, and the tables are large enough. -/
structure Acceptable (src : List SourceLine) : Prop where
  distinct : (labels (lines src)).Nodup
  labels_le : (labels (lines src)).length ≤ ASM_MAX_LABELS
  insts_le : (code (lines src)).length ≤ ASM_MAX_LINES

/-- The buffers are large enough, and the number of a register fits in an `int`. -/
structure Fits (src : List SourceLine) : Prop where
  label_lt : ∀ l ∈ labels (lines src), l.length < 20
  text_lt : ∀ st ∈ code (lines src), st.text.length < ASM_LINE_LEN
  token_lt : ∀ st ∈ code (lines src), ∀ t ∈ st.tokens, t.length < TOKEN_LEN
  register_lt : ∀ st ∈ code (lines src), ∀ t ∈ st.tokens, ∀ ds n, numbered t = some ds →
    number 10 ds = some n → n < 2147483648

end vibeos.asm
