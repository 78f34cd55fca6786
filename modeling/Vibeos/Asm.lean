-- The assembler of the editor: it collects the labels and the instruction lines of a program,
-- and then runs the lines as text.
import Vibeos.Wget
import Vibeos.Rv32Flow
import Mathlib.Data.List.DropRight

namespace vibeos.asm

open vibeos.fs vibeos.wget vibeos.Rv32

def ASM_MAX_LINES : Nat := 256
def ASM_MAX_LABELS : Nat := 64
def ASM_LINE_LEN : Nat := 192
def OUT_BUF_SIZE : Nat := 2048

/-- The size of the buffers for the words of a line. -/
def TOKEN_LEN : Nat := 24

/-! ## Characters -/

def chr (c : Char) : UInt8 := c.toUInt8

def asm_is_space (c : UInt8) : Bool :=
  c == chr ' ' || c == chr '\t' || c == chr '\r' || c == chr '\n'

def asm_is_ident_start (c : UInt8) : Bool :=
  (chr 'a' ≤ c && c ≤ chr 'z') || (chr 'A' ≤ c && c ≤ chr 'Z') || c == chr '_' || c == chr '.'

def asm_is_ident_char (c : UInt8) : Bool :=
  asm_is_ident_start c || (chr '0' ≤ c && c ≤ chr '9')

def is_digit (c : UInt8) : Bool := chr '0' ≤ c && c ≤ chr '9'

def asm_trim (s : List UInt8) : List UInt8 := (s.dropWhile asm_is_space).rdropWhile asm_is_space

theorem length_asm_trim_le (s : List UInt8) : (asm_trim s).length ≤ s.length :=
  (List.rdropWhile_prefix _ _).length_le.trans (List.dropWhile_suffix _).length_le

def asm_strip_comment : List UInt8 → List UInt8
  | [] => []
  | c :: rest =>
    if c = chr '#' then []
    else if c = chr '/' ∧ rest.head? = some (chr '/') then []
    else c :: asm_strip_comment rest

/-! ## Operands -/

/-- The names of the registers, with their numbers. -/
def regs : List (List UInt8 × Reg) :=
  [(ascii "zero", 0), (ascii "ra", 1), (ascii "sp", 2), (ascii "gp", 3), (ascii "tp", 4),
    (ascii "t0", 5), (ascii "t1", 6), (ascii "t2", 7),
    (ascii "s0", 8), (ascii "fp", 8), (ascii "s1", 9),
    (ascii "a0", 10), (ascii "a1", 11), (ascii "a2", 12), (ascii "a3", 13), (ascii "a4", 14),
    (ascii "a5", 15), (ascii "a6", 16), (ascii "a7", 17),
    (ascii "s2", 18), (ascii "s3", 19), (ascii "s4", 20), (ascii "s5", 21), (ascii "s6", 22),
    (ascii "s7", 23), (ascii "s8", 24), (ascii "s9", 25), (ascii "s10", 26), (ascii "s11", 27),
    (ascii "t3", 28), (ascii "t4", 29), (ascii "t5", 30), (ascii "t6", 31)]

/-- The number behind the `x`. It is an `int`, which wraps. -/
def parse_reg_number (n : Word) : List UInt8 → Option Reg
  | [] => none
  | c :: rest =>
    if is_digit c then
      let n := n * 10 + BitVec.ofNat 32 (c.toNat - 48)
      if rest = [] then
        if h : n.toNat < 32 then some ⟨n.toNat, h⟩ else none
      else parse_reg_number n rest
    else none

def asm_parse_reg (name : List UInt8) : Option Reg :=
  match name with
  | c :: d :: rest =>
    if c = chr 'x' ∧ is_digit d then parse_reg_number 0 (d :: rest) else regs.lookup name
  | _ => regs.lookup name

/-- The value of a digit in the base 10 or 16. -/
def digit_value (base : Nat) (c : UInt8) : Option Nat :=
  if is_digit c then some (c.toNat - 48)
  else if base = 16 ∧ chr 'a' ≤ c ∧ c ≤ chr 'f' then some (10 + (c.toNat - 97))
  else if base = 16 ∧ chr 'A' ≤ c ∧ c ≤ chr 'F' then some (10 + (c.toNat - 65))
  else none

/-- The loop over the digits, on a `uint32_t`. -/
def parse_digits (base : Nat) (v : Word) : List UInt8 → Option Word
  | [] => some v
  | c :: rest =>
    match digit_value base c with
    | none => none
    | some digit => parse_digits base (v * BitVec.ofNat 32 base + BitVec.ofNat 32 digit) rest

def parse_unsigned (s : List UInt8) : Option Word :=
  match s with
  | z :: x :: rest =>
    if z = chr '0' ∧ (x = chr 'x' ∨ x = chr 'X') then
      if rest = [] then none else parse_digits 16 0 rest
    else parse_digits 10 0 s
  | [] => none
  | _ => parse_digits 10 0 s

def asm_parse_imm (s : List UInt8) : Option Word :=
  match s with
  | [] => none
  | c :: rest =>
    if c = chr '+' then parse_unsigned rest
    else if c = chr '-' then (parse_unsigned rest).map fun v => -v
    else parse_unsigned s

def asm_is_sep (c : UInt8) : Bool := asm_is_space c || c == chr ','

/-- The next word, with at most `max_len - 1` of its characters, and the text behind it. -/
def asm_next_token (max_len : Nat) (cursor : List UInt8) : Option (List UInt8) × List UInt8 :=
  let p := cursor.dropWhile asm_is_sep
  if p = [] then (none, p)
  else
    (some ((p.takeWhile fun c => !asm_is_sep c).take (max_len - 1)),
      (p.dropWhile fun c => !asm_is_sep c).dropWhile asm_is_sep)

/-! ## The first pass -/

structure asm_label_entry where
  name : Bytes 20
  pc : Nat

structure asm_program where
  insts : List (List UInt8)
  line_nos : List Nat
  labels : List asm_label_entry

def asm_program.empty : asm_program := ⟨[], [], []⟩

def asm_program.count (prog : asm_program) : Nat := prog.insts.length

def asm_find_label (prog : asm_program) (name : List UInt8) : Option Nat :=
  (prog.labels.find? fun e => cstr e.name.val == name).map asm_label_entry.pc

def asm_add_label (prog : asm_program) (name : List UInt8) (pc : Nat) : Option asm_program :=
  if prog.labels.length ≥ ASM_MAX_LABELS then none
  else if (asm_find_label prog name).isSome then none
  else some { prog with labels := prog.labels ++ [⟨copy_name20 (Bytes.zero 20) name, pc⟩] }

/-- The text of an error, or the program. -/
abbrev Build := Except (List UInt8)

/-- The labels in front of an instruction: they are added to the program, and the text behind
them is left. -/
def asm_take_labels (prog : asm_program) (s : List UInt8) : Build (asm_program × List UInt8) :=
  let name := s.takeWhile (· ≠ chr ':')
  if name.length = s.length then .ok (prog, s)
  else if ¬ name.all asm_is_ident_char ∨ name = [] ∨ ¬ (name.head?.any asm_is_ident_start) then
    .ok (prog, s)
  else
    let label := asm_trim name
    if label = [] then .error (ascii "asm: empty label")
    else
      match asm_add_label prog label prog.count with
      | none => .error (ascii "asm: duplicate/too many labels")
      | some prog =>
        let rest := asm_trim (s.drop (name.length + 1))
        if rest = [] then .ok (prog, rest) else asm_take_labels prog rest
termination_by s.length
decreasing_by
  rename_i hne _ _ _
  have htrim := length_asm_trim_le (s.drop (name.length + 1))
  have hname := (List.takeWhile_prefix (l := s) (· ≠ chr ':')).length_le
  have hlt : name.length < s.length := Nat.lt_of_le_of_ne hname hne
  rw [List.length_drop] at htrim
  exact Nat.lt_of_le_of_lt htrim (by omega)

def asm_build_line (prog : asm_program) (line_no : Nat) (line : List UInt8) : Build asm_program := do
  let s := asm_trim (asm_strip_comment line)
  if s = [] then return prog
  let (prog, s) ← asm_take_labels prog s
  if s = [] then return prog
  if s.head? = some (chr '.') then return prog
  if prog.count ≥ ASM_MAX_LINES then throw (ascii "asm: program too large")
  return { prog with insts := prog.insts ++ [s], line_nos := prog.line_nos ++ [line_no] }

def asm_build_lines (prog : asm_program) (line_no : Nat) (p : List UInt8) : Build asm_program :=
  match p with
  | [] => .ok prog
  | c :: rest => do
    let line := (c :: rest).takeWhile (· ≠ chr '\n')
    let prog ← asm_build_line prog line_no line
    asm_build_lines prog (line_no + 1) ((c :: rest).drop (line.length + 1))
termination_by p.length
decreasing_by simp only [List.length_drop, List.length_cons]; omega

/-- The bytes of the file end at the first NUL. -/
def asm_build_program (src : List UInt8) : Build asm_program :=
  asm_build_lines .empty 1 (cstr src)

/-! ## The second pass -/

structure asm_state where
  pc : Nat
  regs : Vector Word 32
  out : List UInt8

/-- What the run returns: 0 or -1 as `ok`, the output, and the registers at the end. -/
structure asm_result where
  ok : Bool
  out : List UInt8
  regs : Vector Word 32
deriving DecidableEq

inductive asm_step where
  | next (s : asm_state)
  | jump (s : asm_state) (target : Nat)
  | stop (s : asm_state)
  | fail (msg : List UInt8)

def asm_append_text (out s : List UInt8) : List UInt8 :=
  out ++ s.take (OUT_BUF_SIZE - 1 - out.length)

def asm_append_int32 (out : List UInt8) (v : Word) : List UInt8 :=
  if v.toInt < 0 then
    let out := asm_append_text out (ascii "-")
    if v = 0x80000000#32 then asm_append_text out (lib_itoa 0x80000000)
    else asm_append_text out (lib_itoa (-v).toNat)
  else asm_append_text out (lib_itoa v.toNat)

def append_hex32_local (v : Word) : List UInt8 :=
  (List.range 8).map fun i =>
    (ascii "0123456789abcdef").getD ((v >>> (4 * (7 - i))) &&& 0xF#32).toNat 0

def asm_state.write (s : asm_state) (rd : Reg) (v : Word) : asm_state :=
  if rd ≠ 0 then { s with regs := s.regs.set rd v } else s

def asm_state.print (s : asm_state) (out : List UInt8) : asm_state := { s with out := out }

/-- Two words behind the first one, with the cursor behind them. -/
def two_tokens (cursor : List UInt8) : Option (List UInt8 × List UInt8 × List UInt8) :=
  match asm_next_token TOKEN_LEN cursor with
  | (none, _) => none
  | (some a, cursor) =>
    match asm_next_token TOKEN_LEN cursor with
    | (none, _) => none
    | (some b, cursor) => some (a, b, cursor)

def three_tokens (cursor : List UInt8) : Option (List UInt8 × List UInt8 × List UInt8) :=
  match two_tokens cursor with
  | none => none
  | some (a, b, cursor) =>
    match asm_next_token TOKEN_LEN cursor with
    | (none, _) => none
    | (some c, _) => some (a, b, c)

/-- A register gets a constant: `li` and `lui`. -/
def exec_reg_imm (needs bad : String) (f : Word → Word) (s : asm_state) (cursor : List UInt8) :
    asm_step :=
  match two_tokens cursor with
  | none => .fail (ascii needs)
  | some (a, b, _) =>
    match asm_parse_reg a, asm_parse_imm b with
    | some rd, some imm => .next (s.write rd (f imm))
    | _, _ => .fail (ascii bad)

def exec_li : asm_state → List UInt8 → asm_step :=
  exec_reg_imm "asm: li needs rd, imm" "asm: bad li operand" fun imm => imm

def exec_lui : asm_state → List UInt8 → asm_step :=
  exec_reg_imm "asm: lui needs rd, imm" "asm: bad lui operand" fun imm => imm <<< 12

def exec_mv (s : asm_state) (cursor : List UInt8) : asm_step :=
  match two_tokens cursor with
  | none => .fail (ascii "asm: mv needs rd, rs")
  | some (a, b, _) =>
    match asm_parse_reg a, asm_parse_reg b with
    | some rd, some rs1 => .next (s.write rd s.regs[rs1])
    | _, _ => .fail (ascii "asm: bad mv operand")

def exec_addi (s : asm_state) (cursor : List UInt8) : asm_step :=
  match three_tokens cursor with
  | none => .fail (ascii "asm: addi needs rd, rs, imm")
  | some (a, b, c) =>
    match asm_parse_reg a, asm_parse_reg b, asm_parse_imm c with
    | some rd, some rs1, some imm => .next (s.write rd (s.regs[rs1] + imm))
    | _, _, _ => .fail (ascii "asm: bad addi operand")

def exec_add_sub (is_add : Bool) (s : asm_state) (cursor : List UInt8) : asm_step :=
  match three_tokens cursor with
  | none => .fail (ascii "asm: add/sub needs rd, rs1, rs2")
  | some (a, b, c) =>
    match asm_parse_reg a, asm_parse_reg b, asm_parse_reg c with
    | some rd, some rs1, some rs2 =>
      .next (s.write rd
        (if is_add then s.regs[rs1] + s.regs[rs2] else s.regs[rs1] - s.regs[rs2]))
    | _, _, _ => .fail (ascii "asm: bad add/sub operand")

def exec_j (prog : asm_program) (s : asm_state) (cursor : List UInt8) : asm_step :=
  match asm_next_token TOKEN_LEN cursor with
  | (none, _) => .fail (ascii "asm: j needs label")
  | (some a, _) =>
    match asm_find_label prog a with
    | none => .fail (ascii "asm: unknown label")
    | some target => .jump s target

def exec_beq_bne (is_beq : Bool) (prog : asm_program) (s : asm_state) (cursor : List UInt8) :
    asm_step :=
  match three_tokens cursor with
  | none => .fail (ascii "asm: beq/bne needs rs1, rs2, label")
  | some (a, b, c) =>
    match asm_parse_reg a, asm_parse_reg b, asm_find_label prog c with
    | some rs1, some rs2, some target =>
      if (is_beq ∧ s.regs[rs1] = s.regs[rs2]) ∨ (¬ is_beq ∧ s.regs[rs1] ≠ s.regs[rs2]) then
        .jump s target
      else .next s
    | _, _, _ => .fail (ascii "asm: bad branch operand")

def exec_ecall (s : asm_state) : asm_step :=
  let sysno := s.regs[17]
  if sysno = 1 then
    .next (s.print (asm_append_text (asm_append_int32 s.out s.regs[10]) (ascii "\n")))
  else if sysno = 2 then
    .next (s.print
      (asm_append_text (asm_append_text s.out (append_hex32_local s.regs[10])) (ascii "\n")))
  else if sysno = 10 then .stop s
  else .fail (ascii "asm: unsupported ecall")

/-- The line `inst` at the number `line_no` of the source. -/
def asm_exec_inst (prog : asm_program) (s : asm_state) (inst : List UInt8) (line_no : Nat) :
    asm_step :=
  match asm_next_token TOKEN_LEN (inst.take (ASM_LINE_LEN - 1)) with
  | (none, _) => .next s
  | (some op, cursor) =>
    if op = ascii "li" then exec_li s cursor
    else if op = ascii "mv" then exec_mv s cursor
    else if op = ascii "addi" then exec_addi s cursor
    else if op = ascii "add" ∨ op = ascii "sub" then exec_add_sub (op = ascii "add") s cursor
    else if op = ascii "lui" then exec_lui s cursor
    else if op = ascii "j" then exec_j prog s cursor
    else if op = ascii "beq" ∨ op = ascii "bne" then
      exec_beq_bne (op = ascii "beq") prog s cursor
    else if op = ascii "ecall" then exec_ecall s
    else if op = ascii "nop" then .next s
    else .fail (ascii "asm: bad opcode on line " ++ lib_itoa line_no)

def asm_exec_loop (prog : asm_program) : Nat → asm_state → asm_result
  | left, s =>
    match prog.insts[s.pc]? with
    | none => ⟨true, if s.out = [] then ascii ">> asm done" else s.out, s.regs⟩
    | some inst =>
      match left with
      | 0 => ⟨false, ascii "asm: step limit reached", s.regs⟩
      | left + 1 =>
        match asm_exec_inst prog s inst (prog.line_nos.getD s.pc 0) with
        | .next s => asm_exec_loop prog left { s with pc := s.pc + 1 }
        | .jump s target => asm_exec_loop prog left { s with pc := target }
        | .stop s => ⟨true, if s.out = [] then ascii ">> asm done" else s.out, s.regs⟩
        | .fail msg => ⟨false, msg, s.regs⟩

def ASM_MAX_STEPS : Nat := 200000

def asm_exec_program (prog : asm_program) : asm_result :=
  asm_exec_loop prog ASM_MAX_STEPS ⟨0, Vector.replicate 32 0, []⟩

/-- What the tool does with a file that is loaded; the registers are 0 where nothing runs. -/
def run_asm_file [NetConfig] (file : List UInt8) : asm_result :=
  let rejected (msg : List UInt8) : asm_result := ⟨false, msg, Vector.replicate 32 0⟩
  if file = [] then rejected (ascii "asm: empty file")
  else if file.length ≥ NetConfig.WGET_MAX_FILE_SIZE - 1 then rejected (ascii "asm: file too large")
  else
    match asm_build_program file with
    | .error err => rejected err
    | .ok prog => asm_exec_program prog

end vibeos.asm
