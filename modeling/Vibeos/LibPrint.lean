-- The formatter of lib.c. It knows no widths: behind a `%` it looks at one letter, after at
-- most two `l`, and a letter that it does not know is printed with its `%`. Then the formatter with
-- its buffer: `put_char` counts every character and stores those that fit. What it has to print is
-- read off the format by itself.
import Vibeos.Wget
import Mathlib.Data.Nat.Digits.Lemmas

namespace vibeos.lib

open fs (lit cstr CString)
open wget (ascii)

def digit (uppercase : Bool) (d : Nat) : UInt8 :=
  if d < 10 then UInt8.ofNat (48 + d)
  else UInt8.ofNat ((if uppercase then 65 else 97) + (d - 10))

def print_unsigned (val base : Nat) (uppercase : Bool) : List UInt8 :=
  if val = 0 then [48] else ((Nat.digits base val).map (digit uppercase)).reverse

theorem print_unsigned_ne_nil (val base : Nat) (uppercase : Bool) :
    print_unsigned val base uppercase ≠ [] := by
  unfold print_unsigned
  split
  · exact List.cons_ne_nil _ _
  · simpa [Nat.digits_eq_nil_iff_eq_zero]

theorem print_unsigned_decimal {val : Nat} {c : UInt8} (h : c ∈ print_unsigned val 10 false) :
    48 ≤ c.toNat ∧ c.toNat ≤ 57 := by
  unfold print_unsigned at h
  split at h
  · rw [List.mem_singleton.mp h]
    decide
  · obtain ⟨d, hd, rfl⟩ := List.mem_map.mp (List.mem_reverse.mp h)
    have hlt : d < 10 := Nat.digits_lt_base (by decide) hd
    rw [digit, if_pos hlt, UInt8.toNat_ofNat']
    omega

theorem length_print_unsigned {val base n : Nat} (hb : 1 < base) (hn : 0 < n)
    (h : val < base ^ n) (uppercase : Bool) :
    (print_unsigned val base uppercase).length ≤ n := by
  unfold print_unsigned
  split
  · exact hn
  · rw [List.length_reverse, List.length_map]
    exact (Nat.digits_length_le_iff hb val).mpr h

theorem print_unsigned_injective {a b : Nat}
    (h : print_unsigned a 10 false = print_unsigned b 10 false) : a = b := by
  have hread : ∀ n, Nat.ofDigits 10 ((print_unsigned n 10 false).reverse.map
      fun c => c.toNat - 48) = n := by
    intro n
    unfold print_unsigned
    split
    · rename_i hzero
      rw [hzero]
      rfl
    · rw [List.reverse_reverse, List.map_map]
      have hdigits : (Nat.digits 10 n).map ((fun c : UInt8 => c.toNat - 48) ∘ digit false) =
          (Nat.digits 10 n).map id := by
        refine List.map_congr_left fun d hd => ?_
        have hlt : d < 10 := Nat.digits_lt_base (by decide) hd
        rw [Function.comp_apply, digit, if_pos hlt, UInt8.toNat_ofNat',
          Nat.mod_eq_of_lt (by omega), id]
        omega
      rw [hdigits, List.map_id, Nat.ofDigits_digits]
  rw [← hread a, ← hread b, h]

/-- The number is one of `bits` bits, in two's complement. -/
def print_signed (val bits : Nat) : List UInt8 :=
  if val < 2 ^ (bits - 1) then print_unsigned val 10 false
  else 45 :: print_unsigned (2 ^ bits - val) 10 false

/-- The characters of one conversion, and the arguments that are left. `bits` is the
width of an integer; an address is 32 bits wide, and `string_at` is the text there. -/
def conversion (string_at : Nat → List UInt8) (bits : Nat) (f : UInt8) (args : List Nat) :
    List UInt8 × List Nat :=
  let val := args.headD 0 % 2 ^ bits
  if f = 'd'.toUInt8 then (print_signed val bits, args.tail)
  else if f = 'u'.toUInt8 then (print_unsigned val 10 false, args.tail)
  else if f = 'x'.toUInt8 then (print_unsigned val 16 false, args.tail)
  else if f = 'X'.toUInt8 then (print_unsigned val 16 true, args.tail)
  else if f = 'c'.toUInt8 then ([UInt8.ofNat (args.headD 0)], args.tail)
  else if f = 's'.toUInt8 then
    let str := args.headD 0 % 2 ^ 32
    (if str = 0 then ascii "(null)" else string_at str, args.tail)
  else ([37, f], args)

/-- Where the formatter is: in plain text, behind a `%`, or behind one `l` or two. -/
inductive FormatAt where
  | text
  | percent
  | long
  | longlong
  deriving DecidableEq, Repr

/-- The characters that the formatter puts. `fmt` is the memory from the format on: it stops
at a zero byte, but one that follows a `%` is taken for a letter. -/
def format (string_at : Nat → List UInt8) : FormatAt → List UInt8 → List Nat → List UInt8
  | _, [], _ => []
  | .text, c :: fmt, args =>
    if c = 0 then []
    else if c = 37 then format string_at .percent fmt args
    else c :: format string_at .text fmt args
  | .percent, c :: fmt, args =>
    if c = 37 then 37 :: format string_at .text fmt args
    else if c = 'l'.toUInt8 then format string_at .long fmt args
    else
      let r := conversion string_at 32 c args
      r.1 ++ format string_at .text fmt r.2
  | .long, c :: fmt, args =>
    if c = 'l'.toUInt8 then format string_at .longlong fmt args
    else
      let r := conversion string_at 32 c args
      r.1 ++ format string_at .text fmt r.2
  | .longlong, c :: fmt, args =>
    let r := conversion string_at 64 c args
    r.1 ++ format string_at .text fmt r.2

section

variable {string_at : Nat → List UInt8} {fmt : List UInt8} {args : List Nat} {a : Nat} {c : UInt8}

theorem format_end : format string_at .text (0 :: fmt) args = [] := rfl

theorem format_plain (h0 : c ≠ 0) (h37 : c ≠ 37) :
    format string_at .text (c :: fmt) args = c :: format string_at .text fmt args := by
  rw [format, if_neg h0, if_neg h37]

theorem format_char : format string_at .text (37 :: 99 :: fmt) (a :: args) =
    UInt8.ofNat a :: format string_at .text fmt args := rfl

theorem format_string (h0 : a ≠ 0) (h32 : a < 2 ^ 32) :
    format string_at .text (37 :: 115 :: fmt) (a :: args) =
      string_at a ++ format string_at .text fmt args := by
  have hmod : a % 2 ^ 32 = a := Nat.mod_eq_of_lt h32
  change (if a % 2 ^ 32 = 0 then _ else string_at (a % 2 ^ 32)) ++ _ = _
  rw [hmod, if_neg h0]
  rfl

theorem format_width : format string_at .text (37 :: 49 :: fmt) args =
    37 :: 49 :: format string_at .text fmt args := rfl

end

/-- The text in a buffer of `n` bytes after `snprintf`: what fits, up to the first zero. -/
def snprintf (string_at : Nat → List UInt8) (n : Nat) (fmt : List UInt8) (args : List Nat) :
    List UInt8 :=
  cstr ((format string_at .text (fmt ++ [0]) args).take (n - 1))

/-! ## The output -/

/-- `out`, `n` and `pos`, with the bytes from `out` on unless it is NULL. -/
structure Out where
  out : Option (Nat → UInt8)
  n : BitVec 32
  pos : BitVec 32

def Out.put_char (o : Out) (c : UInt8) : Out :=
  { o with
    out := if o.pos + 1 < o.n then o.out.map (Function.update · o.pos.toNat c) else o.out
    pos := o.pos + 1 }

/-- The digits of `print_unsigned` in `buf`, the last one first. The buffer has room for `room`
more. -/
def digit_loop (base : BitVec 64) (uppercase : Bool) : Nat → BitVec 64 → Option (List UInt8)
  | 0, val => if val = 0 then some [] else none
  | room + 1, val =>
    if val = 0 then some []
    else (digit_loop base uppercase room (val / base)).map
      (digit uppercase (val % base).toNat :: ·)

def Out.print_unsigned (o : Out) (val base : BitVec 64) (uppercase : Bool) : Option Out :=
  let buf := if val = 0 then some [48] else digit_loop base uppercase 64 val
  buf.map fun buf => buf.reverse.foldl put_char o

def Out.print_signed (o : Out) (val : BitVec 64) : Option Out :=
  if val.slt 0 then (o.put_char 45).print_unsigned (-val) 10 false
  else o.print_unsigned val 10 false

/-- The byte behind the characters: NUL, if any. -/
def Out.terminate (o : Out) : Option (Nat → UInt8) :=
  o.out.map fun bytes =>
    if o.pos < o.n then Function.update bytes o.pos.toNat 0
    else if o.n ≠ 0 then Function.update bytes (o.n - 1).toNat 0
    else bytes

/-! ## The formatter -/

/-- One argument of the list. A string is its characters, or NULL. -/
inductive Arg where
  | int (v : BitVec 32)
  | long (v : BitVec 32)
  | llong (v : BitVec 64)
  | str (s : Option CString)

/-- `va_arg` of an `int`, a `long` or a `long long`, in 64 bits. -/
def va_int (extend : BitVec 32 → BitVec 64) : Nat → List Arg → Option (BitVec 64 × List Arg)
  | 0, .int v :: ap => some (extend v, ap)
  | 1, .long v :: ap => some (extend v, ap)
  | 2, .llong v :: ap => some (v, ap)
  | _, _ => none

/-- The switch over the letter of a directive. -/
def Out.convert (o : Out) (longlongarg : Nat) (c : UInt8) (ap : List Arg) :
    Option (Out × List Arg) :=
  if c = 'd'.toUInt8 then
    (va_int (·.signExtend 64) longlongarg ap).bind fun (val, ap) =>
      (o.print_signed val).map (·, ap)
  else if c = 'u'.toUInt8 then
    (va_int (·.setWidth 64) longlongarg ap).bind fun (val, ap) =>
      (o.print_unsigned val 10 false).map (·, ap)
  else if c = 'x'.toUInt8 then
    (va_int (·.setWidth 64) longlongarg ap).bind fun (val, ap) =>
      (o.print_unsigned val 16 false).map (·, ap)
  else if c = 'X'.toUInt8 then
    (va_int (·.setWidth 64) longlongarg ap).bind fun (val, ap) =>
      (o.print_unsigned val 16 true).map (·, ap)
  else if c = 'c'.toUInt8 then
    match ap with
    | .int v :: ap => some (o.put_char (UInt8.ofBitVec (v.setWidth 8)), ap)
    | _ => none
  else if c = 's'.toUInt8 then
    match ap with
    | .str (some str) :: ap => some (str.bytes.foldl put_char o, ap)
    | .str none :: ap => some ((ascii "(null)").foldl put_char o, ap)
    | _ => none
  -- unknown specifier, print literally
  else some ((o.put_char 37).put_char c, ap)

/-- `*fmt`: behind the last character is the terminator. -/
def cur (fmt : List UInt8) : UInt8 := fmt.headD 0

/-- The `l`, or two, that the pointer goes over, and where it is then. -/
def longlongarg (fmt : List UInt8) : Nat × List UInt8 :=
  if cur fmt = 'l'.toUInt8 then
    if cur fmt.tail = 'l'.toUInt8 then (2, fmt.tail.tail) else (1, fmt.tail)
  else (0, fmt)

theorem longlongarg_le (fmt : List UInt8) : (longlongarg fmt).2.length ≤ fmt.length := by
  unfold longlongarg
  split
  · split <;> simp only [List.length_tail] <;> omega
  · exact Nat.le_refl _

/-- The loop from some place in the format on. There is no result when the pointer goes over the
terminator, or when the next argument is not there. -/
def format_loop (o : Out) (ap : List Arg) : List UInt8 → Option Out
  | [] => some o
  | c :: fmt =>
    if c ≠ 37 then format_loop (o.put_char c) ap fmt
    else if cur fmt = 37 then format_loop (o.put_char 37) ap fmt.tail
    else
      match o.convert (longlongarg fmt).1 (cur (longlongarg fmt).2) ap,
        _h : (longlongarg fmt).2 with
      | some (o, ap), _ :: rest => format_loop o ap rest
      | _, _ => none
termination_by fmt => fmt.length
decreasing_by
  · simp
  · simp only [List.length_tail, List.length_cons]
    omega
  · have hle := longlongarg_le fmt
    rw [_h] at hle
    simp only [List.length_cons] at hle ⊢
    omega

/-- What is in the buffer in the end, and the `int` that is returned. -/
def lib_vsnprintf (out : Option (Nat → UInt8)) (n : BitVec 32) (fmt : CString) (ap : List Arg) :
    Option (Option (Nat → UInt8) × BitVec 32) :=
  (format_loop ⟨out, n, 0⟩ ap fmt.bytes).map fun o => (o.terminate, o.pos)

/-! ## What there is to print -/

inductive Conv where
  | d | u | x | X | c | s
deriving DecidableEq

/-- A format is a row of characters, conversions with their `l`, letters that are no conversion,
and at most one directive that the terminator cuts. -/
inductive Piece where
  | char (c : UInt8)
  | conv (l : Nat) (k : Conv)
  | unknown (l : Nat) (c : UInt8)
  | unfinished (l : Nat)
deriving DecidableEq

/-- The directive that ends with this letter. -/
def directive (l : Nat) (c : UInt8) : Piece :=
  if c = 'd'.toUInt8 then .conv l .d
  else if c = 'u'.toUInt8 then .conv l .u
  else if c = 'x'.toUInt8 then .conv l .x
  else if c = 'X'.toUInt8 then .conv l .X
  else if c = 'c'.toUInt8 then .conv l .c
  else if c = 's'.toUInt8 then .conv l .s
  else .unknown l c

def pieces : FormatAt → List UInt8 → List Piece
  | .text, [] => []
  | .percent, [] => [.unfinished 0]
  | .long, [] => [.unfinished 1]
  | .longlong, [] => [.unfinished 2]
  | .text, c :: fmt => if c = 37 then pieces .percent fmt else .char c :: pieces .text fmt
  | .percent, c :: fmt =>
    if c = 37 then .char 37 :: pieces .text fmt
    else if c = 'l'.toUInt8 then pieces .long fmt
    else directive 0 c :: pieces .text fmt
  | .long, c :: fmt =>
    if c = 'l'.toUInt8 then pieces .longlong fmt else directive 1 c :: pieces .text fmt
  | .longlong, c :: fmt => directive 2 c :: pieces .text fmt

def decimal (val : Int) : List UInt8 :=
  if val < 0 then 45 :: print_unsigned val.natAbs 10 false else print_unsigned val.natAbs 10 false

/-- The next argument as an integer, if it has the type of a directive with `l` many `l`. -/
def signedArg : Nat → Arg → Option Int
  | 0, .int v => some v.toInt
  | 1, .long v => some v.toInt
  | 2, .llong v => some v.toInt
  | _, _ => none

def unsignedArg : Nat → Arg → Option Nat
  | 0, .int v => some v.toNat
  | 1, .long v => some v.toNat
  | 2, .llong v => some v.toNat
  | _, _ => none

def Conv.shown (l : Nat) : Conv → Arg → Option (List UInt8)
  | .d, arg => (signedArg l arg).map decimal
  | .u, arg => (unsignedArg l arg).map (lib.print_unsigned · 10 false)
  | .x, arg => (unsignedArg l arg).map (lib.print_unsigned · 16 false)
  | .X, arg => (unsignedArg l arg).map (lib.print_unsigned · 16 true)
  | .c, .int v => some [UInt8.ofBitVec (v.setWidth 8)]
  | .s, .str (some str) => some str.bytes
  | .s, .str none => some (ascii "(null)")
  | _, _ => none

/-- The characters of a piece and the arguments behind it, where `literal` is how a directive that
is no conversion is printed. -/
def Piece.shown (literal : Nat → UInt8 → List UInt8) : Piece → List Arg →
    Option (List UInt8 × List Arg)
  | .char c, args => some ([c], args)
  | .conv l k, arg :: args => (k.shown l arg).map (·, args)
  | .conv _ _, [] => none
  | .unknown l c, args => some (literal l c, args)
  | .unfinished l, args => some (37 :: List.replicate l 'l'.toUInt8, args)

def expand (literal : Nat → UInt8 → List UInt8) : List Piece → List Arg → Option (List UInt8)
  | [], _ => some []
  | p :: ps, args =>
    (p.shown literal args).bind fun (text, args) => (expand literal ps args).map (text ++ ·)

/-- The whole text of a format: what is no conversion stands in it as it is written, the widths
and precisions with it. There is none when the arguments do not match the conversions. -/
def expansion (fmt : CString) (args : List Arg) : Option (List UInt8) :=
  expand (fun l c => 37 :: (List.replicate l 'l'.toUInt8 ++ [c])) (pieces .text fmt.bytes) args

end vibeos.lib
