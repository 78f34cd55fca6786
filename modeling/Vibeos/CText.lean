-- C source text as a reader of the language divides it: the tokens of a text with their
-- spelling, the directive lines among them, and the braces that open the body of a loop.
import Mathlib.Data.List.Basic
import Mathlib.Data.List.Infix
import Mathlib.Tactic.Ring

namespace vibeos.CText

abbrev Text := List UInt8

/-! ## The tokens of a text -/

def isIdent (c : UInt8) : Bool :=
  (48 ≤ c && c ≤ 57) || (97 ≤ c && c ≤ 122) || (65 ≤ c && c ≤ 90) || c == 95

/-- Space, tab, carriage return, newline, form feed or vertical tab. -/
def isBlank (c : UInt8) : Bool :=
  c == 32 || c == 9 || c == 13 || c == 10 || c == 12 || c == 11

/-- One character of a literal: a plain one, or a backslash with the one it escapes. -/
inductive LitChar where
  | plain (c : UInt8)
  | escaped (c : UInt8)
  deriving DecidableEq

def LitChar.text : LitChar → Text
  | plain c => [c]
  | escaped c => [92, c]

/-- A token, or what stands between tokens. A splice is a backslash at the end of a line,
which joins the line to the next; `cr` says that a carriage return stands between them. A
line comment that is not `ended` is cut off by the end of the text. -/
inductive Tok where
  | blank (c : UInt8)
  | splice (cr : Bool)
  | lineComment (body : Text) (ended : Bool)
  | blockComment (body : Text)
  | literal (quote : UInt8) (chars : List LitChar)
  | word (w : Text)
  | punct (c : UInt8)
  deriving DecidableEq

namespace Tok

/-- The characters a token is written with. -/
def text : Tok → Text
  | blank c => [c]
  | splice false => [92, 10]
  | splice true => [92, 13, 10]
  | lineComment body false => 47 :: 47 :: body
  | lineComment body true => 47 :: 47 :: (body ++ [10])
  | blockComment body => 47 :: 42 :: (body ++ [42, 47])
  | literal quote chars => quote :: (chars.flatMap LitChar.text ++ [quote])
  | word w => w
  | punct c => [c]

/-- What the language drops between tokens. -/
def isGap : Tok → Bool
  | blank _ | splice _ | lineComment _ _ | blockComment _ => true
  | _ => false

def isSplice : Tok → Bool
  | splice _ => true
  | _ => false

def isLiteral : Tok → Bool
  | literal _ _ => true
  | _ => false

def endsLine : Tok → Bool
  | blank c => c == 10
  | lineComment _ ended => ended
  | _ => false

end Tok

def unsplice : Text → Text
  | 92 :: 10 :: rest => unsplice rest
  | 92 :: 13 :: 10 :: rest => unsplice rest
  | c :: rest => c :: unsplice rest
  | [] => []

/-- A character that may stand in a literal between these quotes. -/
def LitChar.Fits (quote : UInt8) : LitChar → Prop
  | plain c => c ≠ quote ∧ c ≠ 92 ∧ c ≠ 0
  | escaped c => c ≠ 0

instance (quote : UInt8) : (c : LitChar) → Decidable (c.Fits quote)
  | .plain c => inferInstanceAs (Decidable (c ≠ quote ∧ c ≠ 92 ∧ c ≠ 0))
  | .escaped c => inferInstanceAs (Decidable (c ≠ 0))

/-- The token is written as the language has it: a comment does not close early and a line
comment is not continued, a literal closes at its first free quote, and any character that
begins no other token stands alone. -/
def Tok.Fits : Tok → Prop
  | blank c => isBlank c = true
  | splice _ => True
  | lineComment body _ =>
    10 ∉ body ∧ 0 ∉ body ∧ ¬ [92] <:+ body ∧ ¬ [92, 13] <:+ body
  | blockComment body =>
    0 ∉ body ∧ ¬ [42, 47] <:+: body ∧ ¬ [42, 47] <:+: unsplice body
  | literal quote chars => (quote = 34 ∨ quote = 39) ∧ ∀ c ∈ chars, c.Fits quote
  | word w => w ≠ [] ∧ ∀ c ∈ w, isIdent c = true
  | punct c => isIdent c = false ∧ isBlank c = false ∧ c ≠ 34 ∧ c ≠ 39 ∧ c ≠ 0

instance : (t : Tok) → Decidable t.Fits
  | .blank c => inferInstanceAs (Decidable (isBlank c = true))
  | .splice _ => inferInstanceAs (Decidable True)
  | .lineComment body _ =>
    inferInstanceAs (Decidable (10 ∉ body ∧ 0 ∉ body ∧ ¬ [92] <:+ body ∧ ¬ [92, 13] <:+ body))
  | .blockComment body =>
    inferInstanceAs (Decidable (0 ∉ body ∧ ¬ [42, 47] <:+: body ∧ ¬ [42, 47] <:+: unsplice body))
  | .literal quote chars =>
    inferInstanceAs (Decidable ((quote = 34 ∨ quote = 39) ∧ ∀ c ∈ chars, c.Fits quote))
  | .word w => inferInstanceAs (Decidable (w ≠ [] ∧ ∀ c ∈ w, isIdent c = true))
  | .punct c => inferInstanceAs (Decidable
      (isIdent c = false ∧ isBlank c = false ∧ c ≠ 34 ∧ c ≠ 39 ∧ c ≠ 0))

/-- Two tokens stay two when they stand side by side. -/
def Tok.Apart : Tok → Tok → Prop
  | word _, word _ => False
  | lineComment _ false, _ => False
  | punct 47, lineComment _ _ => False
  | punct 47, blockComment _ => False
  | punct 47, punct c => c ≠ 47 ∧ c ≠ 42
  | punct 92, blank c => c ≠ 10 ∧ c ≠ 13
  | _, _ => True

/-- A C source text, divided into its tokens. A splice stands between two tokens or in a
literal, and never breaks a word or the mark of a comment. -/
structure Source where
  toks : List Tok
  fits : ∀ t ∈ toks, t.Fits
  apart : toks.IsChain Tok.Apart
  unbroken : (toks.filter fun t => !t.isSplice).IsChain Tok.Apart

def Source.text (s : Source) : Text := s.toks.flatMap Tok.text

/-! ## Directive lines -/

/-- A token with its layer: none for the program, the number of the directive for a token of
a directive line. -/
structure Lexeme where
  tok : Tok
  layer : Option Nat
  deriving DecidableEq

/-- Reads off the layers: `#` as the first token of a line begins a directive, and the end of
the line ends it. `fresh` says that only gaps stand before on the line, `count` is the number
of directives so far. -/
def layersFrom : Bool → Option Nat → Nat → List Tok → List Lexeme
  | _, _, _, [] => []
  | fresh, layer, count, t :: rest =>
    if t.endsLine then ⟨t, layer⟩ :: layersFrom true none count rest
    else if fresh && layer.isNone && t == .punct 35 then
      ⟨t, some count⟩ :: layersFrom false (some count) (count + 1) rest
    else ⟨t, layer⟩ :: layersFrom (fresh && t.isGap) layer count rest

def Source.lexemes (s : Source) : List Lexeme := layersFrom true none 0 s.toks

theorem layersFrom_tok (fresh : Bool) (layer : Option Nat) (count : Nat) (ts : List Tok) :
    (layersFrom fresh layer count ts).map Lexeme.tok = ts := by
  induction ts generalizing fresh layer count with
  | nil => rfl
  | cons t rest ih =>
    rw [layersFrom]
    split
    · simp [ih]
    · split <;> simp [ih]

@[simp] theorem Source.lexemes_tok (s : Source) : s.lexemes.map Lexeme.tok = s.toks :=
  layersFrom_tok true none 0 s.toks

def forWord : Text := [102, 111, 114]
def whileWord : Text := [119, 104, 105, 108, 101]
def doWord : Text := [100, 111]

/-- The token is one of the words that begin a loop. -/
def Tok.isLoopWord (t : Tok) : Bool :=
  t == .word forWord || t == .word whileWord || t == .word doWord

/-- The depth of the parentheses behind the tokens; none when one closes too many. -/
def depthAfter : Nat → List Tok → Option Nat
  | d, [] => some d
  | d, t :: rest =>
    if t = .punct 40 then depthAfter (d + 1) rest
    else if t = .punct 41 then if d = 0 then none else depthAfter (d - 1) rest
    else depthAfter d rest

theorem depthAfter_append (ts us : List Tok) (d : Nat) :
    depthAfter d (ts ++ us) = (depthAfter d ts).bind fun e => depthAfter e us := by
  induction ts generalizing d with
  | nil => rfl
  | cons t rest ih =>
    rw [List.cons_append, depthAfter, depthAfter]
    split
    · exact ih (d + 1)
    · split
      · split
        · rfl
        · exact ih (d - 1)
      · exact ih d

/-- The tokens end in the head of a loop whose body is next: `do`, or `for` or `while` with a
header in parentheses. Only tokens of the kind `gap` stand between the word, the header and
the end, and only tokens of the kind `inner` in the header. -/
def LoopHead (gap inner : Tok → Bool) (ts : List Tok) : Prop :=
  ∃ before g, (∀ t ∈ g, gap t = true) ∧
    (ts = before ++ .word doWord :: g ∨
      ∃ w g' h, (w = forWord ∨ w = whileWord) ∧ (∀ t ∈ g', gap t = true) ∧
        (∀ t ∈ h, inner t = true) ∧ depthAfter 0 h = some 0 ∧
        ts = before ++ .word w :: (g' ++ .punct 40 :: (h ++ .punct 41 :: g)))

/-- Every element of a list with those before it. -/
def splitsFrom {α : Type} : List α → List α → List (List α × α)
  | _, [] => []
  | before, x :: rest => (before, x) :: splitsFrom (before ++ [x]) rest

theorem splitsFrom_snd {α : Type} (before xs : List α) :
    (splitsFrom before xs).map Prod.snd = xs := by
  induction xs generalizing before with
  | nil => rfl
  | cons x rest ih => simp [splitsFrom, ih]

open Classical in
/-- The text with `mark` written behind every token that `here` picks out. -/
noncomputable def woven (mark : Text) (here : List Lexeme → Lexeme → Prop)
    (l : List Lexeme) : Text :=
  (splitsFrom [] l).flatMap fun p => p.2.tok.text ++ if here p.1 p.2 then mark else []

open Classical in
/-- How many tokens `here` picks out. -/
noncomputable def marks (here : List Lexeme → Lexeme → Prop) (l : List Lexeme) : Nat :=
  (splitsFrom [] l).countP fun p => here p.1 p.2

section

variable (mark : Text) (here : List Lexeme → Lexeme → Prop)

theorem woven_nil (l : List Lexeme) : woven [] here l = l.flatMap fun x => x.tok.text := by
  conv_rhs => rw [← splitsFrom_snd [] l]
  simp [woven, List.flatMap_map]

theorem length_woven (l : List Lexeme) :
    (woven mark here l).length =
      (l.flatMap fun x => x.tok.text).length + mark.length * marks here l := by
  rw [← woven_nil here l, woven, woven, marks]
  induction splitsFrom [] l with
  | nil => simp
  | cons p rest ih =>
    simp only [List.flatMap_cons, List.length_append, List.countP_cons] at ih ⊢
    by_cases hp : here p.1 p.2
    · simp [hp, ih]
      ring
    · simp [hp, ih]
      ring

end

end vibeos.CText
