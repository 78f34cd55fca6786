-- jit_instrument_loops of tcc_glue.c: the scanner that writes a call of jit_poll behind the brace
-- of every loop, and what it does on one token of a C text.
import Vibeos.CText
import Vibeos.Wget
import Mathlib.Data.List.GetD
import Mathlib.Logic.Function.Iterate

namespace vibeos.tcc_glue

open vibeos.CText
open vibeos.wget (ascii)

/-! ## The code -/

inductive jit_instrument_state where
  | NONE
  | WAIT_PAREN
  | IN_HEADER
  | WAIT_BLOCK
  | WAIT_DO_BLOCK
deriving DecidableEq

def jit_is_space (c : UInt8) : Bool :=
  c == 32 || c == 9 || c == 13 || c == 10 || c == 12 || c == 11

def jit_is_ident_char (c : UInt8) : Bool :=
  (48 ≤ c && c ≤ 57) || (97 ≤ c && c ≤ 122) || (65 ≤ c && c ≤ 90) || c == 95

def injected : Text := ascii " jit_poll(); "

/-- The state and the depth of the parentheses. -/
structure Header where
  state : jit_instrument_state
  paren_depth : Int
deriving DecidableEq

/-- The locals of the loop. `out` is what has been written so far. -/
structure Scan where
  i : Nat
  out : Text
  header : Header
  in_line_comment : Bool
  in_block_comment : Bool
  in_string : Bool
  in_char : Bool
deriving DecidableEq

/-- The end of the loop's body, after `c` has been copied: the new state, and whether the call
is written. -/
def after_char (h : Header) (c : UInt8) : Header × Bool :=
  match h.state with
  | .WAIT_PAREN =>
    if c = 40 then (⟨.IN_HEADER, 1⟩, false)
    else if !jit_is_space c then (⟨.NONE, h.paren_depth⟩, false)
    else (h, false)
  | .IN_HEADER =>
    if c = 40 then (⟨.IN_HEADER, h.paren_depth + 1⟩, false)
    else if c = 41 then
      if h.paren_depth - 1 = 0 then (⟨.WAIT_BLOCK, 0⟩, false)
      else (⟨.IN_HEADER, h.paren_depth - 1⟩, false)
    else (h, false)
  | .WAIT_BLOCK | .WAIT_DO_BLOCK =>
    if jit_is_space c then (h, false)
    else (⟨.NONE, h.paren_depth⟩, c == 123)
  | .NONE => (h, false)

/-- `!strncmp(source + i, word, len)` with no name character on either side. -/
def at_word (source : Text) (i : Nat) (word : Text) : Bool :=
  (source.drop i).take word.length == word &&
    (i == 0 || !jit_is_ident_char (source.getD (i - 1) 0)) &&
    !jit_is_ident_char (source.getD (i + word.length) 0)

def instrument_step (source : Text) (s : Scan) : Scan :=
  let c := source.getD s.i 0
  let n := if s.i + 1 < source.length then source.getD (s.i + 1) 0 else 0
  if s.in_line_comment then
    { s with
      i := s.i + 1, out := s.out ++ [c]
      in_line_comment := if c = 10 then false else s.in_line_comment }
  else if s.in_block_comment then
    if c = 42 ∧ n = 47 then
      { s with i := s.i + 2, out := s.out ++ [c] ++ [n], in_block_comment := false }
    else { s with i := s.i + 1, out := s.out ++ [c] }
  else if s.in_string then
    if c = 92 ∧ n ≠ 0 then { s with i := s.i + 2, out := s.out ++ [c] ++ [n] }
    else
      { s with
        i := s.i + 1, out := s.out ++ [c]
        in_string := if c = 34 then false else s.in_string }
  else if s.in_char then
    if c = 92 ∧ n ≠ 0 then { s with i := s.i + 2, out := s.out ++ [c] ++ [n] }
    else
      { s with
        i := s.i + 1, out := s.out ++ [c]
        in_char := if c = 39 then false else s.in_char }
  else if c = 47 ∧ n = 47 then
    { s with i := s.i + 2, out := s.out ++ [c] ++ [n], in_line_comment := true }
  else if c = 47 ∧ n = 42 then
    { s with i := s.i + 2, out := s.out ++ [c] ++ [n], in_block_comment := true }
  else if c = 34 then { s with i := s.i + 1, out := s.out ++ [c], in_string := true }
  else if c = 39 then { s with i := s.i + 1, out := s.out ++ [c], in_char := true }
  else if (c = 102 ∧ s.i + 2 < source.length ∧ at_word source s.i forWord = true) ∨
      (c = 119 ∧ s.i + 4 < source.length ∧ at_word source s.i whileWord = true) then
    let kw_len := if c = 102 then 3 else 5
    { s with
      i := s.i + kw_len, out := s.out ++ (source.drop s.i).take kw_len
      header := ⟨.WAIT_PAREN, 0⟩ }
  else if c = 100 ∧ s.i + 1 < source.length ∧ at_word source s.i doWord = true then
    { s with
      i := s.i + 2, out := s.out ++ doWord
      header := ⟨.WAIT_DO_BLOCK, s.header.paren_depth⟩ }
  else
    let r := after_char s.header c
    { s with
      i := s.i + 1, out := s.out ++ [c] ++ (if r.2 then injected else [])
      header := r.1 }

def instrument_scan (source : Text) : Nat → Scan → Scan
  | 0, s => s
  | turns + 1, s =>
    if s.i < source.length then instrument_scan source turns (instrument_step source s) else s

/-- What the call gives: NULL, a write behind the end of the buffer, or the text in it. -/
inductive Instrumented where
  | null
  | overrun
  | text (out : Text)
deriving DecidableEq

/-- `malloc` says which sizes can be had. Every turn moves on by a character at least, so the
loop takes no more turns than the text has characters. -/
def jit_instrument_loops (malloc : Nat → Bool) (source : Text) : Instrumented :=
  let src_len := source.length
  if !malloc (src_len * 2 + 64) then .null
  else
    let s := instrument_scan source src_len ⟨0, [], ⟨.NONE, 0⟩, false, false, false, false⟩
    if src_len * 2 + 64 < s.out.length + 1 then .overrun else .text s.out

example : jit_instrument_loops (fun _ => true) (ascii "for(;;) {x;}") =
    .text (ascii "for(;;) { jit_poll(); x;}") := by decide

/-! ## Runs of the loop -/

/-- Where the scanner stands in the text. -/
inductive Mode where
  | code
  | line
  | block
  | string
  | char
deriving DecidableEq

/-- The scanner behind the text `a`, with the output `o`. -/
def scanAt (m : Mode) (a o : Text) (h : Header) : Scan :=
  ⟨a.length, o, h, m == .line, m == .block, m == .string, m == .char⟩

/-- Some turns of the loop lead from the one state to the other. -/
def Moves (source : Text) (s s' : Scan) : Prop := ∃ k, (instrument_step source)^[k] s = s'

theorem Moves.refl (source : Text) (s : Scan) : Moves source s s := ⟨0, rfl⟩

theorem Moves.trans {source : Text} {s s' s'' : Scan} (h : Moves source s s')
    (h' : Moves source s' s'') : Moves source s s'' := by
  obtain ⟨k, rfl⟩ := h
  obtain ⟨k', rfl⟩ := h'
  exact ⟨k' + k, Function.iterate_add_apply _ _ _ _⟩

theorem Moves.step {source : Text} {s s' : Scan} (h : instrument_step source s = s') :
    Moves source s s' := ⟨1, h⟩

theorem lt_ite_i {p : Prop} [Decidable p] {s s' : Scan} {i : Nat} (h : i < s.i) (h' : i < s'.i) :
    i < (if p then s else s').i := by
  split
  · exact h
  · exact h'

theorem lt_instrument_step (source : Text) (s : Scan) : s.i < (instrument_step source s).i := by
  have hword (c : UInt8) : 0 < if c = 102 then 3 else 5 := by split <;> omega
  unfold instrument_step
  dsimp only
  repeat' apply lt_ite_i
  all_goals first | exact Nat.lt_add_of_pos_right (hword _) | exact Nat.lt_add_of_pos_right (by decide)

theorem le_iterate_step (source : Text) (k : Nat) (s : Scan) :
    s.i + k ≤ ((instrument_step source)^[k] s).i := by
  induction k generalizing s with
  | zero => exact le_refl _
  | succ k ih =>
    have hstep := lt_instrument_step source s
    have hrest := ih (instrument_step source s)
    rw [Function.iterate_succ_apply]
    omega

theorem instrument_scan_eq {source : Text} {s' : Scan} (hend : s'.i = source.length) (k turns : Nat)
    (s : Scan) (hk : (instrument_step source)^[k] s = s') (hle : k ≤ turns) :
    instrument_scan source turns s = s' := by
  induction k generalizing s turns with
  | zero =>
    obtain rfl : s = s' := hk
    cases turns with
    | zero => rfl
    | succ turns => rw [instrument_scan, if_neg (by omega)]
  | succ k ih =>
    obtain ⟨turns, rfl⟩ : ∃ m, turns = m + 1 := ⟨turns - 1, by omega⟩
    have hbefore : s.i < source.length := by
      have := le_iterate_step source (k + 1) s
      rw [hk, hend] at this
      omega
    rw [instrument_scan, if_pos hbefore]
    exact ih turns _ hk (by omega)

theorem Moves.scan {source : Text} {s s' : Scan} (h : Moves source s s') (hstart : s.i = 0)
    (hend : s'.i = source.length) : instrument_scan source source.length s = s' := by
  obtain ⟨k, hk⟩ := h
  refine instrument_scan_eq hend k _ s hk ?_
  have := le_iterate_step source k s
  rw [hk, hend] at this
  omega

/-! ## One turn, by what is read -/

section

variable {source a b o : Text} {c : UInt8} (hs : source = a ++ c :: b)

include hs

theorem read_here : source.getD a.length 0 = c := by
  subst hs
  simp [List.getD]

theorem read_next :
    (if a.length + 1 < source.length then source.getD (a.length + 1) 0 else 0) = b.headD 0 := by
  subst hs
  cases b with
  | nil => simp
  | cons d b => simp [List.getD]

theorem line_step (h : Header) :
    instrument_step source (scanAt .line a o h) =
      scanAt (if c = 10 then .code else .line) (a ++ [c]) (o ++ [c]) h := by
  unfold instrument_step scanAt
  dsimp only
  rw [read_here hs]
  by_cases hc : c = 10 <;> simp [hc]

theorem block_step (h : Header) (hopen : ¬ (c = 42 ∧ b.headD 0 = 47)) :
    instrument_step source (scanAt .block a o h) = scanAt .block (a ++ [c]) (o ++ [c]) h := by
  unfold instrument_step scanAt
  dsimp only
  rw [read_here hs, read_next hs, if_neg (by decide), if_pos (by decide), if_neg hopen]
  simp

theorem string_step (h : Header) (hc : c ≠ 92) :
    instrument_step source (scanAt .string a o h) =
      scanAt (if c = 34 then .code else .string) (a ++ [c]) (o ++ [c]) h := by
  unfold instrument_step scanAt
  dsimp only
  rw [read_here hs]
  by_cases hq : c = 34 <;> simp [hc, hq]

theorem char_step (h : Header) (hc : c ≠ 92) :
    instrument_step source (scanAt .char a o h) =
      scanAt (if c = 39 then .code else .char) (a ++ [c]) (o ++ [c]) h := by
  unfold instrument_step scanAt
  dsimp only
  rw [read_here hs]
  by_cases hq : c = 39 <;> simp [hc, hq]

theorem code_step (h : Header) (hslash : c = 47 → b.headD 0 ≠ 47 ∧ b.headD 0 ≠ 42)
    (hquote : c ≠ 34 ∧ c ≠ 39)
    (hword : c = 102 ∨ c = 119 ∨ c = 100 → at_word source a.length forWord = false ∧
      at_word source a.length whileWord = false ∧ at_word source a.length doWord = false) :
    instrument_step source (scanAt .code a o h) =
      scanAt .code (a ++ [c])
        (o ++ [c] ++ if (after_char h c).2 then injected else []) (after_char h c).1 := by
  have hline : ¬ (c = 47 ∧ b.headD 0 = 47) := fun ⟨hc, hn⟩ => (hslash hc).1 hn
  have hblock : ¬ (c = 47 ∧ b.headD 0 = 42) := fun ⟨hc, hn⟩ => (hslash hc).2 hn
  have hloop : ¬ ((c = 102 ∧ a.length + 2 < source.length ∧
        at_word source a.length forWord = true) ∨
      (c = 119 ∧ a.length + 4 < source.length ∧
        at_word source a.length whileWord = true)) := by
    rintro (⟨hc, -, hw⟩ | ⟨hc, -, hw⟩)
    · rw [(hword (Or.inl hc)).1] at hw
      cases hw
    · rw [(hword (Or.inr (Or.inl hc))).2.1] at hw
      cases hw
  have hdo : ¬ (c = 100 ∧ a.length + 1 < source.length ∧
      at_word source a.length doWord = true) := by
    rintro ⟨hc, -, hw⟩
    rw [(hword (Or.inr (Or.inr hc))).2.2] at hw
    cases hw
  unfold instrument_step scanAt
  dsimp only
  rw [read_here hs, read_next hs]
  rw [if_neg (by decide), if_neg (by decide), if_neg (by decide), if_neg (by decide), if_neg hline,
    if_neg hblock, if_neg hquote.1, if_neg hquote.2, if_neg hloop, if_neg hdo]
  simp

end

/-! ## One token -/

/-- A character other than a blank, a parenthesis or a brace ends the wait for one. -/
def Header.broken (h : Header) : Header :=
  match h.state with
  | .WAIT_PAREN | .WAIT_BLOCK | .WAIT_DO_BLOCK => ⟨.NONE, h.paren_depth⟩
  | .IN_HEADER | .NONE => h

/-- What a token does to the header, and whether the call is written behind it. -/
def Header.after (h : Header) : Tok → Header × Bool
  | .blank c | .punct c => after_char h c
  | .splice _ => (h.broken, false)
  | .lineComment _ _ | .blockComment _ | .literal _ _ => (h, false)
  | .word w =>
    if w = forWord ∨ w = whileWord then (⟨.WAIT_PAREN, 0⟩, false)
    else if w = doWord then (⟨.WAIT_DO_BLOCK, h.paren_depth⟩, false)
    else (h.broken, false)

theorem after_char_other (h : Header) {c : UInt8} (hspace : jit_is_space c = false)
    (hopen : c ≠ 40) (hclose : c ≠ 41) (hbrace : c ≠ 123) :
    after_char h c = (h.broken, false) := by
  obtain ⟨state, depth⟩ := h
  cases state <;> simp [after_char, Header.broken, hspace, hopen, hclose, hbrace]

theorem after_char_space (h : Header) {c : UInt8} (hspace : jit_is_space c = true) :
    after_char h c = (h, false) := by
  have hopen : c ≠ 40 := by rintro rfl; revert hspace; decide
  have hclose : c ≠ 41 := by rintro rfl; revert hspace; decide
  obtain ⟨state, depth⟩ := h
  cases state <;> simp [after_char, hspace, hopen, hclose]

@[simp] theorem Header.broken_broken (h : Header) : h.broken.broken = h.broken := by
  obtain ⟨state, depth⟩ := h
  cases state <;> rfl

theorem jit_is_ident_char_eq (c : UInt8) : jit_is_ident_char c = isIdent c := rfl

theorem jit_is_space_eq (c : UInt8) : jit_is_space c = isBlank c := rfl

theorem isIdent_of_blank {c : UInt8} (hc : isBlank c = true) : isIdent c = false := by
  simp only [isBlank, Bool.or_eq_true, beq_iff_eq] at hc
  rcases hc with ((((rfl | rfl) | rfl) | rfl) | rfl) | rfl <;> rfl

theorem after_char_ident (h : Header) {c : UInt8} (hc : isIdent c = true) :
    after_char h c = (h.broken, false) := by
  apply after_char_other
  · rw [jit_is_space_eq, Bool.eq_false_iff]
    intro hblank
    rw [isIdent_of_blank hblank] at hc
    cases hc
  all_goals
    rintro rfl
    revert hc
    decide

theorem line_body {source a b o : Text} (h : Header) (body : Text) (hbody : 10 ∉ body)
    (hs : source = a ++ (body ++ b)) :
    Moves source (scanAt .line a o h) (scanAt .line (a ++ body) (o ++ body) h) := by
  induction body generalizing a o with
  | nil => simpa using Moves.refl source _
  | cons c body ih =>
    have hc : c ≠ 10 := fun hc => hbody (by simp [hc])
    have hone := line_step (o := o) (b := body ++ b) (by simpa using hs) h
    rw [if_neg hc] at hone
    refine (Moves.step hone).trans ?_
    have hrest := ih (a := a ++ [c]) (o := o ++ [c]) (fun hmem => hbody (by simp [hmem]))
      (by simpa using hs)
    simpa using hrest

theorem block_body {source a b o : Text} (h : Header) (body : Text)
    (hbody : ¬ [42, 47] <:+: body) (hb : b.headD 0 ≠ 47) (hs : source = a ++ (body ++ b)) :
    Moves source (scanAt .block a o h) (scanAt .block (a ++ body) (o ++ body) h) := by
  induction body generalizing a o with
  | nil => simpa using Moves.refl source _
  | cons c body ih =>
    have hopen : ¬ (c = 42 ∧ (body ++ b).headD 0 = 47) := by
      rintro ⟨rfl, hnext⟩
      cases body with
      | nil => exact hb hnext
      | cons d body =>
        obtain rfl : d = 47 := by simpa using hnext
        exact hbody ⟨[], body, rfl⟩
    have hone := block_step (o := o) (b := body ++ b) (by simpa using hs) h hopen
    refine (Moves.step hone).trans ?_
    have hrest := ih (a := a ++ [c]) (o := o ++ [c])
      (fun hin => hbody (hin.trans (List.infix_cons (List.infix_refl _)))) (by simpa using hs)
    simpa using hrest

theorem open_line {source a b o : Text} (h : Header) (hs : source = a ++ 47 :: 47 :: b) :
    instrument_step source (scanAt .code a o h) = scanAt .line (a ++ [47, 47]) (o ++ [47, 47]) h := by
  unfold instrument_step scanAt
  dsimp only
  rw [read_here hs, read_next hs, if_neg (by decide), if_neg (by decide), if_neg (by decide),
    if_neg (by decide), if_pos (by simp)]
  simp

theorem open_block {source a b o : Text} (h : Header) (hs : source = a ++ 47 :: 42 :: b) :
    instrument_step source (scanAt .code a o h) =
      scanAt .block (a ++ [47, 42]) (o ++ [47, 42]) h := by
  unfold instrument_step scanAt
  dsimp only
  rw [read_here hs, read_next hs, if_neg (by decide), if_neg (by decide), if_neg (by decide),
    if_neg (by decide), if_neg (by simp), if_pos (by simp)]
  simp

theorem close_block {source a b o : Text} (h : Header) (hs : source = a ++ 42 :: 47 :: b) :
    instrument_step source (scanAt .block a o h) =
      scanAt .code (a ++ [42, 47]) (o ++ [42, 47]) h := by
  unfold instrument_step scanAt
  dsimp only
  rw [read_here hs, read_next hs, if_neg (by decide), if_pos (by decide), if_pos (by simp)]
  simp

/-- The mode between the quotes of a literal. -/
def Mode.within (quote : UInt8) : Mode := if quote = 34 then .string else .char

theorem open_literal {source a b o : Text} (h : Header) {quote : UInt8}
    (hquote : quote = 34 ∨ quote = 39) (hs : source = a ++ quote :: b) :
    instrument_step source (scanAt .code a o h) =
      scanAt (.within quote) (a ++ [quote]) (o ++ [quote]) h := by
  unfold instrument_step scanAt
  dsimp only
  rw [read_here hs, read_next hs]
  rcases hquote with rfl | rfl <;> simp [Mode.within]

theorem escaped_step {source a b o : Text} (h : Header) {quote c : UInt8}
    (hquote : quote = 34 ∨ quote = 39) (hc : c ≠ 0) (hs : source = a ++ 92 :: c :: b) :
    instrument_step source (scanAt (.within quote) a o h) =
      scanAt (.within quote) (a ++ [92, c]) (o ++ [92, c]) h := by
  unfold instrument_step scanAt
  dsimp only
  rw [read_here hs, read_next hs]
  rcases hquote with rfl | rfl <;> simp [Mode.within, hc]

theorem plain_step {source a b o : Text} (h : Header) {quote c : UInt8}
    (hquote : quote = 34 ∨ quote = 39) (hc : c ≠ 92) (hs : source = a ++ c :: b) :
    instrument_step source (scanAt (.within quote) a o h) =
      scanAt (if c = quote then .code else .within quote) (a ++ [c]) (o ++ [c]) h := by
  rcases hquote with rfl | rfl
  · exact string_step hs h hc
  · exact char_step hs h hc

theorem literal_body {source a b o : Text} (h : Header) {quote : UInt8}
    (hquote : quote = 34 ∨ quote = 39) (chars : List LitChar) (hchars : ∀ c ∈ chars, c.Fits quote)
    (hs : source = a ++ (chars.flatMap LitChar.text ++ b)) :
    Moves source (scanAt (.within quote) a o h)
      (scanAt (.within quote) (a ++ chars.flatMap LitChar.text)
        (o ++ chars.flatMap LitChar.text) h) := by
  induction chars generalizing a o with
  | nil => simpa using Moves.refl source _
  | cons c chars ih =>
    have hc := hchars c List.mem_cons_self
    have hone : Moves source (scanAt (.within quote) a o h)
        (scanAt (.within quote) (a ++ c.text) (o ++ c.text) h) := by
      cases c with
      | plain c =>
        have hstep := plain_step (o := o) (b := chars.flatMap LitChar.text ++ b) h hquote hc.2.1
          (by simpa [LitChar.text] using hs)
        rw [if_neg hc.1] at hstep
        exact Moves.step hstep
      | escaped c =>
        exact Moves.step (escaped_step (b := chars.flatMap LitChar.text ++ b) h hquote hc
          (by simpa [LitChar.text] using hs))
    have hrest := ih (a := a ++ c.text) (o := o ++ c.text)
      (fun d hd => hchars d (List.mem_cons_of_mem _ hd)) (by simpa using hs)
    simpa using hone.trans hrest

theorem takeWhile_word {w b : Text} (hw : ∀ c ∈ w, isIdent c = true)
    (hb : ∀ c ∈ b.head?, isIdent c = false) : (w ++ b).takeWhile isIdent = w := by
  rw [List.takeWhile_append_of_pos hw]
  cases b with
  | nil => simp
  | cons c b => simp [hb c rfl]

theorem at_word_iff {source a w b kw : Text} (hs : source = a ++ (w ++ b))
    (hw : ∀ c ∈ w, isIdent c = true) (hkw : ∀ c ∈ kw, isIdent c = true)
    (ha : ∀ c ∈ a.getLast?, isIdent c = false) (hb : ∀ c ∈ b.head?, isIdent c = false) :
    at_word source a.length kw = true ↔ w = kw := by
  have hdrop : source.drop a.length = w ++ b := by simp [hs]
  have hnext : source.getD (a.length + kw.length) 0 = (w ++ b).getD kw.length 0 := by
    simp [hs, List.getD, List.getElem?_append_right]
  have hbefore : (a.length == 0 || !jit_is_ident_char (source.getD (a.length - 1) 0)) = true := by
    rcases List.eq_nil_or_concat a with rfl | ⟨l, c, rfl⟩
    · rfl
    · have hc : isIdent c = false := ha c (by simp)
      have hlast : source.getD ((l.concat c).length - 1) 0 = c := by simp [hs, List.getD]
      rw [hlast, jit_is_ident_char_eq, hc]
      simp
  unfold at_word
  rw [hdrop, hnext, hbefore, jit_is_ident_char_eq]
  simp only [Bool.and_true, Bool.and_eq_true, beq_iff_eq, Bool.not_eq_true']
  constructor
  · rintro ⟨htake, hafter⟩
    have hsplit : w ++ b = kw ++ (w ++ b).drop kw.length := by
      conv_lhs => rw [← List.take_append_drop kw.length (w ++ b), htake]
    have hrest : ∀ c ∈ ((w ++ b).drop kw.length).head?, isIdent c = false := by
      intro c hc
      rw [List.head?_drop] at hc
      rw [List.getD, hc] at hafter
      exact hafter
    rw [← takeWhile_word hw hb, hsplit, takeWhile_word hkw hrest]
  · rintro rfl
    refine ⟨by simp, ?_⟩
    cases b with
    | nil => simp; decide
    | cons c b => simpa [List.getD] using hb c rfl

theorem at_word_inside {source a b : Text} {c : UInt8} (kw : Text) (hc : isIdent c = true)
    (hs : source = (a ++ [c]) ++ b) : at_word source (a ++ [c]).length kw = false := by
  have hlast : source.getD ((a ++ [c]).length - 1) 0 = c := by simp [hs, List.getD]
  unfold at_word
  rw [hlast, jit_is_ident_char_eq, hc]
  simp

theorem ne_of_isIdent {c d : UInt8} (hc : isIdent c = true) (hd : isIdent d = false) : c ≠ d := by
  rintro rfl
  rw [hc] at hd
  cases hd

theorem word_rest {source a b o : Text} {h : Header} (hh : h.broken = h) {c : UInt8}
    (hc : isIdent c = true) (w : Text) (hw : ∀ d ∈ w, isIdent d = true)
    (hs : source = (a ++ [c]) ++ (w ++ b)) :
    Moves source (scanAt .code (a ++ [c]) o h) (scanAt .code (a ++ [c] ++ w) (o ++ w) h) := by
  induction w generalizing a o c with
  | nil => simpa using Moves.refl source _
  | cons d w ih =>
    have hd : isIdent d = true := hw d List.mem_cons_self
    have hone := code_step (o := o) (c := d) (b := w ++ b) hs h
      (fun h47 => absurd h47 (ne_of_isIdent hd rfl))
      ⟨ne_of_isIdent hd rfl, ne_of_isIdent hd rfl⟩
      (fun _ => ⟨at_word_inside _ hc hs, at_word_inside _ hc hs, at_word_inside _ hc hs⟩)
    rw [after_char_ident h hd, hh] at hone
    have hrest := ih (a := a ++ [c]) (o := o ++ [d]) hd
      (fun e he => hw e (List.mem_cons_of_mem _ he)) (by simpa using hs)
    refine (Moves.step hone).trans ?_
    simpa using hrest

theorem forWord_ident : ∀ c ∈ forWord, isIdent c = true := by decide +kernel
theorem whileWord_ident : ∀ c ∈ whileWord, isIdent c = true := by decide +kernel
theorem doWord_ident : ∀ c ∈ doWord, isIdent c = true := by decide +kernel

theorem word_moves {source a b o w : Text} (h : Header) (hs : source = a ++ (w ++ b))
    (hne : w ≠ []) (hw : ∀ c ∈ w, isIdent c = true)
    (ha : ∀ c ∈ a.getLast?, isIdent c = false) (hb : ∀ c ∈ b.head?, isIdent c = false) :
    Moves source (scanAt .code a o h)
      (scanAt .code (a ++ w) (o ++ w) (h.after (.word w)).1) := by
  have hfor := at_word_iff hs hw forWord_ident ha hb
  have hwhile := at_word_iff hs hw whileWord_ident ha hb
  have hdo := at_word_iff hs hw doWord_ident ha hb
  by_cases hloop : w = forWord ∨ w = whileWord ∨ w = doWord
  · apply Moves.step
    rcases hloop with rfl | rfl | rfl
    · unfold instrument_step scanAt
      dsimp only
      rw [read_here (c := 102) (b := [111, 114] ++ b) hs, read_next (b := [111, 114] ++ b) hs,
        hfor.mpr rfl]
      simp [hs, Header.after, forWord]
    · unfold instrument_step scanAt
      dsimp only
      rw [read_here (c := 119) (b := [104, 105, 108, 101] ++ b) hs,
        read_next (b := [104, 105, 108, 101] ++ b) hs, hwhile.mpr rfl]
      simp [hs, Header.after, whileWord]
    · unfold instrument_step scanAt
      dsimp only
      rw [read_here (c := 100) (b := [111] ++ b) hs, read_next (b := [111] ++ b) hs,
        hdo.mpr rfl]
      simp [hs, Header.after, doWord, forWord, whileWord]
  · push Not at hloop
    obtain ⟨hnfor, hnwhile, hndo⟩ := hloop
    have hafter : (h.after (.word w)).1 = h.broken := by
      rw [Header.after, if_neg (by simp [hnfor, hnwhile]), if_neg hndo]
    rw [hafter]
    cases w with
    | nil => exact absurd rfl hne
    | cons c w =>
      have hc : isIdent c = true := hw c List.mem_cons_self
      have hone := code_step (o := o) (c := c) (b := w ++ b) hs h
        (fun h47 => absurd h47 (ne_of_isIdent hc rfl))
        ⟨ne_of_isIdent hc rfl, ne_of_isIdent hc rfl⟩
        (fun _ => ⟨Bool.eq_false_iff.mpr fun hm => hnfor (hfor.mp hm),
          Bool.eq_false_iff.mpr fun hm => hnwhile (hwhile.mp hm),
          Bool.eq_false_iff.mpr fun hm => hndo (hdo.mp hm)⟩)
      rw [after_char_ident h hc] at hone
      have hrest := word_rest (o := o ++ [c]) (b := b) h.broken_broken hc w
        (fun d hd => hw d (List.mem_cons_of_mem _ hd)) (by simpa using hs)
      refine (Moves.step hone).trans ?_
      simpa using hrest

theorem single_moves {source a b o : Text} {c : UInt8} (h : Header) (hs : source = a ++ c :: b)
    (hident : isIdent c = false) (hquote : c ≠ 34 ∧ c ≠ 39)
    (hslash : c = 47 → b.headD 0 ≠ 47 ∧ b.headD 0 ≠ 42) :
    Moves source (scanAt .code a o h)
      (scanAt .code (a ++ [c]) (o ++ ([c] ++ if (after_char h c).2 then injected else []))
        (after_char h c).1) := by
  have hone := code_step (o := o) hs h hslash hquote (by
    rintro (rfl | rfl | rfl)
    all_goals cases hident)
  rw [← List.append_assoc]
  exact Moves.step hone

theorem blank_moves {source a b o : Text} {c : UInt8} (h : Header) (hc : isBlank c = true)
    (hs : source = a ++ c :: b) :
    Moves source (scanAt .code a o h) (scanAt .code (a ++ [c]) (o ++ [c]) h) := by
  have hne (d : UInt8) (hd : isBlank d = false) : c ≠ d := by
    rintro rfl
    rw [hc] at hd
    cases hd
  have hone := single_moves (o := o) h hs (isIdent_of_blank hc) ⟨hne 34 rfl, hne 39 rfl⟩
    (fun h47 => absurd h47 (hne 47 rfl))
  rw [after_char_space h hc] at hone
  simpa using hone

theorem splice_moves {source a b o : Text} (h : Header) (cr : Bool)
    (hs : source = a ++ ((Tok.splice cr).text ++ b)) :
    Moves source (scanAt .code a o h)
      (scanAt .code (a ++ (Tok.splice cr).text) (o ++ (Tok.splice cr).text) h.broken) := by
  have hback (t : Text) (hs : source = a ++ 92 :: t) :
      Moves source (scanAt .code a o h) (scanAt .code (a ++ [92]) (o ++ [92]) h.broken) := by
    have hone := single_moves (o := o) h hs rfl (by decide) (fun h47 => by cases h47)
    rw [after_char_other h rfl (by decide) (by decide) (by decide)] at hone
    simpa using hone
  cases cr with
  | false =>
    have h2 := blank_moves (a := a ++ [92]) (o := o ++ [92]) (c := 10) (b := b) h.broken rfl
      (by simpa [Tok.text] using hs)
    simpa [Tok.text] using (hback (10 :: b) hs).trans h2
  | true =>
    have h2 := blank_moves (a := a ++ [92]) (o := o ++ [92]) (c := 13) (b := 10 :: b) h.broken rfl
      (by simpa [Tok.text] using hs)
    have h3 := blank_moves (a := a ++ [92] ++ [13]) (o := o ++ [92] ++ [13]) (c := 10) (b := b)
      h.broken rfl (by simpa [Tok.text] using hs)
    simpa [Tok.text] using ((hback (13 :: 10 :: b) hs).trans h2).trans h3

/-- What the scanner reads as one token: of comments it knows less than the language. -/
def Scans : Tok → Prop
  | .lineComment body _ => 10 ∉ body
  | .blockComment body => ¬ [42, 47] <:+: body
  | t => t.Fits

/-- The token ends where the text `b` begins. -/
structure Before (t : Tok) (b : Text) : Prop where
  word : ∀ w, t = .word w → ∀ c ∈ b.head?, isIdent c = false
  slash : t = .punct 47 → b.headD 0 ≠ 47 ∧ b.headD 0 ≠ 42
  cut : ∀ body, t = .lineComment body false → b = []

theorem tok_moves {source a b o : Text} {t : Tok} (h : Header) (hs : source = a ++ (t.text ++ b))
    (ht : Scans t) (hword : ∀ w, t = .word w → ∀ c ∈ a.getLast?, isIdent c = false)
    (hb : Before t b) (hended : ∀ body, t ≠ .lineComment body false) :
    Moves source (scanAt .code a o h)
      (scanAt .code (a ++ t.text) (o ++ (t.text ++ if (h.after t).2 then injected else []))
        (h.after t).1) := by
  cases t with
  | blank c =>
    have hone := blank_moves (o := o) (b := b) h ht hs
    rw [Header.after, after_char_space h (show jit_is_space c = true from ht)]
    simpa [Tok.text] using hone
  | splice cr => simpa [Header.after] using splice_moves h cr hs
  | lineComment body ended =>
    cases ended with
    | false => exact absurd rfl (hended body)
    | true =>
      have hopen := open_line (o := o) (b := body ++ 10 :: b) h (by simpa [Tok.text] using hs)
      have hbody := line_body (o := o ++ [47, 47]) (a := a ++ [47, 47]) (b := 10 :: b) h body ht
        (by simpa [Tok.text] using hs)
      have hend := line_step (o := o ++ [47, 47] ++ body) (a := a ++ [47, 47] ++ body) (c := 10)
        (b := b) (by simpa [Tok.text] using hs) h
      simpa [Tok.text, Header.after] using
        ((Moves.step hopen).trans hbody).trans (Moves.step hend)
  | blockComment body =>
    have hopen := open_block (o := o) (b := body ++ 42 :: 47 :: b) h
      (by simpa [Tok.text] using hs)
    have hbody := block_body (o := o ++ [47, 42]) (a := a ++ [47, 42]) (b := 42 :: 47 :: b) h body
      ht (by simp) (by simpa [Tok.text] using hs)
    have hclose := close_block (o := o ++ [47, 42] ++ body) (a := a ++ [47, 42] ++ body) (b := b)
      h (by simpa [Tok.text] using hs)
    simpa [Tok.text, Header.after] using
      ((Moves.step hopen).trans hbody).trans (Moves.step hclose)
  | literal quote chars =>
    have hopen := open_literal (o := o) (b := chars.flatMap LitChar.text ++ quote :: b) h ht.1
      (by simpa [Tok.text] using hs)
    have hbody := literal_body (o := o ++ [quote]) (a := a ++ [quote]) (b := quote :: b) h ht.1
      chars ht.2 (by simpa [Tok.text] using hs)
    have hnot : quote ≠ 92 := by rcases ht.1 with h | h <;> rw [h] <;> decide
    have hclose := plain_step (o := o ++ [quote] ++ chars.flatMap LitChar.text)
      (a := a ++ [quote] ++ chars.flatMap LitChar.text) (b := b) h ht.1 hnot
      (by simpa [Tok.text] using hs)
    rw [if_pos rfl] at hclose
    simpa [Tok.text, Header.after] using
      ((Moves.step hopen).trans hbody).trans (Moves.step hclose)
  | word w =>
    have hmoves := word_moves (o := o) h hs ht.1 ht.2 (hword w rfl) (hb.word w rfl)
    have hno : (h.after (.word w)).2 = false := by
      rw [Header.after]
      split_ifs <;> rfl
    simpa [Tok.text, hno] using hmoves
  | punct c =>
    exact single_moves h hs ht.1 ⟨ht.2.2.1, ht.2.2.2.1⟩ (fun hc => hb.slash (by rw [hc]))

end vibeos.tcc_glue
