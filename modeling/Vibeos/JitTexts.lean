-- The buffer of jit_instrument_loops for any text: each text can be read as tokens, up to a
-- literal or a comment that the end of the text cuts off, and the buffer holds the calls exactly
-- when there are not too many braces for them.
import Vibeos.JitPollLoops

namespace vibeos.tcc_glue

open vibeos.CText
open vibeos.wget (ascii)

/-! ## Reading a text -/

/-- What the end of a text cuts off: nothing, a comment or a literal, perhaps in an escape. -/
inductive CutOff : Text → Prop
  | none : CutOff []
  | block {body : Text} : ¬ [42, 47] <:+: body → CutOff (47 :: 42 :: body)
  | literal {quote : UInt8} {chars : List LitChar} : quote = 34 ∨ quote = 39 →
      (∀ c ∈ chars, c.Fits quote) → CutOff (quote :: chars.flatMap LitChar.text)
  | escape {quote : UInt8} {chars : List LitChar} : quote = 34 ∨ quote = 39 →
      (∀ c ∈ chars, c.Fits quote) → CutOff (quote :: (chars.flatMap LitChar.text ++ [92]))

/-- A text as the scanner divides it. -/
structure Reading where
  toks : List Tok
  rest : Text
  scans : ∀ t ∈ toks, Scans t
  apart : toks.IsChain fun t u => Before t u.text
  cut : CutOff rest
  before : ∀ t ∈ toks.getLast?, Before t rest

namespace Reading

def text (r : Reading) : Text := r.toks.flatMap Tok.text ++ r.rest

def lexemes (r : Reading) : List Lexeme := layersFrom true none 0 r.toks

@[simp] theorem lexemes_tok (r : Reading) : r.lexemes.map Lexeme.tok = r.toks :=
  layersFrom_tok true none 0 r.toks

def cons (t : Tok) (r : Reading) (ht : Scans t) (hb : Before t r.text) : Reading where
  toks := t :: r.toks
  rest := r.rest
  scans := List.forall_mem_cons.mpr ⟨ht, r.scans⟩
  apart := by
    cases h : r.toks with
    | nil => exact .singleton t
    | cons u us =>
      have hu := text_ne_nil (r.scans u (by simp [h]))
      obtain ⟨c, v, hcv⟩ := List.exists_cons_of_ne_nil hu
      rw [Reading.text, h, List.flatMap_cons, hcv] at hb
      refine List.isChain_cons_cons.mpr ⟨?_, h ▸ r.apart⟩
      rw [hcv]
      exact ⟨hb.word, hb.slash, fun body ht => by cases hb.cut body ht⟩
  cut := r.cut
  before := by
    intro u hu
    cases h : r.toks with
    | nil =>
      obtain rfl : t = u := by simpa [h] using hu
      simpa [Reading.text, h] using hb
    | cons v vs =>
      apply r.before u
      simpa [h] using hu

@[simp] theorem cons_text {t : Tok} {r : Reading} (ht : Scans t) (hb : Before t r.text) :
    (r.cons t ht hb).text = t.text ++ r.text := by
  simp [Reading.cons, Reading.text]

end Reading

/-! ## Every text can be read -/

theorem eq_cons_of_headD {t : Text} {c : UInt8} (h : t.headD 0 = c) (hc : c ≠ 0) :
    ∃ b, t = c :: b := by
  cases t with
  | nil => exact absurd h.symm hc
  | cons d b => exact ⟨b, by rw [← h]; rfl⟩

theorem line_split (t : Text) : ∃ body, 10 ∉ body ∧ (t = body ∨ ∃ b, t = body ++ 10 :: b) := by
  by_cases hmem : (10 : UInt8) ∈ t
  · obtain ⟨body, b, ht, hbody⟩ := List.eq_append_cons_of_mem hmem
    exact ⟨body, hbody, Or.inr ⟨b, ht⟩⟩
  · exact ⟨t, hmem, Or.inl rfl⟩

theorem block_split (t : Text) :
    ∃ body, ¬ [42, 47] <:+: body ∧ (t = body ∨ ∃ b, t = body ++ 42 :: 47 :: b) := by
  induction t with
  | nil => exact ⟨[], by simp, Or.inl rfl⟩
  | cons c t ih =>
    by_cases hclose : c = 42 ∧ t.head? = some 47
    · obtain ⟨rfl, hhead⟩ := hclose
      obtain ⟨b, rfl⟩ := List.head?_eq_some_iff.mp hhead
      exact ⟨[], by simp, Or.inr ⟨b, rfl⟩⟩
    · obtain ⟨body, hbody, ht⟩ := ih
      refine ⟨c :: body, ?_, ?_⟩
      · rw [List.infix_cons_iff]
        rintro (hpre | hin)
        · obtain ⟨rfl, v, hv⟩ := List.cons_prefix_cons.mp hpre
          have hv' : body = 47 :: v := hv.symm
          apply hclose
          rcases ht with rfl | ⟨b, rfl⟩ <;> simp [hv']
        · exact hbody hin
      · rcases ht with rfl | ⟨b, rfl⟩
        · exact Or.inl rfl
        · exact Or.inr ⟨b, rfl⟩

theorem literal_split {quote : UInt8} : ∀ t : Text, 0 ∉ t →
    ∃ chars : List LitChar, (∀ c ∈ chars, c.Fits quote) ∧
      (t = chars.flatMap LitChar.text ∨ t = chars.flatMap LitChar.text ++ [92] ∨
        ∃ b, t = chars.flatMap LitChar.text ++ quote :: b)
  | [], _ => ⟨[], by simp, Or.inl rfl⟩
  | c :: t, h0 => by
    rw [List.mem_cons, not_or] at h0
    by_cases hquote : c = quote
    · exact ⟨[], by simp, Or.inr (Or.inr ⟨t, by simp [hquote]⟩)⟩
    by_cases hback : c = 92
    · subst hback
      match t, h0 with
      | [], _ => exact ⟨[], by simp, Or.inr (Or.inl rfl)⟩
      | d :: t, h0 =>
        have h0' := List.not_mem_of_not_mem_cons h0.2
        obtain ⟨chars, hchars, ht⟩ := literal_split t h0'
        refine ⟨.escaped d :: chars, ?_, ?_⟩
        · refine List.forall_mem_cons.mpr ⟨?_, hchars⟩
          rintro rfl
          simp at h0
        · simpa [LitChar.text] using ht
    · obtain ⟨chars, hchars, ht⟩ := literal_split t h0.2
      refine ⟨.plain c :: chars, ?_, ?_⟩
      · exact List.forall_mem_cons.mpr ⟨⟨hquote, hback, Ne.symm h0.1⟩, hchars⟩
      · simpa [LitChar.text] using ht

theorem first_token {c : UInt8} {text : Text} (h0 : 0 ∉ c :: text) :
    CutOff (c :: text) ∨ ∃ t b, Scans t ∧ c :: text = t.text ++ b ∧ Before t b := by
  have hplain {t : Tok} {b : Text} (hword : ∀ w, t ≠ .word w) (hslash : t ≠ .punct 47)
      (hcut : ∀ body, t ≠ .lineComment body false) : Before t b :=
    ⟨fun w h => absurd h (hword w), fun h => absurd h hslash, fun body h => absurd h (hcut body)⟩
  rw [List.mem_cons, not_or] at h0
  by_cases hblank : isBlank c = true
  · exact Or.inr ⟨.blank c, text, hblank, rfl, hplain (by simp) (by simp) (by simp)⟩
  by_cases hident : isIdent c = true
  · -- a word takes all the name characters
    refine Or.inr ⟨.word ((c :: text).takeWhile isIdent), (c :: text).dropWhile isIdent, ?_,
      (List.takeWhile_append_dropWhile).symm, ⟨fun w _ d hd => ?_, by simp, by simp⟩⟩
    · refine ⟨by simp [hident], fun d hd => ?_⟩
      exact List.mem_takeWhile_imp hd
    · have := List.head?_dropWhile_not isIdent (c :: text)
      rw [hd] at this
      exact this
  by_cases hquote : c = 34 ∨ c = 39
  · obtain ⟨chars, hchars, ht | ht | ⟨b, ht⟩⟩ := literal_split text h0.2
    · exact Or.inl (ht ▸ CutOff.literal hquote hchars)
    · exact Or.inl (ht ▸ CutOff.escape hquote hchars)
    · exact Or.inr ⟨.literal c chars, b, ⟨hquote, hchars⟩, by simp [Tok.text, ht],
        hplain (by simp) (by simp) (by simp)⟩
  have hpunct : Scans (.punct c) := ⟨by simpa using hident, by simpa using hblank,
    fun h => hquote (Or.inl h), fun h => hquote (Or.inr h), Ne.symm h0.1⟩
  by_cases hslash : c = 47
  · subst hslash
    by_cases hline : text.headD 0 = 47
    · obtain ⟨t, rfl⟩ := eq_cons_of_headD hline (by decide)
      obtain ⟨body, hbody, rfl | ⟨b, rfl⟩⟩ := line_split t
      · exact Or.inr ⟨.lineComment t false, [], hbody, by simp [Tok.text], before_nil _⟩
      · exact Or.inr ⟨.lineComment body true, b, hbody, by simp [Tok.text],
          hplain (by simp) (by simp) (by simp)⟩
    by_cases hblock : text.headD 0 = 42
    · obtain ⟨t, rfl⟩ := eq_cons_of_headD hblock (by decide)
      obtain ⟨body, hbody, rfl | ⟨b, rfl⟩⟩ := block_split t
      · exact Or.inl (CutOff.block hbody)
      · exact Or.inr ⟨.blockComment body, b, hbody, by simp [Tok.text],
          hplain (by simp) (by simp) (by simp)⟩
    · exact Or.inr ⟨.punct 47, text, hpunct, rfl, ⟨by simp, fun _ => ⟨hline, hblock⟩, by simp⟩⟩
  · exact Or.inr ⟨.punct c, text, hpunct, rfl, hplain (by simp) (by simpa using hslash) (by simp)⟩

theorem exists_reading (text : Text) (h0 : 0 ∉ text) : ∃ r : Reading, r.text = text := by
  generalize hn : text.length = n
  induction n using Nat.strongRecOn generalizing text with
  | ind n ih =>
    have hcut (hcut : CutOff text) : ∃ r : Reading, r.text = text :=
      ⟨⟨[], text, by simp, .nil, hcut, by simp⟩, by simp [Reading.text]⟩
    cases text with
    | nil => exact hcut .none
    | cons c text =>
      rcases first_token h0 with hc | ⟨t, b, ht, htext, hb⟩
      · exact hcut hc
      · have hlen := congrArg List.length htext
        have hpos := List.length_pos_of_ne_nil (text_ne_nil ht)
        rw [List.length_append] at hlen
        obtain ⟨r, rfl⟩ := ih b.length (by omega) b
          (fun hmem => h0 (by rw [htext]; exact List.mem_append_right _ hmem)) rfl
        exact ⟨r.cons t ht hb, by rw [Reading.cons_text, htext]⟩

/-! ## The run over a text -/

theorem last_step {source a o : Text} (h : Header) {quote : UInt8}
    (hquote : quote = 34 ∨ quote = 39) (hs : source = a ++ [92]) :
    instrument_step source (scanAt (.within quote) a o h) =
      scanAt (.within quote) (a ++ [92]) (o ++ [92]) h := by
  unfold instrument_step scanAt
  dsimp only
  rw [read_here hs, read_next hs]
  rcases hquote with rfl | rfl <;> simp [Mode.within]

theorem cut_moves {source a o rest : Text} (h : Header) (hcut : CutOff rest)
    (hs : source = a ++ rest) :
    ∃ m, Moves source (scanAt .code a o h) (scanAt m source (o ++ rest) h) := by
  cases hcut with
  | none =>
    refine ⟨.code, ?_⟩
    simpa [hs] using Moves.refl source (scanAt .code a o h)
  | @block body hbody =>
    have hopen := open_block (o := o) (b := body) h hs
    have hrun := block_body (o := o ++ [47, 42]) (a := a ++ [47, 42]) (b := []) h body hbody
      (by simp) (by simpa using hs)
    exact ⟨.block, by simpa [hs] using (Moves.step hopen).trans hrun⟩
  | @literal quote chars hquote hchars =>
    have hopen := open_literal (o := o) h hquote hs
    have hrun := literal_body (o := o ++ [quote]) (a := a ++ [quote]) (b := []) h hquote chars
      hchars (by simpa using hs)
    exact ⟨.within quote, by simpa [hs] using (Moves.step hopen).trans hrun⟩
  | @escape quote chars hquote hchars =>
    have hopen := open_literal (o := o) h hquote hs
    have hrun := literal_body (o := o ++ [quote]) (a := a ++ [quote]) (b := [92]) h hquote chars
      hchars (by simpa using hs)
    have hlast := last_step (o := o ++ [quote] ++ chars.flatMap LitChar.text)
      (a := a ++ [quote] ++ chars.flatMap LitChar.text) h hquote (by simpa using hs)
    exact ⟨.within quote,
      by simpa [hs] using ((Moves.step hopen).trans hrun).trans (Moves.step hlast)⟩

/-- The braces behind which the call is written. -/
noncomputable def Reading.braces (r : Reading) : Nat := marks WrittenPlainly r.lexemes

theorem Reading.length_emitted (r : Reading) :
    (emitted ⟨.NONE, 0⟩ r.toks ++ r.rest).length = r.text.length + 13 * r.braces := by
  have hscans : ∀ x ∈ r.lexemes, Scans x.tok := by
    intro x hx
    exact r.scans _ (r.lexemes_tok ▸ List.mem_map_of_mem hx)
  have heq := emitted_eq [] r.lexemes (by simp) hscans
  rw [r.lexemes_tok] at heq
  have hwoven : emitted ⟨.NONE, 0⟩ r.toks = woven injected WrittenPlainly r.lexemes := heq
  have htext : r.lexemes.flatMap (fun x => x.tok.text) = r.toks.flatMap Tok.text := by
    rw [← r.lexemes_tok, List.flatMap_map]
  have hinjected : injected.length = 13 := by decide
  rw [List.length_append, hwoven, length_woven, htext, hinjected, Reading.text, List.length_append,
    Reading.braces]
  omega

theorem Reading.scan (r : Reading) :
    (instrument_scan r.text r.text.length (scanAt .code [] [] ⟨.NONE, 0⟩)).out =
      emitted ⟨.NONE, 0⟩ r.toks ++ r.rest := by
  obtain ⟨m, h, hmoves, hm⟩ := @toks_move r.text [] r.rest [] ⟨.NONE, 0⟩ r.toks r.scans r.apart
    r.before (by simp) (by simp [Reading.text])
  simp only [List.nil_append] at hmoves
  rcases hm with rfl | hnil
  · obtain ⟨m, hcut⟩ := cut_moves (o := emitted ⟨.NONE, 0⟩ r.toks) h r.cut
      (a := r.toks.flatMap Tok.text) rfl
    rw [(hmoves.trans hcut).scan rfl rfl]
    rfl
  · rw [hmoves.scan rfl (by simp [Reading.text, hnil, scanAt]), hnil, List.append_nil]
    rfl

/-- The buffer holds the result exactly when the braces behind heads of loops, with 13 bytes
for each, leave it room: when memory for it can be had at all. -/
theorem fits_buffer_iff (text : Text) (h0 : 0 ∉ text) :
    (∃ r : Reading, r.text = text) ∧ ∀ r : Reading, r.text = text → ∀ malloc : Nat → Bool,
      (jit_instrument_loops malloc text ≠ .overrun ↔
        malloc (text.length * 2 + 64) = false ∨ 13 * r.braces ≤ text.length + 63) := by
  refine ⟨exists_reading text h0, ?_⟩
  rintro r rfl malloc
  have hlen := r.length_emitted
  rw [← r.scan] at hlen
  unfold jit_instrument_loops
  dsimp only
  change (if _ then _ else if _ < (instrument_scan r.text r.text.length
    (scanAt .code [] [] ⟨.NONE, 0⟩)).out.length + 1 then _ else _) ≠ _ ↔ _
  rw [hlen]
  cases malloc (r.text.length * 2 + 64) with
  | false => simp
  | true =>
    simp only [Bool.not_true, Bool.false_eq_true, if_false, Bool.true_eq_false, false_or]
    split
    · simp
      omega
    · simp
      omega

theorem fits_one_loop : ∃ r : Reading, r.text = ascii "do{}while(1);" ∧
    (jit_instrument_loops (fun _ => true) r.text ≠ .overrun ↔ 13 * r.braces ≤ 76) := by
  obtain ⟨⟨r, hr⟩, hiff⟩ := fits_buffer_iff (ascii "do{}while(1);") (by decide)
  refine ⟨r, hr, ?_⟩
  have hlen : (ascii "do{}while(1);").length = 13 := by decide
  have h := hiff r hr fun _ => true
  rw [hlen] at h
  rw [hr, h]
  simp

/-- `main(){`, eighteen times `for(;;){}`, and `}`. -/
def shortLoops : Text :=
  ascii "main()\x7b" ++ (List.replicate 18 (ascii "for(;;){}")).flatten ++ ascii "\x7d"

/-- The calls for eighteen loops of nine characters write one byte behind the buffer. -/
theorem short_loops_overrun : ¬ ∀ (text : Text) (malloc : Nat → Bool), 0 ∉ text →
    malloc (text.length * 2 + 64) = true → jit_instrument_loops malloc text ≠ .overrun := by
  intro h
  have hover : jit_instrument_loops (fun _ => true) shortLoops = .overrun := by decide +kernel
  exact h shortLoops (fun _ => true) (by decide +kernel) rfl hover

end vibeos.tcc_glue
