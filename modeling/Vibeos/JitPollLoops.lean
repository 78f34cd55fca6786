-- What jit_instrument_loops does with a whole C text: which loops get their call of jit_poll, and
-- when the buffer holds the result.
import Vibeos.JitPoll
import Mathlib.Data.List.Chain

namespace vibeos.tcc_glue

open vibeos.CText
open vibeos.wget (ascii)

/-! ## The run over all tokens -/

theorem text_ne_nil {t : Tok} (ht : Scans t) : t.text ≠ [] := by
  cases t with
  | splice cr => cases cr <;> simp [Tok.text]
  | lineComment body ended => cases ended <;> simp [Tok.text]
  | word w => exact ht.1
  | _ => simp [Tok.text]

theorem last_not_ident {t : Tok} (ht : Scans t) (hword : ∀ w, t ≠ .word w)
    (hended : ∀ body, t ≠ .lineComment body false) (a : Text) :
    ∀ c ∈ (a ++ t.text).getLast?, isIdent c = false := by
  have hlast (l : Text) (d : UInt8) (htext : t.text = l ++ [d]) (hd : isIdent d = false) :
      ∀ c ∈ (a ++ t.text).getLast?, isIdent c = false := by
    intro c hc
    rw [htext, ← List.append_assoc, List.getLast?_append] at hc
    obtain rfl : d = c := by simpa using hc
    exact hd
  cases t with
  | blank d => exact hlast [] d rfl (isIdent_of_blank ht)
  | splice cr =>
    cases cr with
    | false => exact hlast [92] 10 rfl rfl
    | true => exact hlast [92, 13] 10 rfl rfl
  | lineComment body ended =>
    cases ended with
    | false => exact absurd rfl (hended body)
    | true => exact hlast (47 :: 47 :: body) 10 (by simp [Tok.text]) rfl
  | blockComment body => exact hlast (47 :: 42 :: (body ++ [42])) 47 (by simp [Tok.text]) rfl
  | literal quote chars =>
    refine hlast (quote :: chars.flatMap LitChar.text) quote (by simp [Tok.text]) ?_
    rcases ht.1 with rfl | rfl <;> rfl
  | word w => exact absurd rfl (hword w)
  | punct d => exact hlast [] d rfl ht.1

theorem before_nil (t : Tok) : Before t [] := ⟨by simp, by simp, by simp⟩

theorem Before.append {t : Tok} {u : Text} (h : Before t u) (hu : u ≠ []) (b : Text) :
    Before t (u ++ b) := by
  cases u with
  | nil => exact absurd rfl hu
  | cons c u =>
    refine ⟨h.word, h.slash, fun body ht => ?_⟩
    cases h.cut body ht

def emitted : Header → List Tok → Text
  | _, [] => []
  | h, t :: ts => t.text ++ (if (h.after t).2 then injected else []) ++ emitted (h.after t).1 ts

theorem toks_move {source a b o : Text} (h : Header) (ts : List Tok) (hfits : ∀ t ∈ ts, Scans t)
    (hapart : ts.IsChain fun t u => Before t u.text) (hb : ∀ t ∈ ts.getLast?, Before t b)
    (hprev : ∀ w, .word w ∈ ts.head? → ∀ c ∈ a.getLast?, isIdent c = false)
    (hs : source = a ++ (ts.flatMap Tok.text ++ b)) :
    ∃ m h', Moves source (scanAt .code a o h)
        (scanAt m (a ++ ts.flatMap Tok.text) (o ++ emitted h ts) h') ∧ (m = .code ∨ b = []) := by
  induction ts generalizing a o h with
  | nil => exact ⟨.code, h, by simpa [emitted] using Moves.refl _ _, Or.inl rfl⟩
  | cons t ts ih =>
    have ht := hfits t List.mem_cons_self
    have hbefore : Before t (ts.flatMap Tok.text ++ b) := by
      cases ts with
      | nil => exact hb t (by simp)
      | cons u ts =>
        have hu : Before t u.text := (List.isChain_cons_cons.mp hapart).1
        simpa using hu.append (text_ne_nil (hfits u (by simp))) (ts.flatMap Tok.text ++ b)
    by_cases hcut : ∃ body, t = .lineComment body false
    · obtain ⟨body, rfl⟩ := hcut
      -- a cut comment is the last token, at the end of the text
      have hnil := hbefore.cut body rfl
      obtain rfl : b = [] := (List.append_eq_nil_iff.mp hnil).2
      obtain rfl : ts = [] := by
        cases ts with
        | nil => rfl
        | cons u ts =>
          have := text_ne_nil (hfits u (by simp))
          simp [this] at hnil
      have hopen := open_line (o := o) (b := body) h (by simpa [Tok.text] using hs)
      have hbody := line_body (o := o ++ [47, 47]) (a := a ++ [47, 47]) (b := []) h body ht
        (by simpa [Tok.text] using hs)
      refine ⟨.line, h, ?_, Or.inr rfl⟩
      have hboth := (Moves.step hopen).trans hbody
      simpa [emitted, Tok.text, Header.after] using hboth
    · push Not at hcut
      have hone := tok_moves (o := o) (b := ts.flatMap Tok.text ++ b) h (by simpa using hs) ht
        (by
          rintro w rfl
          exact hprev w (by simp))
        hbefore hcut
      have hlast : ∀ w, .word w ∈ ts.head? → ∀ c ∈ (a ++ t.text).getLast?, isIdent c = false := by
        intro w hw
        cases ts with
        | nil => simp at hw
        | cons u ts =>
          obtain rfl : u = .word w := by simpa using hw
          have hu : Before t w := (List.isChain_cons_cons.mp hapart).1
          refine last_not_ident ht ?_ hcut a
          rintro v rfl
          obtain ⟨hne, hw⟩ : w ≠ [] ∧ ∀ c ∈ w, isIdent c = true := hfits (.word w) (by simp)
          obtain ⟨c, w, rfl⟩ := List.exists_cons_of_ne_nil hne
          have hno := hu.word v rfl c (by simp)
          rw [hw c (by simp)] at hno
          cases hno
      obtain ⟨m, h', hrest, hm⟩ := ih (a := a ++ t.text)
        (o := o ++ (t.text ++ if (h.after t).2 then injected else [])) (h.after t).1
        (fun u hu => hfits u (List.mem_cons_of_mem _ hu)) hapart.tail
        (fun u hu => hb u (List.mem_getLast?_cons hu)) hlast (by simpa using hs)
      refine ⟨m, h', hone.trans ?_, hm⟩
      simpa [emitted] using hrest

/-- What the scanner reads over while it waits for a parenthesis or a brace. -/
def isPassive : Tok → Bool
  | .blank _ | .lineComment _ _ | .blockComment _ | .literal _ _ => true
  | _ => false

/-- The brace follows a loop word, or a header of one without a loop word in it, and nothing
but blanks, comments and literals stands between, in the text as it is written. -/
def WrittenPlainly (before : List Lexeme) (x : Lexeme) : Prop :=
  x.tok = .punct 123 ∧ LoopHead isPassive (fun t => !t.isLoopWord) (before.map Lexeme.tok)

def headerBehind (h : Header) (ts : List Tok) : Header := ts.foldl (fun h t => (h.after t).1) h

theorem headerBehind_append (h : Header) (ts us : List Tok) :
    headerBehind h (ts ++ us) = headerBehind (headerBehind h ts) us := List.foldl_append

/-- The tokens end in a loop word, with nothing but gaps behind it. -/
def WordHead (ts : List Tok) : Prop :=
  ∃ before w g, (w = forWord ∨ w = whileWord) ∧ (∀ t ∈ g, isPassive t = true) ∧
    ts = before ++ .word w :: g

/-- The tokens end in a header that is open, `d + 1` parentheses deep. -/
def InHeader (d : Nat) (ts : List Tok) : Prop :=
  ∃ before w g h, (w = forWord ∨ w = whileWord) ∧ (∀ t ∈ g, isPassive t = true) ∧
    (∀ t ∈ h, (!t.isLoopWord) = true) ∧ depthAfter 0 h = some d ∧
    ts = before ++ .word w :: (g ++ .punct 40 :: h)

/-- What the header says of the tokens behind which it stands. -/
def Explains (h : Header) (ts : List Tok) : Prop :=
  match h.state with
  | .NONE => True
  | .WAIT_PAREN => WordHead ts
  | .IN_HEADER => ∃ d : Nat, h.paren_depth = d + 1 ∧ InHeader d ts
  | .WAIT_BLOCK | .WAIT_DO_BLOCK => LoopHead isPassive (fun t => !t.isLoopWord) ts

theorem InHeader.append {d e : Nat} {ts : List Tok} (h : InHeader d ts) {t : Tok}
    (hloop : t.isLoopWord = false) (hdepth : depthAfter d [t] = some e) :
    InHeader e (ts ++ [t]) := by
  obtain ⟨before, w, g, inner, hw, hg, hinner, hd, rfl⟩ := h
  refine ⟨before, w, g, inner ++ [t], hw, hg, ?_, ?_, by simp⟩
  · intro u hu
    rcases List.mem_append.mp hu with hu | hu
    · exact hinner u hu
    · rw [List.mem_singleton.mp hu, hloop]
      rfl
  · rw [depthAfter_append, hd]
    exact hdepth

theorem explains_broken {h : Header} {ts : List Tok} {t : Tok} (hex : Explains h ts)
    (hloop : t.isLoopWord = false) (hopen : t ≠ .punct 40) (hclose : t ≠ .punct 41) :
    Explains h.broken (ts ++ [t]) := by
  obtain ⟨state, depth⟩ := h
  cases state with
  | NONE => trivial
  | WAIT_PAREN => trivial
  | WAIT_BLOCK => trivial
  | WAIT_DO_BLOCK => trivial
  | IN_HEADER =>
    obtain ⟨d, hd, hin⟩ := hex
    exact ⟨d, hd, hin.append hloop (by simp [depthAfter, hopen, hclose])⟩

theorem explains_passive {h : Header} {ts : List Tok} {t : Tok} (hex : Explains h ts)
    (hpassive : isPassive t = true) : Explains h (ts ++ [t]) := by
  have hloop : t.isLoopWord = false := by
    cases t <;> first | rfl | cases hpassive
  have hopen : t ≠ .punct 40 := by
    rintro rfl
    cases hpassive
  have hclose : t ≠ .punct 41 := by
    rintro rfl
    cases hpassive
  have hsnoc {g : List Tok} (hg : ∀ u ∈ g, isPassive u = true) :
      ∀ u ∈ g ++ [t], isPassive u = true := by
    intro u hu
    rcases List.mem_append.mp hu with hu | hu
    · exact hg u hu
    · rw [List.mem_singleton.mp hu, hpassive]
  have hhead (hex : LoopHead isPassive (fun t => !t.isLoopWord) ts) :
      LoopHead isPassive (fun t => !t.isLoopWord) (ts ++ [t]) := by
    obtain ⟨before, g, hg, rfl | ⟨w, g', h, hw, hg', hh, hdepth, rfl⟩⟩ := hex
    · exact ⟨before, g ++ [t], hsnoc hg, Or.inl (by simp)⟩
    · exact ⟨before, g ++ [t], hsnoc hg, Or.inr ⟨w, g', h, hw, hg', hh, hdepth, by simp⟩⟩
  obtain ⟨state, depth⟩ := h
  cases state with
  | NONE => trivial
  | WAIT_PAREN =>
    obtain ⟨before, w, g, hw, hg, rfl⟩ := hex
    exact ⟨before, w, g ++ [t], hw, hsnoc hg, by simp⟩
  | IN_HEADER => exact explains_broken hex hloop hopen hclose
  | WAIT_BLOCK => exact hhead hex
  | WAIT_DO_BLOCK => exact hhead hex

theorem after_passive (h : Header) {t : Tok} (ht : Scans t) (hpassive : isPassive t = true) :
    h.after t = (h, false) := by
  cases t with
  | blank c => exact after_char_space h ht
  | lineComment body ended => rfl
  | blockComment body => rfl
  | literal quote chars => rfl
  | _ => cases hpassive

theorem after_char_fst (h : Header) {c : UInt8} (hspace : jit_is_space c = false) (hopen : c ≠ 40)
    (hclose : c ≠ 41) : (after_char h c).1 = h.broken := by
  obtain ⟨state, depth⟩ := h
  cases state <;> simp [after_char, Header.broken, hspace, hopen, hclose]

theorem explains_open {h : Header} {ts : List Tok} (hex : Explains h ts) :
    Explains (after_char h 40).1 (ts ++ [.punct 40]) := by
  obtain ⟨state, depth⟩ := h
  cases state with
  | NONE => trivial
  | WAIT_PAREN =>
    obtain ⟨before, w, g, hw, hg, rfl⟩ := hex
    exact ⟨0, rfl, before, w, g, [], hw, hg, by simp, rfl, by simp⟩
  | IN_HEADER =>
    obtain ⟨d, hd, hin⟩ := hex
    obtain rfl : depth = d + 1 := hd
    exact ⟨d + 1, rfl, hin.append rfl rfl⟩
  | WAIT_BLOCK => trivial
  | WAIT_DO_BLOCK => trivial

theorem explains_close {h : Header} {ts : List Tok} (hex : Explains h ts) :
    Explains (after_char h 41).1 (ts ++ [.punct 41]) := by
  obtain ⟨state, depth⟩ := h
  cases state with
  | NONE => trivial
  | WAIT_PAREN => trivial
  | IN_HEADER =>
    obtain ⟨d, hd, hin⟩ := hex
    obtain rfl : depth = d + 1 := hd
    cases d with
    | zero =>
      -- the parenthesis closes the header
      obtain ⟨before, w, g, h, hw, hg, hh, hdepth, rfl⟩ := hin
      exact ⟨before, [], by simp, Or.inr ⟨w, g, h, hw, hg, hh, hdepth, by simp⟩⟩
    | succ d =>
      have hstate : after_char ⟨.IN_HEADER, (d + 1 : Nat) + 1⟩ 41 =
          (⟨.IN_HEADER, (d : Int) + 1⟩, false) := by
        have hne : ((d + 1 : Nat) : Int) + 1 - 1 ≠ 0 := by omega
        simp only [after_char, if_neg hne]
        simp
      rw [hstate]
      exact ⟨d, rfl, hin.append rfl rfl⟩
  | WAIT_BLOCK => trivial
  | WAIT_DO_BLOCK => trivial

theorem explains_after {h : Header} {ts : List Tok} {t : Tok} (hex : Explains h ts)
    (ht : Scans t) : Explains (h.after t).1 (ts ++ [t]) := by
  by_cases hpassive : isPassive t = true
  · rw [after_passive h ht hpassive]
    exact explains_passive hex hpassive
  · cases t with
    | splice cr => exact explains_broken hex rfl (by simp) (by simp)
    | word w =>
      rw [Header.after]
      split_ifs with hkw hdo
      · exact ⟨ts, w, [], hkw, by simp, rfl⟩
      · subst hdo
        exact ⟨ts, [], by simp, Or.inl rfl⟩
      · refine explains_broken hex ?_ (by simp) (by simp)
        push Not at hkw
        simp [Tok.isLoopWord, hkw, hdo]
    | punct c =>
      by_cases hopen : c = 40
      · subst hopen
        exact explains_open hex
      · by_cases hclose : c = 41
        · subst hclose
          exact explains_close hex
        · rw [Header.after, after_char_fst h ht.2.1 hopen hclose]
          exact explains_broken hex rfl (by simpa using hopen) (by simpa using hclose)
    | _ => exact absurd rfl hpassive

theorem explains_headerBehind {h : Header} {ts us : List Tok} (hex : Explains h us)
    (hts : ∀ t ∈ ts, Scans t) : Explains (headerBehind h ts) (us ++ ts) := by
  induction ts generalizing h us with
  | nil => simpa [headerBehind] using hex
  | cons t ts ih =>
    have hone := explains_after hex (hts t List.mem_cons_self)
    have hrest := ih hone (fun u hu => hts u (List.mem_cons_of_mem _ hu))
    simpa [headerBehind] using hrest

/-! ## The header behind the head of a loop -/

theorem headerBehind_passive (h : Header) {g : List Tok} (hfits : ∀ t ∈ g, Scans t)
    (hg : ∀ t ∈ g, isPassive t = true) : headerBehind h g = h := by
  induction g with
  | nil => rfl
  | cons t g ih =>
    have hone := after_passive h (hfits t List.mem_cons_self) (hg t List.mem_cons_self)
    rw [headerBehind, List.foldl_cons, hone]
    exact ih (fun u hu => hfits u (List.mem_cons_of_mem _ hu))
      (fun u hu => hg u (List.mem_cons_of_mem _ hu))

theorem after_inner {t : Tok} (ht : Scans t) (hloop : (!t.isLoopWord) = true)
    (hopen : t ≠ .punct 40) (hclose : t ≠ .punct 41) (d : Int) :
    ((⟨.IN_HEADER, d⟩ : Header).after t).1 = ⟨.IN_HEADER, d⟩ := by
  by_cases hpassive : isPassive t = true
  · rw [after_passive _ ht hpassive]
  · cases t with
    | splice cr => rfl
    | word w =>
      have hw : ¬ (w = forWord ∨ w = whileWord) ∧ w ≠ doWord := by
        simpa [Tok.isLoopWord] using hloop
      rw [Header.after, if_neg hw.1, if_neg hw.2]
      rfl
    | punct c =>
      have hopen' : c ≠ 40 := by simpa using hopen
      have hclose' : c ≠ 41 := by simpa using hclose
      rw [Header.after, after_char_fst _ ht.2.1 hopen' hclose']
      rfl
    | _ => exact absurd rfl hpassive

theorem headerBehind_inner {ts : List Tok} (hfits : ∀ t ∈ ts, Scans t)
    (hinner : ∀ t ∈ ts, (!t.isLoopWord) = true) (d e : Nat) (hdepth : depthAfter d ts = some e) :
    headerBehind ⟨.IN_HEADER, d + 1⟩ ts = ⟨.IN_HEADER, e + 1⟩ := by
  induction ts generalizing d with
  | nil =>
    obtain rfl : d = e := by simpa [depthAfter] using hdepth
    rfl
  | cons t ts ih =>
    have hfits' : ∀ u ∈ ts, Scans u := fun u hu => hfits u (List.mem_cons_of_mem _ hu)
    have hinner' : ∀ u ∈ ts, (!u.isLoopWord) = true :=
      fun u hu => hinner u (List.mem_cons_of_mem _ hu)
    rw [headerBehind, List.foldl_cons]
    rw [depthAfter] at hdepth
    by_cases hopen : t = .punct 40
    · rw [if_pos hopen] at hdepth
      subst hopen
      exact ih hfits' hinner' (d + 1) hdepth
    · rw [if_neg hopen] at hdepth
      by_cases hclose : t = .punct 41
      · rw [if_pos hclose] at hdepth
        subst hclose
        cases d with
        | zero => cases hdepth
        | succ d =>
          have hstate : ((⟨.IN_HEADER, (d + 1 : Nat) + 1⟩ : Header).after (.punct 41)).1 =
              ⟨.IN_HEADER, (d : Int) + 1⟩ := by
            have hne : ((d + 1 : Nat) : Int) + 1 - 1 ≠ 0 := by omega
            simp only [Header.after, after_char, if_neg hne]
            simp
          rw [hstate]
          exact ih hfits' hinner' d hdepth
      · rw [if_neg hclose] at hdepth
        rw [after_inner (hfits t List.mem_cons_self) (hinner t List.mem_cons_self) hopen hclose]
        exact ih hfits' hinner' d hdepth

theorem headerBehind_loopHead (h : Header) {ts : List Tok} (hfits : ∀ t ∈ ts, Scans t)
    (hhead : LoopHead isPassive (fun t => !t.isLoopWord) ts) :
    (headerBehind h ts).state = .WAIT_BLOCK ∨ (headerBehind h ts).state = .WAIT_DO_BLOCK := by
  obtain ⟨before, g, hg, rfl | ⟨w, g', hd, hw, hg', hh, hdepth, rfl⟩⟩ := hhead
  · right
    rw [headerBehind_append, headerBehind, List.foldl_cons]
    change (headerBehind _ g).state = _
    rw [headerBehind_passive _ (fun t ht => hfits t (by simp [ht])) hg]
    rfl
  · left
    have hword : ((headerBehind h before).after (.word w)).1 = ⟨.WAIT_PAREN, 0⟩ := by
      rw [Header.after, if_pos hw]
    rw [headerBehind_append, headerBehind, List.foldl_cons, hword]
    change (headerBehind _ (g' ++ .punct 40 :: (hd ++ .punct 41 :: g))).state = _
    rw [headerBehind_append, headerBehind_passive _ (fun t ht => hfits t (by simp [ht])) hg', headerBehind,
      List.foldl_cons]
    change (headerBehind ⟨.IN_HEADER, ((0 : Nat) : Int) + 1⟩ (hd ++ .punct 41 :: g)).state = _
    rw [headerBehind_append, headerBehind_inner (fun t ht => hfits t (by simp [ht])) hh 0 0 hdepth,
      headerBehind, List.foldl_cons]
    change (headerBehind ⟨.WAIT_BLOCK, 0⟩ g).state = _
    rw [headerBehind_passive _ (fun t ht => hfits t (by simp [ht])) hg]

/-! ## Where the call is written -/

theorem after_writes_iff (h : Header) {t : Tok} (ht : Scans t) :
    (h.after t).2 = true ↔
      t = .punct 123 ∧ (h.state = .WAIT_BLOCK ∨ h.state = .WAIT_DO_BLOCK) := by
  obtain ⟨state, depth⟩ := h
  by_cases hbrace : t = .punct 123
  · subst hbrace
    cases state <;> simp [Header.after, after_char, jit_is_space]
  · simp only [hbrace, false_and, iff_false, Bool.not_eq_true]
    by_cases hpassive : isPassive t = true
    · rw [after_passive _ ht hpassive]
    · cases t with
      | splice cr => rfl
      | word w =>
        rw [Header.after]
        split_ifs <;> rfl
      | punct c =>
        have hc : c ≠ 123 := by simpa using hbrace
        cases state <;> simp only [Header.after, after_char] <;> split_ifs <;> simp [hc]
      | _ => exact absurd rfl hpassive

theorem emitted_eq (before l : List Lexeme) (hbefore : ∀ x ∈ before, Scans x.tok)
    (hl : ∀ x ∈ l, Scans x.tok) :
    emitted (headerBehind ⟨.NONE, 0⟩ (before.map Lexeme.tok)) (l.map Lexeme.tok) =
      (splitsFrom before l).flatMap fun p => p.2.tok.text ++
        open Classical in if WrittenPlainly p.1 p.2 then injected else [] := by
  induction l generalizing before with
  | nil => rfl
  | cons x l ih =>
    have hx := hl x List.mem_cons_self
    have hfits : ∀ t ∈ before.map Lexeme.tok, Scans t := by
      intro t ht
      obtain ⟨y, hy, rfl⟩ := List.mem_map.mp ht
      exact hbefore y hy
    have hhere : ((headerBehind ⟨.NONE, 0⟩ (before.map Lexeme.tok)).after x.tok).2 = true ↔
        WrittenPlainly before x := by
      rw [after_writes_iff _ hx]
      refine and_congr_right fun _ => ⟨fun hstate => ?_, headerBehind_loopHead _ hfits⟩
      have hex := @explains_headerBehind ⟨.NONE, 0⟩ _ [] trivial hfits
      rw [List.nil_append, Explains] at hex
      rcases hstate with hstate | hstate <;>
      · rw [hstate] at hex
        exact hex
    have hrest := ih (before ++ [x])
      (by
        intro y hy
        rcases List.mem_append.mp hy with hy | hy
        · exact hbefore y hy
        · rw [List.mem_singleton.mp hy]
          exact hx)
      (fun y hy => hl y (List.mem_cons_of_mem _ hy))
    rw [List.map_append, headerBehind_append] at hrest
    rw [List.map_cons, emitted, splitsFrom, List.flatMap_cons]
    congr 1
    · congr 1
      by_cases hplain : WrittenPlainly before x
      · rw [if_pos (hhere.mpr hplain), if_pos hplain]
      · rw [if_neg (fun hw => hplain (hhere.mp hw)), if_neg hplain]

end vibeos.tcc_glue
