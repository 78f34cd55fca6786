-- The text of a page in the browser: ns_append_text of apps/netsurf/netsurf.c, which takes the
-- characters of one token, and what becomes of an entity that two tokens share.
import Mathlib.Data.List.Find
import Vibeos.Wget

namespace vibeos.netsurf

open vibeos.wget (ascii)

/-! ## The code -/

/-- The last byte of `raw` is for its terminator. -/
def RAW_MAX : Nat := 32767

/-- The fields of `ns_state` that the text depends on. -/
structure PageText where
  raw : List UInt8
  in_script_tag : Bool
  in_style_tag : Bool
  in_pre_tag : Bool
  in_textarea_tag : Bool
  pending_break : Bool
  last_was_space : Bool
  fits : raw.length ≤ RAW_MAX

@[ext]
theorem PageText.ext' {s t : PageText} (h : s.raw = t.raw) (h1 : s.in_script_tag = t.in_script_tag)
    (h2 : s.in_style_tag = t.in_style_tag) (h3 : s.in_pre_tag = t.in_pre_tag)
    (h4 : s.in_textarea_tag = t.in_textarea_tag) (h5 : s.pending_break = t.pending_break)
    (h6 : s.last_was_space = t.last_was_space) : s = t := by
  cases s
  cases t
  simp_all

def ns_append_ch (s : PageText) (ch : UInt8) : PageText :=
  if h : RAW_MAX ≤ s.raw.length then s
  else { s with raw := s.raw ++ [ch], fits := by rw [List.length_append]; exact Nat.lt_of_not_le h }

/-- The names of `ns_decode_entity` in its order, each with what it stands for. -/
def entities : List (List UInt8 × UInt8) :=
  [(ascii "&lt;", 60), (ascii "&gt;", 62), (ascii "&amp;", 38), (ascii "&quot;", 34),
    (ascii "&apos;", 39), (ascii "&nbsp;", 32), (ascii "&#39;", 39)]

/-- `ns_decode_entity`: the name at the front of the buffer, and its character. -/
def ns_decode_entity (buf : List UInt8) : Option (List UInt8 × UInt8) :=
  entities.find? fun e => e.1.isPrefixOf buf

/-- The end of the loop's body: `ch` goes to the page. The flag is `last_space`. -/
def put (st : PageText × Bool) (ch : UInt8) : PageText × Bool :=
  let (s, last_space) := st
  if s.in_pre_tag || s.in_textarea_tag then
    let s := if s.pending_break then { ns_append_ch s 10 with pending_break := false } else s
    (ns_append_ch s ch, ch == 10 || ch == 32 || ch == 9)
  else
    let (s, last_space) :=
      if s.pending_break then ({ ns_append_ch s 10 with pending_break := false }, true)
      else (s, last_space)
    if ch = 32 then
      if last_space || s.raw.isEmpty then (s, last_space) else (ns_append_ch s 32, true)
    else (ns_append_ch s ch, false)

/-- The loop of `ns_append_text`. The number is how many characters `i` skips. -/
def append_loop : Nat → PageText × Bool → List UInt8 → PageText × Bool
  | _, st, [] => st
  | skip + 1, st, _ :: rest => append_loop skip st rest
  | 0, st, c :: rest =>
    if st.1.in_script_tag || st.1.in_style_tag then append_loop 0 st rest
    else if c = 13 then append_loop 0 st rest
    else
      let ch := if !st.1.in_pre_tag && (c == 10 || c == 9) then 32 else c
      match if ch = 38 then ns_decode_entity (c :: rest) else none with
      | some (name, decoded) => append_loop (name.length - 1) (put st decoded) rest
      | none => append_loop 0 (put st ch) rest

def ns_append_text (s : PageText) (buf : List UInt8) : PageText :=
  let (t, last_space) := append_loop 0 (s, s.last_was_space) buf
  { t with last_was_space := last_space }

/-! ## The characters of a buffer -/

/-- The characters that the loop puts: entities are decoded and carriage returns left out. -/
def chars (pre : Bool) : Nat → List UInt8 → List UInt8
  | _, [] => []
  | skip + 1, _ :: rest => chars pre skip rest
  | 0, c :: rest =>
    if c = 13 then chars pre 0 rest
    else
      let ch := if !pre && (c == 10 || c == 9) then 32 else c
      match if ch = 38 then ns_decode_entity (c :: rest) else none with
      | some (name, decoded) => decoded :: chars pre (name.length - 1) rest
      | none => ch :: chars pre 0 rest

theorem put_script (st : PageText × Bool) (ch : UInt8) :
    (put st ch).1.in_script_tag = st.1.in_script_tag := by
  unfold put ns_append_ch
  grind

theorem put_style (st : PageText × Bool) (ch : UInt8) :
    (put st ch).1.in_style_tag = st.1.in_style_tag := by
  unfold put ns_append_ch
  grind

theorem put_pre (st : PageText × Bool) (ch : UInt8) :
    (put st ch).1.in_pre_tag = st.1.in_pre_tag := by
  unfold put ns_append_ch
  grind

theorem put_textarea (st : PageText × Bool) (ch : UInt8) :
    (put st ch).1.in_textarea_tag = st.1.in_textarea_tag := by
  unfold put ns_append_ch
  grind

theorem append_loop_ignored (skip : Nat) (st : PageText × Bool) (buf : List UInt8)
    (h : st.1.in_script_tag = true ∨ st.1.in_style_tag = true) :
    append_loop skip st buf = st := by
  induction buf generalizing skip with
  | nil => cases skip <;> rfl
  | cons c rest ih =>
    cases skip with
    | zero => simp [append_loop, h, ih]
    | succ skip => exact ih skip

theorem append_loop_chars (skip : Nat) (st : PageText × Bool) (buf : List UInt8)
    (h : st.1.in_script_tag = false) (h' : st.1.in_style_tag = false) :
    append_loop skip st buf = (chars st.1.in_pre_tag skip buf).foldl put st := by
  induction buf generalizing skip st with
  | nil => cases skip <;> rfl
  | cons c rest ih =>
    cases skip with
    | succ skip => exact ih skip st h h'
    | zero =>
      unfold append_loop chars
      simp only [h, h', Bool.or_self, Bool.false_eq_true, if_false]
      split
      · exact ih 0 st h h'
      · have hput (d : UInt8) (k : Nat) : append_loop k (put st d) rest =
            (chars st.1.in_pre_tag k rest).foldl put (put st d) := by
          rw [ih k (put st d) ((put_script st d).trans h) ((put_style st d).trans h'), put_pre]
        split
        · rw [List.foldl_cons, hput]
        · rw [List.foldl_cons, hput]

/-! ## One character after the other -/

/-- What one character does to the page, with the flag in its field. -/
def step (s : PageText) (ch : UInt8) : PageText :=
  let (t, last_space) := put (s, s.last_was_space) ch
  { t with last_was_space := last_space }

theorem foldl_put (cs : List UInt8) (s : PageText) :
    (let (t, last_space) := cs.foldl put (s, s.last_was_space)
     { t with last_was_space := last_space }) = cs.foldl step s := by
  let close (st : PageText × Bool) : PageText := { st.1 with last_was_space := st.2 }
  have hstep (st : PageText × Bool) (ch : UInt8) : step (close st) ch = close (put st ch) := by
    obtain ⟨t, l⟩ := st
    simp only [close, step, put, ns_append_ch]
    grind
  exact (List.foldl_hom close hstep).symm

theorem ns_append_text_steps (s : PageText) (buf : List UInt8) (h : s.in_script_tag = false)
    (h' : s.in_style_tag = false) :
    ns_append_text s buf = (chars s.in_pre_tag 0 buf).foldl step s := by
  rw [← foldl_put]
  unfold ns_append_text
  rw [append_loop_chars 0 _ buf h h']

theorem ns_append_text_ignored (s : PageText) (buf : List UInt8)
    (h : s.in_script_tag = true ∨ s.in_style_tag = true) : ns_append_text s buf = s := by
  unfold ns_append_text
  rw [append_loop_ignored 0 _ buf h]

/-! ## The page after some characters -/

/-- Inside `pre` and in a text area, blanks and lines stay as they are. -/
def verbatim (s : PageText) : Bool := s.in_pre_tag || s.in_textarea_tag

/-- A blank that would come next is left out. -/
def lead (s : PageText) : Bool := s.last_was_space || s.pending_break || s.raw.isEmpty

def shown : Bool → List UInt8 → List UInt8
  | _, [] => []
  | lead, c :: cs =>
    if c = 32 then (if lead then [] else [32]) ++ shown true cs else c :: shown false cs

def seen (verbatim lead : Bool) (cs : List UInt8) : List UInt8 :=
  if verbatim then cs else shown lead cs

def view (s : PageText) (cs : List UInt8) : List UInt8 := seen (verbatim s) (lead s) cs

def brk (s : PageText) : List UInt8 := if s.pending_break then [10] else []

/-- The flag that a character leaves. -/
def blank (verbatim : Bool) (c : UInt8) : Bool :=
  c == 32 || verbatim && (c == 10 || c == 9)

theorem ns_append_ch_raw (s : PageText) (c : UInt8) :
    (ns_append_ch s c).raw = (s.raw ++ [c]).take RAW_MAX := by
  have hfits := s.fits
  unfold ns_append_ch
  split
  · rename_i hfull
    rw [List.take_append_of_le_length hfull, List.take_of_length_le hfits]
  · rename_i hfull
    rw [List.take_of_length_le (by simp; omega)]

theorem take_take_append (n : Nat) (l l' : List UInt8) :
    (l.take n ++ l').take n = (l ++ l').take n := by
  rw [List.take_append, List.take_append, List.take_take, List.length_take, Nat.min_self]
  congr 2
  omega

theorem take_append_iff (n : Nat) (l x y : List UInt8) :
    (l ++ x).take n = (l ++ y).take n ↔ x.take (n - l.length) = y.take (n - l.length) := by
  rw [List.take_append, List.take_append, List.append_right_inj]

theorem ns_append_ch_ne_nil (s : PageText) (c : UInt8) : (ns_append_ch s c).raw ≠ [] := by
  rw [ns_append_ch_raw]
  simp [RAW_MAX]

@[simp]
theorem step_pre (s : PageText) (c : UInt8) : (step s c).in_pre_tag = s.in_pre_tag :=
  put_pre (s, s.last_was_space) c

@[simp]
theorem step_script (s : PageText) (c : UInt8) : (step s c).in_script_tag = s.in_script_tag :=
  put_script (s, s.last_was_space) c

@[simp]
theorem step_style (s : PageText) (c : UInt8) : (step s c).in_style_tag = s.in_style_tag :=
  put_style (s, s.last_was_space) c

@[simp]
theorem step_textarea (s : PageText) (c : UInt8) :
    (step s c).in_textarea_tag = s.in_textarea_tag :=
  put_textarea (s, s.last_was_space) c

@[simp]
theorem step_verbatim (s : PageText) (c : UInt8) : verbatim (step s c) = verbatim s := by
  simp [verbatim]

/-- The page with its pending line break made. -/
def broken (s : PageText) : PageText :=
  if s.pending_break then { ns_append_ch s 10 with pending_break := false } else s

theorem broken_raw (s : PageText) : (broken s).raw = (s.raw ++ brk s).take RAW_MAX := by
  unfold broken brk
  split
  · exact ns_append_ch_raw s 10
  · rw [List.append_nil, List.take_of_length_le s.fits]

theorem broken_pending (s : PageText) : (broken s).pending_break = false := by
  unfold broken
  grind

theorem step_of_verbatim (s : PageText) (c : UInt8) (h : verbatim s = true) :
    step s c = { ns_append_ch (broken s) c with last_was_space := blank true c } := by
  unfold verbatim at h
  simp only [step, put, h, if_true, broken, blank]
  grind

theorem step_of_char (s : PageText) (c : UInt8) (h : verbatim s = false) (hc : c ≠ 32) :
    step s c = { ns_append_ch (broken s) c with last_was_space := false } := by
  unfold verbatim at h
  simp only [step, put, h, broken]
  grind

theorem step_of_blank (s : PageText) (h : verbatim s = false) :
    step s 32 = if lead s then { broken s with last_was_space := s.last_was_space || s.pending_break }
      else { ns_append_ch (broken s) 32 with last_was_space := true } := by
  unfold verbatim at h
  simp only [step, put, h, broken, lead, ns_append_ch]
  grind

theorem step_pending (s : PageText) (c : UInt8) : (step s c).pending_break = false := by
  have happend (t : PageText) (d : UInt8) :
      (ns_append_ch t d).pending_break = t.pending_break := by
    unfold ns_append_ch
    split <;> rfl
  cases h : verbatim s
  · by_cases hc : c = 32
    · subst hc
      rw [step_of_blank s h]
      split
      · exact broken_pending s
      · exact (happend _ _).trans (broken_pending s)
    · rw [step_of_char s c h hc]
      exact (happend _ _).trans (broken_pending s)
  · rw [step_of_verbatim s c h]
    exact (happend _ _).trans (broken_pending s)

theorem step_raw (s : PageText) (c : UInt8) :
    (step s c).raw = (s.raw ++ brk s ++ view s [c]).take RAW_MAX := by
  have hput (d : UInt8) : (ns_append_ch (broken s) d).raw =
      (s.raw ++ brk s ++ [d]).take RAW_MAX := by
    rw [ns_append_ch_raw, broken_raw, take_take_append]
  unfold view seen
  cases h : verbatim s
  · by_cases hc : c = 32
    · subst hc
      rw [step_of_blank s h]
      cases hl : lead s
      · simpa [shown] using hput 32
      · simpa [shown] using broken_raw s
    · rw [step_of_char s c h hc]
      simpa [shown, hc] using hput c
  · rw [step_of_verbatim s c h]
    simpa using hput c

theorem step_last (s : PageText) (c : UInt8) (hraw : (step s c).raw ≠ []) :
    (step s c).last_was_space = blank (verbatim s) c := by
  cases h : verbatim s
  · by_cases hc : c = 32
    · subst hc
      rw [step_of_blank s h] at hraw ⊢
      cases hl : lead s
      · rfl
      · simp only [hl, if_true] at hraw ⊢
        unfold lead at hl
        unfold broken at hraw
        cases hp : s.pending_break <;> simp_all [blank]
    · rw [step_of_char s c h hc]
      simp [blank, hc]
  · rw [step_of_verbatim s c h]

theorem lead_step (s : PageText) (c : UInt8) (h : verbatim s = false) :
    lead (step s c) = (c == 32) := by
  unfold lead
  rw [step_pending]
  by_cases hc : c = 32
  · subst hc
    by_cases hraw : (step s 32).raw = []
    · simp [hraw]
    · simp [step_last s 32 hraw, h, blank]
  · have hne : (ns_append_ch (broken s) c).raw.isEmpty = false := by
      simpa using ns_append_ch_ne_nil (broken s) c
    rw [step_of_char s c h hc]
    simp [hne, hc]

theorem view_cons (s : PageText) (c : UInt8) (cs : List UInt8) :
    view s (c :: cs) = view s [c] ++ view (step s c) cs := by
  unfold view seen
  rw [step_verbatim]
  cases h : verbatim s
  · have hlead := lead_step s c h
    by_cases hc : c = 32
    · subst hc
      simp [hlead, shown]
    · have hfalse : (c == 32) = false := by simpa using hc
      simp [hlead, hfalse, shown, hc]
  · simp

theorem foldl_step_raw (s : PageText) (cs : List UInt8) (h : s.pending_break = false) :
    (cs.foldl step s).raw = (s.raw ++ view s cs).take RAW_MAX := by
  induction cs generalizing s with
  | nil => simp [view, seen, shown, List.take_of_length_le s.fits]
  | cons c cs ih =>
    have hbrk : brk s = [] := by simp [brk, h]
    rw [List.foldl_cons, ih (step s c) (step_pending s c), step_raw, hbrk, List.append_nil,
      take_take_append, List.append_assoc, view_cons s c cs]

theorem page_raw (s : PageText) {cs : List UInt8} (hcs : cs ≠ []) :
    (cs.foldl step s).raw = (s.raw ++ brk s ++ view s cs).take RAW_MAX := by
  obtain ⟨c, cs, rfl⟩ := List.exists_cons_of_ne_nil hcs
  rw [List.foldl_cons, foldl_step_raw (step s c) cs (step_pending s c), step_raw,
    take_take_append, List.append_assoc, ← view_cons]

theorem foldl_step_keeps {β : Type} (f : PageText → β) (hf : ∀ s c, f (step s c) = f s)
    (s : PageText) (cs : List UInt8) : f (cs.foldl step s) = f s := by
  induction cs generalizing s with
  | nil => rfl
  | cons c cs ih => exact (ih (step s c)).trans (hf s c)

theorem foldl_step_pending (s : PageText) {cs : List UInt8} (hcs : cs ≠ []) :
    (cs.foldl step s).pending_break = false := by
  rw [← List.dropLast_concat_getLast hcs, List.foldl_append]
  exact step_pending _ _

theorem foldl_step_last (s : PageText) {cs : List UInt8} {c : UInt8} (hc : cs.getLast? = some c)
    (h : (cs.foldl step s).raw ≠ []) :
    (cs.foldl step s).last_was_space = blank (verbatim s) c := by
  obtain ⟨cs, rfl⟩ := List.getLast?_eq_some_iff.mp hc
  rw [List.foldl_append] at h ⊢
  rw [List.foldl_cons, List.foldl_nil, ← foldl_step_keeps verbatim step_verbatim s cs]
  exact step_last _ c h

/-! ## An entity in two buffers -/

/-- What the loop looks for in a plain character. -/
def Plain (c : UInt8) : Prop := c ≠ 38 ∧ c ≠ 13 ∧ c ≠ 10 ∧ c ≠ 9 ∧ c ≠ 32

instance (c : UInt8) : Decidable (Plain c) := by unfold Plain; infer_instance

theorem entities_shape : ∀ e ∈ entities, e.1.head? = some 38 ∧ e.1.getLast? = some 59 ∧
    (∀ c ∈ e.1.tail, Plain c) ∧ e.2 ≠ 10 ∧ e.2 ≠ 9 := by
  decide +kernel

theorem entities_apart : ∀ e ∈ entities, ∀ e' ∈ entities, e'.1 <+: e.1 → e' = e := by
  decide

theorem entity_cons {e : List UInt8 × UInt8} (he : e ∈ entities) :
    ∃ t, e.1 = 38 :: t ∧ ∀ c ∈ t, Plain c := by
  obtain ⟨hhead, -, htail, -, -⟩ := entities_shape e he
  obtain ⟨t, ht⟩ := List.head?_eq_some_iff.mp hhead
  refine ⟨t, ht, ?_⟩
  simpa [ht] using htail

theorem ns_decode_entity_found {buf : List UInt8} {e : List UInt8 × UInt8}
    (h : ns_decode_entity buf = some e) : e ∈ entities ∧ e.1 <+: buf := by
  unfold ns_decode_entity at h
  have hp := List.find?_some h
  exact ⟨List.mem_of_find?_eq_some h, List.isPrefixOf_iff_prefix.mp hp⟩

theorem ns_decode_entity_append {e : List UInt8 × UInt8} (he : e ∈ entities) (x : List UInt8) :
    ns_decode_entity (e.1 ++ x) = some e := by
  have hsome : (ns_decode_entity (e.1 ++ x)).isSome = true := by
    unfold ns_decode_entity
    rw [List.find?_isSome]
    exact ⟨e, he, by simp⟩
  obtain ⟨e', he'⟩ := Option.isSome_iff_exists.mp hsome
  obtain ⟨hmem, hpre⟩ := ns_decode_entity_found he'
  rw [he']
  rcases List.prefix_or_prefix_of_prefix hpre (List.prefix_append e.1 x) with h | h
  · rw [entities_apart e he e' hmem h]
  · rw [entities_apart e' hmem e he h]

theorem ns_decode_entity_none {e : List UInt8 × UInt8} (he : e ∈ entities) {p q : List UInt8}
    (heq : e.1 = p ++ q) (hq : q ≠ []) : ns_decode_entity p = none := by
  unfold ns_decode_entity
  rw [List.find?_eq_none]
  intro e' he' hp
  have hpre : e'.1 <+: p := by simpa using hp
  have hsame := entities_apart e he e' he' (hpre.trans ⟨q, heq.symm⟩)
  have hlen := hpre.length_le
  have hlen' := congrArg List.length heq
  rw [hsame] at hlen
  have hpos := List.length_pos_iff.mpr hq
  rw [List.length_append] at hlen'
  omega

theorem chars_skip (pre : Bool) (t x : List UInt8) : chars pre t.length (t ++ x) = chars pre 0 x := by
  induction t with
  | nil => rfl
  | cons c t ih => exact ih

theorem chars_plain (pre : Bool) {t : List UInt8} (h : ∀ c ∈ t, Plain c) (x : List UInt8) :
    chars pre 0 (t ++ x) = t ++ chars pre 0 x := by
  induction t with
  | nil => rfl
  | cons c t ih =>
    obtain ⟨h38, h13, h10, h9, -⟩ := h c List.mem_cons_self
    have hrest := ih fun d hd => h d (List.mem_cons_of_mem c hd)
    simp [chars, h38, h13, h10, h9, hrest]

theorem chars_entity (pre : Bool) {e : List UInt8 × UInt8} (he : e ∈ entities) (x : List UInt8) :
    chars pre 0 (e.1 ++ x) = e.2 :: chars pre 0 x := by
  have hdec := ns_decode_entity_append he x
  obtain ⟨t, ht, -⟩ := entity_cons he
  rw [ht, List.cons_append] at hdec ⊢
  simp [chars, hdec, ht, chars_skip]

theorem chars_front (pre : Bool) {e : List UInt8 × UInt8} (he : e ∈ entities) {p q : List UInt8}
    (heq : e.1 = p ++ q) (hp : p ≠ []) (hq : q ≠ []) : chars pre 0 p = p := by
  have hdec := ns_decode_entity_none he heq hq
  obtain ⟨t, ht, hplain⟩ := entity_cons he
  cases p with
  | nil => exact absurd rfl hp
  | cons c p =>
    rw [ht, List.cons_append, List.cons.injEq] at heq
    obtain ⟨rfl, rfl⟩ := heq
    have hrest := chars_plain pre (fun d hd => hplain d (List.mem_append_left q hd)) []
    rw [List.append_nil] at hrest
    simp [chars, hdec, hrest]

theorem chars_append (pre : Bool) (skip : Nat) (a b : List UInt8) (hskip : skip ≤ a.length)
    (h : ∀ x, x <:+ a → x ≠ [] → ∀ e ∈ entities, e.1 <+: x ++ b → e.1 <+: x) :
    chars pre skip (a ++ b) = chars pre skip a ++ chars pre 0 b := by
  induction a generalizing skip with
  | nil =>
    obtain rfl := Nat.le_zero.mp hskip
    rfl
  | cons c rest ih =>
    have hsuffix (x : List UInt8) (hx : x <:+ rest) : x <:+ c :: rest :=
      hx.trans (List.suffix_cons c rest)
    have hrest (k : Nat) (hk : k ≤ rest.length) := ih k hk fun x hx => h x (hsuffix x hx)
    cases skip with
    | succ skip => exact hrest skip (Nat.le_of_succ_le_succ hskip)
    | zero =>
      have hdec : ns_decode_entity (c :: rest ++ b) = ns_decode_entity (c :: rest) := by
        unfold ns_decode_entity
        refine List.find?_congr fun e he => ?_
        have hiff : e.1 <+: c :: rest ++ b ↔ e.1 <+: c :: rest :=
          ⟨h _ List.suffix_rfl (List.cons_ne_nil c rest) e he, fun hp => hp.trans (List.prefix_append _ b)⟩
        rw [Bool.eq_iff_iff, List.isPrefixOf_iff_prefix, List.isPrefixOf_iff_prefix, hiff]
      generalize chars pre 0 b = rest' at hrest ⊢
      rw [List.cons_append] at hdec ⊢
      unfold chars
      rw [hdec]
      split
      · exact hrest 0 (Nat.zero_le _)
      · dsimp only
        split
        · rename_i name decoded hd
          have hfound := (Option.ite_none_right_eq_some.mp hd).2
          have hname := (ns_decode_entity_found hfound).2.length_le
          simp only [List.length_cons] at hname
          rw [hrest _ (by omega), List.cons_append]
        · rw [hrest 0 (Nat.zero_le _), List.cons_append]

/-! ## Where an entity in two buffers does no harm -/

/-- Of the first `n` characters of `t` each is that of `p` over and over. -/
def Repeats (p t : List UInt8) (n : Nat) : Prop := ∀ i < n, t[i]? = p[i % p.length]?

theorem repeats_iff {p : List UInt8} (hp : p ≠ []) (t : List UInt8) (n : Nat) :
    (p ++ t).take n = t.take n ↔ Repeats p t n := by
  have hpos := List.length_pos_iff.mpr hp
  constructor
  · intro h i
    -- Each turn of `p` is read off the one before it.
    induction i using Nat.strong_induction_on with
    | _ i ih =>
      intro hi
      have hsame := congrArg (·[i]?) h
      simp only [List.getElem?_take_of_lt hi] at hsame
      rw [← hsame]
      by_cases hlt : i < p.length
      · rw [List.getElem?_append_left hlt, Nat.mod_eq_of_lt hlt]
      · rw [List.getElem?_append_right (by omega), ih (i - p.length) (by omega) (by omega),
          Nat.mod_eq_sub_mod (by omega : p.length ≤ i)]
  · intro h
    apply List.ext_getElem?
    intro i
    by_cases hi : i < n
    · rw [List.getElem?_take_of_lt hi, List.getElem?_take_of_lt hi, h i hi]
      by_cases hlt : i < p.length
      · rw [List.getElem?_append_left hlt, Nat.mod_eq_of_lt hlt]
      · rw [List.getElem?_append_right (by omega), h (i - p.length) (by omega),
          Nat.mod_eq_sub_mod (by omega : p.length ≤ i)]
    · rw [List.getElem?_eq_none (by simp; omega), List.getElem?_eq_none (by simp; omega)]

theorem shown_append (lead : Bool) (cs ws : List UInt8) :
    shown lead (cs ++ ws) = shown lead cs ++ shown (cs.foldl (fun _ c => c == 32) lead) ws := by
  induction cs generalizing lead with
  | nil => rfl
  | cons c cs ih =>
    by_cases hc : c = 32
    · subst hc
      simp [shown, ih]
    · have hfalse : (c == 32) = false := by simpa using hc
      simp [shown, ih, hc, hfalse]

theorem shown_word (lead : Bool) {c : UInt8} {t : List UInt8} (hc : c ≠ 32)
    (h : ∀ d ∈ t, d ≠ 32) (ws : List UInt8) :
    shown lead (c :: (t ++ ws)) = c :: (t ++ shown false ws) := by
  induction t generalizing lead c with
  | nil => simp [shown, hc]
  | cons d t ih =>
    have hrest := ih false (h d List.mem_cons_self) fun d' hd => h d' (List.mem_cons_of_mem d hd)
    rw [List.cons_append, shown, if_neg hc, hrest]
    rfl

def gap (ws : List UInt8) : List UInt8 := if ws.head? = some 32 then [32] else []

theorem shown_gap (ws : List UInt8) : shown false ws = gap ws ++ shown true ws := by
  cases ws with
  | nil => rfl
  | cons c ws => by_cases hc : c = 32 <;> simp [shown, gap, hc]

/-- Spelled out in front of `ws`, the entity looks the same as decoded as far as `n` characters. -/
def Hidden (e : List UInt8 × UInt8) (verbatim lead : Bool) (ws : List UInt8) (n : Nat) : Prop :=
  n = 0 ∨ e.2 = 38 ∧ Repeats e.1.tail (seen verbatim false ws) (n - 1) ∨
    e.2 = 32 ∧ verbatim = false ∧ lead = true ∧ Repeats (e.1 ++ gap ws) (shown true ws) n

theorem seen_name {e : List UInt8 × UInt8} (he : e ∈ entities) (verbatim lead : Bool)
    (ws : List UInt8) :
    seen verbatim lead (e.1 ++ ws) = e.1 ++ seen verbatim false ws := by
  obtain ⟨t, ht, hplain⟩ := entity_cons he
  rw [ht]
  cases verbatim
  · exact shown_word lead (by decide : (38 : UInt8) ≠ 32) (fun d hd => (hplain d hd).2.2.2.2) ws
  · rfl

theorem seen_entity_iff {e : List UInt8 × UInt8} (he : e ∈ entities) (verbatim lead : Bool)
    (ws : List UInt8) (n : Nat) :
    (seen verbatim lead (e.1 ++ ws)).take n = (seen verbatim lead (e.2 :: ws)).take n ↔
      Hidden e verbatim lead ws n := by
  obtain ⟨t, ht, hplain⟩ := entity_cons he
  have ht0 : t ≠ [] := by
    rintro rfl
    have hlast := (entities_shape e he).2.1
    rw [ht] at hlast
    cases hlast
  have hspelled := seen_name he verbatim lead ws
  rw [ht, List.cons_append] at hspelled
  rw [ht, List.cons_append]
  unfold Hidden
  cases n with
  | zero => simp
  | succ n =>
    by_cases hd : e.2 = 32
    · rw [hd]
      cases verbatim
      · cases lead
        · rw [hspelled]
          simp [seen, shown]
        · have hlong : e.1 ++ shown false ws = (e.1 ++ gap ws) ++ shown true ws := by
            rw [shown_gap, List.append_assoc]
          have hne : e.1 ++ gap ws ≠ [] := by simp [ht]
          rw [hspelled, ← repeats_iff hne, ← hlong, ht]
          simp [seen, shown]
      · rw [hspelled]
        simp [seen]
    · have hdecoded : seen verbatim lead (e.2 :: ws) = e.2 :: seen verbatim false ws := by
        cases verbatim
        · simp [seen, shown, hd]
        · rfl
      rw [hspelled, hdecoded, ht, List.tail_cons, ← repeats_iff ht0]
      simp [hd, eq_comm]

theorem view_append (s : PageText) (cs ws : List UInt8) :
    view s (cs ++ ws) =
      view s cs ++ seen (verbatim s) (cs.foldl (fun _ c => c == 32) (lead s)) ws := by
  unfold view seen
  split
  · rfl
  · exact shown_append (lead s) cs ws

theorem foldl_step_eq_iff (s : PageText) {e : List UInt8 × UInt8} (he : e ∈ entities)
    (cs ws : List UInt8) :
    (cs ++ (e.1 ++ ws)).foldl step s = (cs ++ e.2 :: ws).foldl step s ↔
      (e.2 = 32 → ws ≠ []) ∧ Hidden e (verbatim s) (cs.foldl (fun _ c => c == 32) (lead s)) ws
        (RAW_MAX - (s.raw ++ brk s ++ view s cs).length) := by
  obtain ⟨t, ht, -⟩ := entity_cons he
  have hx : cs ++ (e.1 ++ ws) ≠ [] := by simp [ht]
  have hy : cs ++ e.2 :: ws ≠ [] := by simp
  have hraw : ((cs ++ (e.1 ++ ws)).foldl step s).raw = ((cs ++ e.2 :: ws).foldl step s).raw ↔
      Hidden e (verbatim s) (cs.foldl (fun _ c => c == 32) (lead s)) ws
        (RAW_MAX - (s.raw ++ brk s ++ view s cs).length) := by
    rw [page_raw s hx, page_raw s hy, view_append, view_append, ← List.append_assoc,
      ← List.append_assoc, take_append_iff, seen_entity_iff he]
  have hx0 : ((cs ++ (e.1 ++ ws)).foldl step s).raw ≠ [] := by
    rw [page_raw s hx, view_append, seen_name he, ht]
    simp [RAW_MAX]
  constructor
  · intro h
    have hsame := congrArg PageText.raw h
    refine ⟨?_, hraw.mp hsame⟩
    rintro hd rfl
    have hflag := congrArg PageText.last_was_space h
    have h59 : (cs ++ (e.1 ++ [])).getLast? = some 59 := by
      simp [(entities_shape e he).2.1]
    have h32 : (cs ++ e.2 :: []).getLast? = some e.2 := by simp
    rw [foldl_step_last s h59 hx0, foldl_step_last s h32 (hsame ▸ hx0), hd] at hflag
    simp [blank] at hflag
  · rintro ⟨hws, hhidden⟩
    have hsame := hraw.mpr hhidden
    have hkeeps {β : Type} (f : PageText → β) (hf : ∀ s c, f (step s c) = f s) :=
      (foldl_step_keeps f hf s (cs ++ (e.1 ++ ws))).trans
        (foldl_step_keeps f hf s (cs ++ e.2 :: ws)).symm
    apply PageText.ext' hsame (hkeeps _ step_script) (hkeeps _ step_style) (hkeeps _ step_pre)
      (hkeeps _ step_textarea)
    · rw [foldl_step_pending s hx, foldl_step_pending s hy]
    · have hy0 := hsame ▸ hx0
      cases hlast : ws.getLast? with
      | some c =>
        have hxc : (cs ++ (e.1 ++ ws)).getLast? = some c := by simp [hlast]
        have hyc : (cs ++ e.2 :: ws).getLast? = some c := by
          simp [List.getLast?_append, List.getLast?_cons, hlast]
        rw [foldl_step_last s hxc hx0, foldl_step_last s hyc hy0]
      | none =>
        obtain rfl := List.getLast?_eq_none_iff.mp hlast
        have h59 : (cs ++ (e.1 ++ [])).getLast? = some 59 := by
          simp [(entities_shape e he).2.1]
        have hd : (cs ++ e.2 :: []).getLast? = some e.2 := by simp
        have hd32 : e.2 ≠ 32 := fun h => hws h rfl
        obtain ⟨-, -, -, h10, h9⟩ := entities_shape e he
        rw [foldl_step_last s h59 hx0, foldl_step_last s hd hy0]
        simp [blank, hd32, h10, h9]

/-- `before` and an entity's front are the first buffer, its back and `after` the second. -/
structure Straddles (a b before after : List UInt8) (e : List UInt8 × UInt8) : Prop where
  entity : e ∈ entities
  parts : ∃ p q, p ≠ [] ∧ q ≠ [] ∧ e.1 = p ++ q ∧ a = before ++ p ∧ b = q ++ after

theorem chars_ampersand (pre : Bool) (before x : List UInt8) :
    chars pre 0 (before ++ 38 :: x) = chars pre 0 before ++ chars pre 0 (38 :: x) := by
  apply chars_append pre 0 _ _ (Nat.zero_le _)
  intro y _ hy e he hpre
  rcases List.prefix_or_prefix_of_prefix hpre (List.prefix_append y _) with h | ⟨z, hz⟩
  · exact h
  · obtain ⟨t, ht, hplain⟩ := entity_cons he
    obtain ⟨c, y, rfl⟩ := List.exists_cons_of_ne_nil hy
    rw [← hz, List.prefix_append_right_inj] at hpre
    cases z with
    | nil => exact ⟨[], by rw [← hz, List.append_nil, List.append_nil]⟩
    | cons d z =>
      obtain rfl := (List.cons_prefix_cons.mp hpre).1
      have h38 : (38 : UInt8) ∈ t := by
        rw [ht, List.cons_append, List.cons.injEq] at hz
        simp [← hz.2]
      exact absurd rfl (hplain 38 h38).1

theorem chars_straddled (pre : Bool) {a b before after : List UInt8} {e : List UInt8 × UInt8}
    (h : Straddles a b before after e) :
    chars pre 0 a ++ chars pre 0 b =
        chars pre 0 before ++ (e.1 ++ chars pre 0 after) ∧
      chars pre 0 (a ++ b) = chars pre 0 before ++ e.2 :: chars pre 0 after := by
  obtain ⟨he, p, q, hp, hq, hname, rfl, rfl⟩ := h
  obtain ⟨t, ht, hplain⟩ := entity_cons he
  obtain ⟨c, p, rfl⟩ := List.exists_cons_of_ne_nil hp
  have hparts := hname
  rw [ht, List.cons_append, List.cons.injEq] at hparts
  obtain ⟨rfl, rfl⟩ := hparts
  constructor
  · rw [chars_ampersand, chars_front pre he hname hp hq,
      chars_plain pre (fun d hd => hplain d (List.mem_append_right p hd)), hname]
    simp
  · have hwhole : before ++ 38 :: p ++ (q ++ after) = before ++ (e.1 ++ after) := by
      rw [hname]
      simp
    have hentity := chars_entity pre he after
    rw [hwhole]
    rw [ht, List.cons_append] at hentity ⊢
    rw [chars_ampersand, hentity]

theorem chars_whole (pre : Bool) (a b : List UInt8)
    (h : ∀ before after e, ¬ Straddles a b before after e) :
    chars pre 0 (a ++ b) = chars pre 0 a ++ chars pre 0 b := by
  apply chars_append pre 0 a b (Nat.zero_le _)
  rintro x ⟨before, rfl⟩ hx e he hpre
  rcases List.prefix_or_prefix_of_prefix hpre (List.prefix_append x b) with hshort | ⟨q, hq⟩
  · exact hshort
  · cases q with
    | nil => exact ⟨[], by rw [← hq, List.append_nil, List.append_nil]⟩
    | cons c q =>
      rw [← hq, List.prefix_append_right_inj] at hpre
      obtain ⟨after, hb⟩ := hpre
      exact absurd ⟨he, x, c :: q, hx, List.cons_ne_nil c q, hq.symm, rfl, hb.symm⟩
        (h before after e)

/-- The split is not to be seen: the page is full before the entity shows, or what follows it
repeats it as far as the page goes. -/
def Harmless (s : PageText) (before after : List UInt8) (e : List UInt8 × UInt8) : Prop :=
  let cs := chars s.in_pre_tag 0 before
  let ws := chars s.in_pre_tag 0 after
  (e.2 = 32 → ws ≠ []) ∧ Hidden e (verbatim s) (cs.foldl (fun _ c => c == 32) (lead s)) ws
    (RAW_MAX - (s.raw ++ brk s ++ view s cs).length)

theorem ns_append_text_twice (s : PageText) (a b : List UInt8) (h : s.in_script_tag = false)
    (h' : s.in_style_tag = false) :
    ns_append_text (ns_append_text s a) b =
      (chars s.in_pre_tag 0 a ++ chars s.in_pre_tag 0 b).foldl step s := by
  have hkeeps {β : Type} (f : PageText → β) (hf : ∀ s c, f (step s c) = f s) :=
    foldl_step_keeps f hf s (chars s.in_pre_tag 0 a)
  rw [List.foldl_append, ns_append_text_steps s a h h', ns_append_text_steps _ b
    ((hkeeps _ step_script).trans h) ((hkeeps _ step_style).trans h'), hkeeps _ step_pre]

/-- A text in two buffers is the text in one unless an entity that the page shows stands in
both of them. -/
theorem split_iff_harmless (s : PageText) (a b : List UInt8) :
    ns_append_text (ns_append_text s a) b = ns_append_text s (a ++ b) ↔
      s.in_script_tag = true ∨ s.in_style_tag = true ∨
        ∀ before after e, Straddles a b before after e → Harmless s before after e := by
  by_cases hign : s.in_script_tag = true ∨ s.in_style_tag = true
  · rw [ns_append_text_ignored s a hign, ns_append_text_ignored s b hign,
      ns_append_text_ignored s (a ++ b) hign]
    exact iff_of_true rfl (or_assoc.mp (.inl hign))
  · have hscript : s.in_script_tag = false := by simpa using fun h => hign (.inl h)
    have hstyle : s.in_style_tag = false := by simpa using fun h => hign (.inr h)
    rw [ns_append_text_twice s a b hscript hstyle, ns_append_text_steps s (a ++ b) hscript hstyle,
      hscript, hstyle]
    simp only [Bool.false_eq_true, false_or]
    constructor
    · intro heq before after e hstr
      obtain ⟨htwo, hone⟩ := chars_straddled s.in_pre_tag hstr
      rw [htwo, hone] at heq
      exact (foldl_step_eq_iff s hstr.entity _ _).mp heq
    · intro h
      by_cases hstr : ∃ before after e, Straddles a b before after e
      · obtain ⟨before, after, e, hstr⟩ := hstr
        obtain ⟨htwo, hone⟩ := chars_straddled s.in_pre_tag hstr
        rw [htwo, hone]
        exact (foldl_step_eq_iff s hstr.entity _ _).mpr (h before after e hstr)
      · simp only [not_exists] at hstr
        rw [chars_whole s.in_pre_tag a b hstr]

def reset_doc : PageText where
  raw := []
  in_script_tag := false
  in_style_tag := false
  in_pre_tag := false
  in_textarea_tag := false
  pending_break := true
  last_was_space := true
  fits := Nat.zero_le _

/-- `a &l` and `t; b` are not `a &lt; b`. -/
theorem split_entity_spelled :
    ns_append_text (ns_append_text reset_doc (ascii "a &l")) (ascii "t; b") ≠
      ns_append_text reset_doc (ascii "a &l" ++ ascii "t; b") := by
  intro h
  have hraw := congrArg PageText.raw h
  revert hraw
  decide

end vibeos.netsurf
