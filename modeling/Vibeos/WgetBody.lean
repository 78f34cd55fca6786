-- Which bytes of an HTTP response a download saves, and which ones the browser gets:
-- the answer depends on how TCP cuts the stream.
import Vibeos.WgetStream

namespace vibeos.wget

open vibeos.fs vibeos.Segments

/-! ## The machine in the body -/

/-- The first end of a pbuf where the body, which had `b` bytes before, is as long as the
length says. -/
def Completes (clen : Option Nat) (b : Nat) (ps : List (List UInt8)) (n : Nat) : Prop :=
  0 < n ∧ Ends ps n ∧ Reached clen (b + n) ∧
    ∀ m, 0 < m → m < n → Ends ps m → ¬ Reached clen (b + m)

/-- The body is shorter than the length at every end of a pbuf. -/
def NeverReached (clen : Option Nat) (b : Nat) (ps : List (List UInt8)) : Prop :=
  ∀ n, 0 < n → Ends ps n → ¬ Reached clen (b + n)

theorem NeverReached.not_completes {clen : Option Nat} {b n : Nat} {ps : List (List UInt8)}
    (h : NeverReached clen b ps) : ¬ Completes clen b ps n :=
  fun hc => h n hc.1 hc.2.1 hc.2.2.1

theorem ends_cons_nil {ps : List (List UInt8)} {n : Nat} : Ends ([] :: ps) n ↔ Ends ps n := by
  rw [ends_cons]
  constructor
  · rintro (h | ⟨m, hm, h⟩)
    · rw [h]
      exact ends_zero ps
    · rw [hm]
      simpa using h
  · intro h
    exact Or.inr ⟨n, by simp, h⟩

theorem le_of_ends_cons {p : List UInt8} {ps : List (List UInt8)} {n : Nat} (hn : 0 < n)
    (h : Ends (p :: ps) n) : ∃ m, n = p.length + m ∧ Ends ps m := by
  rcases ends_cons.mp h with h | h
  · omega
  · exact h

theorem ends_cons_add (p : List UInt8) {ps : List (List UInt8)} {m : Nat} (h : Ends ps m) :
    Ends (p :: ps) (p.length + m) :=
  ends_cons.mpr (Or.inr ⟨m, rfl, h⟩)

theorem Completes.cons_nil {clen : Option Nat} {b n : Nat} {ps : List (List UInt8)} :
    Completes clen b ([] :: ps) n ↔ Completes clen b ps n := by
  simp only [Completes, ends_cons_nil]

theorem NeverReached.cons_nil {clen : Option Nat} {b : Nat} {ps : List (List UInt8)} :
    NeverReached clen b ([] :: ps) ↔ NeverReached clen b ps := by
  simp only [NeverReached, ends_cons_nil]

theorem Completes.cons {clen : Option Nat} {b n : Nat} {p : List UInt8} {ps : List (List UInt8)}
    (hp : ¬ Reached clen (b + p.length)) (h : Completes clen (b + p.length) ps n) :
    Completes clen b (p :: ps) (p.length + n) := by
  obtain ⟨hpos, hends, hreach, hfirst⟩ := h
  refine ⟨by omega, ends_cons_add p hends, by rwa [← Nat.add_assoc], ?_⟩
  intro m hm hlt hem
  obtain ⟨k, rfl, hk⟩ := le_of_ends_cons hm hem
  cases Nat.eq_zero_or_pos k with
  | inl hk0 =>
    rw [hk0]
    exact hp
  | inr hk0 =>
    rw [← Nat.add_assoc]
    exact hfirst k hk0 (by omega) hk

theorem Completes.of_cons {clen : Option Nat} {b n : Nat} {p : List UInt8}
    {ps : List (List UInt8)} (hp : ¬ Reached clen (b + p.length))
    (h : Completes clen b (p :: ps) n) :
    ∃ m, n = p.length + m ∧ Completes clen (b + p.length) ps m := by
  obtain ⟨hpos, hends, hreach, hfirst⟩ := h
  obtain ⟨m, rfl, hm⟩ := le_of_ends_cons hpos hends
  rw [← Nat.add_assoc] at hreach
  refine ⟨m, rfl, ?_, hm, hreach, ?_⟩
  · apply Nat.pos_of_ne_zero
    intro h0
    rw [h0] at hreach
    exact hp hreach
  · intro k hk hlt hek
    rw [Nat.add_assoc]
    exact hfirst _ (by omega) (by omega) (ends_cons_add p hek)

theorem NeverReached.cons {clen : Option Nat} {b : Nat} {p : List UInt8}
    {ps : List (List UInt8)} (hp : ¬ Reached clen (b + p.length))
    (h : NeverReached clen (b + p.length) ps) : NeverReached clen b (p :: ps) := by
  intro n hn hends
  obtain ⟨m, rfl, hm⟩ := le_of_ends_cons hn hends
  rw [← Nat.add_assoc]
  cases Nat.eq_zero_or_pos m with
  | inl h0 =>
    rw [h0]
    exact hp
  | inr h0 => exact h m h0 hm

section

variable [NetConfig]

/-- How the machine ends that reads the pbufs of a body. -/
inductive BodyRun (clen : Option Nat) (status : Int) (b : List UInt8) (ps : List (List UInt8)) :
    Rx → Prop
  | finished (n : Nat) (hn : Completes clen b.length ps n)
      (hfits : b.length + n ≤ WGET_MAX_FILE_SIZE) :
      BodyRun clen status b ps (.finished (b ++ ps.flatten.take n))
  | body (hn : NeverReached clen b.length ps)
      (hfits : b.length + ps.flatten.length ≤ WGET_MAX_FILE_SIZE) :
      BodyRun clen status b ps (.body clen status (b ++ ps.flatten))
  | failed (k : Nat) (hk : k < ps.flatten.length)
      (hn : ∀ n, Completes clen b.length ps n → WGET_MAX_FILE_SIZE < b.length + n)
      (hfits : WGET_MAX_FILE_SIZE < b.length + ps.flatten.length) :
      BodyRun clen status b ps (.failed (b ++ ps.flatten.take k))

theorem bodyRun (clen : Option Nat) (status : Int) (b : List UInt8) (ps : List (List UInt8))
    (hb : b.length ≤ WGET_MAX_FILE_SIZE) :
    BodyRun clen status b ps (ps.foldl Rx.push (.body clen status b)) := by
  induction ps generalizing b with
  | nil =>
    have hnever : NeverReached clen b.length [] := by
      intro n hn hends
      have := ends_nil.mp hends
      omega
    have hrun : BodyRun clen status b [] _ := .body hnever (by simpa using hb)
    simpa using hrun
  | cons p ps ih =>
    rw [List.foldl_cons, Rx.push, Rx.addBody]
    by_cases hp : p = []
    · rw [if_pos hp, hp]
      have := ih b hb
      generalize ps.foldl Rx.push (.body clen status b) = r at this
      cases this with
      | finished n hn hfits => exact .finished n (Completes.cons_nil.mpr hn) hfits
      | body hn hfits => exact .body (NeverReached.cons_nil.mpr hn) hfits
      | failed k hk hn hfits =>
        exact .failed k hk (fun n h => hn n (Completes.cons_nil.mp h)) hfits
    · have hpos : 0 < p.length := List.length_pos_of_ne_nil hp
      rw [if_neg hp]
      by_cases hbig : WGET_MAX_FILE_SIZE < b.length + p.length
      · rw [if_pos hbig, foldl_push_failed]
        have hlen : (p :: ps).flatten.length = p.length + ps.flatten.length := by
          rw [List.flatten_cons, List.length_append]
        have hrun : BodyRun clen status b (p :: ps) _ := .failed 0
          (by omega)
          (by
            intro n hn
            obtain ⟨m, rfl, _⟩ := le_of_ends_cons hn.1 hn.2.1
            omega)
          (by omega)
        simpa using hrun
      · rw [if_neg hbig]
        by_cases hr : Reached clen (b ++ p).length
        · rw [if_pos hr, foldl_push_finished]
          have hfirst : Completes clen b.length (p :: ps) p.length := by
            refine ⟨hpos, ends_cons_add p (ends_zero ps), by rwa [← List.length_append], ?_⟩
            intro m hm hlt hem
            obtain ⟨k, rfl, _⟩ := le_of_ends_cons hm hem
            omega
          have hrun : BodyRun clen status b (p :: ps) _ := .finished p.length hfirst (by omega)
          simpa using hrun
        · rw [if_neg hr]
          have hr' : ¬ Reached clen (b.length + p.length) := by rwa [← List.length_append]
          have := ih (b ++ p) (by rw [List.length_append]; omega)
          generalize ps.foldl Rx.push (.body clen status (b ++ p)) = r at this
          cases this with
          | finished n hn hfits =>
            rw [List.length_append] at hn hfits
            have hrun : BodyRun clen status b (p :: ps) _ := .finished _ (hn.cons hr') (by omega)
            simpa [List.take_length_add_append, List.append_assoc] using hrun
          | body hn hfits =>
            rw [List.length_append] at hn hfits
            have hrun : BodyRun clen status b (p :: ps) _ := .body (hn.cons hr')
              (by rw [List.flatten_cons, List.length_append]; omega)
            simpa [List.append_assoc] using hrun
          | failed k hk hn hfits =>
            rw [List.length_append] at hn hfits
            have hrun : BodyRun clen status b (p :: ps) _ := .failed
              (p.length + k)
              (by rw [List.flatten_cons, List.length_append]; omega)
              (by
                intro n hc
                obtain ⟨m, rfl, hm⟩ := hc.of_cons hr'
                have := hn m hm
                omega)
              (by rw [List.flatten_cons, List.length_append]; omega)
            simpa [List.take_length_add_append, List.append_assoc] using hrun

/-! ## The machine in the header -/

theorem push_header_short {h p hdr : List UInt8} (hfirst : EndsFirst CRLFCRLF hdr)
    (hpre : h ++ p <+: hdr) (hlt : (h ++ p).length < hdr.length)
    (hmax : (h ++ p).length < WGET_HEADER_MAX) : (Rx.header h).push p = .header (h ++ p) := by
  rw [Rx.push, splitMark_of_short hfirst hpre hlt]
  rw [List.length_append] at hmax
  exact if_pos hmax

theorem push_header_end {h x hdr : List UInt8} (hfirst : EndsFirst CRLFCRLF hdr)
    (hhdr : h ++ x = hdr) (hx : x ≠ []) (hmax : hdr.length < WGET_HEADER_MAX)
    (d : List UInt8) :
    (Rx.header h).push (x ++ d) =
      (Rx.body (contentLength? hdr) (parse_http_status_code hdr) []).push d := by
  rw [Rx.push, splitMark_of_endsFirst hfirst hhdr hx]
  exact if_pos hmax

theorem push_header_big {h p hdr body : List UInt8} (hfirst : EndsFirst CRLFCRLF hdr)
    (hpre : h ++ p <+: hdr ++ body) (hlt : h.length < hdr.length)
    (hmax : WGET_HEADER_MAX ≤ (h ++ p).length) (hbig : WGET_HEADER_MAX ≤ hdr.length) :
    (Rx.header h).push p = .failed [] := by
  rw [Rx.push]
  rw [List.length_append] at hmax
  split
  · rw [if_neg (by omega)]
  · rename_i hdr' rest hs
    -- the machine finds the same header, which is too long
    have hsame : hdr' = hdr := by
      obtain ⟨t, ht⟩ := hpre
      have hh : h <+: hdr := by
        apply List.prefix_of_prefix_length_le _ (List.prefix_append hdr body) (by omega)
        exact ⟨p ++ t, by rw [← ht, List.append_assoc]⟩
      obtain ⟨x, hx⟩ := hh
      have hne : x ≠ [] := by
        intro h0
        rw [h0, List.append_nil] at hx
        rw [hx] at hlt
        omega
      have hfull := splitMark_of_endsFirst hfirst hx hne body
      have hpt : p ++ t = x ++ body := by
        rw [← hx, List.append_assoc, List.append_assoc] at ht
        exact List.append_cancel_left ht
      have := splitMark_append hs t
      rw [hpt, hfull] at this
      simp only [Option.some.injEq, Prod.mk.injEq] at this
      exact this.1.symm
    rw [hsame, if_neg (by omega)]

theorem foldl_header {h hdr body : List UInt8} {ps : List (List UInt8)}
    (hfirst : EndsFirst CRLFCRLF hdr) (hstream : h ++ ps.flatten = hdr ++ body)
    (hlt : h.length < hdr.length) (hmax : hdr.length < WGET_HEADER_MAX) :
    ∃ pieces, ps.foldl Rx.push (.header h) =
        pieces.foldl Rx.push (.body (contentLength? hdr) (parse_http_status_code hdr) []) ∧
      pieces.flatten = body ∧
      ∀ n, 0 < n → (Ends pieces n ↔ ∃ m, Ends ps m ∧ h.length + m = hdr.length + n) := by
  induction ps generalizing h with
  | nil =>
    have := congrArg List.length hstream
    simp only [List.flatten_nil, List.append_nil, List.length_append] at this
    omega
  | cons p ps ih =>
    have hh : h <+: hdr :=
      List.prefix_of_prefix_length_le ⟨_, hstream⟩ (List.prefix_append hdr body) (by omega)
    have hpre : h ++ p <+: hdr ++ body :=
      ⟨ps.flatten, by rw [← hstream, List.flatten_cons, List.append_assoc]⟩
    by_cases hp : (h ++ p).length < hdr.length
    · have hhp : h ++ p <+: hdr :=
        List.prefix_of_prefix_length_le hpre (List.prefix_append hdr body) (by omega)
      obtain ⟨pieces, hrun, hflat, hends⟩ := ih (h := h ++ p)
        (by rw [← hstream, List.flatten_cons, List.append_assoc]) hp
      refine ⟨pieces, ?_, hflat, ?_⟩
      · rw [List.foldl_cons, push_header_short hfirst hhp hp (by omega), hrun]
      · intro n hn
        rw [hends n hn, List.length_append]
        constructor
        · intro ⟨m, hm, heq⟩
          exact ⟨p.length + m, ends_cons_add p hm, by omega⟩
        · intro ⟨m, hm, heq⟩
          obtain ⟨k, rfl, hk⟩ := le_of_ends_cons (by omega) hm
          exact ⟨k, hk, by omega⟩
    · obtain ⟨x, hx⟩ := hh
      have hne : x ≠ [] := by
        intro h0
        rw [h0, List.append_nil] at hx
        rw [hx] at hlt
        omega
      -- the pbuf ends the header with `x`, and `d` is behind it
      obtain ⟨d, hd⟩ : x <+: p := by
        have : h ++ x <+: h ++ p := by
          apply List.prefix_of_prefix_length_le _ hpre (by rw [hx]; omega)
          rw [hx]
          exact List.prefix_append hdr body
        exact (List.prefix_append_right_inj h).mp this
      refine ⟨d :: ps, ?_, ?_, ?_⟩
      · rw [List.foldl_cons, List.foldl_cons, ← hd, push_header_end hfirst hx hne hmax]
      · rw [List.flatten_cons, ← hd, ← List.append_assoc, ← List.append_assoc, hx,
          List.append_assoc] at hstream
        exact List.append_cancel_left hstream
      · intro n hn
        have hlen : h.length + p.length = hdr.length + d.length := by
          rw [← hd, ← hx, List.length_append, List.length_append]
          omega
        constructor
        · intro hends
          obtain ⟨m, rfl, hm⟩ := le_of_ends_cons hn hends
          exact ⟨p.length + m, ends_cons_add p hm, by omega⟩
        · intro ⟨m, hm, heq⟩
          obtain ⟨k, rfl, hk⟩ := le_of_ends_cons (by omega) hm
          have hnk : n = d.length + k := by omega
          rw [hnk]
          exact ends_cons_add d hk

theorem foldl_header_big {h hdr body : List UInt8} {ps : List (List UInt8)}
    (hfirst : EndsFirst CRLFCRLF hdr) (hstream : h ++ ps.flatten = hdr ++ body)
    (hlt : h.length < hdr.length) (hh : h.length < WGET_HEADER_MAX)
    (hbig : WGET_HEADER_MAX ≤ hdr.length) :
    ps.foldl Rx.push (.header h) = .failed [] := by
  induction ps generalizing h with
  | nil =>
    have := congrArg List.length hstream
    simp only [List.flatten_nil, List.append_nil, List.length_append] at this
    omega
  | cons p ps ih =>
    have hpre : h ++ p <+: hdr ++ body :=
      ⟨ps.flatten, by rw [← hstream, List.flatten_cons, List.append_assoc]⟩
    rw [List.foldl_cons]
    by_cases hp : (h ++ p).length < WGET_HEADER_MAX
    · have hhp : h ++ p <+: hdr :=
        List.prefix_of_prefix_length_le hpre (List.prefix_append hdr body) (by omega)
      rw [push_header_short hfirst hhp (by omega) hp]
      exact ih (by rw [← hstream, List.flatten_cons, List.append_assoc]) (by omega) hp
    · rw [push_header_big hfirst hpre hlt (by omega) hbig, foldl_push_failed]

/-! ## What a normal window saves -/

omit [NetConfig] in
theorem CRLFCRLF_ne_nil : CRLFCRLF ≠ [] := by simp [CRLFCRLF]

omit [NetConfig] in
theorem length_pos_of_endsFirst {hdr : List UInt8} (h : EndsFirst CRLFCRLF hdr) :
    0 < hdr.length := by
  cases hdr with
  | nil => exact absurd (List.suffix_nil.mp h.1) CRLFCRLF_ne_nil
  | cons c hdr => simp

/-- The request of the job was sent and nothing has arrived. -/
structure Fresh (w : World) : Prop where
  active : w.job.active = true
  done : w.job.done = false
  header_done : w.job.header_done = false
  header : w.job.header = []
  has_content_len : w.job.has_content_len = false
  body : w.job.body = []

omit [NetConfig] in
theorem Fresh.tracks {w : World} (h : Fresh w) : Tracks true w.job (.header []) where
  saved := h.body
  running := by rw [h.active, h.done]; rfl
  at_state := ⟨h.done, h.header_done, h.has_content_len, h.header⟩

omit [NetConfig] in
theorem Rx.fits_nil : (Rx.header []).Fits := by
  intro x hx
  cases hx
  decide

/-- The pbufs of a response save its body: there is none, or the header and the body fit
their buffers and no pbuf of the body ends where the length is reached, but the last. -/
def SavesAll (hdr body : List UInt8) (chains : List (List Pbuf)) : Prop :=
  body = [] ∨
    hdr.length < WGET_HEADER_MAX ∧ body.length ≤ WGET_MAX_FILE_SIZE ∧
      ∀ n, 0 < n → Ends (payloads chains) (hdr.length + n) →
        Reached (contentLength? hdr) n → n = body.length

theorem bodyRun_saved {clen : Option Nat} {status : Int} {ps : List (List UInt8)} {r : Rx}
    (h : BodyRun clen status [] ps r) :
    r.saved = ps.flatten ↔ ps.flatten = [] ∨ ps.flatten.length ≤ WGET_MAX_FILE_SIZE ∧
      ∀ n, 0 < n → Ends ps n → Reached clen n → n = ps.flatten.length := by
  cases h with
  | finished n hn hfits =>
    obtain ⟨hpos, hends, hreach, hfirst⟩ := hn
    simp only [List.length_nil, Nat.zero_add] at hreach hfirst hfits
    have hle := hends.le
    simp only [Rx.saved, List.nil_append, List.take_eq_self_iff]
    constructor
    · intro hall
      refine Or.inr ⟨by omega, ?_⟩
      intro m hm hem hrm
      have := hem.le
      rcases Nat.lt_or_ge m n with hlt | hge
      · exact absurd hrm (hfirst m hm hlt hem)
      · omega
    · rintro (h0 | ⟨_, hall⟩)
      · rw [h0]
        exact Nat.zero_le n
      · rw [hall n hpos hends hreach]
  | body hn hfits =>
    simp only [List.length_nil, Nat.zero_add] at hfits
    simp only [Rx.saved, List.nil_append, true_iff]
    refine Or.inr ⟨hfits, ?_⟩
    intro n hpos hends hreach
    exact absurd (by rwa [List.length_nil, Nat.zero_add]) (hn n hpos hends)
  | failed k hk hn hfits =>
    simp only [List.length_nil, Nat.zero_add] at hfits
    simp only [Rx.saved, List.nil_append, List.take_eq_self_iff]
    constructor
    · intro hle
      omega
    · rintro (h0 | ⟨hle, _⟩)
      · rw [h0] at hk
        exact absurd hk (Nat.not_lt_zero k)
      · omega

theorem saved_iff {w : World} (hw : Fresh w) (hwin : ¬ w.Browser) (pcb : Nat)
    {hdr body : List UInt8} (hfirst : EndsFirst CRLFCRLF hdr) {chains : List (List Pbuf)}
    (hstream : streamOf chains = hdr ++ body) :
    (deliver pcb w chains).job.body = body ↔ SavesAll hdr body chains := by
  have hpos := length_pos_of_endsFirst hfirst
  rw [(tracks_deliver pcb hw.tracks Rx.fits_nil hwin chains).saved]
  rw [streamOf_eq] at hstream
  unfold SavesAll
  by_cases hmax : hdr.length < WGET_HEADER_MAX
  · obtain ⟨pieces, hrun, rfl, hends⟩ := foldl_header hfirst (h := []) hstream hpos hmax
    rw [hrun, bodyRun_saved (bodyRun _ _ [] pieces (Nat.zero_le _))]
    simp only [hmax, true_and]
    have hends' : ∀ n, 0 < n →
        (Ends pieces n ↔ Ends (payloads chains) (hdr.length + n)) := by
      intro n hn
      rw [hends n hn]
      simp
    constructor
    · rintro (h | ⟨h1, h2⟩)
      · exact Or.inl h
      · exact Or.inr ⟨h1, fun n hn he => h2 n hn ((hends' n hn).mpr he)⟩
    · rintro (h | ⟨h1, h2⟩)
      · exact Or.inl h
      · exact Or.inr ⟨h1, fun n hn he => h2 n hn ((hends' n hn).mp he)⟩
  · rw [foldl_header_big hfirst (h := []) hstream hpos (by decide) (by omega)]
    constructor
    · intro h
      exact Or.inl h.symm
    · rintro (h | ⟨h, _⟩)
      · exact h.symm
      · omega

end

end vibeos.wget
