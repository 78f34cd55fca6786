-- What the browser gets of an HTTP response. The first pass of the receive callback
-- looks for the end of the header in one pbuf at a time.
import Vibeos.WgetBody

namespace vibeos.wget

open vibeos.fs vibeos.Segments

/-- The bytes that went to `netsurf_feed_data`. -/
def fed : List Event → List UInt8
  | [] => []
  | .feed _ _ bytes :: older => fed older ++ bytes
  | _ :: older => fed older

/-! ## The calls that feed nothing -/

theorem fed_wget_finish (w : World) (success : Bool) (msg : Option (List UInt8)) :
    fed (wget_finish w success msg).events = fed w.events := by
  unfold wget_finish
  dsimp only
  split
  · split
    · rfl
    · split <;> rfl
  · rfl

theorem fed_wget_close_pcb (w : World) (abort : Bool) :
    fed (wget_close_pcb w abort).events = fed w.events := by
  unfold wget_close_pcb
  split
  · rfl
  · cases abort <;> rfl

theorem fed_finish_close (w : World) (abort success : Bool) (msg : Option (List UInt8)) :
    fed (wget_finish (wget_close_pcb w abort) success msg).events = fed w.events := by
  rw [fed_wget_finish, fed_wget_close_pcb]

theorem fed_afterChain (pcb : Nat) (p : List Pbuf) (x : World × Bool) :
    fed (afterChain pcb p x).events = fed x.1.events := by
  obtain ⟨w, b⟩ := x
  cases b with
  | true => rfl
  | false =>
    unfold afterChain
    dsimp only
    split <;> rfl

section

variable [NetConfig]

theorem fed_recv_pbuf (pcb : Nat) (w : World) (src : List UInt8) :
    fed (recv_pbuf pcb w src).1.events = fed w.events := by
  induction src generalizing w with
  | nil => rfl
  | cons c rest ih =>
    rw [recv_pbuf]
    split
    · rfl
    · split
      · split
        · exact fed_finish_close w true false (some (ascii "HDR TOO BIG"))
        · exact ih _
      · split
        · exact fed_finish_close w true false (some (ascii "FILE TOO BIG"))
        · dsimp only
          split
          · exact fed_finish_close (w.store pcb (c :: rest)) false true none
          · rfl

theorem fed_recv_chain (pcb : Nat) (w : World) (p : List Pbuf) :
    fed (recv_chain pcb w p).1.events = fed w.events := by
  induction p generalizing w with
  | nil => rfl
  | cons q rest ih =>
    have hq := fed_recv_pbuf pcb w q.payload
    rw [recv_chain]
    split
    · rfl
    · split
      · rename_i heq
        rwa [heq] at hq
      · rename_i heq
        rw [heq] at hq
        rw [ih, hq]

end

/-! ## The scan for the end of the header -/

/-- What the first pass feeds of a chain in which it looks for the end of the header. -/
def scan : List (List UInt8) → Option (List UInt8)
  | [] => none
  | p :: rest =>
    match afterHeader p with
    | some d => some (d ++ rest.flatten)
    | none => scan rest

theorem fed_feed (w : World) (pcb : Nat) (d : List UInt8) :
    fed (w.feed pcb d).events = fed w.events ++ d := rfl

theorem feed_chain_body {w : World} (h : w.job.header_done = true) (pcb : Nat) (p : List Pbuf) :
    (feed_chain pcb w p).job = w.job ∧
      fed (feed_chain pcb w p).events = fed w.events ++ chainBytes p := by
  induction p generalizing w with
  | nil => simp [feed_chain, chainBytes]
  | cons tp rest ih =>
    rw [feed_chain, if_pos h]
    obtain ⟨hjob, hfed⟩ := ih (w := w.feed pcb tp.payload) h
    refine ⟨hjob, ?_⟩
    rw [hfed, fed_feed, List.append_assoc]
    rfl

theorem feed_chain_none {w : World} (h : w.job.header_done = false) (pcb : Nat) {p : List Pbuf}
    (hs : scan (p.map Pbuf.payload) = none) : feed_chain pcb w p = w := by
  induction p with
  | nil => rfl
  | cons tp rest ih =>
    rw [List.map_cons, scan] at hs
    rw [feed_chain, h]
    split at hs
    · cases hs
    · rename_i hnone
      simp only [Bool.false_eq_true, if_false, hnone]
      exact ih hs

theorem feed_chain_some {w : World} (h : w.job.header_done = false) (pcb : Nat) {p : List Pbuf}
    {d : List UInt8} (hs : scan (p.map Pbuf.payload) = some d) :
    (feed_chain pcb w p).job = { w.job with header_done := true } ∧
      fed (feed_chain pcb w p).events = fed w.events ++ d := by
  induction p with
  | nil => cases hs
  | cons tp rest ih =>
    rw [List.map_cons, scan] at hs
    rw [feed_chain, h]
    split at hs
    · rename_i d' hsome
      simp only [Option.some.injEq] at hs
      simp only [Bool.false_eq_true, if_false, hsome]
      split
      · rename_i h0
        have := feed_chain_body (w := { w with job := { w.job with header_done := true } }) rfl
          pcb rest
        refine ⟨this.1, ?_⟩
        rw [this.2, ← hs, h0]
        rfl
      · have := feed_chain_body
          (w := World.feed { w with job := { w.job with header_done := true } } pcb d') rfl pcb rest
        refine ⟨this.1, ?_⟩
        rw [this.2, fed_feed, ← hs, List.append_assoc]
        rfl
    · rename_i hnone
      simp only [Bool.false_eq_true, if_false, hnone]
      exact ih hs

theorem afterHeader_eq_some {p d : List UInt8} (h : afterHeader p = some d) :
    ∃ x, p = x ++ CRLFCRLF ++ d := by
  induction p with
  | nil => cases h
  | cons c rest ih =>
    rw [afterHeader] at h
    split at h
    · rename_i hpre
      obtain ⟨t, ht⟩ := hpre
      refine ⟨[], ?_⟩
      simp only [Option.some.injEq] at h
      have hdrop : (c :: rest).drop 4 = rest.drop 3 := rfl
      rw [← h, ← hdrop, ← ht]
      rfl
    · obtain ⟨x, hx⟩ := ih h
      exact ⟨c :: x, by rw [hx]; rfl⟩

theorem afterHeader_of_mark (x d : List UInt8) :
    ∃ x' d', afterHeader (x ++ CRLFCRLF ++ d) = some d' ∧
      x ++ CRLFCRLF ++ d = x' ++ CRLFCRLF ++ d' ∧ x'.length ≤ x.length := by
  induction x with
  | nil => exact ⟨[], d, rfl, rfl, Nat.le_refl _⟩
  | cons c x ih =>
    obtain ⟨x', d', hafter, heq, hle⟩ := ih
    rw [List.cons_append, List.cons_append, afterHeader]
    by_cases hpre : CRLFCRLF <+: c :: (x ++ CRLFCRLF ++ d)
    · rw [if_pos hpre]
      obtain ⟨t, ht⟩ := hpre
      refine ⟨[], _, rfl, ?_, Nat.zero_le _⟩
      have hdrop : (c :: (x ++ CRLFCRLF ++ d)).drop 4 = (x ++ CRLFCRLF ++ d).drop 3 := rfl
      rw [← hdrop, ← ht]
      rfl
    · rw [if_neg hpre]
      refine ⟨c :: x', d', hafter, ?_, by simpa using hle⟩
      rw [heq]
      rfl

theorem scan_eq_some {ps : List (List UInt8)} {d : List UInt8} (h : scan ps = some d) :
    ∃ a x e b, ps = a ++ (x ++ CRLFCRLF ++ e) :: b ∧ d = e ++ b.flatten := by
  induction ps with
  | nil => cases h
  | cons p ps ih =>
    rw [scan] at h
    split at h
    · rename_i e hsome
      obtain ⟨x, hx⟩ := afterHeader_eq_some hsome
      simp only [Option.some.injEq] at h
      exact ⟨[], x, e, ps, by rw [hx]; rfl, h.symm⟩
    · obtain ⟨a, x, e, b, hps, hd⟩ := ih h
      exact ⟨p :: a, x, e, b, by rw [hps]; rfl, hd⟩

/-- The pbufs of one chain hold the whole end of the header in one of them. -/
def HoldsEnd (hdr before : List UInt8) (ps : List (List UInt8)) : Prop :=
  ∃ a x d b, ps = a ++ (x ++ CRLFCRLF ++ d) :: b ∧ before ++ a.flatten ++ x ++ CRLFCRLF = hdr

theorem scan_of_short {hdr before : List UInt8} {ps : List (List UInt8)}
    (hfirst : EndsFirst CRLFCRLF hdr) (hpre : before ++ ps.flatten <+: hdr)
    (hlt : (before ++ ps.flatten).length < hdr.length) : scan ps = none := by
  cases hs : scan ps with
  | none => rfl
  | some d =>
    obtain ⟨a, x, e, b, rfl, _⟩ := scan_eq_some hs
    -- the header would end inside of these pbufs
    have hmark : before ++ a.flatten ++ x ++ CRLFCRLF <+: hdr := by
      apply List.IsPrefix.trans _ hpre
      exact ⟨e ++ b.flatten, by simp⟩
    have := hfirst.2 _ hmark (List.suffix_append _ _)
    rw [← this] at hlt
    simp only [List.flatten_append, List.flatten_cons, List.length_append] at hlt
    omega

theorem scan_of_holdsEnd {hdr before : List UInt8} {ps : List (List UInt8)} {e : List UInt8}
    (hfirst : EndsFirst CRLFCRLF hdr) (hstream : before ++ ps.flatten = hdr ++ e)
    (h : HoldsEnd hdr before ps) : scan ps = some e := by
  obtain ⟨a, x, d, b, rfl, hhdr⟩ := h
  have he : e = d ++ b.flatten := by
    have : hdr ++ e = hdr ++ (d ++ b.flatten) := by
      rw [← hstream, ← hhdr]
      simp
    exact List.append_cancel_left this
  rw [he]
  clear he hstream
  induction a generalizing before with
  | nil =>
    obtain ⟨x', d', hafter, heq, hle⟩ := afterHeader_of_mark x d
    rw [List.nil_append, scan, hafter]
    -- an earlier place would be an earlier end of the header
    have hd : d' = d := by
      have hpre : before ++ x' ++ CRLFCRLF <+: hdr := by
        have hfull : before ++ x' ++ CRLFCRLF <+: hdr ++ d := by
          refine ⟨d', ?_⟩
          rw [← hhdr, List.flatten_nil, List.append_nil, List.append_assoc, List.append_assoc,
            List.append_assoc, List.append_assoc, ← List.append_assoc x', ← heq,
            List.append_assoc]
        apply List.prefix_of_prefix_length_le hfull (List.prefix_append hdr d)
        rw [← hhdr]
        simp only [List.length_append, List.flatten_nil, List.length_nil]
        omega
      have hsame := hfirst.2 _ hpre (List.suffix_append _ _)
      have hlen := congrArg List.length heq
      have hlen' := congrArg List.length hsame
      rw [← hhdr] at hlen'
      simp only [List.length_append, List.flatten_nil, List.length_nil] at hlen hlen'
      have hx : x' = x := by
        rw [← hhdr] at hsame
        simpa using hsame
      rw [hx] at heq
      exact (List.append_cancel_left heq).symm
    rw [hd]
  | cons q a ih =>
    rw [List.cons_append, scan]
    have hq : afterHeader q = none := by
      cases hq : afterHeader q with
      | none => rfl
      | some f =>
        obtain ⟨y, rfl⟩ := afterHeader_eq_some hq
        have hpre : before ++ y ++ CRLFCRLF <+: hdr := by
          rw [← hhdr]
          exact ⟨f ++ (a.flatten ++ (x ++ CRLFCRLF)), by simp⟩
        have := congrArg List.length (hfirst.2 _ hpre (List.suffix_append _ _))
        rw [← hhdr] at this
        simp only [List.length_append, List.flatten_cons, CRLFCRLF, List.length_cons,
          List.length_nil] at this
        omega
    rw [hq]
    refine @ih (before ++ q) ?_
    rw [← hhdr]
    simp

theorem scan_of_not_holdsEnd {hdr before : List UInt8} {ps : List (List UInt8)}
    {e d : List UInt8} (hfirst : EndsFirst CRLFCRLF hdr)
    (hstream : before ++ ps.flatten = hdr ++ e) (h : ¬ HoldsEnd hdr before ps)
    (hs : scan ps = some d) : d.length < e.length := by
  obtain ⟨a, x, f, b, rfl, rfl⟩ := scan_eq_some hs
  have hpre : before ++ a.flatten ++ x ++ CRLFCRLF <+: hdr ++ e := by
    rw [← hstream]
    exact ⟨f ++ b.flatten, by simp⟩
  have hne : before ++ a.flatten ++ x ++ CRLFCRLF ≠ hdr := by
    intro heq
    exact h ⟨a, x, f, b, rfl, heq⟩
  have hlen := congrArg List.length hstream
  rcases List.prefix_or_prefix_of_prefix hpre (List.prefix_append hdr e) with hp | hp
  · exact absurd (hfirst.2 _ hp (List.suffix_append _ _)) hne
  · have hle := hp.length_le
    have hlt : hdr.length ≠ (before ++ a.flatten ++ x ++ CRLFCRLF).length := by
      intro heq
      exact hne (hp.eq_of_length heq).symm
    simp only [List.length_append, List.flatten_append, List.flatten_cons] at hlen hle hlt ⊢
    omega

/-! ## Browser windows -/

section

variable [NetConfig]

theorem deliver_of_done {w : World} (h : w.job.done = true) (pcb : Nat)
    (chains : List (List Pbuf)) : deliver pcb w chains = w := by
  cases chains with
  | nil => rfl
  | cons p rest => rw [deliver, if_pos h]

omit [NetConfig] in
theorem feeds_of_tracks {w : World} {r : Rx} (h : Tracks true w.job r) (hd : w.job.done = false)
    (hw : w.Browser) : w.feeds = true := by
  rw [feeds_iff]
  refine ⟨?_, hw⟩
  rw [h.running, hd]
  rfl

theorem recv_cb_body {w : World} {clen : Option Nat} {status : Int} {b : List UInt8}
    (h : Tracks true w.job (.body clen status b)) (hw : w.Browser) (pcb : Nat) (p : List Pbuf) :
    Tracks true (wget_recv_cb w pcb (some p) ERR_OK).1.job
        ((p.map Pbuf.payload).foldl Rx.push (.body clen status b)) ∧
      fed (wget_recv_cb w pcb (some p) ERR_OK).1.events = fed w.events ++ chainBytes p := by
  obtain ⟨hjob, hfed⟩ := feed_chain_body h.at_state.2.1 pcb p
  rw [wget_recv_cb_some, job_afterChain, fed_afterChain, fed_recv_chain,
    feeds_of_tracks h h.at_state.1 hw, if_pos rfl]
  refine ⟨tracks_recv_chain pcb (by rwa [hjob]) ?_ p, hfed⟩
  intro x hx
  cases hx

/-- The body goes on at the chains `post`, behind `b` bytes: the job is not over in front
of a chain with bytes. -/
def FeedsOn (clen : Option Nat) (b : Nat) (post : List (List Pbuf)) : Prop :=
  ∀ q r, post = q ++ r → streamOf r ≠ [] →
    b + (streamOf q).length ≤ WGET_MAX_FILE_SIZE ∧ NeverReached clen b (payloads q)

omit [NetConfig] in
theorem payloads_cons (p : List Pbuf) (rest : List (List Pbuf)) :
    payloads (p :: rest) = p.map Pbuf.payload ++ payloads rest := by
  unfold payloads
  rw [List.flatten_cons, List.map_append]

omit [NetConfig] in
theorem streamOf_cons (p : List Pbuf) (rest : List (List Pbuf)) :
    streamOf (p :: rest) = chainBytes p ++ streamOf rest := rfl

omit [NetConfig] in
theorem streamOf_append (q r : List (List Pbuf)) :
    streamOf (q ++ r) = streamOf q ++ streamOf r := by
  unfold streamOf
  rw [List.map_append, List.flatten_append]

omit [NetConfig] in
theorem NeverReached.append_iff {clen : Option Nat} {b : Nat} {ps qs : List (List UInt8)} :
    NeverReached clen b (ps ++ qs) ↔
      NeverReached clen b ps ∧ NeverReached clen (b + ps.flatten.length) qs := by
  constructor
  · intro h
    refine ⟨fun n hn he => h n hn (he.append qs), ?_⟩
    intro n hn he
    rw [Nat.add_assoc]
    exact h _ (by omega) (ends_append.mpr (Or.inr ⟨n, rfl, he⟩))
  · intro ⟨h, h'⟩ n hn he
    rcases ends_append.mp he with hps | ⟨m, rfl, hqs⟩
    · exact h n hn hps
    · rw [← Nat.add_assoc]
      cases Nat.eq_zero_or_pos m with
      | inl h0 =>
        rw [h0] at hn ⊢
        exact h _ hn (ends_all ps)
      | inr h0 => exact h' m h0 hqs

theorem feedsOn_cons {clen : Option Nat} {b : Nat} {p : List Pbuf} {rest : List (List Pbuf)}
    (hb : b + (chainBytes p).length ≤ WGET_MAX_FILE_SIZE)
    (hn : NeverReached clen b (p.map Pbuf.payload)) :
    FeedsOn clen b (p :: rest) ↔ FeedsOn clen (b + (chainBytes p).length) rest := by
  constructor
  · intro h q r hqr hr
    obtain ⟨hfits, hnever⟩ := h (p :: q) r (by rw [hqr]; rfl) hr
    rw [streamOf_cons, List.length_append] at hfits
    rw [payloads_cons, NeverReached.append_iff] at hnever
    exact ⟨by omega, hnever.2⟩
  · intro h q r hqr hr
    cases q with
    | nil =>
      refine ⟨by rw [show streamOf [] = [] from rfl, List.length_nil]; omega, ?_⟩
      intro n hpos hends
      have := ends_nil.mp hends
      omega
    | cons q' q =>
      rw [List.cons_append, List.cons.injEq] at hqr
      obtain ⟨rfl, hqr⟩ := hqr
      obtain ⟨hfits, hnever⟩ := h q r hqr hr
      rw [streamOf_cons, List.length_append, payloads_cons, NeverReached.append_iff]
      exact ⟨by omega, hn, hnever⟩

theorem feedsOn_cons_of_over {clen : Option Nat} {b : Nat} {p : List Pbuf}
    {rest : List (List Pbuf)} (hb : b ≤ WGET_MAX_FILE_SIZE)
    (hover : ¬ (b + (chainBytes p).length ≤ WGET_MAX_FILE_SIZE ∧
      NeverReached clen b (p.map Pbuf.payload))) :
    FeedsOn clen b (p :: rest) ↔ streamOf rest = [] := by
  constructor
  · intro h
    cases hs : streamOf rest with
    | nil => rfl
    | cons c t =>
      obtain ⟨hfits, hnever⟩ := h [p] rest rfl (by rw [hs]; simp)
      refine absurd ⟨?_, ?_⟩ hover
      · simpa [streamOf] using hfits
      · simpa [payloads] using hnever
  · intro hs q r hqr hr
    cases q with
    | nil =>
      refine ⟨hb, ?_⟩
      intro n hpos hends
      have := ends_nil.mp hends
      omega
    | cons q' q =>
      rw [List.cons_append, List.cons.injEq] at hqr
      rw [hqr.2, streamOf_append, List.append_eq_nil_iff] at hs
      exact absurd hs.2 hr

theorem fed_deliver_body {w : World} {clen : Option Nat} {status : Int} {b : List UInt8}
    (h : Tracks true w.job (.body clen status b)) (hb : b.length ≤ WGET_MAX_FILE_SIZE)
    (hw : w.Browser) (pcb : Nat) (post : List (List Pbuf)) :
    ∃ f, fed (deliver pcb w post).events = fed w.events ++ f ∧ f <+: streamOf post ∧
      (f = streamOf post ↔ FeedsOn clen b.length post) := by
  induction post generalizing w b with
  | nil =>
    refine ⟨[], by simp [deliver], List.prefix_refl _, ?_⟩
    refine ⟨fun _ q r hqr hr => ?_, fun _ => rfl⟩
    have hnil := List.append_eq_nil_iff.mp hqr.symm
    rw [hnil.2] at hr
    exact absurd rfl hr
  | cons p rest ih =>
    obtain ⟨htracks, hfed⟩ := recv_cb_body h hw pcb p
    have hwin := (sameWindow_recv_cb w pcb p).browser_iff.mpr hw
    rw [deliver, if_neg (by rw [h.at_state.1]; exact Bool.false_ne_true)]
    have hflat : (p.map Pbuf.payload).flatten = chainBytes p := rfl
    have hrun := bodyRun clen status b (p.map Pbuf.payload) hb
    generalize (p.map Pbuf.payload).foldl Rx.push (.body clen status b) = r at htracks hrun
    -- the job is over behind this chain
    have hover : (wget_recv_cb w pcb (some p) ERR_OK).1.job.done = true →
        ¬ (b.length + (chainBytes p).length ≤ WGET_MAX_FILE_SIZE ∧
          NeverReached clen b.length (p.map Pbuf.payload)) →
        ∃ f, fed (deliver pcb (wget_recv_cb w pcb (some p) ERR_OK).1 rest).events =
            fed w.events ++ f ∧ f <+: streamOf (p :: rest) ∧
          (f = streamOf (p :: rest) ↔ FeedsOn clen b.length (p :: rest)) := by
      intro hd hno
      rw [deliver_of_done hd, hfed]
      refine ⟨chainBytes p, rfl, List.prefix_append _ _, ?_⟩
      rw [feedsOn_cons_of_over hb hno, streamOf_cons, List.self_eq_append_right]
    cases hrun with
    | finished n hn hfits =>
      exact hover htracks.at_state.1 (fun hno => hno.2.not_completes hn)
    | failed k hk hn hfits =>
      refine hover htracks.at_state.1 (fun hno => ?_)
      rw [hflat] at hfits
      omega
    | body hn hfits =>
      rw [hflat] at htracks hfits
      obtain ⟨f, hf, hpre, hiff⟩ := ih htracks (by rw [List.length_append]; omega) hwin
      refine ⟨chainBytes p ++ f, ?_, ?_, ?_⟩
      · rw [hf, hfed, List.append_assoc]
      · rw [streamOf_cons]
        exact (List.prefix_append_right_inj _).mpr hpre
      · rw [streamOf_cons, List.append_cancel_left_eq, hiff, feedsOn_cons hfits hn,
          List.length_append]

/-- The header is read, or the job is over. -/
def Rx.Past (r : Rx) : Prop := ∀ x, r ≠ .header x

/-- The body in the buffer is not too long. -/
def Rx.Small (r : Rx) : Prop :=
  ∀ clen status b, r = .body clen status b → b.length ≤ WGET_MAX_FILE_SIZE

theorem fed_deliver_past {w : World} {r : Rx} (h : Tracks true w.job r) (hp : r.Past) (hs : r.Small)
    (hw : w.Browser) (pcb : Nat) (post : List (List Pbuf)) :
    ∃ f, fed (deliver pcb w post).events = fed w.events ++ f ∧ f <+: streamOf post := by
  cases r with
  | header x => exact absurd rfl (hp x)
  | body clen status b =>
    obtain ⟨f, hf, hpre, _⟩ := fed_deliver_body h (hs _ _ _ rfl) hw pcb post
    exact ⟨f, hf, hpre⟩
  | failed b =>
    rw [deliver_of_done h.at_state.1]
    exact ⟨[], by simp, List.nil_prefix⟩
  | finished b =>
    rw [deliver_of_done h.at_state.1]
    exact ⟨[], by simp, List.nil_prefix⟩

omit [NetConfig] in
theorem past_of_body {clen : Option Nat} {status : Int} {b : List UInt8} :
    (Rx.body clen status b).Past := fun _ h => nomatch h

theorem bodyRun_past {clen : Option Nat} {status : Int} {b : List UInt8}
    {ps : List (List UInt8)} {r : Rx} (h : BodyRun clen status b ps r) : r.Past ∧ r.Small := by
  cases h with
  | finished n hn hfits => exact ⟨fun _ hx => (nomatch hx), fun _ _ _ hx => (nomatch hx)⟩
  | failed k hk hn hfits => exact ⟨fun _ hx => (nomatch hx), fun _ _ _ hx => (nomatch hx)⟩
  | body hn hfits =>
    refine ⟨past_of_body, ?_⟩
    intro c s b' hx
    cases hx
    rwa [List.length_append]

theorem recv_cb_header {w : World} {h : List UInt8} (ht : Tracks true w.job (.header h))
    (hr : (Rx.header h).Fits) (hw : w.Browser) (pcb : Nat) (p : List Pbuf) :
    match scan (p.map Pbuf.payload) with
    | none =>
      Tracks true (wget_recv_cb w pcb (some p) ERR_OK).1.job
          ((p.map Pbuf.payload).foldl Rx.push (.header h)) ∧
        fed (wget_recv_cb w pcb (some p) ERR_OK).1.events = fed w.events
    | some d =>
      Tracks true (wget_recv_cb w pcb (some p) ERR_OK).1.job
          ((p.map Pbuf.payload).foldl Rx.push (.body none w.job.http_status [])) ∧
        fed (wget_recv_cb w pcb (some p) ERR_OK).1.events = fed w.events ++ d := by
  have hhdr := ht.at_state.2.1
  rw [wget_recv_cb_some, job_afterChain, fed_afterChain, fed_recv_chain,
    feeds_of_tracks ht ht.at_state.1 hw, if_pos rfl]
  cases hs : scan (p.map Pbuf.payload) with
  | none =>
    rw [feed_chain_none hhdr pcb hs]
    exact ⟨tracks_recv_chain pcb ht hr p, rfl⟩
  | some d =>
    obtain ⟨hjob, hfed⟩ := feed_chain_some hhdr pcb hs
    refine ⟨tracks_recv_chain pcb ?_ (by intro x hx; cases hx) p, hfed⟩
    rw [hjob]
    refine ⟨ht.saved, ht.running, ht.at_state.1, rfl, ?_, rfl⟩
    unfold Job.clen
    rw [if_neg (by rw [ht.at_state.2.2.1]; exact Bool.false_ne_true)]

theorem foldl_header_short {h hdr : List UInt8} {ps : List (List UInt8)}
    (hfirst : EndsFirst CRLFCRLF hdr) (hpre : h ++ ps.flatten <+: hdr)
    (hlt : (h ++ ps.flatten).length < hdr.length) (hh : h.length < WGET_HEADER_MAX) :
    ps.foldl Rx.push (.header h) =
      if (h ++ ps.flatten).length < WGET_HEADER_MAX then .header (h ++ ps.flatten)
      else .failed [] := by
  induction ps generalizing h with
  | nil => simp [hh]
  | cons p ps ih =>
    rw [List.flatten_cons, ← List.append_assoc] at hpre hlt ⊢
    have hp : h ++ p <+: hdr := (List.prefix_append _ _).trans hpre
    have hplt : (h ++ p).length < hdr.length := by
      rw [List.length_append] at hlt
      omega
    rw [List.foldl_cons, Rx.push, splitMark_of_short hfirst hp hplt]
    dsimp only
    rw [← List.length_append]
    by_cases hmax : (h ++ p).length < WGET_HEADER_MAX
    · rw [if_pos hmax, ih hpre hlt hmax]
    · rw [if_neg hmax, foldl_push_failed, if_neg]
      rw [List.length_append]
      omega

/-- The chain `p` behind the bytes `before` holds the end of the header, in one pbuf or at
its own end, and the job goes on as long as there are bytes. -/
def FeedsFrom (hdr before : List UInt8) (p : List Pbuf) (post : List (List Pbuf)) : Prop :=
  HoldsEnd hdr before (p.map Pbuf.payload) ∧ FeedsOn none (chainBytes p).length post ∨
    ¬ HoldsEnd hdr before (p.map Pbuf.payload) ∧ before ++ chainBytes p = hdr ∧
      hdr.length < WGET_HEADER_MAX ∧ FeedsOn (contentLength? hdr) 0 post

omit [NetConfig] in
theorem neverReached_none (b : Nat) (ps : List (List UInt8)) : NeverReached none b ps := by
  rintro _ _ _ ⟨_, h, _⟩
  cases h

section

variable {w : World} {h hdr e : List UInt8} {p : List Pbuf} (hfirst : EndsFirst CRLFCRLF hdr)
  (ht : Tracks true w.job (.header h)) (hh : h.length < WGET_HEADER_MAX) (hw : w.Browser)
  (pcb : Nat)

include ht hh hw

theorem deliver_header (p : List Pbuf) (post : List (List Pbuf)) :
    ∃ v, deliver pcb w (p :: post) = deliver pcb v post ∧ v.Browser ∧
      match scan (p.map Pbuf.payload) with
      | none => Tracks true v.job ((p.map Pbuf.payload).foldl Rx.push (.header h)) ∧
          fed v.events = fed w.events
      | some d => Tracks true v.job
            ((p.map Pbuf.payload).foldl Rx.push (.body none w.job.http_status [])) ∧
          fed v.events = fed w.events ++ d := by
  refine ⟨(wget_recv_cb w pcb (some p) ERR_OK).1, ?_,
    (sameWindow_recv_cb w pcb p).browser_iff.mpr hw,
    recv_cb_header ht (fun x hx => by cases hx; exact hh) hw pcb p⟩
  rw [deliver, if_neg (by rw [ht.at_state.1]; exact Bool.false_ne_true)]

include hfirst

theorem deliver_before (pre : List (List Pbuf)) (hpre : h ++ streamOf pre <+: hdr)
    (hlt : (h ++ streamOf pre).length < hdr.length) (rest : List (List Pbuf)) :
    ∃ v, deliver pcb w (pre ++ rest) = deliver pcb v rest ∧ fed v.events = fed w.events ∧
      v.Browser ∧
      if (h ++ streamOf pre).length < WGET_HEADER_MAX then Tracks true v.job (.header (h ++ streamOf pre))
      else v.job.done = true := by
  induction pre generalizing w h with
  | nil =>
    refine ⟨w, rfl, rfl, hw, ?_⟩
    simpa [streamOf, hh] using ht
  | cons p pre ih =>
    rw [streamOf_cons, ← List.append_assoc] at hpre hlt ⊢
    have hp : h ++ chainBytes p <+: hdr := (List.prefix_append _ _).trans hpre
    have hplt : (h ++ chainBytes p).length < hdr.length := by
      rw [List.length_append] at hlt
      omega
    obtain ⟨u, hu, hwin, hcb⟩ := deliver_header ht hh hw pcb p (pre ++ rest)
    rw [scan_of_short hfirst hp hplt] at hcb
    obtain ⟨htracks, hfed⟩ := hcb
    rw [List.cons_append, hu]
    rw [foldl_header_short hfirst hp hplt hh] at htracks
    have hflat : (p.map Pbuf.payload).flatten = chainBytes p := rfl
    rw [hflat] at htracks
    by_cases hmax : (h ++ chainBytes p).length < WGET_HEADER_MAX
    · rw [if_pos hmax] at htracks
      obtain ⟨v, hv, hfv, hwv, hstate⟩ := ih htracks hmax hwin hpre hlt
      exact ⟨v, hv, hfv.trans hfed, hwv, hstate⟩
    · rw [if_neg hmax] at htracks
      refine ⟨_, ?_, hfed, hwin, ?_⟩
      · rw [deliver_of_done htracks.at_state.1, deliver_of_done htracks.at_state.1]
      · rw [if_neg]
        · exact htracks.at_state.1
        · rw [List.length_append]
          omega

theorem fed_holdsEnd (hstream : h ++ chainBytes p = hdr ++ e)
    (hend : HoldsEnd hdr h (p.map Pbuf.payload)) (post : List (List Pbuf)) :
    ∃ f, fed (deliver pcb w (p :: post)).events = fed w.events ++ (e ++ f) ∧
      f <+: streamOf post ∧ (f = streamOf post ↔ FeedsOn none (chainBytes p).length post) := by
  obtain ⟨v, hv, hwin, hcb⟩ := deliver_header ht hh hw pcb p post
  rw [scan_of_holdsEnd hfirst hstream hend] at hcb
  obtain ⟨htracks, hfed⟩ := hcb
  rw [hv]
  have hrun := bodyRun none w.job.http_status [] (p.map Pbuf.payload) (Nat.zero_le _)
  have hflat : (p.map Pbuf.payload).flatten = chainBytes p := rfl
  generalize (p.map Pbuf.payload).foldl Rx.push (.body none w.job.http_status []) = r
    at htracks hrun
  cases hrun with
  | finished n hn hfits => exact absurd hn (neverReached_none _ _).not_completes
  | body hn hfits =>
    rw [hflat, List.nil_append] at htracks
    rw [hflat, List.length_nil, Nat.zero_add] at hfits
    obtain ⟨f, hf, hpre, hiff⟩ := fed_deliver_body htracks hfits hwin pcb post
    exact ⟨f, by rw [hf, hfed, List.append_assoc], hpre, hiff⟩
  | failed k hk hn hfits =>
    rw [hflat, List.length_nil, Nat.zero_add] at hfits
    rw [deliver_of_done htracks.at_state.1, hfed]
    refine ⟨[], by simp, List.nil_prefix, ?_⟩
    constructor
    · intro h0 q r hqr hr
      rw [hqr, streamOf_append, eq_comm, List.append_eq_nil_iff] at h0
      exact absurd h0.2 hr
    · intro hon
      cases hs : streamOf post with
      | nil => rfl
      | cons c t =>
        obtain ⟨hle, _⟩ := hon [] post rfl (by rw [hs]; simp)
        omega

theorem fed_cut_end (hlt : h.length < hdr.length) (hstream : h ++ chainBytes p = hdr)
    (hend : ¬ HoldsEnd hdr h (p.map Pbuf.payload)) (post : List (List Pbuf)) :
    ∃ f, fed (deliver pcb w (p :: post)).events = fed w.events ++ f ∧
      f <+: streamOf post ∧
      (f = streamOf post ↔ streamOf post = [] ∨
        hdr.length < WGET_HEADER_MAX ∧ FeedsOn (contentLength? hdr) 0 post) := by
  obtain ⟨v, hv, hwin, hcb⟩ := deliver_header ht hh hw pcb p post
  have hflat : (p.map Pbuf.payload).flatten = chainBytes p := rfl
  have hnil : h ++ (p.map Pbuf.payload).flatten = hdr ++ [] := by
    rw [hflat, hstream, List.append_nil]
  have hscan : scan (p.map Pbuf.payload) = none := by
    cases hs : scan (p.map Pbuf.payload) with
    | none => rfl
    | some d =>
      have := scan_of_not_holdsEnd hfirst hnil hend hs
      exact absurd this (Nat.not_lt_zero _)
  rw [hscan] at hcb
  obtain ⟨htracks, hfed⟩ := hcb
  rw [hv]
  by_cases hmax : hdr.length < WGET_HEADER_MAX
  · obtain ⟨pieces, hrun, hpieces, hends⟩ := foldl_header hfirst hnil hlt hmax
    rw [hrun] at htracks
    have hbody := bodyRun (contentLength? hdr) (parse_http_status_code hdr) [] pieces
      (Nat.zero_le _)
    generalize pieces.foldl Rx.push
      (.body (contentLength? hdr) (parse_http_status_code hdr) []) = r at htracks hbody
    cases hbody with
    | finished n hn hfits =>
      have := hn.2.1.le
      rw [hpieces, List.length_nil] at this
      have := hn.1
      omega
    | failed k hk hn hfits =>
      rw [hpieces] at hk
      exact absurd hk (Nat.not_lt_zero _)
    | body hn hfits =>
      rw [hpieces] at htracks
      obtain ⟨f, hf, hpre, hiff⟩ := fed_deliver_body htracks (Nat.zero_le _) hwin pcb post
      refine ⟨f, by rw [hf, hfed], hpre, ?_⟩
      rw [hiff]
      constructor
      · intro hon
        exact Or.inr ⟨hmax, hon⟩
      · rintro (h0 | ⟨_, hon⟩)
        · intro q r hqr hr
          rw [hqr, streamOf_append, List.append_eq_nil_iff] at h0
          exact absurd h0.2 hr
        · exact hon
  · rw [foldl_header_big hfirst hnil hlt hh (by omega)] at htracks
    rw [deliver_of_done htracks.at_state.1, hfed]
    refine ⟨[], by simp, List.nil_prefix, ?_⟩
    constructor
    · intro h0
      exact Or.inl h0.symm
    · rintro (h0 | ⟨hlen, _⟩)
      · exact h0.symm
      · exact absurd hlen hmax

theorem fed_cut_inside (hlt : h.length < hdr.length) (hstream : h ++ chainBytes p = hdr ++ e)
    (he : e ≠ [])
    (hend : ¬ HoldsEnd hdr h (p.map Pbuf.payload)) (post : List (List Pbuf)) :
    ∃ f, fed (deliver pcb w (p :: post)).events = fed w.events ++ f ∧
      f.length < e.length + (streamOf post).length := by
  obtain ⟨v, hv, hwin, hcb⟩ := deliver_header ht hh hw pcb p post
  have hpos : 0 < e.length := List.length_pos_of_ne_nil he
  rw [hv]
  cases hs : scan (p.map Pbuf.payload) with
  | some d =>
    rw [hs] at hcb
    obtain ⟨htracks, hfed⟩ := hcb
    have hshort := scan_of_not_holdsEnd hfirst hstream hend hs
    have hpast := bodyRun_past
      (bodyRun none w.job.http_status [] (p.map Pbuf.payload) (Nat.zero_le _))
    obtain ⟨f, hf, hpre⟩ := fed_deliver_past htracks hpast.1 hpast.2 hwin pcb post
    refine ⟨d ++ f, by rw [hf, hfed, List.append_assoc], ?_⟩
    have := hpre.length_le
    rw [List.length_append]
    omega
  | none =>
    rw [hs] at hcb
    obtain ⟨htracks, hfed⟩ := hcb
    by_cases hmax : hdr.length < WGET_HEADER_MAX
    · obtain ⟨pieces, hrun, _, _⟩ := foldl_header hfirst hstream hlt hmax
      rw [hrun] at htracks
      have hpast := bodyRun_past
        (bodyRun (contentLength? hdr) (parse_http_status_code hdr) [] pieces (Nat.zero_le _))
      obtain ⟨f, hf, hpre⟩ := fed_deliver_past htracks hpast.1 hpast.2 hwin pcb post
      refine ⟨f, by rw [hf, hfed], ?_⟩
      have := hpre.length_le
      omega
    · rw [foldl_header_big hfirst hstream hlt hh (by omega)] at htracks
      rw [deliver_of_done htracks.at_state.1]
      refine ⟨[], by rw [hfed, List.append_nil], ?_⟩
      rw [List.length_nil]
      omega

end

omit [NetConfig] in
theorem exists_turn {n : Nat} (before : Nat) (chains : List (List Pbuf)) (hlt : before < n)
    (hle : n ≤ before + (streamOf chains).length) :
    ∃ pre p post, chains = pre ++ p :: post ∧ before + (streamOf pre).length < n ∧
      n ≤ before + (streamOf pre).length + (chainBytes p).length := by
  induction chains generalizing before with
  | nil =>
    have : (streamOf []).length = 0 := rfl
    omega
  | cons p rest ih =>
    rw [streamOf_cons, List.length_append] at hle
    by_cases hp : n ≤ before + (chainBytes p).length
    · exact ⟨[], p, rest, rfl, by simpa [streamOf] using hlt, by simpa [streamOf] using hp⟩
    · obtain ⟨pre, q, post, rfl, h1, h2⟩ :=
        ih (before + (chainBytes p).length) (by omega) (by omega)
      refine ⟨p :: pre, q, post, rfl, ?_, ?_⟩
      · rw [streamOf_cons, List.length_append]
        omega
      · rw [streamOf_cons, List.length_append]
        omega

/-- The pbufs of a response bring its body to the browser: there is none, or the chain in
which the header ends is as `FeedsFrom` says and what comes before it fits the buffer. -/
def FeedsAll (hdr body : List UInt8) (chains : List (List Pbuf)) : Prop :=
  body = [] ∨
    ∃ pre p post, chains = pre ++ p :: post ∧ (streamOf pre).length < hdr.length ∧
      hdr.length ≤ (streamOf pre).length + (chainBytes p).length ∧
      (streamOf pre).length < WGET_HEADER_MAX ∧ FeedsFrom hdr (streamOf pre) p post

theorem fed_turn {w : World} (hw : Fresh w) (hwin : w.Browser) (pcb : Nat)
    {hdr body : List UInt8} (hfirst : EndsFirst CRLFCRLF hdr) {pre post : List (List Pbuf)}
    {p : List Pbuf} (hstream : streamOf (pre ++ p :: post) = hdr ++ body)
    (hbefore : (streamOf pre).length < hdr.length)
    (hbehind : hdr.length ≤ (streamOf pre).length + (chainBytes p).length) :
    ∃ f, fed (deliver pcb w (pre ++ p :: post)).events = fed w.events ++ f ∧
      (f = body ↔ body = [] ∨
        (streamOf pre).length < WGET_HEADER_MAX ∧ FeedsFrom hdr (streamOf pre) p post) := by
  rw [streamOf_append, streamOf_cons] at hstream
  have hpre : streamOf pre <+: hdr :=
    List.prefix_of_prefix_length_le ⟨_, hstream⟩ (List.prefix_append hdr body) (by omega)
  obtain ⟨v, hv, hfv, hwv, hstate⟩ :=
    deliver_before hfirst hw.tracks (by decide) hwin pcb pre hpre hbefore (p :: post)
  rw [List.nil_append] at hstate
  rw [hv, ← hfv]
  by_cases hmax : (streamOf pre).length < WGET_HEADER_MAX
  · rw [if_pos hmax] at hstate
    simp only [hmax, true_and]
    -- the part `e` of the body in the chain `p`
    obtain ⟨e, he⟩ : ∃ e, streamOf pre ++ chainBytes p = hdr ++ e := by
      have : hdr <+: streamOf pre ++ chainBytes p := by
        apply List.prefix_of_prefix_length_le (List.prefix_append hdr body)
        · exact ⟨streamOf post, by rw [← hstream, List.append_assoc]⟩
        · rw [List.length_append]
          omega
      obtain ⟨e, he⟩ := this
      exact ⟨e, he.symm⟩
    have hbody : body = e ++ streamOf post := by
      rw [← List.append_assoc, he, List.append_assoc] at hstream
      exact (List.append_cancel_left hstream).symm
    unfold FeedsFrom
    by_cases hend : HoldsEnd hdr (streamOf pre) (p.map Pbuf.payload)
    · obtain ⟨f, hf, hfpre, hiff⟩ := fed_holdsEnd hfirst hstate hmax hwv pcb he hend post
      refine ⟨e ++ f, hf, ?_⟩
      rw [hbody, List.append_cancel_left_eq, hiff]
      constructor
      · intro hon
        exact Or.inr (Or.inl ⟨hend, hon⟩)
      · rintro (h0 | ⟨_, hon⟩ | ⟨hno, _⟩)
        · rw [List.append_eq_nil_iff] at h0
          apply hiff.mp
          rw [h0.2] at hfpre ⊢
          exact List.prefix_nil.mp hfpre
        · exact hon
        · exact absurd hend hno
    · by_cases he0 : e = []
      · rw [he0, List.append_nil] at he
        rw [he0, List.nil_append] at hbody
        obtain ⟨f, hf, _, hiff⟩ := fed_cut_end hfirst hstate hmax hwv pcb hbefore he hend post
        refine ⟨f, hf, ?_⟩
        rw [hbody, hiff]
        constructor
        · rintro (h0 | ⟨hlen, hon⟩)
          · exact Or.inl h0
          · exact Or.inr (Or.inr ⟨hend, he, hlen, hon⟩)
        · rintro (h0 | ⟨hyes, _⟩ | ⟨_, _, hlen, hon⟩)
          · exact Or.inl h0
          · exact absurd hyes hend
          · exact Or.inr ⟨hlen, hon⟩
      · obtain ⟨f, hf, hlt⟩ := fed_cut_inside hfirst hstate hmax hwv pcb hbefore he he0 hend post
        refine ⟨f, hf, ?_⟩
        constructor
        · intro h0
          rw [h0, hbody, List.length_append] at hlt
          omega
        · rintro (h0 | ⟨hyes, _⟩ | ⟨_, heq, _⟩)
          · rw [hbody, List.append_eq_nil_iff] at h0
            exact absurd h0.1 he0
          · exact absurd hyes hend
          · rw [he] at heq
            exact absurd (List.append_right_eq_self.mp heq) he0
  · rw [if_neg hmax] at hstate
    rw [deliver_of_done hstate]
    refine ⟨[], by simp, ?_⟩
    simp only [hmax, false_and, or_false]
    exact eq_comm

theorem fed_iff {w : World} (hw : Fresh w) (hwin : w.Browser) (pcb : Nat)
    {hdr body : List UInt8} (hfirst : EndsFirst CRLFCRLF hdr) {chains : List (List Pbuf)}
    (hstream : streamOf chains = hdr ++ body) :
    fed (deliver pcb w chains).events = fed w.events ++ body ↔ FeedsAll hdr body chains := by
  obtain ⟨pre, p, post, rfl, h1, h2⟩ := exists_turn 0 chains (length_pos_of_endsFirst hfirst)
    (by rw [hstream, List.length_append]; omega)
  rw [Nat.zero_add] at h1 h2
  obtain ⟨f, hf, hiff⟩ := fed_turn hw hwin pcb hfirst hstream h1 h2
  constructor
  · intro h
    rw [hf, List.append_cancel_left_eq, hiff] at h
    rcases h with h | ⟨h3, h4⟩
    · exact Or.inl h
    · exact Or.inr ⟨pre, p, post, rfl, h1, h2, h3, h4⟩
  · rintro (h | ⟨pre', p', post', heq, h1', h2', h3, h4⟩)
    · rw [hf, hiff.mpr (Or.inl h)]
    · rw [heq] at hstream ⊢
      obtain ⟨f', hf', hiff'⟩ := fed_turn hw hwin pcb hfirst hstream h1' h2'
      rw [hf', hiff'.mpr (Or.inr ⟨h3, h4⟩)]

/-- For every response and every cut of its bytes into chains: a normal window saves the
body if and only if `SavesAll` holds, and a window of the browser gets it if and only if
`FeedsAll` does. -/
theorem body_arrives_iff {w : World} (hw : Fresh w) (pcb : Nat) {hdr body : List UInt8}
    (hfirst : EndsFirst CRLFCRLF hdr) (chains : List (List Pbuf))
    (hstream : streamOf chains = hdr ++ body) :
    (¬ w.Browser → ((deliver pcb w chains).job.body = body ↔ SavesAll hdr body chains)) ∧
      (w.Browser →
        (fed (deliver pcb w chains).events = fed w.events ++ body ↔
          FeedsAll hdr body chains)) :=
  ⟨fun hwin => saved_iff hw hwin pcb hfirst hstream,
    fun hwin => fed_iff hw hwin pcb hfirst hstream⟩

end

/-! ## A cut end of the header -/

/-- The emulated board. Its downloads below go to addresses that DNS gave. -/
@[reducible]
def qemuNet : NetConfig where
  WGET_MAX_FILE_SIZE := 1024 * 1024
  ipaddr_aton := fun _ => none

/-- A job of the window 0, of the given kind, whose request was sent. -/
def startedWorld (kind : Nat) : World where
  job := { Job.zero with pcb := some 0, active := true, stage := .recv }
  wins := fun _ => kind
  tls_conf := false
  local_port := 10001
  pcbs := 1
  queries := 0
  events := []

theorem fresh_startedWorld (kind : Nat) : Fresh (startedWorld kind) :=
  ⟨rfl, rfl, rfl, rfl, rfl, rfl⟩

theorem browser_startedWorld : (startedWorld WINDOW_KIND_NETSURF).Browser :=
  ⟨Int.le_refl 0, rfl, rfl⟩

def okHeader : List UInt8 := ascii "HTTP/1.0 200 OK\r\n\r\n"
def okBody : List UInt8 := ascii "<p>"

theorem endsFirst_okHeader : EndsFirst CRLFCRLF okHeader := by
  have h : splitMark CRLFCRLF [] okHeader = some (okHeader, []) := by decide
  exact (splitMark_nil_eq_some CRLFCRLF_ne_nil h).2

/-- The response in one pbuf, and with a cut in front of the last byte of the header. -/
def wholeChains : List (List Pbuf) := [[⟨okHeader ++ okBody, by decide⟩]]
def cutChains : List (List Pbuf) :=
  [[⟨okHeader.dropLast, by decide⟩], [⟨10 :: okBody, by decide⟩]]

/-- The theorem, for the response in one pbuf. -/
theorem body_arrives_whole :
    (¬ (startedWorld 0).Browser →
      ((@deliver qemuNet 0 (startedWorld 0) wholeChains).job.body = okBody ↔
        @SavesAll qemuNet okHeader okBody wholeChains)) ∧
    ((startedWorld 0).Browser →
      (fed (@deliver qemuNet 0 (startedWorld 0) wholeChains).events =
          fed (startedWorld 0).events ++ okBody ↔ @FeedsAll qemuNet okHeader okBody wholeChains)) :=
  @body_arrives_iff qemuNet (startedWorld 0) (fresh_startedWorld 0) 0 okHeader okBody
    endsFirst_okHeader wholeChains (by decide)

/-- The same response, with the same bytes: the browser gets its page from one pbuf, and
nothing of it when the end of the header is cut. -/
theorem cut_end_loses_page :
    streamOf wholeChains = okHeader ++ okBody ∧ streamOf cutChains = okHeader ++ okBody ∧
      EndsFirst CRLFCRLF okHeader ∧ (startedWorld WINDOW_KIND_NETSURF).Browser ∧
      fed (@deliver qemuNet 0 (startedWorld WINDOW_KIND_NETSURF) wholeChains).events = okBody ∧
      fed (@deliver qemuNet 0 (startedWorld WINDOW_KIND_NETSURF) cutChains).events ≠ okBody := by
  refine ⟨by decide, by decide, endsFirst_okHeader, browser_startedWorld, ?_, ?_⟩
  · decide
  · decide

end vibeos.wget
