-- Every run keeps the rules of lwIP for connections, as long as no response is too big
-- for the buffers of the job and no connect fails with another error than an abort.
import Vibeos.WgetCalls

namespace vibeos.wget

open vibeos.fs vibeos.Segments

section

variable [NetConfig]

/-! ## Responses that are too big -/

/-- A pbuf ends behind the end of the file buffer, and no pbuf in front of it ends where
the length is reached. The body has `b` bytes already, and `skip` bytes come first. -/
def BodyTooBig (clen : Option Nat) (b skip : Nat) (ps : List (List UInt8)) : Prop :=
  ∃ n, Ends ps (skip + n) ∧ WGET_MAX_FILE_SIZE < b + n ∧
    ∀ m, 0 < m → m < n → Ends ps (skip + m) → ¬ Reached clen (b + m)

/-- The pbufs are too much for the header buffer or the file buffer of the job. -/
def TooBig (j : Job) (ps : List (List UInt8)) : Prop :=
  if j.header_done then BodyTooBig j.clen j.body.length 0 ps
  else
    match splitMark CRLFCRLF j.header ps.flatten with
    | none => WGET_HEADER_MAX ≤ j.header.length + ps.flatten.length
    | some (hdr, _) =>
      WGET_HEADER_MAX ≤ hdr.length ∨
        BodyTooBig (contentLength? hdr) 0 (hdr.length - j.header.length) ps

theorem bodyTooBig_of_bodyRun {clen : Option Nat} {status : Int} {b c : List UInt8}
    {ps : List (List UInt8)} (h : BodyRun clen status b ps (.failed c)) :
    BodyTooBig clen b.length 0 ps := by
  generalize hr : Rx.failed c = r at h
  cases h with
  | finished n hn hfits => cases hr
  | body hn hfits => cases hr
  | failed k hk hn hfits =>
    by_cases hex : ∃ n, 0 < n ∧ Ends ps n ∧ Reached clen (b.length + n)
    · -- the first end where the length is reached is behind the buffer
      classical
      have hspec := Nat.find_spec hex
      refine ⟨Nat.find hex, by simpa using hspec.2.1, ?_, ?_⟩
      · apply hn
        refine ⟨hspec.1, hspec.2.1, hspec.2.2, ?_⟩
        intro m hm hlt hem hrm
        exact Nat.find_min hex hlt ⟨hm, hem, hrm⟩
      · intro m hm hlt hem hrm
        rw [Nat.zero_add] at hem
        exact Nat.find_min hex hlt ⟨hm, hem, hrm⟩
    · refine ⟨ps.flatten.length, by simpa using ends_all ps, hfits, ?_⟩
      intro m hm _ hem hrm
      rw [Nat.zero_add] at hem
      exact hex ⟨m, hm, hem, hrm⟩

omit [NetConfig] in
theorem ends_cons_iff (p : List UInt8) {ps : List (List UInt8)} {m : Nat} (h : 0 < p.length + m) :
    Ends (p :: ps) (p.length + m) ↔ Ends ps m := by
  constructor
  · intro he
    obtain ⟨k, hk, hek⟩ := le_of_ends_cons h he
    have : m = k := by omega
    rw [this]
    exact hek
  · exact ends_cons_add p

theorem bodyTooBig_cons {clen : Option Nat} {b skip : Nat} {p : List UInt8}
    {ps : List (List UInt8)} (hpos : 0 < p.length + skip) :
    BodyTooBig clen b (p.length + skip) (p :: ps) ↔ BodyTooBig clen b skip ps := by
  have hshift : ∀ m, Ends (p :: ps) (p.length + skip + m) ↔ Ends ps (skip + m) := by
    intro m
    rw [Nat.add_assoc]
    exact ends_cons_iff p (by omega)
  unfold BodyTooBig
  simp only [hshift]

theorem tooBig_of_failed_header {h b : List UInt8} {ps : List (List UInt8)}
    (hh : h.length < WGET_HEADER_MAX) (hf : ps.foldl Rx.push (.header h) = .failed b) :
    match splitMark CRLFCRLF h ps.flatten with
    | none => WGET_HEADER_MAX ≤ h.length + ps.flatten.length
    | some (hdr, _) =>
      WGET_HEADER_MAX ≤ hdr.length ∨
        BodyTooBig (contentLength? hdr) 0 (hdr.length - h.length) ps := by
  induction ps generalizing h with
  | nil => cases hf
  | cons p ps ih =>
    rw [List.foldl_cons, Rx.push] at hf
    rw [List.flatten_cons]
    cases hs : splitMark CRLFCRLF h p with
    | none =>
      rw [hs] at hf
      rw [splitMark_append_none hs]
      dsimp only at hf
      by_cases hmax : h.length + p.length < WGET_HEADER_MAX
      · rw [if_pos hmax] at hf
        have := ih (by rwa [List.length_append]) hf
        cases hs' : splitMark CRLFCRLF (h ++ p) ps.flatten with
        | none =>
          rw [hs'] at this
          simp only [List.length_append] at this ⊢
          omega
        | some x =>
          obtain ⟨hdr, rest⟩ := x
          rw [hs'] at this
          dsimp only at this ⊢
          have hlen := (splitMark_eq_some hs').2.2.2.1
          rw [List.length_append] at this hlen
          refine this.imp_right ?_
          intro hbody
          have hskip : hdr.length - h.length = p.length + (hdr.length - (h.length + p.length)) := by
            omega
          rw [hskip, bodyTooBig_cons (by omega)]
          exact hbody
      · cases hs' : splitMark CRLFCRLF (h ++ p) ps.flatten with
        | none =>
          simp only [List.length_append]
          omega
        | some x =>
          obtain ⟨hdr, rest⟩ := x
          have hlen := (splitMark_eq_some hs').2.2.2.1
          rw [List.length_append] at hlen
          exact Or.inl (by omega)
    | some x =>
      obtain ⟨hdr, d⟩ := x
      rw [hs] at hf
      rw [splitMark_append hs]
      dsimp only at hf ⊢
      by_cases hmax : hdr.length < WGET_HEADER_MAX
      · rw [if_pos hmax] at hf
        refine Or.inr ?_
        obtain ⟨heq, _, _, hlt, _⟩ := splitMark_eq_some hs
        have hlen := congrArg List.length heq
        rw [List.length_append, List.length_append] at hlen
        have hrun := bodyRun (contentLength? hdr) (parse_http_status_code hdr) [] (d :: ps)
          (Nat.zero_le _)
        rw [List.foldl_cons, Rx.push, hf] at hrun
        obtain ⟨n, hn, hbig, hfirst⟩ := bodyTooBig_of_bodyRun hrun
        -- an end behind `d` is an end behind `p`
        have hshift : ∀ m, 0 < m → (Ends (p :: ps) (hdr.length - h.length + m) ↔
            Ends (d :: ps) (0 + m)) := by
          intro m hm
          constructor
          · intro he
            obtain ⟨k, hk, hek⟩ := le_of_ends_cons (by omega) he
            have hmk : 0 + m = d.length + k := by omega
            rw [hmk]
            exact ends_cons_add d hek
          · intro he
            obtain ⟨k, hk, hek⟩ := le_of_ends_cons (by omega) he
            have hmk : hdr.length - h.length + m = p.length + k := by omega
            rw [hmk]
            exact ends_cons_add p hek
        have hpos : 0 < n := by
          rw [List.length_nil, Nat.zero_add] at hbig
          omega
        rw [List.length_nil] at hbig hfirst
        refine ⟨n, (hshift n hpos).mpr hn, hbig, ?_⟩
        intro m hm hlt hem
        exact hfirst m hm hlt ((hshift m hm).mp hem)
      · exact Or.inl (by omega)

theorem tooBig_of_failed {a : Bool} {j : Job} {r : Rx} {b : List UInt8} {ps : List (List UInt8)}
    (h : Tracks a j r) (hr : r.Fits) (hs : r.Small) (hd : j.done = false)
    (hf : ps.foldl Rx.push r = .failed b) : TooBig j ps := by
  unfold TooBig
  cases r with
  | header x =>
    obtain ⟨_, hhdr, _, rfl⟩ := h.at_state
    rw [hhdr, if_neg Bool.false_ne_true]
    exact tooBig_of_failed_header (hr _ rfl) hf
  | body clen status x =>
    obtain ⟨_, hhdr, hclen, _⟩ := h.at_state
    rw [hhdr, if_pos rfl, hclen]
    have hbody : j.body = x := h.saved
    rw [hbody]
    have hrun := bodyRun clen status x ps (hs _ _ _ rfl)
    rw [hf] at hrun
    exact bodyTooBig_of_bodyRun hrun
  | failed x =>
    rw [h.at_state.1] at hd
    cases hd
  | finished x =>
    rw [h.at_state.1] at hd
    cases hd

/-! ## Jobs between two callbacks -/

/-- A job that is not done is at some place of its response. -/
def Job.Sound (j : Job) : Prop := j.done = false → ∃ r, Tracks j.active j r ∧ r.Fits ∧ r.Small

omit [NetConfig] in
/-- The fields that the loops of the receive callback read are the same. -/
structure Job.SameRx (j j' : Job) : Prop where
  done : j'.done = j.done
  header : j'.header = j.header
  header_done : j'.header_done = j.header_done
  http_status : j'.http_status = j.http_status
  has_content_len : j'.has_content_len = j.has_content_len
  content_len : j'.content_len = j.content_len
  body : j'.body = j.body

theorem Job.Sound.congr {j j' : Job} (h : j.Sound) (hs : j.SameRx j') : j'.Sound := by
  intro hd
  have hdone : j.done = false := hs.done ▸ hd
  obtain ⟨r, ht, hr, hsm⟩ := h hdone
  refine ⟨r, ⟨hs.body.trans ht.saved, by rw [hd]; simp, ?_⟩, hr, hsm⟩
  have hclen : j'.clen = j.clen := by
    unfold Job.clen
    rw [hs.has_content_len, hs.content_len]
  have hat := ht.at_state
  rw [← hs.done, ← hs.header, ← hs.header_done, ← hs.http_status, ← hs.has_content_len,
    ← hclen] at hat
  cases r with
  | header x => exact hat
  | body clen status b => exact hat
  | failed b =>
    rw [hat.1] at hd
    cases hd
  | finished b =>
    rw [hat.1] at hd
    cases hd

theorem sound_of_done {j : Job} (h : j.done = true) : j.Sound := by
  intro hd
  rw [h] at hd
  cases hd

theorem sound_wget_finish (w : World) (success : Bool) (msg : Option (List UInt8)) :
    (wget_finish w success msg).job.Sound := by
  apply sound_of_done
  rw [job_wget_finish]
  rfl

theorem Rx.Small.push {r : Rx} (h : r.Small) (src : List UInt8) : (r.push src).Small := by
  have hadd : ∀ (c : Option Nat) (s : Int) (b : List UInt8), b.length ≤ WGET_MAX_FILE_SIZE →
      (Rx.addBody c s b src).Small ∧ ∀ rest, (Rx.addBody c s [] rest).Small := by
    intro c s b hb
    have hone : ∀ b d : List UInt8, b.length ≤ WGET_MAX_FILE_SIZE →
        (Rx.addBody c s b d).Small := by
      intro b d hb c' s' b' heq
      unfold addBody at heq
      split at heq
      · cases heq
        exact hb
      · split at heq
        · cases heq
        · split at heq
          · cases heq
          · cases heq
            rw [List.length_append]
            omega
    exact ⟨hone b src hb, fun rest => hone [] rest (Nat.zero_le _)⟩
  cases r with
  | header x =>
    rw [Rx.push]
    split
    · split
      · exact fun _ _ _ hx => by cases hx
      · exact fun _ _ _ hx => by cases hx
    · split
      · exact (hadd _ _ [] (Nat.zero_le _)).2 _
      · exact fun _ _ _ hx => by cases hx
  | body c s b => exact (hadd c s b (h c s b rfl)).1
  | failed b => exact h
  | finished b => exact h

theorem foldl_small {r : Rx} (h : r.Small) (ps : List (List UInt8)) :
    (ps.foldl Rx.push r).Small := by
  induction ps generalizing r with
  | nil => exact h
  | cons p ps ih => exact ih (h.push p)

/-- The job behind the first pass. -/
def World.scanned (w : World) (p : List Pbuf) : Job :=
  if w.feeds && (scan (p.map Pbuf.payload)).isSome then { w.job with header_done := true }
  else w.job

omit [NetConfig] in
theorem job_first_pass (w : World) (pcb : Nat) (p : List Pbuf) :
    (if w.feeds then feed_chain pcb w p else w).job = w.scanned p := by
  unfold World.scanned
  cases hf : w.feeds with
  | false => rfl
  | true =>
    rw [if_pos rfl, Bool.true_and]
    cases hhdr : w.job.header_done with
    | true =>
      rw [(feed_chain_body hhdr pcb p).1]
      split
      · rw [← hhdr]
      · rfl
    | false =>
      cases hs : scan (p.map Pbuf.payload) with
      | none => rw [feed_chain_none hhdr pcb hs]; rfl
      | some d => rw [(feed_chain_some hhdr pcb hs).1]; rfl

theorem sound_scanned {w : World} (h : w.job.Sound) (p : List Pbuf) : (w.scanned p).Sound := by
  unfold World.scanned
  split
  · intro hd
    obtain ⟨r, ht, _, hsm⟩ := h hd
    have hat := ht.at_state
    -- in the header the machine goes to an empty body, and otherwise it stays
    cases r with
    | header x =>
      refine ⟨.body none w.job.http_status [], ⟨ht.saved, by rw [hd]; simp, hd, rfl, ?_, rfl⟩,
        fun _ hx => (nomatch hx), fun _ _ _ hx => by cases hx; exact Nat.zero_le _⟩
      unfold Job.clen
      rw [hat.2.2.1, if_neg Bool.false_ne_true]
    | body c s b =>
      exact ⟨.body c s b, ⟨ht.saved, by rw [hd]; simp, hd, rfl, hat.2.2.1, hat.2.2.2⟩,
        fun _ hx => (nomatch hx), hsm⟩
    | failed b =>
      rw [hat.1] at hd
      cases hd
    | finished b =>
      rw [hat.1] at hd
      cases hd
  · exact h

theorem sound_recv_chain {w : World} (h : w.job.Sound) (pcb : Nat) (p : List Pbuf) :
    (recv_chain pcb w p).1.job.Sound := by
  cases hd : w.job.done with
  | true =>
    rw [recv_chain_of_done hd]
    exact h
  | false =>
    obtain ⟨r, ht, hr, hsm⟩ := h hd
    have hv := tracks_recv_chain pcb ht hr p
    intro hdv
    refine ⟨_, ⟨hv.saved, by rw [hdv]; simp, hv.at_state⟩, foldl_fits hr _, foldl_small hsm _⟩

theorem tooBig_of_gaveUp {w : World} (h : w.job.Sound) (hd : w.job.done = false) {pcb : Nat}
    {p : List Pbuf} (hdone : (recv_chain pcb w p).1.job.done = true)
    (hfail : (recv_chain pcb w p).1.job.success = false) :
    TooBig w.job (p.map Pbuf.payload) := by
  obtain ⟨r, ht, hr, hsm⟩ := h hd
  have hv := tracks_recv_chain pcb ht hr p
  rcases hv.done_iff.mp hdone with ⟨b, hb⟩ | ⟨b, hb⟩
  · exact tooBig_of_failed ht hr hsm hd hb
  · rw [hb] at hv
    rw [hv.at_state.2] at hfail
    cases hfail

/-! ## Steps -/

/-- The world between two callbacks. -/
structure World.Good (w : World) : Prop where
  tidy : w.Tidy
  sound : w.job.Sound

omit [NetConfig] in
theorem tidy_finish_close {w : World} (h : w.Tidy) (abort success : Bool)
    (msg : Option (List UInt8)) : (wget_finish (wget_close_pcb w abort) success msg).Tidy :=
  tidy_wget_finish (tidy_wget_close_pcb h abort) success msg

theorem good_finish_close {w : World} (h : w.Tidy) (abort success : Bool)
    (msg : Option (List UInt8)) : (wget_finish (wget_close_pcb w abort) success msg).Good :=
  ⟨tidy_finish_close h abort success msg, sound_wget_finish _ _ _⟩

theorem good_finish {w : World} (h : w.Tidy) (success : Bool) (msg : Option (List UInt8)) :
    (wget_finish w success msg).Good :=
  ⟨tidy_wget_finish h success msg, sound_wget_finish _ _ _⟩

omit [NetConfig] in
theorem tidy_call {w : World} (h : w.Tidy) {p : Nat} {c : Call} (hp : p < w.pcbs)
    (hlive : ¬ Ended w.events p) (hclose : c ≠ .close) (habort : c ≠ .abort) :
    (w.call p c).Tidy ∧ ¬ Ended (w.call p c).events p := by
  refine ⟨h.call hp hlive hclose habort, ?_⟩
  show ¬ Ended (.call p c :: w.events) p
  rwa [ended_call hclose habort]

/-- What a callback has to leave behind. -/
structure Kept (p : Nat) (x : World × Int) : Prop where
  good : x.1.Good
  reports : abortedSince p x.1.events = true → x.2 = ERR_ABRT

theorem good_callback {w : World} {p : Nat} {f : World → World × Int}
    (h : Kept p (f (w.log (.entered p)))) : (callback p w f).Good := by
  unfold callback
  obtain ⟨⟨ht, hs⟩, hret⟩ := h
  exact ⟨Tidy.returned ht hret, hs⟩

theorem good_entered {w : World} (h : w.Good) (p : Nat) : (w.log (.entered p)).Good :=
  ⟨Tidy.entered h.tidy p, h.sound⟩

omit [NetConfig] in
theorem ended_entered (es : List Event) (p q : Nat) : Ended (.entered p :: es) q ↔ Ended es q := by
  simp [Ended]

omit [NetConfig] in
theorem mem_of_isSet {setter : Bool → Call} {p : Nat} {es : List Event}
    (h : isSet setter p es = true) : .call p (setter true) ∈ es := by
  induction es with
  | nil => cases h
  | cons e older ih =>
    rw [isSet] at h
    split at h
    · rename_i he
      rw [he]
      exact List.mem_cons_self
    · split at h
      · cases h
      · exact List.mem_cons_of_mem _ (ih h)

theorem kept_recv_cb_chain {w : World} (h : w.Good) {p : Nat} (hp : p < w.pcbs)
    (hlive : ¬ Ended w.events p) (habort : abortedSince p w.events = false) (chain : List Pbuf)
    (hok : w.job.pcb = some p → w.job.done = false →
      ¬ TooBig (w.scanned chain) (chain.map Pbuf.payload)) :
    Kept p (wget_recv_cb w p (some chain) ERR_OK) := by
  unfold wget_recv_cb
  rw [if_neg (fun h => h rfl)]
  dsimp only
  have hsound : (if w.feeds then feed_chain p w chain else w).job.Sound := by
    rw [job_first_pass]
    exact sound_scanned h.sound chain
  have hchain := sound_recv_chain hsound p chain
  have hbig : (if w.feeds then feed_chain p w chain else w).job.done = false →
      (recv_chain p (if w.feeds then feed_chain p w chain else w) chain).1.job.done = true →
      (recv_chain p (if w.feeds then feed_chain p w chain else w) chain).1.job.success = false →
      TooBig (w.scanned chain) (chain.map Pbuf.payload) := by
    intro h1 h2 h3
    rw [← job_first_pass w p chain]
    exact tooBig_of_gaveUp hsound h1 h2 h3
  have hdone : (if w.feeds then feed_chain p w chain else w).job.done = w.job.done := by
    split
    · exact (quiet_feed_chain p w chain).done
    · rfl
  rw [hdone] at hbig
  have hout := outcome_recv p w chain
  generalize recv_chain p (if w.feeds then feed_chain p w chain else w) chain = x
    at hout hchain hbig
  cases hout with
  | goes u hq =>
    have hu := hq.tidy h.tidy
    rw [← hq.ended] at hlive
    rw [← hq.abortedSince] at habort
    rw [← hq.pcbs] at hp
    obtain ⟨h1, hl1⟩ := tidy_call hu hp hlive (c := .recved (chainBytes chain).length)
      (fun h => nomatch h) (fun h => nomatch h)
    dsimp only
    split
    · refine ⟨⟨h1, hchain⟩, fun ha => ?_⟩
      have : abortedSince p u.events = true := ha
      rw [habort] at this
      cases this
    · obtain ⟨h2, _⟩ := tidy_call h1 hp hl1 (c := .output) (fun h => nomatch h)
        (fun h => nomatch h)
      refine ⟨⟨h2, hchain⟩, fun ha => ?_⟩
      have : abortedSince p u.events = true := ha
      rw [habort] at this
      cases this
  | gaveUp u hq hd msg =>
    have hother : u.job.pcb ≠ some p := by
      intro heq
      rw [hq.pcb] at heq
      have hwd : w.job.done = false := by rw [← hq.done, hd]
      apply hok heq hwd
      apply hbig hwd
      · rw [job_wget_finish]
        rfl
      · rw [job_wget_finish]
        rfl
    have hv := tidy_finish_close (hq.tidy h.tidy) true false (some msg)
    have hvd : (wget_finish (wget_close_pcb u true) false (some msg)).job.done = true := by
      rw [job_wget_finish]
      rfl
    have hvp : p < (wget_finish (wget_close_pcb u true) false (some msg)).pcbs := by
      rw [pcbs_wget_finish, pcbs_wget_close_pcb, hq.pcbs]
      exact hp
    have hvl : ¬ Ended (wget_finish (wget_close_pcb u true) false (some msg)).events p := by
      rw [ended_wget_finish, ended_wget_close_pcb, hq.ended]
      rintro (heq | he)
      · exact hother heq
      · exact hlive he
    obtain ⟨h1, _⟩ := tidy_call hv hvp hvl (c := .recved (chainBytes chain).length)
      (fun h => nomatch h) (fun h => nomatch h)
    dsimp only
    rw [if_pos (by rw [job_call]; exact hvd)]
    refine ⟨⟨h1, hchain⟩, ?_⟩
    intro ha
    have hab : abortedSince p
        (wget_finish (wget_close_pcb u true) false (some msg)).events = true := ha
    rw [abortedSince_wget_finish, abortedSince_wget_close_pcb, hq.abortedSince, habort] at hab
    simp [hother] at hab
  | complete u hq hd =>
    refine ⟨⟨tidy_finish_close (hq.tidy h.tidy) false true none, hchain⟩, ?_⟩
    intro ha
    rw [abortedSince_wget_finish, abortedSince_wget_close_pcb, hq.abortedSince, habort] at ha
    cases ha

theorem kept_recv_cb_closed {w : World} (h : w.Good) {p : Nat}
    (habort : abortedSince p w.events = false) : Kept p (wget_recv_cb w p none ERR_OK) := by
  unfold wget_recv_cb
  rw [if_neg (fun h => h rfl)]
  dsimp only
  have hclose := tidy_wget_close_pcb h.tidy false
  have hfin : ∀ (success : Bool) (msg : Option (List UInt8)),
      Kept p (wget_finish (wget_close_pcb w false) success msg, ERR_OK) := by
    intro success msg
    refine ⟨good_finish hclose success msg, ?_⟩
    intro ha
    rw [abortedSince_wget_finish, abortedSince_wget_close_pcb, habort] at ha
    cases ha
  unfold recv_closed
  dsimp only
  split
  · exact hfin _ _
  · split
    · exact hfin _ _
    · split
      · exact hfin _ _
      · exact hfin _ _

theorem kept_recv_cb_error {w : World} (h : w.Good) {p : Nat} (chain : Option (List Pbuf))
    {err : Int} (he : err ≠ ERR_OK) : Kept p (wget_recv_cb w p chain err) := by
  unfold wget_recv_cb
  rw [if_pos he]
  exact ⟨good_finish_close h.tidy true false (some (ascii "RECV ERR")), fun _ => rfl⟩

theorem kept_connected_cb {w : World} (h : w.Good) {p : Nat} (hp : p < w.pcbs)
    (hlive : ¬ Ended w.events p) (habort : abortedSince p w.events = false) {err : Int}
    (hok : w.job.pcb = some p → err = ERR_OK ∨ err = ERR_ABRT) :
    Kept p (wget_connected_cb w p err) := by
  unfold wget_connected_cb
  split
  · rename_i he
    refine ⟨good_finish_close h.tidy true false (some (ascii "CONNECT FAIL")), ?_⟩
    intro ha
    rw [abortedSince_wget_finish, abortedSince_wget_close_pcb, habort] at ha
    have hpcb : w.job.pcb = some p := by simpa using ha
    exact (hok hpcb).resolve_left he
  · have h0 : World.Tidy { w with job := { w.job with stage := .recv } } := h.tidy
    obtain ⟨h1, l1⟩ := tidy_call h0 hp hlive (c := .recv true) (fun h => nomatch h)
      (fun h => nomatch h)
    obtain ⟨h2, l2⟩ := tidy_call h1 hp l1 (c := .err true) (fun h => nomatch h)
      (fun h => nomatch h)
    obtain ⟨h3, l3⟩ := tidy_call h2 hp l2 (c := .write w.job.request) (fun h => nomatch h)
      (fun h => nomatch h)
    obtain ⟨h4, _⟩ := tidy_call h3 hp l3 (c := .output) (fun h => nomatch h) (fun h => nomatch h)
    refine ⟨⟨h4, h.sound.congr ⟨rfl, rfl, rfl, rfl, rfl, rfl, rfl⟩⟩, ?_⟩
    intro ha
    have : abortedSince p w.events = true := ha
    rw [habort] at this
    cases this

theorem good_err_cb {w : World} (h : w.Good) {p : Nat} (hp : p < w.pcbs) (err : Int) :
    (wget_err_cb (w.log (.freed p)) err).Good := by
  have hfreed : Tidy (.freed p :: w.events) w.pcbs none := by
    refine ⟨⟨trivial, h.tidy.clean⟩, fun _ hq => (by cases hq), ?_, ?_⟩
    · intro q c hm
      exact h.tidy.called q c (by simpa using hm)
    · intro q hm
      rcases List.mem_cons.mp hm with hm | hm
      · cases hm
        exact hp
      · exact h.tidy.freed q hm
  unfold wget_err_cb
  dsimp only
  split
  · exact ⟨hfreed, h.sound.congr ⟨rfl, rfl, rfl, rfl, rfl, rfl, rfl⟩⟩
  · apply good_finish
    exact hfreed

theorem good_start_connection {w : World} (h : w.Good) (o : Oracle) (addr port : Nat) :
    (start_connection o w addr port).Good := by
  unfold start_connection
  split
  · exact good_finish h.tidy _ _
  · dsimp only
    have hnew : ¬ Ended (.new w.pcbs :: w.events) w.pcbs := by
      intro he
      rw [ended_silent (e := .new w.pcbs) trivial] at he
      exact absurd (h.tidy.ended_lt he) (Nat.lt_irrefl _)
    have h0 : Tidy (.new w.pcbs :: w.events) (w.pcbs + 1) (some w.pcbs) := by
      refine ⟨⟨trivial, h.tidy.clean⟩, ?_, ?_, ?_⟩
      · intro q hq
        cases hq
        exact ⟨Nat.lt_succ_self _, hnew⟩
      · intro q c hm
        exact Nat.lt_succ_of_lt (h.tidy.called q c (by simpa using hm))
      · intro q hm
        exact Nat.lt_succ_of_lt (h.tidy.freed q (by simpa using hm))
    have hcall : ∀ {es : List Event} {c : Call}, Tidy es (w.pcbs + 1) (some w.pcbs) →
        c ≠ .close → c ≠ .abort → Tidy (.call w.pcbs c :: es) (w.pcbs + 1) (some w.pcbs) := by
      intro es c ht h1 h2
      exact ht.call (ht.own_lives _ rfl).1 (ht.own_lives _ rfl).2 h1 h2
    have h1 := hcall (c := .bind w.local_port) h0 (fun h => nomatch h) (fun h => nomatch h)
    have h2 := hcall (c := .arg true) h1 (fun h => nomatch h) (fun h => nomatch h)
    have h3 := hcall (c := .err true) h2 (fun h => nomatch h) (fun h => nomatch h)
    have h4 := hcall (c := .connect addr port) h3 (fun h => nomatch h) (fun h => nomatch h)
    split
    · apply good_finish_close
      exact h4
    · exact ⟨h4, h.sound.congr ⟨rfl, rfl, rfl, rfl, rfl, rfl, rfl⟩⟩

theorem good_start_with_addr {w : World} (h : w.Good) (o : Oracle) (addr port : Nat)
    (use_tls : Bool) : (wget_start_with_addr o w addr port use_tls).Good := by
  unfold wget_start_with_addr
  split
  · exact h
  · dsimp only
    have h0 : World.Good { w with job :=
        { w.job with active := true, stage := .connect, wait_started_ms := o.sys_now } } :=
      ⟨h.tidy, h.sound.congr ⟨rfl, rfl, rfl, rfl, rfl, rfl, rfl⟩⟩
    split
    · unfold wget_ensure_tls_allocator
      cases w.tls_conf || o.tls_config with
      | false =>
        apply good_finish
        exact h0.tidy
      | true =>
        apply good_start_connection
        exact ⟨h0.tidy, h0.sound⟩
    · exact good_start_connection h0 o addr port

theorem good_kick_connect {w : World} (h : w.Good) (o : Oracle) : (kick_connect o w).Good := by
  unfold kick_connect
  split
  · apply good_finish
    exact h.tidy
  · apply good_start_with_addr
    exact ⟨h.tidy, h.sound.congr ⟨rfl, rfl, rfl, rfl, rfl, rfl, rfl⟩⟩

theorem good_kick_if_needed {w : World} (h : w.Good) (o : Oracle) :
    (wget_kick_if_needed o w).Good := by
  unfold wget_kick_if_needed
  split
  · exact h
  · split
    · exact good_kick_connect h o
    · split
      · exact h
      · dsimp only
        have hquery : Tidy (.query w.queries w.job.host :: w.events) w.pcbs w.job.pcb :=
          h.tidy.silent trivial
        split
        · apply good_kick_connect
          exact ⟨hquery.silent trivial, h.sound.congr ⟨rfl, rfl, rfl, rfl, rfl, rfl, rfl⟩⟩
        · exact ⟨hquery, h.sound.congr ⟨rfl, rfl, rfl, rfl, rfl, rfl, rfl⟩⟩
        · apply good_finish
          exact hquery.silent trivial

theorem sound_request (r : Request) (o : Oracle) : (r.job o).Sound := by
  have hzero : Job.zero.Sound := by
    intro _
    refine ⟨.header [], ⟨rfl, rfl, rfl, rfl, rfl, rfl⟩, Rx.fits_nil, ?_⟩
    exact fun _ _ _ hx => by cases hx
  unfold Request.job
  dsimp only
  split <;> exact hzero.congr ⟨rfl, rfl, rfl, rfl, rfl, rfl, rfl⟩

theorem pcb_request (r : Request) (o : Oracle) : (r.job o).pcb = none := by
  unfold Request.job
  dsimp only
  split <;> rfl

theorem good_queue_request {w : World} (h : w.Good) (o : Oracle) (r : Request) :
    (wget_queue_request_ex o w r).Good := by
  unfold wget_queue_request_ex
  apply good_kick_if_needed
  refine ⟨?_, sound_request r o⟩
  unfold World.Tidy
  show Tidy (.queued r.host.bytes :: w.events) w.pcbs (r.job o).pcb
  rw [pcb_request]
  exact h.tidy.forget.silent trivial

theorem good_dns_found_cb {w : World} (h : w.Good) (q : Nat) (ipaddr : Option Nat) :
    (wget_dns_found_cb w q ipaddr).Good := by
  have hreply : Tidy (.reply q ipaddr :: w.events) w.pcbs w.job.pcb := h.tidy.silent trivial
  unfold wget_dns_found_cb
  dsimp only
  split
  · exact ⟨hreply, h.sound.congr ⟨rfl, rfl, rfl, rfl, rfl, rfl, rfl⟩⟩
  · split
    · apply good_finish
      exact hreply
    · exact ⟨hreply, h.sound.congr ⟨rfl, rfl, rfl, rfl, rfl, rfl, rfl⟩⟩

theorem good_timeout_step {w : World} (h : w.Good) (o : Oracle) :
    (wget_timeout_step o w).Good := by
  unfold wget_timeout_step
  dsimp only
  split
  · exact h
  · split
    · apply good_finish
      exact h.tidy
    · split
      · exact good_finish_close h.tidy true false _
      · exact h

/-- The condition on a step: what comes for the job's own connection is not too big, and
a connect of it that fails reports an abort. -/
def Allowed (w : World) : Input → Prop
  | .recv p (some chain) err =>
    err = ERR_OK → w.job.pcb = some p → w.job.done = false →
      ¬ TooBig (w.scanned chain) (chain.map Pbuf.payload)
  | .connected p err => w.job.pcb = some p → err = ERR_OK ∨ err = ERR_ABRT
  | _ => True

theorem good_step {w : World} (h : w.Good) (o : Oracle) {i : Input} (he : Enabled w i)
    (hok : Allowed w i) : (step o w i).Good := by
  cases i with
  | queue r => exact good_queue_request h o r
  | adopt owner => exact ⟨h.tidy, h.sound.congr ⟨rfl, rfl, rfl, rfl, rfl, rfl, rfl⟩⟩
  | windows wins => exact ⟨h.tidy, h.sound⟩
  | kick => exact good_kick_if_needed h o
  | timeout => exact good_timeout_step h o
  | interrupt =>
    unfold step wget_interrupt
    dsimp only
    split
    · exact good_finish_close h.tidy true false _
    · exact h
  | dns q ipaddr => exact good_dns_found_cb h q ipaddr
  | connected p err =>
    obtain ⟨hlive, addr, port, hm⟩ := he
    rw [step]
    apply good_callback
    apply kept_connected_cb (good_entered h p) (h.tidy.called _ _ hm) _ rfl hok
    show ¬ Ended (.entered p :: w.events) p
    rwa [ended_entered]
  | recv p chain err =>
    obtain ⟨hlive, hset⟩ := he
    rw [step]
    apply good_callback
    by_cases herr : err = ERR_OK
    · rw [herr] at hok ⊢
      cases chain with
      | none => exact kept_recv_cb_closed (good_entered h p) rfl
      | some chain =>
        apply kept_recv_cb_chain (good_entered h p) (h.tidy.called _ _ (mem_of_isSet hset)) _ rfl
        · exact hok rfl
        · show ¬ Ended (.entered p :: w.events) p
          rwa [ended_entered]
    · exact kept_recv_cb_error (good_entered h p) chain herr
  | error p err =>
    obtain ⟨_, hset⟩ := he
    exact good_err_cb h (h.tidy.called _ _ (mem_of_isSet hset)) err

theorem good_start (wins : Int → Nat) : (World.start wins).Good := by
  refine ⟨⟨trivial, fun _ hp => (nomatch hp), fun _ _ hm => (nomatch hm), fun _ hm => (nomatch hm)⟩,
    ?_⟩
  intro _
  exact ⟨.header [], ⟨rfl, rfl, rfl, rfl, rfl, rfl⟩, Rx.fits_nil, fun _ _ _ hx => by cases hx⟩

/-- In every run whose steps are allowed, no altcp function is called for a connection
after its end, and every callback that aborted its connection returned `ERR_ABRT`. -/
theorem calls_clean {w : World} (h : Run Allowed w) : Clean w.events := by
  have hgood : w.Good := by
    induction h with
    | start wins => exact good_start wins
    | step o i h he hc ih => exact good_step ih o he hc
  exact hgood.tidy.clean

theorem push_header_none {h src : List UInt8} (hs : splitMark CRLFCRLF h src = none)
    (hbig : WGET_HEADER_MAX ≤ h.length + src.length) : (Rx.header h).push src = .failed [] := by
  rw [Rx.push, hs]
  exact if_neg (by omega)

theorem not_clean_of_gaveUp {w : World} {p : Nat} (hpcb : w.job.pcb = some p)
    (hd : w.job.done = false) (chain : List Pbuf)
    (hgave : (recv_chain p (if w.feeds then feed_chain p w chain else w) chain).1.job.done = true ∧
      (recv_chain p (if w.feeds then feed_chain p w chain else w) chain).1.job.success = false) :
    ¬ Clean (wget_recv_cb w p (some chain) ERR_OK).1.events := by
  rw [wget_recv_cb_some]
  have hout := outcome_recv p w chain
  generalize recv_chain p (if w.feeds then feed_chain p w chain else w) chain = x at hout hgave
  cases hout with
  | goes u hq =>
    have := hgave.1
    rw [hq.done, hd] at this
    cases this
  | complete u hq hdu =>
    have := hgave.2
    rw [job_wget_finish] at this
    cases this
  | gaveUp u hq hdu msg =>
    unfold afterChain
    dsimp only
    rw [job_call, if_pos hgave.1]
    intro hclean
    -- the last event is the call of `altcp_recved`
    apply hclean.1
    rw [ended_wget_finish, ended_wget_close_pcb, hq.pcb]
    exact Or.inl hpcb

theorem not_clean_of_failed {o : Oracle} {w : World} {p : Nat} {a : Bool} {h : List UInt8}
    (hpcb : w.job.pcb = some p) (ht : Tracks a w.job (.header h)) (hh : (Rx.header h).Fits)
    (hfeeds : w.feeds = false) {chain : List Pbuf} {b : List UInt8}
    (hfail : (chain.map Pbuf.payload).foldl Rx.push (.header h) = .failed b) :
    ¬ Clean (step o w (.recv p (some chain) ERR_OK)).events := by
  intro hclean
  have hrun := tracks_recv_chain (w := w.log (.entered p)) p ht hh chain
  rw [hfail] at hrun
  have hentered : (w.log (.entered p)).feeds = false := hfeeds
  have hno := not_clean_of_gaveUp (w := w.log (.entered p)) hpcb ht.at_state.1 chain
  rw [hentered, if_neg Bool.false_ne_true] at hno
  exact hno ⟨hrun.at_state.1, hrun.at_state.2⟩ hclean.2

end

/-! ## Two runs -/

/-- A page of the host `host`, for the terminal in the window 0. -/
def pageRequest : Request where
  host := ⟨ascii "host", by decide⟩
  path := ⟨ascii "/", by decide⟩
  filename := ⟨ascii "page", by decide⟩
  port := 80
  use_tls := false
  save_to_fs := true
  resource_kind := 0
  owner_win_id := 0

/-- DNS has the address, and every call succeeds. -/
def plainOracle : Oracle where
  sys_now := 1
  dns := .ok 7
  tls_config := true
  altcp_new := true
  altcp_connect := ERR_OK

/-- The request is queued, and its connection is made. -/
def queuedWorld : World := @step qemuNet plainOracle (World.start fun _ => 0) (.queue pageRequest)
def connectedWorld : World := @step qemuNet plainOracle queuedWorld (.connected 0 ERR_OK)

theorem run_connected : @Run qemuNet (@Allowed qemuNet) connectedWorld :=
  @Run.step qemuNet _ queuedWorld plainOracle (.connected 0 ERR_OK)
    (@Run.step qemuNet _ (World.start fun _ => 0) plainOracle (.queue pageRequest)
      (@Run.start qemuNet _ _) trivial trivial)
    ⟨by decide, 7, 80, by decide⟩ (fun _ => Or.inl rfl)

theorem connected_tracks : Tracks true connectedWorld.job (.header []) :=
  ⟨by decide, by decide, by decide, by decide, by decide,
    by decide⟩

/-- The response of `wholeChains` comes in one pbuf. -/
theorem calls_clean_whole : Clean (@step qemuNet plainOracle connectedWorld
    (.recv 0 (some [⟨okHeader ++ okBody, by decide⟩]) ERR_OK)).events := by
  apply @calls_clean qemuNet
  apply @Run.step qemuNet _ _ _ _ run_connected
  · exact ⟨by decide, by decide⟩
  · intro _ _ _
    have hjob : connectedWorld.scanned [⟨okHeader ++ okBody, by decide⟩] = connectedWorld.job := by
      decide
    rw [hjob]
    unfold TooBig
    have hhdr : connectedWorld.job.header_done = false := connected_tracks.at_state.2.1
    have hheader : connectedWorld.job.header = [] := connected_tracks.at_state.2.2.2
    have hsplit : splitMark CRLFCRLF [] ([okHeader ++ okBody] : List (List UInt8)).flatten =
        some (okHeader, okBody) := by decide
    rw [hhdr, hheader, if_neg Bool.false_ne_true, List.map_cons, List.map_nil, hsplit]
    rintro (hbig | ⟨n, hn, hbig, _⟩)
    · exact absurd hbig (by decide)
    · have hle := Nat.le_trans (k := 22) hn.le (by decide)
      have hmax : @WGET_MAX_FILE_SIZE qemuNet = 1048576 := rfl
      omega

def letters : List UInt8 := List.replicate 5000 97

theorem length_letters : letters.length = 5000 := List.length_replicate

def longPbuf : Pbuf := ⟨letters, by rw [length_letters]; decide⟩

theorem splitMark_letters (n : Nat) : ∀ h : List UInt8, (∀ c ∈ h, c = 97) →
    splitMark CRLFCRLF h (List.replicate n 97) = none := by
  induction n with
  | zero => exact fun _ _ => rfl
  | succ n ih =>
    intro h hh
    have hh' : ∀ c ∈ h ++ [97], c = 97 := by
      intro c hc
      rcases List.mem_append.mp hc with hc | hc
      · exact hh c hc
      · exact List.mem_singleton.mp hc
    rw [List.replicate_succ, splitMark, if_neg]
    · exact ih _ hh'
    · intro hsuf
      have := hh' 13 (hsuf.subset (by decide))
      exact absurd this (by decide)

/-- A header of 5000 bytes: the callback aborts its connection, and then it calls
`altcp_recved` for it. -/
theorem calls_after_abort : ∃ w, @Run qemuNet (fun _ _ => True) w ∧ ¬ Clean w.events := by
  refine ⟨@step qemuNet plainOracle connectedWorld (.recv 0 (some [longPbuf]) ERR_OK), ?_, ?_⟩
  · have hrun := @Run.mono qemuNet _ (fun _ _ => True) (fun _ _ _ => trivial) _ run_connected
    exact @Run.step qemuNet _ connectedWorld plainOracle (.recv 0 (some [longPbuf]) ERR_OK) hrun
      ⟨by decide, by decide⟩ trivial
  · have hsplit : splitMark CRLFCRLF [] letters = none :=
      splitMark_letters 5000 [] (fun c hc => (nomatch hc))
    have hfail : ([longPbuf].map Pbuf.payload).foldl (@Rx.push qemuNet) (.header []) =
        .failed [] := by
      rw [List.map_cons, List.map_nil, List.foldl_cons, List.foldl_nil]
      exact @push_header_none qemuNet [] letters hsplit (by rw [length_letters]; decide)
    exact @not_clean_of_failed qemuNet _ connectedWorld 0 true [] (by decide)
      connected_tracks Rx.fits_nil (by decide) [longPbuf] [] hfail

end vibeos.wget
