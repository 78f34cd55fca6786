-- When a download of a normal window counts as a success, and when it should: the status
-- line says 200 and the body is as long as the header says.
import Vibeos.WgetFeed

namespace vibeos.wget

open vibeos.fs vibeos.Segments

/-! ## A good response -/

def CRLF : List UInt8 := [13, 10]

/-- The status line of the header is that of a success: `HTTP/version 200 reason`. -/
def StatusOk (hdr : List UInt8) : Prop :=
  ∃ version reason rest, hdr = version ++ (ascii " 200" ++ (reason ++ (CRLF ++ rest))) ∧
    ascii "HTTP/" <+: version ∧ (∀ c ∈ version, c ≠ 32 ∧ c ≠ 13) ∧
    (reason = [] ∨ reason.head? = some 32) ∧ 13 ∉ reason

def lower (c : UInt8) : UInt8 := if 65 ≤ c ∧ c ≤ 90 then c + 32 else c

def number (digits : List UInt8) : Nat := digits.foldl (fun n c => n * 10 + digit c) 0

/-- The header has a line `Content-Length: n`, in letters of any case and with blanks
around the number. -/
def ContentLength (hdr : List UInt8) (n : Nat) : Prop :=
  ∃ before name blanks digits blanks' rest,
    hdr = before ++ (CRLF ++ (name ++ (ascii ":" ++ (blanks ++ (digits ++ (blanks' ++
      (CRLF ++ rest))))))) ∧
    name.map lower = ascii "content-length" ∧ (∀ c ∈ blanks ++ blanks', c = 32 ∨ c = 9) ∧
    digits ≠ [] ∧ (∀ c ∈ digits, isDigit c = true) ∧ number digits = n

/-- The bytes received are a response with status 200, and when it names a length, the body
has that many bytes and is what was saved. -/
def GoodDownload (bytes saved : List UInt8) : Prop :=
  ∃ hdr body, bytes = hdr ++ body ∧ EndsFirst CRLFCRLF hdr ∧ StatusOk hdr ∧
    ∀ n, ContentLength hdr n → body.length = n ∧ saved = body

theorem goodDownload_iff {hdr body saved : List UInt8} (hfirst : EndsFirst CRLFCRLF hdr) :
    GoodDownload (hdr ++ body) saved ↔
      StatusOk hdr ∧ ∀ n, ContentLength hdr n → body.length = n ∧ saved = body := by
  constructor
  · intro ⟨hdr', body', heq, hfirst', hgood⟩
    obtain ⟨rfl, rfl⟩ := hfirst.unique hfirst' heq
    exact hgood
  · intro hgood
    exact ⟨hdr, body, rfl, hfirst, hgood⟩

/-! ## How a connection ends -/

/-- What lwIP reports last of a connection. -/
inductive Ending
  | stays
  | closed
  | recvError (err : Int)
  | lost (err : Int)
deriving DecidableEq

section

variable [NetConfig]

/-- The chains arrive, and then the connection ends. A job that is done has closed it. -/
def download (pcb : Nat) (w : World) (chains : List (List Pbuf)) (ending : Ending) : World :=
  let w := deliver pcb w chains
  if w.job.done then w
  else
    match ending with
    | .stays => w
    | .closed => (wget_recv_cb w pcb none ERR_OK).1
    | .recvError err => if err = ERR_OK then w else (wget_recv_cb w pcb none err).1
    | .lost err => wget_err_cb w err

def World.Succeeded (w : World) : Prop := w.job.done = true ∧ w.job.success = true

omit [NetConfig] in
theorem browser_wget_close_pcb (w : World) (abort : Bool) :
    (wget_close_pcb w abort).Browser ↔ w.Browser := by
  unfold World.Browser
  rw [wins_wget_close_pcb, job_wget_close_pcb]

omit [NetConfig] in
theorem recv_closed_normal {w : World} (hw : ¬ w.Browser) :
    (recv_closed w).job.body = w.job.body ∧ ((recv_closed w).Succeeded ↔
      w.job.header_done = true ∧ w.job.http_status = 200) := by
  unfold recv_closed World.Succeeded
  dsimp only
  rw [← browser_wget_close_pcb w false] at hw
  have hhdr : (wget_close_pcb w false).job.header_done = w.job.header_done := by
    rw [job_wget_close_pcb]
  have hstatus : (wget_close_pcb w false).job.http_status = w.job.http_status := by
    rw [job_wget_close_pcb]
  have hbody : (wget_close_pcb w false).job.body = w.job.body := by
    rw [job_wget_close_pcb]
  rw [← hhdr, ← hstatus, ← hbody]
  split
  · rename_i h
    rw [job_wget_finish]
    simp only [Bool.not_eq_true'] at h
    simp [Job.finish, h]
  · rename_i h
    simp only [Bool.not_eq_true', Bool.not_eq_false] at h
    split
    · rename_i hb
      exact absurd ⟨hb.2.1, hb.1, hb.2.2⟩ hw
    · split
      · rename_i hs
        rw [job_wget_finish]
        simp [Job.finish, hs]
      · rename_i hs
        rw [job_wget_finish]
        simp only [ne_eq, Decidable.not_not] at hs
        simp [Job.finish, h, hs]

omit [NetConfig] in
theorem not_succeeded_err_cb {w : World} (h : w.job.done = false) (err : Int) :
    ¬ (wget_err_cb w err).Succeeded := by
  intro ⟨_, hs⟩
  unfold wget_err_cb at hs
  dsimp only at hs
  rw [h, if_neg Bool.false_ne_true, job_wget_finish] at hs
  cases hs

theorem not_succeeded_recvError (w : World) (pcb : Nat) {err : Int} (h : err ≠ ERR_OK) :
    ¬ (wget_recv_cb w pcb none err).1.Succeeded := by
  intro ⟨_, hs⟩
  unfold wget_recv_cb at hs
  rw [if_pos h, job_wget_finish] at hs
  cases hs

theorem download_of_running {w : World} {pcb : Nat} {chains : List (List Pbuf)}
    (hd : (deliver pcb w chains).job.done = false) (hw : ¬ (deliver pcb w chains).Browser)
    (ending : Ending) :
    ((download pcb w chains ending).Succeeded ↔ ending = .closed ∧
        (deliver pcb w chains).job.header_done = true ∧
        (deliver pcb w chains).job.http_status = 200) ∧
      (ending = .closed →
        (download pcb w chains ending).job.body = (deliver pcb w chains).job.body) := by
  unfold download
  dsimp only
  rw [hd, if_neg Bool.false_ne_true]
  cases ending with
  | stays => simp [World.Succeeded, hd]
  | closed =>
    have hcb : (wget_recv_cb (deliver pcb w chains) pcb none ERR_OK).1 =
        recv_closed (deliver pcb w chains) := by
      unfold wget_recv_cb
      rw [if_neg (fun h => h rfl)]
    dsimp only
    rw [hcb]
    obtain ⟨hbody, hsucc⟩ := recv_closed_normal hw
    refine ⟨?_, fun _ => hbody⟩
    rw [hsucc]
    simp
  | recvError err =>
    refine ⟨?_, fun h => nomatch h⟩
    dsimp only
    split
    · simp [World.Succeeded, hd]
    · rename_i he
      simp [not_succeeded_recvError _ _ he]
  | lost err =>
    refine ⟨?_, fun h => nomatch h⟩
    simp [not_succeeded_err_cb hd]

theorem download_of_done {w : World} {pcb : Nat} {chains : List (List Pbuf)}
    (hd : (deliver pcb w chains).job.done = true) (ending : Ending) :
    download pcb w chains ending = deliver pcb w chains := by
  unfold download
  dsimp only
  rw [if_pos hd]

theorem sameWindow_deliver (pcb : Nat) (w : World) (chains : List (List Pbuf)) :
    SameWindow w (deliver pcb w chains) := by
  induction chains generalizing w with
  | nil => exact SameWindow.refl w
  | cons p rest ih =>
    rw [deliver]
    split
    · exact SameWindow.refl w
    · exact (sameWindow_recv_cb w pcb p).trans (ih _)

/-! ## The bytes that were received -/

omit [NetConfig] in
theorem ends_of_append_le {ps qs : List (List UInt8)} {k : Nat} (h : Ends (ps ++ qs) k)
    (hle : k ≤ ps.flatten.length) : Ends ps k := by
  rcases ends_append.mp h with h | ⟨m, hm, _⟩
  · exact h
  · have : k = ps.flatten.length := by omega
    rw [this]
    exact ends_all ps

omit [NetConfig] in
theorem payloads_append (q r : List (List Pbuf)) : payloads (q ++ r) = payloads q ++ payloads r := by
  unfold payloads
  rw [List.flatten_append, List.map_append]

def Rx.Over (r : Rx) : Prop := (∃ b, r = .failed b) ∨ ∃ b, r = .finished b

theorem received_eq {w : World} {r : Rx} (h : Tracks true w.job r) (hr : r.Fits)
    (hw : ¬ w.Browser) (pcb : Nat) (chains : List (List Pbuf)) :
    ∃ pre post, chains = pre ++ post ∧ received pcb w chains = streamOf pre ∧
      (payloads chains).foldl Rx.push r = (payloads pre).foldl Rx.push r ∧
      (¬ ((payloads chains).foldl Rx.push r).Over → pre = chains) ∧
      ∀ q, q <+: pre → q ≠ pre → ¬ ((payloads q).foldl Rx.push r).Over := by
  induction chains generalizing w r with
  | nil =>
    refine ⟨[], [], rfl, rfl, rfl, fun _ => rfl, ?_⟩
    intro q hq hne
    exact absurd (List.prefix_nil.mp hq) hne
  | cons p rest ih =>
    rw [received]
    by_cases hd : w.job.done = true
    · rw [if_pos hd]
      have hover := h.done_iff.mp hd
      refine ⟨[], p :: rest, rfl, rfl, ?_, ?_, ?_⟩
      · rw [h.foldl_of_done hd]
        rfl
      · intro hno
        rw [h.foldl_of_done hd] at hno
        exact absurd hover hno
      · intro q hq hne
        exact absurd (List.prefix_nil.mp hq) hne
    · rw [if_neg hd]
      have hwin := sameWindow_recv_cb w pcb p
      obtain ⟨pre, post, rfl, hrec, hfold, hall, hfirst⟩ :=
        ih (tracks_recv_cb pcb h hr hw p) (foldl_fits hr _)
          (fun hb => hw (hwin.browser_iff.mp hb))
      simp only [payloads_cons, List.foldl_append]
      refine ⟨p :: pre, post, rfl, ?_, ?_, ?_, ?_⟩
      · rw [hrec, streamOf_cons]
      · rw [hfold, payloads_cons, List.foldl_append]
      · intro hno
        rw [← hall hno]
      · intro q hq hne
        cases q with
        | nil =>
          intro hover
          exact hd (h.done_iff.mpr hover)
        | cons q' q =>
          rw [List.cons_prefix_cons] at hq
          obtain ⟨rfl, hq⟩ := hq
          rw [payloads_cons, List.foldl_append]
          apply hfirst q hq
          intro heq
          rw [heq] at hne
          exact hne rfl

/-! ## When the success is a good one -/

theorem foldl_header_none {h : List UInt8} {ps : List (List UInt8)}
    (hs : splitMark CRLFCRLF h ps.flatten = none) :
    (∃ x, ps.foldl Rx.push (.header h) = .header x) ∨
      ps.foldl Rx.push (.header h) = .failed [] := by
  induction ps generalizing h with
  | nil => exact Or.inl ⟨h, rfl⟩
  | cons p ps ih =>
    rw [List.flatten_cons] at hs
    have hp : splitMark CRLFCRLF h p = none := by
      cases hp : splitMark CRLFCRLF h p with
      | none => rfl
      | some x =>
        rw [splitMark_append hp] at hs
        cases hs
    rw [splitMark_append_none hp] at hs
    rw [List.foldl_cons, Rx.push, hp]
    dsimp only
    split
    · exact ih hs
    · exact Or.inr (foldl_push_failed _ _)

theorem run_response {hdr body : List UInt8} (hfirst : EndsFirst CRLFCRLF hdr)
    {chains : List (List Pbuf)} (hstream : streamOf chains = hdr ++ body)
    (hmax : hdr.length < WGET_HEADER_MAX) :
    ∃ pieces, BodyRun (contentLength? hdr) (parse_http_status_code hdr) [] pieces
        ((payloads chains).foldl Rx.push (.header [])) ∧
      pieces.flatten = body ∧
      ∀ n, 0 < n → (Ends pieces n ↔ Ends (payloads chains) (hdr.length + n)) := by
  rw [streamOf_eq] at hstream
  obtain ⟨pieces, hrun, hflat, hends⟩ :=
    foldl_header hfirst (h := []) hstream (length_pos_of_endsFirst hfirst) hmax
  refine ⟨pieces, ?_, hflat, ?_⟩
  · rw [hrun]
    exact bodyRun _ _ [] pieces (Nat.zero_le _)
  · intro n hn
    rw [hends n hn]
    simp

/-- The first pbuf that ends where the length of the header is reached ends `n` bytes
behind the header. -/
def FirstFull (hdr : List UInt8) (chains : List (List Pbuf)) (n : Nat) : Prop :=
  0 < n ∧ Ends (payloads chains) (hdr.length + n) ∧ Reached (contentLength? hdr) n ∧
    ∀ m, 0 < m → m < n → Ends (payloads chains) (hdr.length + m) →
      ¬ Reached (contentLength? hdr) m

/-- No pbuf ends where the length of the header is reached. -/
def NeverFull (hdr : List UInt8) (chains : List (List Pbuf)) : Prop :=
  ∀ n, 0 < n → Ends (payloads chains) (hdr.length + n) → ¬ Reached (contentLength? hdr) n

omit [NetConfig] in
theorem completes_iff {hdr : List UInt8} {chains : List (List Pbuf)}
    {pieces : List (List UInt8)} {n : Nat}
    (hends : ∀ n, 0 < n → (Ends pieces n ↔ Ends (payloads chains) (hdr.length + n))) :
    Completes (contentLength? hdr) ([] : List UInt8).length pieces n ↔
      FirstFull hdr chains n := by
  unfold Completes FirstFull
  simp only [List.length_nil, Nat.zero_add]
  constructor
  · intro ⟨hpos, he, hr, hfirst⟩
    exact ⟨hpos, (hends n hpos).mp he, hr,
      fun m hm hlt hem => hfirst m hm hlt ((hends m hm).mpr hem)⟩
  · intro ⟨hpos, he, hr, hfirst⟩
    exact ⟨hpos, (hends n hpos).mpr he, hr,
      fun m hm hlt hem => hfirst m hm hlt ((hends m hm).mp hem)⟩

omit [NetConfig] in
theorem never_iff {hdr : List UInt8} {chains : List (List Pbuf)} {pieces : List (List UInt8)}
    (hends : ∀ n, 0 < n → (Ends pieces n ↔ Ends (payloads chains) (hdr.length + n))) :
    NeverReached (contentLength? hdr) ([] : List UInt8).length pieces ↔ NeverFull hdr chains := by
  unfold NeverReached NeverFull
  simp only [List.length_nil, Nat.zero_add]
  constructor
  · intro h n hn he
    exact h n hn ((hends n hn).mpr he)
  · intro h n hn he
    exact h n hn ((hends n hn).mp he)

omit [NetConfig] in
theorem FirstFull.unique {hdr : List UInt8} {chains : List (List Pbuf)} {n m : Nat}
    (h : FirstFull hdr chains n) (h' : FirstFull hdr chains m) : n = m := by
  obtain ⟨hn, hen, hrn, hfn⟩ := h
  obtain ⟨hm, hem, hrm, hfm⟩ := h'
  rcases Nat.lt_trichotomy n m with hlt | heq | hgt
  · exact absurd hrn (hfm n hn hlt hen)
  · exact heq
  · exact absurd hrm (hfn m hm hgt hem)

/-- The response is cut, and the connection ends, in a way for which the code reports the
right result: the first pbuf that ends where the length is reached has status 200 in front
of it, ends exactly there, and is the last of its chain; and a close after a header with
status 200 comes at the end of the body. -/
def GoodCut (chains : List (List Pbuf)) (ending : Ending) : Prop :=
  ∀ hdr body, EndsFirst CRLFCRLF hdr → streamOf chains = hdr ++ body →
    hdr.length < WGET_HEADER_MAX →
    (∀ n, FirstFull hdr chains n → n ≤ WGET_MAX_FILE_SIZE →
      StatusOk hdr ∧ ∀ m, ContentLength hdr m →
        m = n ∧ Ends (chains.map chainBytes) (hdr.length + n)) ∧
    (ending = .closed → parse_http_status_code hdr = 200 → body.length ≤ WGET_MAX_FILE_SIZE →
      NeverFull hdr chains → StatusOk hdr ∧ ∀ m, ContentLength hdr m → m = body.length)

theorem received_body_length {hdr body : List UInt8} (hfirst : EndsFirst CRLFCRLF hdr)
    (hmax : hdr.length < WGET_HEADER_MAX) {pre : List (List Pbuf)} (post : List (List Pbuf)) {n : Nat}
    (hstream : streamOf pre = hdr ++ body) (hn : FirstFull hdr pre n) (hle : n ≤ body.length)
    (hbefore : ∀ q, q <+: pre → q ≠ pre →
      ¬ ((payloads q).foldl Rx.push (.header [])).Over) :
    body.length = n ↔ Ends ((pre ++ post).map chainBytes) (hdr.length + n) := by
  have hlen : (streamOf pre).length = hdr.length + body.length := by
    rw [hstream, List.length_append]
  constructor
  · intro h
    refine ⟨pre.map chainBytes, ?_, ?_⟩
    · rw [List.map_append]
      exact List.prefix_append _ _
    · rw [← h, ← hlen]
      rfl
  · rintro ⟨cs, hcs, hcslen⟩
    obtain ⟨q, hq, rfl⟩ : ∃ q, q <+: pre ++ post ∧ cs = q.map chainBytes := by
      refine ⟨(pre ++ post).take cs.length, List.take_prefix _ _, ?_⟩
      rw [List.map_take]
      exact List.prefix_iff_eq_take.mp hcs
    have hqlen : (streamOf q).length = hdr.length + n := hcslen
    rcases List.prefix_or_prefix_of_prefix hq (List.prefix_append pre post) with hp | hp
    · by_cases hne : q = pre
      · rw [hne] at hqlen
        omega
      · -- the job would be over behind `q` already
        exfalso
        apply hbefore q hp hne
        obtain ⟨t, ht⟩ := hp
        have hqs : streamOf q = hdr ++ body.take n := by
          have hpre : streamOf q <+: hdr ++ body := by
            rw [← hstream, ← ht, streamOf_append]
            exact List.prefix_append _ _
          rw [List.prefix_iff_eq_take.mp hpre, hqlen, List.take_length_add_append]
        obtain ⟨pieces, hrun, hflat, hends⟩ := run_response hfirst hqs hmax
        have hfull : ¬ NeverFull hdr q := by
          intro hnever
          refine hnever n hn.1 ?_ hn.2.2.1
          have := hn.2.1
          rw [← ht, payloads_append] at this
          apply ends_of_append_le this
          rw [← streamOf_eq, hqlen]
        generalize (payloads q).foldl Rx.push (.header []) = r at hrun
        cases hrun with
        | finished k hk hfits => exact Or.inr ⟨_, rfl⟩
        | failed k hk hno hfits => exact Or.inl ⟨_, rfl⟩
        | body hno hfits => exact absurd ((never_iff hends).mp hno) hfull
    · obtain ⟨t, ht⟩ := hp
      have : (streamOf q).length = (streamOf pre).length + (streamOf t).length := by
        rw [← ht, streamOf_append, List.length_append]
      omega

theorem received_response {hdr body : List UInt8} (hfirst : EndsFirst CRLFCRLF hdr)
    (hmax : hdr.length < WGET_HEADER_MAX) {pre post : List (List Pbuf)} {n : Nat}
    (hstream : streamOf (pre ++ post) = hdr ++ body)
    (hfold : Rx.finished (body.take n) = (payloads pre).foldl Rx.push (.header []))
    (hle : n ≤ body.length) :
    ∃ b, streamOf pre = hdr ++ b ∧ FirstFull hdr pre n ∧ n ≤ b.length ∧
      body.take n = b.take n := by
  cases hs : splitMark CRLFCRLF [] (streamOf pre) with
  | none =>
    rw [streamOf_eq] at hs
    rcases foldl_header_none hs with ⟨x, hx⟩ | hx
    · rw [hx] at hfold
      cases hfold
    · rw [hx] at hfold
      cases hfold
  | some x =>
    obtain ⟨hdr', b⟩ := x
    obtain ⟨hpre, hfirst'⟩ := splitMark_nil_eq_some CRLFCRLF_ne_nil hs
    rw [streamOf_append, ← hpre, List.append_assoc] at hstream
    obtain ⟨rfl, rfl⟩ := hfirst'.unique hfirst hstream
    obtain ⟨pieces, hrun, hflat, hends⟩ := run_response hfirst hpre.symm hmax
    generalize (payloads pre).foldl Rx.push (.header []) = r at hrun hfold
    cases hrun with
    | body hn hfits => cases hfold
    | failed k hk hn hfits => cases hfold
    | finished k hk hfits =>
      rw [hflat, List.nil_append, Rx.finished.injEq] at hfold
      have hkb : k ≤ b.length := by
        rw [← hflat]
        exact hk.2.1.le
      have hnk : n = k := by
        have := congrArg List.length hfold
        rw [List.length_take, List.length_take] at this
        omega
      rw [hnk] at hfold ⊢
      exact ⟨b, hpre.symm, (completes_iff hends).mp hk, hkb, hfold⟩

theorem not_succeeded_of_not_past {w : World} {r : Rx} {pcb : Nat} {chains : List (List Pbuf)}
    (ht : Tracks true (deliver pcb w chains).job r) (hwin : ¬ (deliver pcb w chains).Browser)
    (hr : (∃ x, r = .header x) ∨ ∃ b, r = .failed b) (ending : Ending) :
    ¬ (download pcb w chains ending).Succeeded := by
  rcases hr with ⟨x, rfl⟩ | ⟨b, rfl⟩
  · rw [(download_of_running ht.at_state.1 hwin ending).1, ht.at_state.2.1]
    simp
  · rw [download_of_done ht.at_state.1]
    intro ⟨_, hs⟩
    rw [ht.at_state.2] at hs
    cases hs

/-- For every stream of bytes, every cut into chains and every end of the connection: a
normal window reports a success only for a good response if and only if `GoodCut` holds. -/
theorem success_good_iff {w : World} (hw : Fresh w) (hwin : ¬ w.Browser) (pcb : Nat)
    (chains : List (List Pbuf)) (ending : Ending) :
    ((download pcb w chains ending).Succeeded →
        GoodDownload (received pcb w chains) (download pcb w chains ending).job.body) ↔
      GoodCut chains ending := by
  have ht := tracks_deliver pcb hw.tracks Rx.fits_nil hwin chains
  have hwin' : ¬ (deliver pcb w chains).Browser :=
    fun hb => hwin ((sameWindow_deliver pcb w chains).browser_iff.mp hb)
  cases hs : splitMark CRLFCRLF [] (streamOf chains) with
  | none =>
    -- no header in the bytes: no success, and nothing to ask for
    have hno : ¬ (download pcb w chains ending).Succeeded := by
      rw [streamOf_eq] at hs
      apply not_succeeded_of_not_past ht hwin'
      rcases foldl_header_none hs with ⟨x, hx⟩ | hx
      · exact Or.inl ⟨x, hx⟩
      · exact Or.inr ⟨[], hx⟩
    refine ⟨fun _ hdr body hfirst hstream _ => ?_, fun _ h => absurd h hno⟩
    rw [hstream] at hs
    have hpos := length_pos_of_endsFirst hfirst
    rw [splitMark_of_endsFirst hfirst (List.nil_append hdr) (List.ne_nil_of_length_pos hpos)] at hs
    cases hs
  | some x =>
    obtain ⟨hdr, body⟩ := x
    obtain ⟨hstream, hfirst⟩ := splitMark_nil_eq_some CRLFCRLF_ne_nil hs
    have hgood : GoodCut chains ending ↔ (hdr.length < WGET_HEADER_MAX →
        (∀ n, FirstFull hdr chains n → n ≤ WGET_MAX_FILE_SIZE →
          StatusOk hdr ∧ ∀ m, ContentLength hdr m →
            m = n ∧ Ends (chains.map chainBytes) (hdr.length + n)) ∧
        (ending = .closed → parse_http_status_code hdr = 200 →
          body.length ≤ WGET_MAX_FILE_SIZE → NeverFull hdr chains →
            StatusOk hdr ∧ ∀ m, ContentLength hdr m → m = body.length)) := by
      constructor
      · intro h
        exact h hdr body hfirst hstream.symm
      · intro h hdr' body' hfirst' hstream'
        obtain ⟨rfl, rfl⟩ := hfirst.unique hfirst' (hstream.trans hstream')
        exact h
    rw [hgood]
    by_cases hmax : hdr.length < WGET_HEADER_MAX
    · simp only [hmax, true_imp_iff]
      obtain ⟨pre, post, rfl, hrec, hfold, hall, hbefore⟩ :=
        received_eq hw.tracks Rx.fits_nil hwin pcb chains
      obtain ⟨pieces, hrun, hflat, hends⟩ := run_response hfirst hstream.symm hmax
      generalize hr : (payloads (pre ++ post)).foldl Rx.push (.header []) = r at ht hrun hall hfold
      cases hrun with
      | failed k hk hno hfits =>
        have hfail := not_succeeded_of_not_past ht hwin' (Or.inr ⟨_, rfl⟩) ending
        refine ⟨fun _ => ⟨?_, ?_⟩, fun _ h => absurd h hfail⟩
        · intro n hn hle
          have := hno n ((completes_iff hends).mpr hn)
          rw [List.length_nil] at this
          omega
        · intro _ _ hle
          rw [hflat, List.length_nil] at hfits
          omega
      | body hnever hfits =>
        have hpre : streamOf pre = hdr ++ body := by
          rw [hstream]
          apply congrArg
          apply hall
          rintro (⟨b, hb⟩ | ⟨b, hb⟩) <;> cases hb
        rw [hrec, hpre, goodDownload_iff hfirst]
        rw [hflat, List.nil_append] at ht
        rw [hflat, List.length_nil, Nat.zero_add] at hfits
        have hnf := (never_iff hends).mp hnever
        obtain ⟨hsucc, hbody⟩ := download_of_running ht.at_state.1 hwin' ending
        rw [hsucc, ht.at_state.2.1, ht.at_state.2.2.2]
        constructor
        · intro h
          refine ⟨fun n hn => absurd hn.2.2.1 (hnf n hn.1 hn.2.1), ?_⟩
          intro hclosed hstatus _ _
          obtain ⟨hok, hlen⟩ := h ⟨hclosed, rfl, hstatus⟩
          exact ⟨hok, fun m hm => (hlen m hm).1.symm⟩
        · intro ⟨_, h⟩ ⟨hclosed, _, hstatus⟩
          obtain ⟨hok, hlen⟩ := h hclosed hstatus hfits hnf
          refine ⟨hok, fun m hm => ⟨(hlen m hm).symm, ?_⟩⟩
          rw [hbody hclosed, ht.saved]
          rfl
      | finished n hn hfits =>
        have hfull := (completes_iff hends).mp hn
        rw [List.length_nil, Nat.zero_add] at hfits
        have hsucc : (download pcb w (pre ++ post) ending).Succeeded := by
          rw [download_of_done ht.at_state.1]
          exact ht.at_state
        have hsaved : (download pcb w (pre ++ post) ending).job.body = body.take n := by
          rw [download_of_done ht.at_state.1, ht.saved, hflat]
          rfl
        have hnle : n ≤ body.length := by
          rw [← hflat]
          exact hn.2.1.le
        rw [hflat, List.nil_append] at hfold
        obtain ⟨b, hpre, hfull', hnb, htake⟩ :=
          received_response hfirst hmax hstream.symm hfold hnle
        have hend := received_body_length hfirst hmax post hpre hfull' hnb hbefore
        rw [hrec, hpre, goodDownload_iff hfirst, hsaved, htake]
        constructor
        · intro h
          obtain ⟨hok, hlen⟩ := h hsucc
          refine ⟨fun k hk _ => ⟨hok, fun m hm => ?_⟩, fun _ _ _ hnever => ?_⟩
          · obtain ⟨hbm, hall'⟩ := hlen m hm
            rw [List.take_eq_self_iff] at hall'
            have hbn : b.length = n := by omega
            rw [hk.unique hfull]
            exact ⟨by omega, hend.mp hbn⟩
          · exact absurd hfull.2.2.1 (hnever n hfull.1 hfull.2.1)
        · intro ⟨h, _⟩ _
          obtain ⟨hok, hlen⟩ := h n hfull hfits
          refine ⟨hok, fun m hm => ?_⟩
          obtain ⟨rfl, hends'⟩ := hlen m hm
          have hbm := hend.mpr hends'
          exact ⟨hbm, by rw [← hbm, List.take_length]⟩
    · have hfail : (payloads chains).foldl Rx.push (.header []) = .failed [] := by
        rw [streamOf_eq] at hstream
        exact foldl_header_big hfirst (h := []) hstream.symm (length_pos_of_endsFirst hfirst)
          (by decide) (by omega)
      have hno := not_succeeded_of_not_past ht hwin' (Or.inr ⟨_, hfail⟩) ending
      exact ⟨fun _ h => absurd h hmax, fun _ h => absurd h hno⟩

end

/-! ## Successes that are none -/

theorem not_browser_startedWorld : ¬ (startedWorld 0).Browser :=
  fun h => nomatch h.2.2

/-- The theorem, for a good response in one pbuf. -/
theorem success_good_whole :
    ((@download qemuNet 0 (startedWorld 0) wholeChains .closed).Succeeded →
      GoodDownload (@received qemuNet 0 (startedWorld 0) wholeChains)
        (@download qemuNet 0 (startedWorld 0) wholeChains .closed).job.body) ↔
      @GoodCut qemuNet wholeChains .closed :=
  @success_good_iff qemuNet (startedWorld 0) (fresh_startedWorld 0) not_browser_startedWorld 0
    wholeChains .closed

theorem StatusOk.blank {hdr : List UInt8} (h : StatusOk hdr) :
    (hdr.dropWhile (· != 32)).take 4 = ascii " 200" := by
  obtain ⟨version, reason, rest, rfl, _, hversion, _⟩ := h
  rw [List.dropWhile_append_of_pos]
  · rfl
  · intro c hc
    simpa using (hversion c hc).1

/-- An error page with its length, and a page of 9 bytes of which 2 arrive. -/
def missingHeader : List UInt8 := ascii "HTTP/1.0 404 Not Found\r\nContent-Length: 2\r\n\r\n"
def shortHeader : List UInt8 := ascii "HTTP/1.0 200 OK\r\nContent-Length: 9\r\n\r\n"
def twoBytes : List UInt8 := ascii "no"
def missingChains : List (List Pbuf) := [[⟨missingHeader ++ twoBytes, by decide⟩]]
def shortChains : List (List Pbuf) := [[⟨shortHeader ++ twoBytes, by decide⟩]]

theorem endsFirst_missingHeader : EndsFirst CRLFCRLF missingHeader := by
  have h : splitMark CRLFCRLF [] missingHeader = some (missingHeader, []) := by decide +kernel
  exact (splitMark_nil_eq_some CRLFCRLF_ne_nil h).2

theorem endsFirst_shortHeader : EndsFirst CRLFCRLF shortHeader := by
  have h : splitMark CRLFCRLF [] shortHeader = some (shortHeader, []) := by decide
  exact (splitMark_nil_eq_some CRLFCRLF_ne_nil h).2

theorem contentLength_shortHeader : ContentLength shortHeader 9 :=
  ⟨ascii "HTTP/1.0 200 OK", ascii "Content-Length", [32], ascii "9", [], CRLF, by decide,
    by decide +kernel, by decide +kernel, by decide +kernel, by decide +kernel, by decide +kernel⟩

/-- The code reports a success for the error page, and for the page that is cut short. -/
theorem success_for_bad :
    ((@download qemuNet 0 (startedWorld 0) missingChains .stays).Succeeded ∧
      ¬ GoodDownload (@received qemuNet 0 (startedWorld 0) missingChains)
        (@download qemuNet 0 (startedWorld 0) missingChains .stays).job.body) ∧
    (@download qemuNet 0 (startedWorld 0) shortChains .closed).Succeeded ∧
      ¬ GoodDownload (@received qemuNet 0 (startedWorld 0) shortChains)
        (@download qemuNet 0 (startedWorld 0) shortChains .closed).job.body := by
  have hmissing : @received qemuNet 0 (startedWorld 0) missingChains =
      missingHeader ++ twoBytes := by decide
  have hshort : @received qemuNet 0 (startedWorld 0) shortChains =
      shortHeader ++ twoBytes := by decide
  rw [hmissing, hshort, goodDownload_iff endsFirst_missingHeader,
    goodDownload_iff endsFirst_shortHeader]
  refine ⟨⟨⟨by decide, by decide⟩, ?_⟩, ⟨by decide, by decide⟩, ?_⟩
  · intro ⟨hok, _⟩
    exact absurd hok.blank (by decide)
  · intro ⟨_, hlen⟩
    have := (hlen 9 contentLength_shortHeader).1
    exact absurd this (by decide)

end vibeos.wget
