-- What the loops of the receive callback come to, as a machine over the bytes of the
-- pbufs, and that the callback runs like it.
import Vibeos.Wget
import Vibeos.Segments

namespace vibeos.wget

open vibeos.fs vibeos.Segments

/-- The length that the code reads in a header. -/
def contentLength? (hdr : List UInt8) : Option Nat :=
  if 0 ≤ parse_content_length hdr then some (parse_content_length hdr).toNat else none

def Job.clen (j : Job) : Option Nat := if j.has_content_len then some j.content_len else none

/-- How far a response has come: in the header; in the body, with the length and the
status of the header; given up; or complete. -/
inductive Rx
  | header (h : List UInt8)
  | body (clen : Option Nat) (status : Int) (b : List UInt8)
  | failed (b : List UInt8)
  | finished (b : List UInt8)

/-- The bytes of the body that are saved. -/
def Rx.saved : Rx → List UInt8
  | .header _ => []
  | .body _ _ b => b
  | .failed b => b
  | .finished b => b

/-- The response is as long as the length says. -/
def Reached (clen : Option Nat) (n : Nat) : Prop := ∃ c, clen = some c ∧ c ≤ n

instance (clen : Option Nat) (n : Nat) : Decidable (Reached clen n) :=
  match clen with
  | none => isFalse fun ⟨_, h, _⟩ => nomatch h
  | some c => decidable_of_iff (c ≤ n) ⟨fun h => ⟨c, rfl, h⟩, fun ⟨_, h, hc⟩ => by
      cases h
      exact hc⟩

section

variable [NetConfig]

/-- The rest of a pbuf comes to the body. -/
def Rx.addBody (clen : Option Nat) (status : Int) (b src : List UInt8) : Rx :=
  if src = [] then .body clen status b
  else if WGET_MAX_FILE_SIZE < b.length + src.length then .failed b
  else if Reached clen (b ++ src).length then .finished (b ++ src)
  else .body clen status (b ++ src)

def Rx.push : Rx → List UInt8 → Rx
  | .header h, src =>
    match splitMark CRLFCRLF h src with
    | none => if h.length + src.length < WGET_HEADER_MAX then .header (h ++ src) else .failed []
    | some (hdr, rest) =>
      if hdr.length < WGET_HEADER_MAX then
        Rx.addBody (contentLength? hdr) (parse_http_status_code hdr) [] rest
      else .failed []
  | .body clen status b, src => Rx.addBody clen status b src
  | .failed b, _ => .failed b
  | .finished b, _ => .finished b

end

/-! ## The job keeps track -/

/-- The job is where the machine is. It is active, if it was, until it is done. -/
structure Tracks (a : Bool) (j : Job) (r : Rx) : Prop where
  saved : j.body = r.saved
  running : j.active = (a && !j.done)
  at_state : match r with
    | .header h => j.done = false ∧ j.header_done = false ∧ j.has_content_len = false ∧ j.header = h
    | .body clen status _ =>
      j.done = false ∧ j.header_done = true ∧ j.clen = clen ∧ j.http_status = status
    | .failed _ => j.done = true ∧ j.success = false
    | .finished _ => j.done = true ∧ j.success = true

variable {a : Bool}

@[simp]
theorem job_log (w : World) (e : Event) : (w.log e).job = w.job := rfl

@[simp]
theorem job_call (w : World) (p : Nat) (c : Call) : (w.call p c).job = w.job := rfl

@[simp]
theorem wins_log (w : World) (e : Event) : (w.log e).wins = w.wins := rfl

@[simp]
theorem wins_call (w : World) (p : Nat) (c : Call) : (w.call p c).wins = w.wins := rfl

def Job.finish (j : Job) (success : Bool) (msg : Option (List UInt8)) : Job :=
  { j with
    success, done := true, active := false, stage := .idle
    err := match msg with
      | some m => copyName20 m
      | none => j.err }

theorem job_wget_finish (w : World) (success : Bool) (msg : Option (List UInt8)) :
    (wget_finish w success msg).job = w.job.finish success msg := by
  unfold wget_finish
  dsimp only
  split
  · split
    · rfl
    · split <;> rfl
  · rfl

theorem wins_wget_finish (w : World) (success : Bool) (msg : Option (List UInt8)) :
    (wget_finish w success msg).wins = w.wins := by
  unfold wget_finish
  dsimp only
  split
  · split
    · rfl
    · split <;> rfl
  · rfl

theorem job_wget_close_pcb (w : World) (abort : Bool) :
    (wget_close_pcb w abort).job = { w.job with pcb := none } := by
  unfold wget_close_pcb
  split
  · rename_i h
    rw [← h]
  · cases abort <;> rfl

theorem wins_wget_close_pcb (w : World) (abort : Bool) :
    (wget_close_pcb w abort).wins = w.wins := by
  unfold wget_close_pcb
  split
  · rfl
  · cases abort <;> rfl

theorem tracks_failed (w : World) (abort : Bool) (msg : List UInt8) :
    Tracks a (wget_finish (wget_close_pcb w abort) false (some msg)).job (.failed w.job.body) := by
  rw [job_wget_finish, job_wget_close_pcb]
  exact ⟨rfl, (Bool.and_false a).symm, rfl, rfl⟩

theorem tracks_finished (w : World) :
    Tracks a (wget_finish (wget_close_pcb w false) true none).job (.finished w.job.body) := by
  rw [job_wget_finish, job_wget_close_pcb]
  exact ⟨rfl, (Bool.and_false a).symm, rfl, rfl⟩

theorem Tracks.done_iff {j : Job} {r : Rx} (h : Tracks a j r) :
    j.done = true ↔ (∃ b, r = .failed b) ∨ ∃ b, r = .finished b := by
  cases r with
  | header b => simp [h.at_state.1]
  | body c s b => simp [h.at_state.1]
  | failed b => simp [h.at_state.1]
  | finished b => simp [h.at_state.1]

theorem reached_clen (j : Job) (n : Nat) :
    Reached j.clen n ↔ j.has_content_len = true ∧ j.content_len ≤ n := by
  unfold Reached Job.clen
  cases j.has_content_len <;> simp

theorem header_byte_of_not {j : Job} {c : UInt8} (h : ¬ CRLFCRLF <:+ j.header ++ [c]) :
    j.header_byte c = { j with header := j.header ++ [c] } := by
  unfold Job.header_byte
  rw [if_neg h]

theorem tracks_header_end {j : Job} {h : List UInt8} {c : UInt8} (ht : Tracks a j (.header h))
    (hend : CRLFCRLF <:+ h ++ [c]) :
    Tracks a (j.header_byte c)
      (.body (contentLength? (h ++ [c])) (parse_http_status_code (h ++ [c])) []) := by
  obtain ⟨hsaved, hrun, hdone, hhdr, hlen, rfl⟩ := ht
  unfold Job.header_byte
  simp only [if_pos hend]
  refine ⟨hsaved, hrun, hdone, rfl, ?_, rfl⟩
  unfold Job.clen contentLength?
  rw [hlen, Bool.false_or]
  simp only [decide_eq_true_eq]
  split <;> rfl

theorem tracks_header_byte {j : Job} {h : List UInt8} {c : UInt8} (ht : Tracks a j (.header h))
    (hend : ¬ CRLFCRLF <:+ h ++ [c]) : Tracks a (j.header_byte c) (.header (h ++ [c])) := by
  obtain ⟨hsaved, hrun, hdone, hhdr, hlen, rfl⟩ := ht
  rw [header_byte_of_not hend]
  exact ⟨hsaved, hrun, hdone, hhdr, hlen, rfl⟩

/-! ## The window of a job -/

/-- The job belongs to a window of the browser, which is fed while the data arrives. -/
def World.Browser (w : World) : Prop :=
  0 ≤ w.job.owner_win_id ∧ w.job.resource_kind = 0 ∧
    w.wins w.job.owner_win_id = WINDOW_KIND_NETSURF

structure SameWindow (w w' : World) : Prop where
  wins : w'.wins = w.wins
  owner : w'.job.owner_win_id = w.job.owner_win_id
  kind : w'.job.resource_kind = w.job.resource_kind

theorem SameWindow.refl (w : World) : SameWindow w w := ⟨rfl, rfl, rfl⟩

theorem SameWindow.trans {w w' w'' : World} (h : SameWindow w w') (h' : SameWindow w' w'') :
    SameWindow w w'' :=
  ⟨h'.wins.trans h.wins, h'.owner.trans h.owner, h'.kind.trans h.kind⟩

theorem SameWindow.browser_iff {w w' : World} (h : SameWindow w w') : w'.Browser ↔ w.Browser := by
  unfold World.Browser
  rw [h.wins, h.owner, h.kind]

theorem sameWindow_finish_close (w : World) (abort success : Bool) (msg : Option (List UInt8)) :
    SameWindow w (wget_finish (wget_close_pcb w abort) success msg) where
  wins := by rw [wins_wget_finish, wins_wget_close_pcb]
  owner := by
    rw [job_wget_finish, job_wget_close_pcb]
    rfl
  kind := by
    rw [job_wget_finish, job_wget_close_pcb]
    rfl

theorem sameWindow_header_byte (w : World) (c : UInt8) :
    SameWindow w { w with job := w.job.header_byte c } := by
  unfold Job.header_byte
  dsimp only
  split <;> exact ⟨rfl, rfl, rfl⟩

theorem sameWindow_feed_chain (pcb : Nat) (w : World) (p : List Pbuf) :
    SameWindow w (feed_chain pcb w p) := by
  induction p generalizing w with
  | nil => exact SameWindow.refl w
  | cons tp rest ih =>
    rw [feed_chain]
    split
    · have hfeed : SameWindow w (w.feed pcb tp.payload) := ⟨rfl, rfl, rfl⟩
      exact hfeed.trans (ih _)
    · split
      · exact ih w
      · refine SameWindow.trans ?_ (ih _)
        split <;> exact ⟨rfl, rfl, rfl⟩

theorem feeds_iff (w : World) : w.feeds = true ↔ w.job.active = true ∧ w.Browser := by
  simp [World.feeds, World.Browser, and_assoc]

/-- What the callback does behind the loops. -/
def afterChain (pcb : Nat) (p : List Pbuf) : World × Bool → World
  | (w, true) => w
  | (w, false) =>
    let w := w.call pcb (.recved (chainBytes p).length)
    if w.job.done then w else w.call pcb .output

theorem job_afterChain (pcb : Nat) (p : List Pbuf) (x : World × Bool) :
    (afterChain pcb p x).job = x.1.job := by
  obtain ⟨w, b⟩ := x
  cases b with
  | true => rfl
  | false =>
    unfold afterChain
    dsimp only
    split <;> rfl

theorem wins_afterChain (pcb : Nat) (p : List Pbuf) (x : World × Bool) :
    (afterChain pcb p x).wins = x.1.wins := by
  obtain ⟨w, b⟩ := x
  cases b with
  | true => rfl
  | false =>
    unfold afterChain
    dsimp only
    split <;> rfl

/-! ## The stream -/

/-- The payloads of the pbufs of the chains. -/
def payloads (chains : List (List Pbuf)) : List (List UInt8) := chains.flatten.map Pbuf.payload

def streamOf (chains : List (List Pbuf)) : List UInt8 := (chains.map chainBytes).flatten

theorem streamOf_eq (chains : List (List Pbuf)) : streamOf chains = (payloads chains).flatten := by
  induction chains with
  | nil => rfl
  | cons p rest ih =>
    unfold streamOf payloads chainBytes at *
    rw [List.map_cons, List.flatten_cons, ih, List.flatten_cons, List.map_append,
      List.flatten_append]

/-! ## One pbuf -/

section

variable [NetConfig]

theorem Rx.push_nil (r : Rx) (h : ∀ x, r = .header x → x.length < WGET_HEADER_MAX) :
    r.push [] = r := by
  cases r with
  | header x => simp [push, splitMark, h x rfl]
  | body c s b => simp [push, addBody]
  | failed b => rfl
  | finished b => rfl

theorem tracks_addBody {w : World} {pcb : Nat} {clen : Option Nat} {status : Int}
    {b : List UInt8} (h : Tracks a w.job (.body clen status b)) (src : List UInt8) :
    Tracks a (recv_pbuf pcb w src).1.job (Rx.addBody clen status b src) := by
  obtain ⟨hsaved, hrun, hdone, hhdr, hclen, hstatus⟩ := h
  cases src with
  | nil => simpa [recv_pbuf, Rx.addBody] using ⟨hsaved, hrun, hdone, hhdr, hclen, hstatus⟩
  | cons c rest =>
    rw [recv_pbuf, Rx.addBody]
    have hb : w.job.body = b := hsaved
    simp only [hdone, hhdr, hb, Bool.false_eq_true, if_false, Bool.not_true, reduceCtorEq]
    split
    · rw [← hb]
      exact tracks_failed _ _ _
    · have hreach : Reached clen (b ++ c :: rest).length ↔
          (w.store pcb (c :: rest)).job.has_content_len = true ∧
            (w.store pcb (c :: rest)).job.content_len ≤
              (w.store pcb (c :: rest)).job.body.length := by
        rw [← hclen, reached_clen, ← hb]
        rfl
      by_cases hr : Reached clen (b ++ c :: rest).length
      · rw [if_pos hr, if_pos (hreach.mp hr)]
        have : (w.store pcb (c :: rest)).job.body = b ++ c :: rest := by
          rw [← hb]
          rfl
        rw [← this]
        exact tracks_finished _
      · rw [if_neg hr, if_neg (fun hn => hr (hreach.mpr hn))]
        refine ⟨?_, hrun, hdone, hhdr, hclen, hstatus⟩
        rw [← hb]
        rfl

theorem tracks_recv_pbuf {w : World} {r : Rx} (pcb : Nat) (h : Tracks a w.job r)
    (hr : ∀ x, r = .header x → x.length < WGET_HEADER_MAX) (src : List UInt8) :
    Tracks a (recv_pbuf pcb w src).1.job (r.push src) := by
  cases r with
  | body c s b => exact tracks_addBody h src
  | failed b =>
    cases src with
    | nil => exact h
    | cons c rest => simpa [recv_pbuf, Rx.push, h.at_state.1] using h
  | finished b =>
    cases src with
    | nil => exact h
    | cons c rest => simpa [recv_pbuf, Rx.push, h.at_state.1] using h
  | header x =>
    induction src generalizing w x with
    | nil =>
      rw [Rx.push_nil _ hr]
      exact h
    | cons c rest ih =>
      have hx := hr x rfl
      obtain ⟨hsaved, hrun, hdone, hhdr, hlen, hhx⟩ := h
      rw [recv_pbuf]
      simp only [hdone, hhdr, Bool.false_eq_true, if_false, Bool.not_false, if_true, hhx]
      by_cases hbig : WGET_HEADER_MAX ≤ x.length + 1
      · -- the header fills the buffer: the machine fails too, whatever follows
        have hfail : (Rx.header x).push (c :: rest) = .failed [] := by
          rw [Rx.push]
          split
          · rw [if_neg]
            simp only [List.length_cons]
            omega
          · rename_i hdr tail hs
            have := (splitMark_eq_some hs).2.2.2.1
            rw [if_neg]
            omega
        rw [if_pos hbig, hfail]
        have hb : w.job.body = [] := hsaved
        rw [← hb]
        exact tracks_failed _ _ _
      · rw [if_neg hbig]
        have ht : Tracks a w.job (.header x) := ⟨hsaved, hrun, hdone, hhdr, hlen, hhx⟩
        by_cases hend : CRLFCRLF <:+ x ++ [c]
        · rw [Rx.push, splitMark, if_pos hend]
          have hshort : (x ++ [c]).length < WGET_HEADER_MAX := by
            simp only [List.length_append, List.length_cons, List.length_nil]
            omega
          simp only [if_pos hshort]
          exact tracks_addBody (tracks_header_end ht hend) rest
        · have hstep := ih (x ++ [c]) (w := { w with job := w.job.header_byte c })
            (tracks_header_byte ht hend)
            (by
              intro y hy
              cases hy
              simp only [List.length_append, List.length_cons, List.length_nil]
              omega)
          have hpush : (Rx.header x).push (c :: rest) = (Rx.header (x ++ [c])).push rest := by
            rw [Rx.push, Rx.push, splitMark, if_neg hend]
            simp only [List.length_append, List.length_cons, List.length_nil, List.append_assoc,
              List.cons_append, List.nil_append, Nat.zero_add, Nat.add_assoc,
              Nat.add_comm rest.length]
          rw [hpush]
          exact hstep

/-! ## Chains -/

/-- The machine has room for the header so far. -/
def Rx.Fits (r : Rx) : Prop := ∀ x, r = .header x → x.length < WGET_HEADER_MAX

theorem Rx.fits_addBody (clen : Option Nat) (status : Int) (b src : List UInt8) :
    (Rx.addBody clen status b src).Fits := by
  intro x hx
  unfold addBody at hx
  split at hx
  · cases hx
  · split at hx
    · cases hx
    · split at hx <;> cases hx

theorem Rx.Fits.push {r : Rx} (h : r.Fits) (src : List UInt8) : (r.push src).Fits := by
  cases r with
  | header x =>
    intro y hy
    rw [Rx.push] at hy
    split at hy
    · split at hy
      · rename_i hlen
        cases hy
        rwa [List.length_append]
      · cases hy
    · split at hy
      · exact Rx.fits_addBody _ _ _ _ y hy
      · cases hy
  | body c s b => exact Rx.fits_addBody c s b src
  | failed b => exact h
  | finished b => exact h

@[simp]
theorem foldl_push_failed (b : List UInt8) (ps : List (List UInt8)) :
    ps.foldl Rx.push (.failed b) = .failed b := by
  induction ps with
  | nil => rfl
  | cons p ps ih => exact ih

@[simp]
theorem foldl_push_finished (b : List UInt8) (ps : List (List UInt8)) :
    ps.foldl Rx.push (.finished b) = .finished b := by
  induction ps with
  | nil => rfl
  | cons p ps ih => exact ih

theorem Tracks.foldl_of_done {j : Job} {r : Rx} (h : Tracks a j r) (hd : j.done = true)
    (ps : List (List UInt8)) : ps.foldl Rx.push r = r := by
  rcases h.done_iff.mp hd with ⟨b, rfl⟩ | ⟨b, rfl⟩
  · exact foldl_push_failed b ps
  · exact foldl_push_finished b ps

theorem done_of_recv_pbuf (pcb : Nat) {w : World} {src : List UInt8}
    (h : (recv_pbuf pcb w src).2 = true) : (recv_pbuf pcb w src).1.job.done = true := by
  induction src generalizing w with
  | nil => cases h
  | cons c rest ih =>
    rw [recv_pbuf] at h ⊢
    split at h
    · cases h
    · rename_i hd
      rw [if_neg hd]
      split at h
      · rename_i hhdr
        rw [if_pos hhdr]
        split at h
        · cases h
        · rename_i hbig
          rw [if_neg hbig]
          exact ih h
      · rename_i hhdr
        rw [if_neg hhdr]
        split at h
        · cases h
        · rename_i hbig
          rw [if_neg hbig]
          dsimp only at h ⊢
          split at h
          · rename_i hlen
            rw [if_pos hlen, job_wget_finish]
            rfl
          · cases h

theorem tracks_recv_chain {w : World} {r : Rx} (pcb : Nat) (h : Tracks a w.job r) (hr : r.Fits)
    (p : List Pbuf) :
    Tracks a (recv_chain pcb w p).1.job ((p.map Pbuf.payload).foldl Rx.push r) := by
  induction p generalizing w r with
  | nil => exact h
  | cons q rest ih =>
    rw [recv_chain]
    split
    · rename_i hd
      rw [h.foldl_of_done hd]
      exact h
    · have hq := tracks_recv_pbuf pcb h hr q.payload
      rw [List.map_cons, List.foldl_cons]
      split
      · rename_i w' heq
        have hd := @done_of_recv_pbuf _ pcb w q.payload (by rw [heq])
        rw [heq] at hq hd
        rw [hq.foldl_of_done hd]
        exact hq
      · rename_i w' heq
        rw [heq] at hq
        exact ih hq (hr.push _)

theorem sameWindow_recv_pbuf (pcb : Nat) (w : World) (src : List UInt8) :
    SameWindow w (recv_pbuf pcb w src).1 := by
  induction src generalizing w with
  | nil => exact SameWindow.refl w
  | cons c rest ih =>
    have hstore : SameWindow w (w.store pcb (c :: rest)) := ⟨rfl, rfl, rfl⟩
    rw [recv_pbuf]
    split
    · exact SameWindow.refl w
    · split
      · split
        · exact sameWindow_finish_close w true false (some (ascii "HDR TOO BIG"))
        · exact (sameWindow_header_byte w c).trans (ih _)
      · split
        · exact sameWindow_finish_close w true false (some (ascii "FILE TOO BIG"))
        · dsimp only
          split
          · exact hstore.trans (sameWindow_finish_close (w.store pcb (c :: rest)) false true none)
          · exact hstore

theorem sameWindow_recv_chain (pcb : Nat) (w : World) (p : List Pbuf) :
    SameWindow w (recv_chain pcb w p).1 := by
  induction p generalizing w with
  | nil => exact SameWindow.refl w
  | cons q rest ih =>
    rw [recv_chain]
    split
    · exact SameWindow.refl w
    · have hq := sameWindow_recv_pbuf pcb w q.payload
      split
      · rename_i heq
        rwa [heq] at hq
      · rename_i heq
        rw [heq] at hq
        exact hq.trans (ih _)

theorem wget_recv_cb_some (w : World) (pcb : Nat) (p : List Pbuf) :
    (wget_recv_cb w pcb (some p) ERR_OK).1 =
      afterChain pcb p (recv_chain pcb (if w.feeds then feed_chain pcb w p else w) p) := by
  unfold wget_recv_cb
  rw [if_neg (fun h => h rfl)]
  dsimp only
  split
  · rename_i heq
    rw [heq]
    rfl
  · rename_i heq
    rw [heq]
    rfl

theorem sameWindow_recv_cb (w : World) (pcb : Nat) (p : List Pbuf) :
    SameWindow w (wget_recv_cb w pcb (some p) ERR_OK).1 := by
  rw [wget_recv_cb_some]
  have hfeed : SameWindow w (if w.feeds then feed_chain pcb w p else w) := by
    split
    · exact sameWindow_feed_chain pcb w p
    · exact SameWindow.refl w
  apply (hfeed.trans (sameWindow_recv_chain pcb _ p)).trans
  exact ⟨wins_afterChain _ _ _, by rw [job_afterChain], by rw [job_afterChain]⟩

/-- lwIP hands over one chain after another, as long as the job has not closed the
connection. -/
def deliver (pcb : Nat) (w : World) : List (List Pbuf) → World
  | [] => w
  | p :: rest =>
    if w.job.done then w else deliver pcb (wget_recv_cb w pcb (some p) ERR_OK).1 rest

/-- The bytes of all the chains that lwIP hands over. -/
def received (pcb : Nat) (w : World) : List (List Pbuf) → List UInt8
  | [] => []
  | p :: rest =>
    if w.job.done then []
    else chainBytes p ++ received pcb (wget_recv_cb w pcb (some p) ERR_OK).1 rest

theorem tracks_recv_cb {w : World} {r : Rx} (pcb : Nat) (h : Tracks a w.job r) (hr : r.Fits)
    (hw : ¬ w.Browser) (p : List Pbuf) :
    Tracks a (wget_recv_cb w pcb (some p) ERR_OK).1.job ((p.map Pbuf.payload).foldl Rx.push r) := by
  rw [wget_recv_cb_some, job_afterChain, if_neg]
  · exact tracks_recv_chain pcb h hr p
  · intro hf
    exact hw ((feeds_iff w).mp hf).2

theorem foldl_fits {r : Rx} (h : r.Fits) (ps : List (List UInt8)) :
    (ps.foldl Rx.push r).Fits := by
  induction ps generalizing r with
  | nil => exact h
  | cons p ps ih => exact ih (h.push p)

theorem tracks_deliver {w : World} {r : Rx} (pcb : Nat) (h : Tracks a w.job r) (hr : r.Fits)
    (hw : ¬ w.Browser) (chains : List (List Pbuf)) :
    Tracks a (deliver pcb w chains).job ((payloads chains).foldl Rx.push r) := by
  induction chains generalizing w r with
  | nil => exact h
  | cons p rest ih =>
    rw [deliver]
    split
    · rename_i hd
      rw [h.foldl_of_done hd]
      exact h
    · have hwin := sameWindow_recv_cb w pcb p
      have := ih (tracks_recv_cb pcb h hr hw p) (foldl_fits hr _)
        (fun hb => hw (hwin.browser_iff.mp hb))
      unfold payloads at this ⊢
      rwa [List.flatten_cons, List.map_append, List.foldl_append]

end

end vibeos.wget
