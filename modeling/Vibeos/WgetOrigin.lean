-- Which address a job connects to, and from which connection its bytes come, when
-- messages for earlier requests still arrive.
import Vibeos.WgetHygiene

namespace vibeos.wget

open vibeos.fs vibeos.Segments

/-! ## The request of a job, in the log -/

def Event.isQueued : Event → Bool
  | .queued _ => true
  | _ => false

/-- What happened since the last request was queued. -/
def sinceQueued (es : List Event) : List Event := es.takeWhile fun e => !e.isQueued

def currentHost : List Event → Option (List UInt8)
  | [] => none
  | e :: older =>
    match e with
    | .queued host => some host
    | _ => currentHost older

/-- An event that says nothing about hosts, addresses and bytes. -/
def Event.Plain : Event → Prop
  | .queued _ => False
  | .query _ _ => False
  | .store _ _ => False
  | .feed _ _ _ => False
  | .call _ (.connect _ _) => False
  | _ => True

theorem sinceQueued_cons {e : Event} (es : List Event) (h : e.isQueued = false) :
    sinceQueued (e :: es) = e :: sinceQueued es := by
  unfold sinceQueued
  rw [List.takeWhile_cons, h]
  rfl

theorem Event.Plain.not_queued {e : Event} (h : e.Plain) : e.isQueued = false := by
  cases e <;> first | rfl | exact h.elim

theorem currentHost_cons {e : Event} (es : List Event) (h : e.isQueued = false) :
    currentHost (e :: es) = currentHost es := by
  cases e <;> first | rfl | cases h

section

variable [NetConfig]

/-- The address was resolved for the host, since the request was queued: the host is an
address itself, or DNS gave it for this name. -/
def ResolvedFor (host : List UInt8) (addr : Nat) (since : List Event) : Prop :=
  ipaddr_aton host = some addr ∨ ∃ q, .query q host ∈ since ∧ .reply q (some addr) ∈ since

/-- Every connect goes to an address of the request's own host, and all bytes that are
stored or fed come from a connection that was made for the request. -/
def NoCrossTalk : List Event → Prop
  | [] => True
  | e :: older =>
    (match e with
      | .call _ (.connect addr _) =>
        ∃ host, currentHost older = some host ∧ ResolvedFor host addr (sinceQueued older)
      | .store p _ => .new p ∈ sinceQueued older
      | .feed p _ _ => .new p ∈ sinceQueued older
      | _ => True) ∧ NoCrossTalk older

theorem noCrossTalk_plain {e : Event} {es : List Event} (h : e.Plain) :
    NoCrossTalk (e :: es) ↔ NoCrossTalk es := by
  cases e with
  | call p c => cases c <;> simp_all [NoCrossTalk, Event.Plain]
  | _ => simp_all [NoCrossTalk, Event.Plain]

theorem ResolvedFor.mono {host : List UInt8} {addr : Nat} {es es' : List Event}
    (h : ResolvedFor host addr es) (hsub : es ⊆ es') : ResolvedFor host addr es' := by
  rcases h with h | ⟨q, hq, hr⟩
  · exact Or.inl h
  · exact Or.inr ⟨q, hsub hq, hsub hr⟩

/-! ## The job and its request -/

/-- The job holds bytes and an address of its own request only. -/
structure Origin (es : List Event) (j : Job) : Prop where
  talk : NoCrossTalk es
  body : j.body = stored (sinceQueued es)
  addr : j.resolved_addr_valid = true →
    ∃ host, currentHost es = some host ∧ ResolvedFor host j.resolved_addr (sinceQueued es)
  host : j.resolve_pending = true → currentHost es = some j.host
  queries : ∀ q name, .query q name ∈ sinceQueued es → currentHost es = some name

theorem Origin.cons {es : List Event} {j : Job} (h : Origin es j) {e : Event}
    (hqueued : e.isQueued = false) (hstored : ∀ l, stored (e :: l) = stored l)
    (htalk : NoCrossTalk (e :: es))
    (hname : ∀ q name, e = .query q name → currentHost es = some name) : Origin (e :: es) j where
  talk := htalk
  body := by
    rw [sinceQueued_cons es hqueued, h.body, hstored]
  addr hv := by
    obtain ⟨host, hh, hr⟩ := h.addr hv
    rw [sinceQueued_cons es hqueued, currentHost_cons es hqueued]
    exact ⟨host, hh, hr.mono (List.subset_cons_self _ _)⟩
  host hp := by
    rw [currentHost_cons es hqueued]
    exact h.host hp
  queries q name hq := by
    rw [sinceQueued_cons es hqueued] at hq
    rw [currentHost_cons es hqueued]
    rcases List.mem_cons.mp hq with hq | hq
    · exact hname q name hq.symm
    · exact h.queries q name hq

theorem Origin.plain {es : List Event} {j : Job} (h : Origin es j) {e : Event} (he : e.Plain) :
    Origin (e :: es) j := by
  refine h.cons he.not_queued (fun l => ?_) ((noCrossTalk_plain he).mpr h.talk) ?_
  · cases e <;> first | rfl | exact he.elim
  · rintro q name rfl
    exact he.elim

theorem Origin.congr {es : List Event} {j j' : Job} (h : Origin es j) (hs : SameTarget j j')
    (hb : j'.body = j.body) : Origin es j' where
  talk := h.talk
  body := hb.trans h.body
  addr hv := by
    rw [hs.resolved_addr_valid] at hv
    rw [hs.resolved_addr]
    exact h.addr hv
  host hp := by
    rw [hs.resolve_pending] at hp
    rw [hs.host]
    exact h.host hp
  queries := h.queries

theorem Origin.bytes {es : List Event} {j j' : Job} (h : Origin es j) (hs : SameTarget j j')
    {p : Nat} (hp : .new p ∈ sinceQueued es) {fs : List Event}
    (hfs : ∀ e ∈ fs, (∃ b, e = .store p b) ∨ ∃ win b, e = .feed p win b)
    (hb : j'.body = j.body ++ stored fs) : Origin (fs ++ es) j' := by
  induction fs generalizing j' with
  | nil => exact h.congr hs (by rw [hb]; simp [stored])
  | cons e fs ih =>
    have hrest : ∀ e' ∈ fs, (∃ b, e' = .store p b) ∨ ∃ win b, e' = .feed p win b :=
      fun e' he' => hfs e' (List.mem_cons_of_mem _ he')
    -- the job in front of the newest event
    have hold := @ih { j' with body := j.body ++ stored fs }
      ⟨hs.host, hs.resolve_pending, hs.resolved_addr_valid, hs.resolved_addr⟩ hrest rfl
    have hq : e.isQueued = false := by
      rcases hfs e List.mem_cons_self with ⟨b, rfl⟩ | ⟨win, b, rfl⟩ <;> rfl
    have hnew : .new p ∈ sinceQueued (fs ++ es) := by
      clear ih hfs hb hold hq
      induction fs with
      | nil => exact hp
      | cons f fs ihf =>
        have hf : f.isQueued = false := by
          rcases hrest f List.mem_cons_self with ⟨b, rfl⟩ | ⟨win, b, rfl⟩ <;> rfl
        rw [List.cons_append, sinceQueued_cons _ hf]
        exact List.mem_cons_of_mem _ (ihf fun e' he' => hrest e' (List.mem_cons_of_mem _ he'))
    rw [List.cons_append]
    refine ⟨?_, ?_, ?_, ?_, ?_⟩
    · refine ⟨?_, hold.talk⟩
      rcases hfs e List.mem_cons_self with ⟨b, rfl⟩ | ⟨win, b, rfl⟩
      · exact hnew
      · exact hnew
    · rw [sinceQueued_cons _ hq, hb]
      have hbody : j.body ++ stored fs = stored (sinceQueued (fs ++ es)) := hold.body
      rcases hfs e List.mem_cons_self with ⟨b, rfl⟩ | ⟨win, b, rfl⟩
      · simp only [stored]
        rw [← hbody, List.append_assoc]
      · simp only [stored]
        exact hbody
    · intro hv
      obtain ⟨host, hh, hr⟩ := hold.addr hv
      rw [sinceQueued_cons _ hq, currentHost_cons _ hq]
      exact ⟨host, hh, hr.mono (List.subset_cons_self _ _)⟩
    · intro hpend
      rw [currentHost_cons _ hq]
      exact hold.host hpend
    · intro q name hm
      rw [sinceQueued_cons _ hq] at hm
      rw [currentHost_cons _ hq]
      rcases List.mem_cons.mp hm with hm | hm
      · rcases hfs e List.mem_cons_self with ⟨b, rfl⟩ | ⟨win, b, rfl⟩ <;> cases hm
      · exact hold.queries q name hm

/-- The job of the world holds its own bytes. -/
def World.Own (w : World) : Prop := Origin w.events w.job

/-- The address is one for the request. -/
def Aimed (es : List Event) (addr : Nat) : Prop :=
  ∃ host, currentHost es = some host ∧ ResolvedFor host addr (sinceQueued es)

theorem Aimed.plain {es : List Event} {addr : Nat} (h : Aimed es addr) {e : Event}
    (he : e.isQueued = false) : Aimed (e :: es) addr := by
  obtain ⟨host, hh, hr⟩ := h
  refine ⟨host, ?_, ?_⟩
  · rw [currentHost_cons es he]
    exact hh
  · rw [sinceQueued_cons es he]
    exact hr.mono (List.subset_cons_self _ _)

theorem Origin.connect {es : List Event} {j : Job} (h : Origin es j) {addr : Nat}
    (ha : Aimed es addr) (p port : Nat) : Origin (.call p (.connect addr port) :: es) j :=
  h.cons rfl (fun _ => rfl) ⟨ha, h.talk⟩ (fun _ _ he => nomatch he)

theorem Origin.query {es : List Event} {j : Job} (h : Origin es j) (q : Nat) {name : List UInt8}
    (hname : currentHost es = some name) : Origin (.query q name :: es) j := by
  refine h.cons rfl (fun _ => rfl) ⟨trivial, h.talk⟩ fun q' name' he => ?_
  cases he
  exact hname

/-! ## The functions -/

theorem own_wget_close_pcb {w : World} (h : w.Own) (abort : Bool) :
    (wget_close_pcb w abort).Own := by
  unfold World.Own
  rw [job_wget_close_pcb]
  have hjob : Origin w.events { w.job with pcb := none } :=
    Origin.congr h ⟨rfl, rfl, rfl, rfl⟩ rfl
  cases hp : w.job.pcb with
  | none =>
    rw [wget_close_pcb_of_none hp]
    exact hjob
  | some p =>
    rw [events_wget_close_pcb hp]
    have h1 := hjob.plain (e := .call p (.arg false)) trivial
    have h2 := h1.plain (e := .call p (.recv false)) trivial
    have h3 := h2.plain (e := .call p (.sent false)) trivial
    have h4 := h3.plain (e := .call p (.err false)) trivial
    cases abort with
    | false => exact h4.plain (e := .call p .close) trivial
    | true => exact h4.plain (e := .call p .abort) trivial

theorem own_wget_finish {w : World} (h : w.Own) (success : Bool) (msg : Option (List UInt8)) :
    (wget_finish w success msg).Own := by
  have hjob : Origin w.events (w.job.finish success msg) :=
    Origin.congr h ⟨rfl, rfl, rfl, rfl⟩ rfl
  unfold wget_finish World.Own
  dsimp only
  split
  · split
    · apply hjob.plain
      trivial
    · split
      · apply hjob.plain
        trivial
      · exact hjob
  · exact hjob

theorem own_finish_close {w : World} (h : w.Own) (abort success : Bool)
    (msg : Option (List UInt8)) : (wget_finish (wget_close_pcb w abort) success msg).Own :=
  own_wget_finish (own_wget_close_pcb h abort) success msg

theorem Quiet.own {p : Nat} {w u : World} (hq : Quiet p w u) (h : w.Own)
    (hp : .new p ∈ sinceQueued w.events) : u.Own := by
  obtain ⟨es, hes, hb, hfs⟩ := hq.events
  unfold World.Own
  rw [hes]
  exact Origin.bytes h hq.target hp hfs hb

theorem own_recv_closed {w : World} (h : w.Own) : (recv_closed w).Own := by
  have hclose := own_wget_close_pcb h false
  unfold recv_closed
  dsimp only
  split
  · exact own_wget_finish hclose _ _
  · split
    · exact own_wget_finish hclose _ _
    · split
      · exact own_wget_finish hclose _ _
      · exact own_wget_finish hclose _ _

/-- The bytes of a chain count for the job. -/
def World.Takes (w : World) : Prop := w.job.done = false ∨ w.feeds = true

theorem own_recv_cb_chain {w : World} (h : w.Own) (p : Nat) (chain : List Pbuf)
    (hok : w.Takes → .new p ∈ sinceQueued w.events) :
    (wget_recv_cb w p (some chain) ERR_OK).1.Own := by
  rw [wget_recv_cb_some]
  have hafter : ∀ x : World × Bool, x.1.Own → (afterChain p chain x).Own := by
    intro ⟨v, b⟩ hv
    have hv1 := Origin.plain hv (e := .call p (.recved (chainBytes chain).length)) trivial
    cases b with
    | true => exact hv
    | false =>
      unfold afterChain
      dsimp only
      split
      · exact hv1
      · exact hv1.plain (e := .call p .output) trivial
  apply hafter
  by_cases ht : w.Takes
  · have hp := hok ht
    have hout := outcome_recv p w chain
    generalize recv_chain p (if w.feeds then feed_chain p w chain else w) chain = x at hout
    cases hout with
    | goes u hq => exact hq.own h hp
    | gaveUp u hq hd msg => exact own_finish_close (hq.own h hp) _ _ _
    | complete u hq hd => exact own_finish_close (hq.own h hp) _ _ _
  · -- the job is done, and nothing is stored or fed
    have hfeeds : w.feeds = false := by
      cases hf : w.feeds with
      | false => rfl
      | true => exact absurd (Or.inr hf) ht
    have hdone : w.job.done = true := by
      cases hd : w.job.done with
      | true => rfl
      | false => exact absurd (Or.inl hd) ht
    rw [hfeeds, if_neg Bool.false_ne_true, recv_chain_of_done hdone]
    exact h

theorem own_callback {w : World} {p : Nat} {f : World → World × Int}
    (h : (f (w.log (.entered p))).1.Own) : (callback p w f).Own := by
  unfold callback
  exact Origin.plain h (e := .returned p _) trivial

theorem own_connected_cb {w : World} (h : w.Own) (p : Nat) (err : Int) :
    (wget_connected_cb w p err).1.Own := by
  unfold wget_connected_cb
  split
  · exact own_finish_close h _ _ _
  · have h0 : Origin w.events { w.job with stage := .recv } :=
      Origin.congr h ⟨rfl, rfl, rfl, rfl⟩ rfl
    have h1 := h0.plain (e := .call p (.recv true)) trivial
    have h2 := h1.plain (e := .call p (.err true)) trivial
    have h3 := h2.plain (e := .call p (.write w.job.request)) trivial
    exact h3.plain (e := .call p .output) trivial

theorem own_err_cb {w : World} (h : w.Own) (err : Int) : (wget_err_cb w err).Own := by
  have h0 : World.Own { w with job := { w.job with pcb := none } } :=
    Origin.congr h ⟨rfl, rfl, rfl, rfl⟩ rfl
  unfold wget_err_cb
  dsimp only
  split
  · exact h0
  · exact own_wget_finish h0 _ _

theorem own_start_connection {w : World} (h : w.Own) (o : Oracle) {addr : Nat}
    (ha : Aimed w.events addr) (port : Nat) : (start_connection o w addr port).Own := by
  unfold start_connection
  split
  · exact own_wget_finish h _ _
  · dsimp only
    have h0 : Origin w.events { w.job with pcb := some w.pcbs } :=
      Origin.congr h ⟨rfl, rfl, rfl, rfl⟩ rfl
    have h1 := h0.plain (e := .new w.pcbs) trivial
    have h2 := h1.plain (e := .call w.pcbs (.bind w.local_port)) trivial
    have h3 := h2.plain (e := .call w.pcbs (.arg true)) trivial
    have h4 := h3.plain (e := .call w.pcbs (.err true)) trivial
    have ha' := (((ha.plain (e := .new w.pcbs) rfl).plain
      (e := .call w.pcbs (.bind w.local_port)) rfl).plain (e := .call w.pcbs (.arg true)) rfl).plain
      (e := .call w.pcbs (.err true)) rfl
    have h5 := h4.connect ha' w.pcbs port
    split
    · apply own_finish_close
      exact h5
    · exact h5

theorem own_start_with_addr {w : World} (h : w.Own) (o : Oracle) {addr : Nat}
    (ha : Aimed w.events addr) (port : Nat) (use_tls : Bool) :
    (wget_start_with_addr o w addr port use_tls).Own := by
  unfold wget_start_with_addr
  split
  · exact h
  · dsimp only
    have h0 : World.Own { w with job :=
        { w.job with active := true, stage := .connect, wait_started_ms := o.sys_now } } :=
      Origin.congr h ⟨rfl, rfl, rfl, rfl⟩ rfl
    split
    · unfold wget_ensure_tls_allocator
      cases w.tls_conf || o.tls_config with
      | false =>
        apply own_wget_finish
        exact h0
      | true =>
        apply own_start_connection
        · exact h0
        · exact ha
    · exact own_start_connection h0 o ha port

theorem own_kick_connect {w : World} (h : w.Own) (o : Oracle) : (kick_connect o w).Own := by
  have h0 : World.Own { w with job := { w.job with request_pending := false } } :=
    Origin.congr h ⟨rfl, rfl, rfl, rfl⟩ rfl
  unfold kick_connect
  split
  · exact own_wget_finish h0 _ _
  · rename_i hv
    apply own_start_with_addr h0
    apply Origin.addr h
    simpa using hv

theorem own_kick_if_needed {w : World} (h : w.Own) (o : Oracle) :
    (wget_kick_if_needed o w).Own := by
  unfold wget_kick_if_needed
  split
  · exact h
  · split
    · exact own_kick_connect h o
    · rename_i hpend
      split
      · exact h
      · dsimp only
        have hhost := h.host (by simpa using hpend)
        have hq := Origin.query h w.queries hhost
        split
        · rename_i a _
          apply own_kick_connect
          -- DNS knows the address already
          refine ⟨⟨trivial, hq.talk⟩, ?_, ?_, ?_, ?_⟩
          · exact hq.plain (e := .reply w.queries (some a)) trivial |>.body
          · intro _
            refine ⟨w.job.host, hhost, Or.inr ⟨w.queries, ?_, ?_⟩⟩
            · exact List.mem_cons_of_mem _ List.mem_cons_self
            · exact List.mem_cons_self
          · intro hp
            cases hp
          · exact hq.plain (e := .reply w.queries (some a)) trivial |>.queries
        · exact hq.congr ⟨rfl, rfl, rfl, rfl⟩ rfl
        · apply own_wget_finish
          have hr := hq.plain (e := .reply w.queries none) trivial
          exact ⟨hr.talk, hr.body, hr.addr, fun hp => (nomatch hp), hr.queries⟩

/-- The host is an address itself, or it has the 19 bytes that `copy_name20` keeps. -/
def HostKept (r : Request) : Prop := ipaddr_aton r.host.bytes = none → r.host.bytes.length ≤ 19

theorem own_queue_request {w : World} (h : w.Own) (o : Oracle) {r : Request} (hr : HostKept r) :
    (wget_queue_request_ex o w r).Own := by
  unfold wget_queue_request_ex
  apply own_kick_if_needed
  refine ⟨⟨trivial, h.talk⟩, ?_, ?_, ?_, ?_⟩
  · show (r.job o).body = []
    unfold Request.job
    dsimp only
    split <;> rfl
  · intro hv
    refine ⟨r.host.bytes, rfl, Or.inl ?_⟩
    change (r.job o).resolved_addr_valid = true at hv
    show ipaddr_aton r.host.bytes = some (r.job o).resolved_addr
    unfold Request.job at hv ⊢
    dsimp only at hv ⊢
    split at hv
    · cases hv
    · rename_i heq
      rw [heq]
  · intro hp
    change (r.job o).resolve_pending = true at hp
    show some r.host.bytes = some (r.job o).host
    unfold Request.job at hp ⊢
    dsimp only at hp ⊢
    split at hp
    · rename_i heq
      dsimp only
      unfold copyName20
      rw [List.take_of_length_le (hr heq)]
    · cases hp
  · intro q name hq
    cases hq

theorem own_dns_found_cb {w : World} (h : w.Own) (q : Nat) (ipaddr : Option Nat)
    (hok : ∀ a, ipaddr = some a → w.job.request_pending = true → w.job.done = false →
      ∃ name, .query q name ∈ sinceQueued w.events) : (wget_dns_found_cb w q ipaddr).Own := by
  have hreply := Origin.plain h (e := .reply q ipaddr) trivial
  have h0 : Origin (.reply q ipaddr :: w.events) { w.job with resolve_in_progress := false } :=
    hreply.congr ⟨rfl, rfl, rfl, rfl⟩ rfl
  unfold wget_dns_found_cb
  dsimp only
  split
  · exact h0
  · rename_i hbusy
    split
    · apply own_wget_finish
      exact ⟨h0.talk, h0.body, h0.addr, fun hp => (nomatch hp), h0.queries⟩
    · rename_i a
      refine ⟨h0.talk, h0.body, ?_, fun hp => (nomatch hp), h0.queries⟩
      intro _
      have hstate : w.job.request_pending = true ∧ w.job.done = false := by
        simpa using hbusy
      obtain ⟨name, hname⟩ := hok a rfl hstate.1 hstate.2
      refine ⟨name, h.queries q name hname, Or.inr ⟨q, ?_, ?_⟩⟩
      · exact List.mem_cons_of_mem _ hname
      · exact List.mem_cons_self

theorem own_timeout_step {w : World} (h : w.Own) (o : Oracle) : (wget_timeout_step o w).Own := by
  unfold wget_timeout_step
  dsimp only
  split
  · exact h
  · split
    · apply own_wget_finish
      exact ⟨h.talk, h.body, h.addr, fun hp => (nomatch hp), h.queries⟩
    · split
      · exact own_finish_close h _ _ _
      · exact h

/-! ## Runs -/

/-- The condition on a step: a host name is not cut; an address from DNS that the job
waits for answers a query of its own; and bytes that the job takes come from a connection
of its own. -/
def OwnMessages (w : World) : Input → Prop
  | .queue r => HostKept r
  | .dns q (some _) => w.job.request_pending = true → w.job.done = false →
    ∃ name, .query q name ∈ sinceQueued w.events
  | .recv p (some _) err => err = ERR_OK → w.Takes → .new p ∈ sinceQueued w.events
  | _ => True

theorem own_step {w : World} (h : w.Own) (o : Oracle) {i : Input} (hok : OwnMessages w i) :
    (step o w i).Own := by
  cases i with
  | queue r => exact own_queue_request h o hok
  | adopt owner => exact Origin.congr h ⟨rfl, rfl, rfl, rfl⟩ rfl
  | windows wins => exact h
  | kick => exact own_kick_if_needed h o
  | timeout => exact own_timeout_step h o
  | interrupt =>
    unfold step wget_interrupt
    dsimp only
    split
    · exact own_finish_close h _ _ _
    · exact h
  | dns q ipaddr =>
    rw [step]
    apply own_dns_found_cb h
    intro a ha hp hd
    rw [ha] at hok
    exact hok hp hd
  | connected p err =>
    rw [step]
    apply own_callback
    apply own_connected_cb
    exact Origin.plain h (e := .entered p) trivial
  | recv p chain err =>
    rw [step]
    apply own_callback
    have hentered : (w.log (.entered p)).Own := Origin.plain h (e := .entered p) trivial
    by_cases herr : err = ERR_OK
    · rw [herr] at hok ⊢
      cases chain with
      | none =>
        unfold wget_recv_cb
        rw [if_neg (fun h => h rfl)]
        exact own_recv_closed hentered
      | some chain =>
        apply own_recv_cb_chain hentered
        intro ht
        exact List.mem_cons_of_mem _ (hok rfl ht)
    · unfold wget_recv_cb
      rw [if_pos herr]
      exact own_finish_close hentered _ _ _
  | error p err =>
    rw [step]
    apply own_err_cb
    exact Origin.plain h (e := .freed p) trivial

/-- In every run whose steps meet the condition, jobs connect only to addresses of their
own hosts, and the body of the job is what came from its own connections. -/
theorem no_cross_talk {w : World} (h : Run OwnMessages w) :
    NoCrossTalk w.events ∧ w.job.body = stored (sinceQueued w.events) := by
  have hown : w.Own := by
    induction h with
    | start wins =>
      exact ⟨trivial, rfl, fun hv => (nomatch hv), fun hp => (nomatch hp), fun _ _ hq => (nomatch hq)⟩
    | step o i h he hc ih => exact own_step ih o hc
  exact ⟨hown.talk, hown.body⟩

end

/-! ## Two runs -/

theorem run_own_connected : @Run qemuNet (@OwnMessages qemuNet) connectedWorld :=
  @Run.step qemuNet _ queuedWorld plainOracle (.connected 0 ERR_OK)
    (@Run.step qemuNet _ (World.start fun _ => 0) plainOracle (.queue pageRequest)
      (@Run.start qemuNet _ _) trivial (fun _ => by decide))
    ⟨by decide, 7, 80, by decide⟩ trivial

/-- The response of `wholeChains` comes in one pbuf. -/
theorem no_cross_talk_whole :
    let w := @step qemuNet plainOracle connectedWorld
      (.recv 0 (some [⟨okHeader ++ okBody, by decide⟩]) ERR_OK)
    @NoCrossTalk qemuNet w.events ∧ w.job.body = stored (sinceQueued w.events) :=
  @no_cross_talk qemuNet _ (@Run.step qemuNet _ _ plainOracle
    (.recv 0 (some [⟨okHeader ++ okBody, by decide⟩]) ERR_OK) run_own_connected
    ⟨by decide, by decide⟩ (fun _ _ => by decide))

def slowOracle : Oracle := { plainOracle with dns := .inprogress }

/-- Two pages of hosts with other names. -/
def firstRequest : Request := { pageRequest with host := ⟨ascii "a", by decide⟩ }
def secondRequest : Request := { pageRequest with host := ⟨ascii "b", by decide⟩ }

/-- Both requests are queued, the answer for the first one comes, and the second one goes
on. -/
def firstWorld : World := @step qemuNet slowOracle (World.start fun _ => 0) (.queue firstRequest)
def secondWorld : World := @step qemuNet slowOracle firstWorld (.queue secondRequest)
def answeredWorld : World := @step qemuNet slowOracle secondWorld (.dns 0 (some 5))
def crossedWorld : World := @step qemuNet slowOracle answeredWorld .kick

theorem run_crossed : @Run qemuNet (fun _ _ => True) crossedWorld :=
  @Run.step qemuNet _ answeredWorld slowOracle .kick
    (@Run.step qemuNet _ secondWorld slowOracle (.dns 0 (some 5))
      (@Run.step qemuNet _ firstWorld slowOracle (.queue secondRequest)
        (@Run.step qemuNet _ (World.start fun _ => 0) slowOracle (.queue firstRequest)
          (@Run.start qemuNet _ _) trivial trivial) trivial trivial)
      ⟨⟨ascii "a", by decide⟩, by
        intro a
        have hes : secondWorld.events = [.query 1 (ascii "b"), .queued (ascii "b"),
            .query 0 (ascii "a"), .queued (ascii "a")] := by decide
        rw [hes]
        simp⟩ trivial)
    trivial trivial

/-- The second job connects to the address of the first one's host. -/
theorem late_answer_crosses : ∃ w, @Run qemuNet (fun _ _ => True) w ∧
    ¬ (@NoCrossTalk qemuNet w.events ∧ w.job.body = stored (sinceQueued w.events)) := by
  refine ⟨crossedWorld, run_crossed, ?_⟩
  have hes : crossedWorld.events = [.call 0 (.connect 5 80), .call 0 (.err true),
      .call 0 (.arg true), .call 0 (.bind 10000), .new 0, .reply 0 (some 5),
      .query 1 (ascii "b"), .queued (ascii "b"), .query 0 (ascii "a"), .queued (ascii "a")] := by
    decide
  rw [hes]
  intro ⟨htalk, _⟩
  obtain ⟨host, hhost, hres⟩ := htalk.1
  cases hhost
  rcases hres with hlit | ⟨q, hq, hr⟩
  · cases hlit
  · simp [sinceQueued, Event.isQueued] at hq hr
    omega

end vibeos.wget
