-- The steps of the downloads: what users, the network task and lwIP can do to the job in
-- any order, and what each function asks of lwIP.
import Vibeos.WgetFeed

namespace vibeos.wget

open vibeos.fs vibeos.Segments

/-! ## Steps -/

/-- What happens next. `adopt` is the `wget` command that makes a queued job its own, and
`windows` stands for windows that open and close. -/
inductive Input
  | queue (r : Request)
  | adopt (owner : Int)
  | windows (wins : Int → Nat)
  | kick
  | timeout
  | interrupt
  | dns (q : Nat) (ipaddr : Option Nat)
  | connected (p : Nat) (err : Int)
  | recv (p : Nat) (chain : Option (List Pbuf)) (err : Int)
  | error (p : Nat) (err : Int)

/-- The connection was closed or aborted, or lwIP has freed it. -/
def Ended (es : List Event) (p : Nat) : Prop :=
  .call p .close ∈ es ∨ .call p .abort ∈ es ∨ .freed p ∈ es

instance (es : List Event) (p : Nat) : Decidable (Ended es p) := by
  unfold Ended
  infer_instance

/-- The last call of the setter for `p` has set a callback. -/
def isSet (setter : Bool → Call) (p : Nat) : List Event → Bool
  | [] => false
  | e :: older =>
    if e = .call p (setter true) then true
    else if e = .call p (setter false) then false
    else isSet setter p older

/-- lwIP calls back for connections that it still has, where a callback is set, and answers
each DNS query once. -/
def Enabled (w : World) : Input → Prop
  | .dns q _ => (∃ name, .query q name ∈ w.events) ∧ ∀ a, .reply q a ∉ w.events
  | .connected p _ =>
    ¬ Ended w.events p ∧ ∃ addr port, .call p (.connect addr port) ∈ w.events
  | .recv p _ _ => ¬ Ended w.events p ∧ isSet .recv p w.events = true
  | .error p _ => ¬ Ended w.events p ∧ isSet .err p w.events = true
  | _ => True

def World.start (wins : Int → Nat) : World where
  job := Job.zero
  wins := wins
  tls_conf := false
  local_port := 10000
  pcbs := 0
  queries := 0
  events := []

section

variable [NetConfig]

/-- The callback, between its start and its return. -/
def callback (p : Nat) (w : World) (f : World → World × Int) : World :=
  match f (w.log (.entered p)) with
  | (w, err) => w.log (.returned p err)

def step (o : Oracle) (w : World) : Input → World
  | .queue r => wget_queue_request_ex o w r
  | .adopt owner => { w with job := { w.job with owner_win_id := owner, save_pending := true } }
  | .windows wins => { w with wins }
  | .kick => wget_kick_if_needed o w
  | .timeout => wget_timeout_step o w
  | .interrupt => wget_interrupt w
  | .dns q ipaddr => wget_dns_found_cb w q ipaddr
  | .connected p err => callback p w fun w => wget_connected_cb w p err
  | .recv p chain err => callback p w fun w => wget_recv_cb w p chain err
  | .error p err => wget_err_cb (w.log (.freed p)) err

/-- The worlds that are reached by steps that meet the condition. -/
inductive Run (cond : World → Input → Prop) : World → Prop
  | start (wins : Int → Nat) : Run cond (World.start wins)
  | step {w : World} (o : Oracle) (i : Input) (h : Run cond w) (he : Enabled w i)
      (hc : cond w i) : Run cond (step o w i)

theorem Run.mono {c d : World → Input → Prop} (hcd : ∀ w i, c w i → d w i) {w : World}
    (h : Run c w) : Run d w := by
  induction h with
  | start wins => exact Run.start wins
  | step o i _ he hc ih => exact Run.step o i ih he (hcd _ _ hc)

end

/-! ## What the functions do -/

def stored : List Event → List UInt8
  | [] => []
  | e :: older =>
    match e with
    | .store _ bytes => stored older ++ bytes
    | _ => stored older

theorem stored_append (es es' : List Event) : stored (es' ++ es) = stored es ++ stored es' := by
  induction es' with
  | nil => simp [stored]
  | cons e es' ih =>
    cases e <;> simp [stored, ih]

/-- The job has the same host and the same address. -/
structure SameTarget (j j' : Job) : Prop where
  host : j'.host = j.host
  resolve_pending : j'.resolve_pending = j.resolve_pending
  resolved_addr_valid : j'.resolved_addr_valid = j.resolved_addr_valid
  resolved_addr : j'.resolved_addr = j.resolved_addr

theorem SameTarget.refl (j : Job) : SameTarget j j := ⟨rfl, rfl, rfl, rfl⟩

theorem SameTarget.trans {j j' j'' : Job} (h : SameTarget j j') (h' : SameTarget j' j'') :
    SameTarget j j'' where
  host := h'.host.trans h.host
  resolve_pending := h'.resolve_pending.trans h.resolve_pending
  resolved_addr_valid := h'.resolved_addr_valid.trans h.resolved_addr_valid
  resolved_addr := h'.resolved_addr.trans h.resolved_addr

/-- Only bytes of the connection `p` were stored and fed since, and the job has its
connection still. -/
structure Quiet (p : Nat) (w u : World) : Prop where
  pcb : u.job.pcb = w.job.pcb
  done : u.job.done = w.job.done
  target : SameTarget w.job u.job
  pcbs : u.pcbs = w.pcbs
  events : ∃ es, u.events = es ++ w.events ∧ u.job.body = w.job.body ++ stored es ∧
    ∀ e ∈ es, (∃ b, e = .store p b) ∨ ∃ win b, e = .feed p win b

theorem quiet_job {p : Nat} {w : World} {j : Job} (hpcb : j.pcb = w.job.pcb)
    (hdone : j.done = w.job.done) (htarget : SameTarget w.job j) (hbody : j.body = w.job.body) :
    Quiet p w { w with job := j } :=
  ⟨hpcb, hdone, htarget, rfl, [], rfl, by rw [hbody]; simp [stored], fun _ h => (nomatch h)⟩

theorem Quiet.refl (p : Nat) (w : World) : Quiet p w w :=
  quiet_job rfl rfl (SameTarget.refl _) rfl

theorem Quiet.trans {p : Nat} {w u v : World} (h : Quiet p w u) (h' : Quiet p u v) :
    Quiet p w v where
  pcb := h'.pcb.trans h.pcb
  done := h'.done.trans h.done
  target := h.target.trans h'.target
  pcbs := h'.pcbs.trans h.pcbs
  events := by
    obtain ⟨es, hes, hb, hq⟩ := h.events
    obtain ⟨es', hes', hb', hq'⟩ := h'.events
    refine ⟨es' ++ es, by rw [hes', hes, List.append_assoc], ?_, ?_⟩
    · rw [hb', hb, stored_append, List.append_assoc]
    · intro e he
      rcases List.mem_append.mp he with he | he
      · exact hq' e he
      · exact hq e he

theorem quiet_store (p : Nat) (w : World) (d : List UInt8) : Quiet p w (w.store p d) :=
  ⟨rfl, rfl, ⟨rfl, rfl, rfl, rfl⟩, rfl, [.store p d], rfl, by simp [stored, World.store],
    fun e he => by
      rw [List.mem_singleton] at he
      exact Or.inl ⟨d, he⟩⟩

theorem quiet_feed (p : Nat) (w : World) (d : List UInt8) : Quiet p w (w.feed p d) :=
  ⟨rfl, rfl, SameTarget.refl _, rfl, [.feed p w.job.owner_win_id d], rfl,
    by simp [stored, World.feed], fun e he => by
      rw [List.mem_singleton] at he
      exact Or.inr ⟨_, d, he⟩⟩

theorem quiet_header_byte (p : Nat) (w : World) (c : UInt8) :
    Quiet p w { w with job := w.job.header_byte c } := by
  unfold Job.header_byte
  dsimp only
  split <;> exact quiet_job rfl rfl ⟨rfl, rfl, rfl, rfl⟩ rfl

theorem quiet_feed_chain (p : Nat) (w : World) (chain : List Pbuf) :
    Quiet p w (feed_chain p w chain) := by
  induction chain generalizing w with
  | nil => exact Quiet.refl p w
  | cons tp rest ih =>
    rw [feed_chain]
    split
    · exact (quiet_feed p w _).trans (ih _)
    · split
      · exact ih w
      · rename_i d _
        refine Quiet.trans ?_ (ih _)
        have hdone : Quiet p w { w with job := { w.job with header_done := true } } :=
          quiet_job rfl rfl ⟨rfl, rfl, rfl, rfl⟩ rfl
        dsimp only
        split
        · exact hdone
        · exact hdone.trans (quiet_feed p _ d)

section

variable [NetConfig]

/-- How the loops of the receive callback end: the job goes on, or was done before; it
gives up and aborts its connection; or it is complete and closes it. -/
inductive Outcome (p : Nat) (w : World) : World × Bool → Prop
  | goes (u : World) (h : Quiet p w u) : Outcome p w (u, false)
  | gaveUp (u : World) (h : Quiet p w u) (hd : u.job.done = false) (msg : List UInt8) :
      Outcome p w (wget_finish (wget_close_pcb u true) false (some msg), false)
  | complete (u : World) (h : Quiet p w u) (hd : u.job.done = false) :
      Outcome p w (wget_finish (wget_close_pcb u false) true none, true)

omit [NetConfig] in
theorem Outcome.of_quiet {p : Nat} {w v : World} {x : World × Bool} (hq : Quiet p w v)
    (h : Outcome p v x) : Outcome p w x := by
  cases h with
  | goes u h => exact .goes u (hq.trans h)
  | gaveUp u h hd msg => exact .gaveUp u (hq.trans h) hd msg
  | complete u h hd => exact .complete u (hq.trans h) hd

theorem outcome_recv_pbuf (p : Nat) (w : World) (src : List UInt8) :
    Outcome p w (recv_pbuf p w src) := by
  induction src generalizing w with
  | nil => exact .goes w (Quiet.refl p w)
  | cons c rest ih =>
    rw [recv_pbuf]
    split
    · exact .goes w (Quiet.refl p w)
    · rename_i hd
      rw [Bool.not_eq_true] at hd
      split
      · split
        · exact .gaveUp w (Quiet.refl p w) hd _
        · exact (ih _).of_quiet (quiet_header_byte p w c)
      · split
        · exact .gaveUp w (Quiet.refl p w) hd _
        · dsimp only
          split
          · exact .complete (w.store p (c :: rest)) (quiet_store p w _) hd
          · exact .goes _ (quiet_store p w _)

theorem recv_chain_of_done {w : World} (h : w.job.done = true) (p : Nat) (chain : List Pbuf) :
    recv_chain p w chain = (w, false) := by
  cases chain with
  | nil => rfl
  | cons q rest => rw [recv_chain, if_pos h]

theorem outcome_recv_chain (p : Nat) (w : World) (chain : List Pbuf) :
    Outcome p w (recv_chain p w chain) := by
  induction chain generalizing w with
  | nil => exact .goes w (Quiet.refl p w)
  | cons q rest ih =>
    rw [recv_chain]
    split
    · exact .goes w (Quiet.refl p w)
    · have hq := outcome_recv_pbuf p w q.payload
      generalize recv_pbuf p w q.payload = x at hq
      cases hq with
      | goes u h => exact (ih u).of_quiet h
      | gaveUp u h hd msg =>
        have hdone : (wget_finish (wget_close_pcb u true) false (some msg)).job.done = true := by
          rw [job_wget_finish]
          rfl
        dsimp only
        rw [recv_chain_of_done hdone]
        exact .gaveUp u h hd msg
      | complete u h hd => exact .complete u h hd

theorem outcome_recv (p : Nat) (w : World) (chain : List Pbuf) :
    Outcome p w (recv_chain p (if w.feeds then feed_chain p w chain else w) chain) := by
  apply (outcome_recv_chain p _ chain).of_quiet
  split
  · exact quiet_feed_chain p w chain
  · exact Quiet.refl p w

end

end vibeos.wget
