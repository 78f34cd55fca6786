-- The pcb and the transport of an ssh connection over its life: no call on a freed pcb, no use of
-- a freed transport, and no ERR_ABRT without an abort.
import Vibeos.SshBoot
import Vibeos.EventRuns

namespace vibeos.ssh

open Runs (Each)

def ERR_INPROGRESS : Int := -5

/-! ## Connections -/

/-- The pcb as lwIP holds it: not yet freed, and which of its callbacks and whether its argument
are still set. -/
structure Pcb where
  live : Bool
  arg : Bool
  recv : Bool
  sent : Bool
  err : Bool

/-- What a call does to the pcb. A pcb that was closed may still run until lwIP frees it. -/
def Pcb.apply (p : Pcb) : PcbCall → Pcb
  | .arg => { p with arg := false }
  | .recv => { p with recv := false }
  | .sent => { p with sent := false }
  | .err => { p with err := false }
  | .abort => { p with live := false }
  | .recved _ | .write _ | .output | .close => p

inductive Fault where
  | freedPcb (call : PcbCall)
  | abrtWithoutAbort
  | freedTransport

/-- Where the client is: before `altcp_connect`, in the wait loop of `ssh_connect_transport`, with a
session on the transport, or past `ssh_transport_destroy`. -/
inductive Phase where
  | created
  | connecting
  | session
  | gone
deriving DecidableEq

structure Connection where
  t : ssh_transport
  freed : Bool
  pcb : Pcb
  phase : Phase
  faults : List Fault

def Connection.start : Connection :=
  ⟨.start, false, ⟨true, true, true, true, true⟩, .created, []⟩

/-- A call of an `altcp_` function: on a freed pcb it is a fault. -/
def Connection.call (c : Connection) (call : PcbCall) : Connection :=
  if c.pcb.live then { c with pcb := c.pcb.apply call }
  else { c with faults := c.faults ++ [.freedPcb call] }

def Connection.use (c : Connection) (t : ssh_transport) : Connection :=
  if c.freed then { c with faults := c.faults ++ [.freedTransport] } else { c with t := t }

/-- What a callback returned to lwIP, after its calls. -/
def Connection.returned (c : Connection) (rc : Int) (calls : List PcbCall) : Connection :=
  if rc = ERR_ABRT ∧ .abort ∉ calls then { c with faults := c.faults ++ [.abrtWithoutAbort] }
  else c

/-- A callback with the argument of the pcb. With a NULL argument it does nothing. -/
def Connection.callback (c : Connection) (result : ssh_transport × Int × List PcbCall) :
    Connection :=
  if c.pcb.arg then
    (result.2.2.foldl Connection.call (c.use result.1)).returned result.2.1 result.2.2
  else c

/-- `ssh_transport_destroy`, which frees the transport. -/
def Connection.destroy (c : Connection) (closed : Int) : Connection :=
  let d := (ssh_transport_destroy c.t closed).foldl Connection.call (c.use { c.t with pcb := false })
  { d with freed := true, phase := .gone }

inductive ConnEvent where
  | connect (rc closed : Int)
  | poll (expired : Bool) (closed : Int)
  | connected (err : Int)
  | received (p : Option (List Text)) (err : Int)
  | sent
  | error (err : Int)
  | send (length : Nat) (wrote output : Int)
  | recv (length : Nat)
  | destroy (closed : Int)

/-- lwIP only calls back for a pcb that it has not freed, and the client only uses the transport
between the calls that make it and that end it. -/
def Connection.Possible (c : Connection) : ConnEvent → Prop
  | .connect _ _ => c.phase = .created
  | .poll _ _ => c.phase = .connecting
  | .connected _ | .sent | .error _ => c.phase ≠ .created ∧ c.pcb.live = true
  | .received _ _ => c.phase ≠ .created ∧ c.pcb.live = true ∧ c.pcb.recv = true
  | .send _ _ _ | .recv _ | .destroy _ => c.phase = .session

def Connection.step (c : Connection) : ConnEvent → Connection
  | .connect rc closed =>
    if rc ≠ ERR_OK ∧ rc ≠ ERR_INPROGRESS then c.destroy closed
    else { c with phase := .connecting }
  | .poll expired closed =>
    -- one round of the wait loop, or what follows it
    if !c.t.connected && !c.t.closed && c.t.err == 0 then
      if expired then c.destroy closed else c
    else if c.t.err != 0 || c.t.closed || !c.t.connected then c.destroy closed
    else { c with phase := .session }
  | .connected err => c.callback (ssh_altcp_connected_cb c.t err, ERR_OK, [])
  | .received p err => c.callback (ssh_altcp_recv_cb c.t p err)
  | .sent => c
  | .error err =>
    -- the pcb is freed before its callback runs
    let freed := { c with pcb := { c.pcb with live := false } }
    if c.pcb.err then freed.callback (ssh_altcp_err_cb c.t err, ERR_OK, []) else freed
  | .send length wrote output =>
    (ssh_libssh2_send c.t length wrote output).2.foldl Connection.call (c.use c.t)
  | .recv length => c.use (ssh_libssh2_recv c.t length).1
  | .destroy closed => c.destroy closed

def Connection.run (evs : List ConnEvent) : Connection := evs.foldl Connection.step .start

/-- The event reaches no defect: a receive callback has no error, and no transport whose pcb lwIP
freed comes to its end. -/
def Connection.Sound (c : Connection) : ConnEvent → Prop
  | .received _ err => err = ERR_OK
  | .poll _ _ | .destroy _ => c.pcb.live = true
  | _ => True

/-! ## One event -/

/-- While the client is not past the end the transport and its callbacks stand, and the pcb is only
freed behind a closed transport. After the end a pcb that still runs has no callbacks that use it. -/
structure Connection.Inv (c : Connection) : Prop where
  fresh : c.phase = .created → c.pcb.live = true
  stands : c.phase ≠ .gone →
    c.freed = false ∧ c.t.pcb = true ∧ c.pcb.arg = true ∧ c.pcb.err = true ∧
      (c.pcb.live = false → c.t.closed = true)
  ended : c.phase = .gone → c.pcb.live = true → c.pcb.arg = false ∧ c.pcb.recv = false

/-- The event adds no fault to those there are, exactly when `quiet` holds. -/
def Connection.Adds (c d : Connection) (quiet : Prop) : Prop :=
  ∃ fs, d.faults = c.faults ++ fs ∧ (fs = [] ↔ quiet)

theorem Connection.Adds.none {c d : Connection} (h : d.faults = c.faults) {quiet : Prop}
    (hquiet : quiet) : c.Adds d quiet :=
  ⟨[], by rw [h, List.append_nil], iff_of_true rfl hquiet⟩

theorem Connection.use_eq {c : Connection} (h : c.freed = false) (t : ssh_transport) :
    c.use t = { c with t := t } := if_neg (by rw [h]; decide)

theorem destroy_spec {c : Connection} (h : c.Inv) (hphase : c.phase ≠ .gone) (closed : Int) :
    (c.destroy closed).Inv ∧ c.Adds (c.destroy closed) (c.pcb.live = true) := by
  obtain ⟨hfreed, hpcb, harg, -, -⟩ := h.stands hphase
  obtain ⟨t, freed, ⟨live, arg, recv, sent, err⟩, phase, faults⟩ := c
  simp only at hfreed hpcb harg
  subst hfreed harg
  unfold Connection.destroy ssh_transport_destroy
  rw [if_pos hpcb]
  cases live with
  | true =>
    refine ⟨⟨fun hcreated => (nomatch hcreated), fun hne => absurd rfl hne, fun _ _ => ?_⟩, .none ?_ rfl⟩
    all_goals
      by_cases hok : closed = ERR_OK <;>
        simp [hok, Connection.call, Connection.use, Pcb.apply]
  | false =>
    refine ⟨⟨fun hcreated => (nomatch hcreated), fun hne => absurd rfl hne, fun _ hlive => ?_⟩, ?_⟩
    · by_cases hok : closed = ERR_OK <;>
        simp [hok, Connection.call, Connection.use] at hlive
    · refine ⟨(ssh_transport_destroy t closed).map .freedPcb, ?_, ?_⟩
      all_goals
        unfold ssh_transport_destroy
        rw [if_pos hpcb]
        by_cases hok : closed = ERR_OK <;>
          simp [hok, Connection.call, Connection.use]

theorem push_chain_keeps (t : ssh_transport) (chain : List Text) :
    (push_chain t chain).pcb = t.pcb ∧ (push_chain t chain).closed = t.closed := by
  have htrim (u : ssh_transport) :
      (ssh_transport_trim u).pcb = u.pcb ∧ (ssh_transport_trim u).closed = u.closed := by
    unfold ssh_transport_trim
    split_ifs <;> exact ⟨rfl, rfl⟩
  have hpush (u : ssh_transport) (data : Text) :
      (ssh_transport_push u data).pcb = u.pcb ∧
        (ssh_transport_push u data).closed = u.closed := by
    unfold ssh_transport_push
    split_ifs
    · exact ⟨rfl, rfl⟩
    all_goals
      dsimp only
      split_ifs <;> first | exact htrim u | exact ⟨rfl, rfl⟩
  induction chain generalizing t with
  | nil => exact ⟨rfl, rfl⟩
  | cons segment rest ih =>
    rw [push_chain]
    have hone (u : ssh_transport) (hu : u.pcb = t.pcb ∧ u.closed = t.closed) :
        let v := if segment.length > ssh_transport_free_space u then { u with err := ERR_MEM }
          else push_chain (ssh_transport_push u segment) rest
        v.pcb = t.pcb ∧ v.closed = t.closed := by
      dsimp only
      split
      · exact hu
      · obtain ⟨hpcb, hclosed⟩ := ih (ssh_transport_push u segment)
        obtain ⟨hpcb', hclosed'⟩ := hpush u segment
        exact ⟨hpcb.trans (hpcb'.trans hu.1), hclosed.trans (hclosed'.trans hu.2)⟩
    apply hone
    split
    · exact htrim t
    · exact ⟨rfl, rfl⟩

theorem recv_cb_keeps (t : ssh_transport) (p : Option (List Text)) (err : Int) :
    (ssh_altcp_recv_cb t p err).1.pcb = t.pcb ∧
      (t.closed = true → (ssh_altcp_recv_cb t p err).1.closed = true) := by
  unfold ssh_altcp_recv_cb
  split
  · exact ⟨rfl, id⟩
  · cases p with
    | none => exact ⟨rfl, fun _ => rfl⟩
    | some chain =>
      obtain ⟨hpcb, hclosed⟩ := push_chain_keeps t chain
      exact ⟨hpcb, fun h => hclosed.trans h⟩

theorem recv_keeps (t : ssh_transport) (length : Nat) :
    (ssh_libssh2_recv t length).1.pcb = t.pcb ∧
      (ssh_libssh2_recv t length).1.closed = t.closed := by
  unfold ssh_libssh2_recv
  split
  · dsimp only
    split_ifs <;> exact ⟨rfl, rfl⟩
  · dsimp only
    split_ifs <;> exact ⟨rfl, rfl⟩

theorem send_closed {t : ssh_transport} (h : t.closed = true) (length : Nat)
    (wrote output : Int) : (ssh_libssh2_send t length wrote output).2 = [] := by
  unfold ssh_libssh2_send
  rw [h]
  cases t.pcb <;> cases t.connected <;> rfl

theorem send_calls {c : Connection} (hlive : c.pcb.live = true) (t : ssh_transport) (length : Nat)
    (wrote output : Int) :
    (ssh_libssh2_send t length wrote output).2.foldl Connection.call c = c := by
  have hwrite (n : Nat) : c.call (.write n) = c := if_pos hlive
  have houtput : c.call .output = c := if_pos hlive
  unfold ssh_libssh2_send
  dsimp only
  split_ifs <;> simp only [List.foldl_nil, List.foldl_cons, hwrite, houtput]

theorem poll_spec {c : Connection} (h : c.Inv) (hphase : c.phase = .connecting) (expired : Bool)
    (closed : Int) :
    (c.step (.poll expired closed)).Inv ∧
      c.Adds (c.step (.poll expired closed)) (c.pcb.live = true) := by
  have hne : c.phase ≠ .gone := by rw [hphase]; decide
  obtain ⟨hfreed, hpcb, harg, herr, hclosed⟩ := h.stands hne
  have hdestroy := destroy_spec h hne closed
  have hlive (hopen : c.t.closed = false) : c.pcb.live = true := by
    cases hl : c.pcb.live with
    | true => rfl
    | false => rw [hclosed hl] at hopen; cases hopen
  simp only [Connection.step]
  by_cases hwait : (!c.t.connected && !c.t.closed && c.t.err == 0) = true
  · rw [if_pos hwait]
    cases expired with
    | true => exact hdestroy
    | false =>
      have hopen : c.t.closed = false := by
        cases hcl : c.t.closed with
        | false => rfl
        | true => simp [hcl] at hwait
      exact ⟨h, .none rfl (hlive hopen)⟩
  · rw [if_neg hwait]
    by_cases hfail : (c.t.err != 0 || c.t.closed || !c.t.connected) = true
    · rw [if_pos hfail]
      exact hdestroy
    · rw [if_neg hfail]
      have hopen : c.t.closed = false := by
        cases hcl : c.t.closed with
        | false => rfl
        | true => simp [hcl] at hfail
      exact ⟨⟨fun hcreated => (nomatch hcreated),
        fun _ => ⟨hfreed, hpcb, harg, herr, fun hl => hclosed hl⟩,
        fun hgone => (nomatch hgone)⟩, .none rfl (hlive hopen)⟩

theorem received_spec {c : Connection} (h : c.Inv) (hlive : c.pcb.live = true)
    (hrecv : c.pcb.recv = true) (p : Option (List Text)) (err : Int) :
    (c.step (.received p err)).Inv ∧ c.Adds (c.step (.received p err)) (err = ERR_OK) := by
  have hne : c.phase ≠ .gone := fun hgone => by
    rw [(h.ended hgone hlive).2] at hrecv
    cases hrecv
  obtain ⟨hfreed, hpcb, harg, herr, hclosed⟩ := h.stands hne
  obtain ⟨hpcb', hclosed'⟩ := recv_cb_keeps c.t p err
  have hinv : ({ c with t := (ssh_altcp_recv_cb c.t p err).1 } : Connection).Inv :=
    ⟨h.fresh, fun _ => ⟨hfreed, hpcb'.trans hpcb, harg, herr, fun hl => hclosed' (hclosed hl)⟩,
      h.ended⟩
  have hcall (d : Connection) (hd : d.pcb.live = true) (n : Nat) : d.call (.recved n) = d :=
    if_pos hd
  simp only [Connection.step, Connection.callback, if_pos harg, Connection.use_eq hfreed]
  by_cases hok : err = ERR_OK
  · have hcb : (ssh_altcp_recv_cb c.t p err).2.1 = ERR_OK ∧
        ((ssh_altcp_recv_cb c.t p err).2.2 = [] ∨
          ∃ n, (ssh_altcp_recv_cb c.t p err).2.2 = [.recved n]) := by
      unfold ssh_altcp_recv_cb
      rw [if_neg (not_not_intro hok)]
      cases p with
      | none => exact ⟨rfl, .inl rfl⟩
      | some chain => exact ⟨rfl, .inr ⟨_, rfl⟩⟩
    have hback (d : Connection) (calls : List PcbCall) : d.returned ERR_OK calls = d :=
      if_neg fun hrc => absurd hrc.1 (by decide)
    rw [hcb.1, hback]
    rcases hcb.2 with hcalls | ⟨n, hcalls⟩
    · rw [hcalls]
      exact ⟨hinv, .none rfl hok⟩
    · rw [hcalls, List.foldl_cons, List.foldl_nil,
        hcall { c with t := (ssh_altcp_recv_cb c.t p err).1 } hlive]
      exact ⟨hinv, .none rfl hok⟩
  · have hcb : ssh_altcp_recv_cb c.t p err = ({ c.t with err := err }, ERR_ABRT, []) := if_pos hok
    rw [hcb] at hinv ⊢
    simp only [Connection.returned, List.foldl_nil, List.not_mem_nil, not_false_eq_true, and_true,
      if_true]
    exact ⟨⟨hinv.fresh, hinv.stands, hinv.ended⟩, [.abrtWithoutAbort], rfl,
      iff_of_false (List.cons_ne_nil _ _) hok⟩

theorem Connection.Inv.step {c : Connection} (h : c.Inv) {ev : ConnEvent} (hposs : c.Possible ev) :
    (c.step ev).Inv ∧ c.Adds (c.step ev) (c.Sound ev) := by
  cases ev with
  | connect rc closed =>
    have hphase : c.phase = .created := hposs
    have hne : c.phase ≠ .gone := by rw [hphase]; decide
    have hlive := h.fresh hphase
    simp only [Connection.step]
    by_cases hfail : rc ≠ ERR_OK ∧ rc ≠ ERR_INPROGRESS
    · rw [if_pos hfail]
      obtain ⟨hinv, fs, hfaults, hquiet⟩ := destroy_spec h hne closed
      exact ⟨hinv, fs, hfaults, iff_of_true (hquiet.mpr hlive) trivial⟩
    · rw [if_neg hfail]
      exact ⟨⟨fun hcreated => (nomatch hcreated), fun _ => h.stands hne,
        fun hgone => (nomatch hgone)⟩, .none rfl trivial⟩
  | poll expired closed => exact poll_spec h hposs expired closed
  | connected err =>
    by_cases hgone : c.phase = .gone
    · have harg := (h.ended hgone hposs.2).1
      simp only [Connection.step, Connection.callback, harg, Bool.false_eq_true, if_false]
      exact ⟨h, .none rfl trivial⟩
    · obtain ⟨hfreed, hpcb, harg, herr, hclosed⟩ := h.stands hgone
      have hkeeps : (ssh_altcp_connected_cb c.t err).pcb = c.t.pcb ∧
          (ssh_altcp_connected_cb c.t err).closed = c.t.closed := by
        unfold ssh_altcp_connected_cb
        split <;> exact ⟨rfl, rfl⟩
      have hstep : c.step (.connected err) = { c with t := ssh_altcp_connected_cb c.t err } := by
        simp only [Connection.step, Connection.callback, if_pos harg, Connection.use_eq hfreed,
          List.foldl_nil]
        exact if_neg fun hrc => absurd hrc.1 (by decide)
      rw [hstep]
      exact ⟨⟨h.fresh, fun _ => ⟨hfreed, hkeeps.1.trans hpcb, harg, herr,
        fun hl => hkeeps.2.trans (hclosed hl)⟩, h.ended⟩, .none rfl trivial⟩
  | received p err => exact received_spec h hposs.2.1 hposs.2.2 p err
  | sent => exact ⟨h, .none rfl trivial⟩
  | error err =>
    have hcreated : c.phase ≠ .created := hposs.1
    simp only [Connection.step]
    by_cases hgone : c.phase = .gone
    · have harg := (h.ended hgone hposs.2).1
      have hquiet : (if c.pcb.err = true then
          Connection.callback { c with pcb := { c.pcb with live := false } }
            (ssh_altcp_err_cb c.t err, ERR_OK, [])
          else { c with pcb := { c.pcb with live := false } }) =
          ({ c with pcb := { c.pcb with live := false } } : Connection) := by
        split
        · exact if_neg (by rw [harg]; decide)
        · rfl
      rw [hquiet]
      exact ⟨⟨fun hcr => absurd hcr hcreated, fun hne => absurd hgone hne,
        fun _ hlive => (nomatch hlive)⟩, .none rfl trivial⟩
    · obtain ⟨hfreed, hpcb, harg, herr, hclosed⟩ := h.stands hgone
      rw [if_pos herr]
      have hstep : Connection.callback { c with pcb := { c.pcb with live := false } }
            (ssh_altcp_err_cb c.t err, ERR_OK, []) =
          ({ c with pcb := { c.pcb with live := false }, t := ssh_altcp_err_cb c.t err } :
            Connection) := by
        simp only [Connection.callback, if_pos harg,
          @Connection.use_eq { c with pcb := { c.pcb with live := false } } hfreed,
          List.foldl_nil]
        exact if_neg fun hrc => absurd hrc.1 (by decide)
      rw [hstep]
      exact ⟨⟨fun hcr => absurd hcr hcreated, fun _ => ⟨hfreed, hpcb, harg, herr, fun _ => rfl⟩,
        fun hg => absurd hg hgone⟩, .none rfl trivial⟩
  | send length wrote output =>
    have hphase : c.phase = .session := hposs
    have hne : c.phase ≠ .gone := by rw [hphase]; decide
    obtain ⟨hfreed, -, -, -, hclosed⟩ := h.stands hne
    have huse : c.use c.t = c := Connection.use_eq hfreed c.t
    have hstep : c.step (.send length wrote output) = c := by
      simp only [Connection.step, huse]
      cases hlive : c.pcb.live with
      | true => exact send_calls hlive c.t length wrote output
      | false => rw [send_closed (hclosed hlive)]; rfl
    rw [hstep]
    exact ⟨h, .none rfl trivial⟩
  | recv length =>
    have hphase : c.phase = .session := hposs
    have hne : c.phase ≠ .gone := by rw [hphase]; decide
    obtain ⟨hfreed, hpcb, harg, herr, hclosed⟩ := h.stands hne
    obtain ⟨hpcb', hclosed'⟩ := recv_keeps c.t length
    have hstep : c.step (.recv length) = { c with t := (ssh_libssh2_recv c.t length).1 } :=
      Connection.use_eq hfreed _
    rw [hstep]
    exact ⟨⟨h.fresh, fun _ => ⟨hfreed, hpcb'.trans hpcb, harg, herr,
      fun hl => hclosed'.trans (hclosed hl)⟩, h.ended⟩, .none rfl trivial⟩
  | destroy closed =>
    have hphase : c.phase = .session := hposs
    exact destroy_spec h (by rw [hphase]; decide) closed

/-! ## Runs -/

/-- A connection is without faults exactly when no receive callback has an error and no transport
comes to its end after the error callback. -/
theorem hygiene_iff (evs : List ConnEvent)
    (hposs : Each (fun h ev => (Connection.run h).Possible ev) evs) :
    (Connection.run evs).faults = [] ↔ Each (fun h ev => (Connection.run h).Sound ev) evs := by
  suffices hboth : (Connection.run evs).Inv ∧ ((Connection.run evs).faults = [] ↔
      Each (fun h ev => (Connection.run h).Sound ev) evs) from hboth.2
  induction evs using List.reverseRecOn with
  | nil =>
    exact ⟨⟨fun _ => rfl, fun _ => ⟨rfl, rfl, rfl, rfl, fun hl => (nomatch hl)⟩,
      fun hgone => (nomatch hgone)⟩, iff_of_true rfl (Runs.each_nil _)⟩
  | append_singleton evs ev ih =>
    obtain ⟨hbefore, hlast⟩ := Runs.each_snoc.mp hposs
    obtain ⟨hinv, hiff⟩ := ih hbefore
    have hrun : Connection.run (evs ++ [ev]) = (Connection.run evs).step ev := by
      unfold Connection.run
      rw [List.foldl_append]
      rfl
    obtain ⟨hinv', fs, hfaults, hquiet⟩ := hinv.step hlast
    rw [hrun]
    exact ⟨hinv', by rw [hfaults, List.append_eq_nil_iff, hiff, hquiet, Runs.each_snoc]⟩

/-- A connection that is made, used and closed. -/
def sessionEvents : List ConnEvent :=
  [.connect ERR_OK 0, .connected ERR_OK, .poll false 0, .received (some [[1, 2]]) ERR_OK,
    .send 2 ERR_OK ERR_OK, .recv 16, .destroy ERR_OK]

theorem session_without_faults : (Connection.run sessionEvents).faults = [] := by
  refine (hygiene_iff sessionEvents ?_).mpr ?_
  · refine Runs.each_cons ?_ <| Runs.each_cons ?_ <| Runs.each_cons ?_ <| Runs.each_cons ?_ <|
      Runs.each_cons ?_ <| Runs.each_cons ?_ <| Runs.each_cons ?_ <| Runs.each_nil _
    · rfl
    · exact ⟨by decide, rfl⟩
    · rfl
    · exact ⟨by decide, rfl, rfl⟩
    · rfl
    · rfl
    · rfl
  · refine Runs.each_cons ?_ <| Runs.each_cons ?_ <| Runs.each_cons ?_ <| Runs.each_cons ?_ <|
      Runs.each_cons ?_ <| Runs.each_cons ?_ <| Runs.each_cons ?_ <| Runs.each_nil _
    all_goals trivial

/-- A connection that is reset while the client waits for it. -/
def resetEvents : List ConnEvent := [.connect ERR_OK 0, .error (-14), .poll false 0]

theorem reset_faults :
    Each (fun h ev => (Connection.run h).Possible ev) resetEvents ∧
      (Connection.run resetEvents).faults =
        [.freedPcb .arg, .freedPcb .recv, .freedPcb .sent, .freedPcb .err, .freedPcb .close] := by
  refine ⟨Runs.each_cons ?_ <| Runs.each_cons ?_ <| Runs.each_cons ?_ <| Runs.each_nil _, rfl⟩
  · rfl
  · exact ⟨by decide, rfl⟩
  · rfl

end vibeos.ssh
