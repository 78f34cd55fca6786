-- The bytes that libssh2 reads from the transport, against those that the connection received.
import Vibeos.SshBoot
import Mathlib.Data.List.Induction

namespace vibeos.ssh

/-! ## Connections -/

/-- What happens on a connection: a chain of segments arrives, the peer ends the stream, lwIP
reports an error with a receive callback or with the error callback, or libssh2 reads. -/
inductive StreamEvent where
  | received (chain : List Text)
  | eof
  | receivedErr (err : Int)
  | error (err : Int)
  | recv (length : Nat)

/-- The bytes in the buffer that are not yet handed out. -/
def ssh_transport.waiting (t : ssh_transport) : Text := t.rx_buf.drop t.rx_start

/-- The segments of a chain before the first one that finds no room. -/
def accepted (room : Nat) : List Text → List Text
  | [] => []
  | segment :: rest =>
    if segment.length ≤ room then segment :: accepted (room - segment.length) rest else []

/-- The transport, with all bytes received and all bytes handed out. `dropped` says that a segment
found no room, `intact` are the bytes received before it, and `failed` says that this happened or
that an error was reported. -/
structure Stream where
  t : ssh_transport
  received : Text
  delivered : Text
  intact : Text
  dropped : Bool
  failed : Bool

def Stream.start : Stream := ⟨.start, [], [], [], false, false⟩

/-- The room behind the bytes that are not yet handed out. -/
def Stream.room (s : Stream) : Nat := SSH_RX_BUF_SIZE - s.t.waiting.length

def Stream.step (s : Stream) : StreamEvent → Stream
  | .received chain =>
    { t := (ssh_altcp_recv_cb s.t (some chain) ERR_OK).1
      received := s.received ++ chain.flatten
      delivered := s.delivered
      intact := if s.dropped then s.intact else s.intact ++ (accepted s.room chain).flatten
      dropped := s.dropped || s.room < chain.flatten.length
      failed := s.failed || s.room < chain.flatten.length }
  | .eof => { s with t := (ssh_altcp_recv_cb s.t none ERR_OK).1 }
  | .receivedErr err =>
    { s with t := (ssh_altcp_recv_cb s.t none err).1, failed := s.failed || err != ERR_OK }
  | .error err => { s with t := ssh_altcp_err_cb s.t err, failed := true }
  | .recv length =>
    { s with
      t := (ssh_libssh2_recv s.t length).1
      delivered := s.delivered ++ (ssh_libssh2_recv s.t length).2.2 }

def Stream.run (evs : List StreamEvent) : Stream := evs.foldl Stream.step .start

/-- The bytes handed out are the first of those received, from before the first segment that found
no room, and a read of a stream that failed never reports its end: with nothing waiting it reports
the error. -/
structure Stream.Faithful (s : Stream) : Prop where
  isPrefix : s.delivered <+: s.received
  intact : s.delivered <+: s.intact
  reports : ∀ length, 0 < length →
    (s.failed = true → (ssh_libssh2_recv s.t length).2.1 ≠ 0) ∧
      (s.failed = true → s.t.waiting = [] → (ssh_libssh2_recv s.t length).2.1 = -EPIPE)

/-- The event reaches no defect: nothing is buffered behind a dropped segment, the error callback is
not called, and the peer's end does not come together with an error. -/
def Stream.Sound (s : Stream) : StreamEvent → Prop
  | .received chain =>
    (s.dropped = true → (accepted s.room chain).flatten = []) ∧
      (s.room < chain.flatten.length → s.t.closed = false)
  | .eof => s.failed = false
  | .receivedErr err => if err = ERR_OK then s.failed = false else s.t.closed = false
  | .error _ => False
  | .recv _ => True

/-! ## The buffer as a queue -/

/-- The indices of the buffer are in order. -/
structure ssh_transport.InBounds (t : ssh_transport) : Prop where
  start_le : t.rx_start ≤ t.rx_buf.length
  length_le : t.rx_buf.length ≤ SSH_RX_BUF_SIZE

theorem length_waiting (t : ssh_transport) :
    t.waiting.length = t.rx_buf.length - t.rx_start := List.length_drop

/-- Two transports with the same flags, which hold the same bytes. -/
structure Alike (t t' : ssh_transport) : Prop where
  closed : t'.closed = t.closed
  err : t'.err = t.err

theorem trim_spec {t : ssh_transport} (h : t.InBounds) :
    (ssh_transport_trim t).InBounds ∧ (ssh_transport_trim t).waiting = t.waiting ∧
      (ssh_transport_trim t).rx_buf.length = t.waiting.length ∧ Alike t (ssh_transport_trim t) := by
  have hlen := length_waiting t
  have hstart := h.start_le
  have hle := h.length_le
  unfold ssh_transport_trim
  split_ifs with hzero hempty
  · exact ⟨h, rfl, by rw [hlen, hzero]; rfl, ⟨rfl, rfl⟩⟩
  · have hwait : t.waiting = [] := List.drop_eq_nil_of_le hempty
    rw [hwait]
    exact ⟨⟨le_refl _, Nat.zero_le _⟩, rfl, rfl, ⟨rfl, rfl⟩⟩
  · refine ⟨⟨Nat.zero_le _, ?_⟩, rfl, rfl, ⟨rfl, rfl⟩⟩
    rw [List.length_drop]
    omega

theorem push_spec {t : ssh_transport} (h : t.InBounds) {data : Text}
    (hfits : t.waiting.length + data.length ≤ SSH_RX_BUF_SIZE) :
    (ssh_transport_push t data).InBounds ∧
      (ssh_transport_push t data).waiting = t.waiting ++ data ∧
      Alike t (ssh_transport_push t data) := by
  unfold ssh_transport_push
  split
  · rename_i hzero
    rw [List.length_eq_zero_iff.mp hzero, List.append_nil]
    exact ⟨h, rfl, ⟨rfl, rfl⟩⟩
  · dsimp only
    -- the append, once there is room
    have happend {u : ssh_transport} (hu : u.InBounds) (hwait : u.waiting = t.waiting)
        (halike : Alike t u) (hroom : u.rx_buf.length + data.length ≤ SSH_RX_BUF_SIZE) :
        (if ssh_transport_free_space u < data.length then { u with err := 1 }
          else { u with rx_buf := u.rx_buf ++ data } : ssh_transport).InBounds ∧
        (if ssh_transport_free_space u < data.length then { u with err := 1 }
          else { u with rx_buf := u.rx_buf ++ data } : ssh_transport).waiting =
            t.waiting ++ data ∧
        Alike t (if ssh_transport_free_space u < data.length then { u with err := 1 }
          else { u with rx_buf := u.rx_buf ++ data }) := by
      have hstart := hu.start_le
      have hfree : ¬ ssh_transport_free_space u < data.length := by
        unfold ssh_transport_free_space ssh_transport.rx_len
        omega
      rw [if_neg hfree]
      refine ⟨⟨?_, ?_⟩, ?_, ⟨halike.closed, halike.err⟩⟩
      · change u.rx_start ≤ (u.rx_buf ++ data).length
        rw [List.length_append]
        omega
      · rw [List.length_append]
        exact hroom
      · rw [← hwait]
        exact List.drop_append_of_le_length hstart
    by_cases hfree : ssh_transport_free_space t < data.length
    · rw [if_pos hfree]
      obtain ⟨hbounds, hwait, hlen, halike⟩ := trim_spec h
      exact happend hbounds hwait halike (by rw [hlen]; exact hfits)
    · rw [if_neg hfree]
      refine happend h rfl ⟨rfl, rfl⟩ ?_
      have hle := h.length_le
      unfold ssh_transport_free_space ssh_transport.rx_len at hfree
      omega

theorem push_chain_spec (chain : List Text) {t : ssh_transport} (h : t.InBounds) {room : Nat}
    (hroom : t.waiting.length + room = SSH_RX_BUF_SIZE) :
    (push_chain t chain).InBounds ∧
      (push_chain t chain).waiting = t.waiting ++ (accepted room chain).flatten ∧
      (push_chain t chain).closed = t.closed ∧
      (push_chain t chain).err = if chain.flatten.length ≤ room then t.err else ERR_MEM := by
  induction chain generalizing t room with
  | nil => exact ⟨h, by simp [push_chain, accepted], rfl, by simp [push_chain]⟩
  | cons segment rest ih =>
    have hlen : (segment :: rest).flatten.length = segment.length + rest.flatten.length := by
      rw [List.flatten_cons, List.length_append]
    -- what follows once the buffer is trimmed where that is needed
    have hone {u : ssh_transport} (hu : u.InBounds) (hwait : u.waiting = t.waiting)
        (halike : Alike t u)
        (hfree : segment.length ≤ ssh_transport_free_space u ↔ segment.length ≤ room) :
        let v := if segment.length > ssh_transport_free_space u then { u with err := ERR_MEM }
          else push_chain (ssh_transport_push u segment) rest
        v.InBounds ∧ v.waiting = t.waiting ++ (accepted room (segment :: rest)).flatten ∧
          v.closed = t.closed ∧
          v.err = if (segment :: rest).flatten.length ≤ room then t.err else ERR_MEM := by
      dsimp only
      rw [accepted, hlen]
      by_cases hfits : segment.length ≤ room
      · have hspace := hfree.mpr hfits
        rw [if_neg (Nat.not_lt.mpr hspace), if_pos hfits]
        obtain ⟨hbounds, hpushed, hpalike⟩ :=
          @push_spec u hu segment (by rw [hwait]; omega)
        obtain ⟨hbounds', hall, hclosed, herr⟩ := @ih _ hbounds (room - segment.length)
          (by rw [hpushed, hwait, List.length_append]; omega)
        refine ⟨hbounds', ?_, ?_, ?_⟩
        · rw [hall, hpushed, hwait, List.flatten_cons, List.append_assoc]
        · rw [hclosed, hpalike.closed, halike.closed]
        · have hiff : rest.flatten.length ≤ room - segment.length ↔
              segment.length + rest.flatten.length ≤ room := by omega
          rw [herr, hpalike.err, halike.err, if_congr hiff rfl rfl]
      · have hspace : segment.length > ssh_transport_free_space u := by
          rw [← hfree] at hfits
          omega
        rw [if_pos hspace, if_neg hfits, if_neg (by omega)]
        exact ⟨⟨hu.start_le, hu.length_le⟩, by rw [List.flatten_nil, List.append_nil]; exact hwait,
          halike.closed, rfl⟩
    rw [push_chain]
    have hle := h.length_le
    have hstart := h.start_le
    have hwaiting := length_waiting t
    by_cases htrim : segment.length > ssh_transport_free_space t
    · rw [if_pos htrim]
      obtain ⟨hbounds, hwait, htrimmed, halike⟩ := trim_spec h
      refine hone hbounds hwait halike ?_
      unfold ssh_transport_free_space ssh_transport.rx_len
      omega
    · rw [if_neg htrim]
      refine hone h rfl ⟨rfl, rfl⟩ ?_
      unfold ssh_transport_free_space ssh_transport.rx_len at htrim ⊢
      omega

theorem flatten_accepted (room : Nat) (chain : List Text) :
    (accepted room chain).flatten <+: chain.flatten := by
  induction chain generalizing room with
  | nil => exact List.prefix_refl _
  | cons segment rest ih =>
    rw [accepted]
    split
    · rw [List.flatten_cons, List.flatten_cons, List.prefix_append_right_inj]
      exact ih _
    · exact List.nil_prefix

theorem accepted_of_fits {room : Nat} {chain : List Text} (h : chain.flatten.length ≤ room) :
    accepted room chain = chain := by
  induction chain generalizing room with
  | nil => rfl
  | cons segment rest ih =>
    rw [List.flatten_cons, List.length_append] at h
    rw [accepted, if_pos (by omega), ih (by omega)]

theorem recv_spec {t : ssh_transport} (h : t.InBounds) (length : Nat) :
    (ssh_libssh2_recv t length).1.InBounds ∧
      t.waiting = (ssh_libssh2_recv t length).2.2 ++ (ssh_libssh2_recv t length).1.waiting ∧
      Alike t (ssh_libssh2_recv t length).1 := by
  have hle := h.length_le
  have hempty (u : ssh_transport) : ({ u with rx_start := 0, rx_buf := [] } : ssh_transport).InBounds :=
    ⟨le_refl _, Nat.zero_le _⟩
  unfold ssh_libssh2_recv
  by_cases hnone : t.rx_start ≥ t.rx_len
  · have hwait : t.waiting = [] := List.drop_eq_nil_of_le hnone
    rw [if_pos hnone, hwait]
    dsimp only
    split_ifs <;> exact ⟨hempty t, rfl, ⟨rfl, rfl⟩⟩
  · rw [if_neg hnone]
    dsimp only
    generalize hn : (if t.rx_len - t.rx_start < length then t.rx_len - t.rx_start else length) = n
    have hnle : n ≤ t.rx_len - t.rx_start := by
      rw [← hn]
      split <;> omega
    unfold ssh_transport.rx_len at hnone hnle
    have hsplit : t.waiting = (t.rx_buf.drop t.rx_start).take n ++ t.rx_buf.drop (t.rx_start + n) := by
      rw [← List.drop_drop, List.take_append_drop]
      rfl
    split_ifs with hall
    · unfold ssh_transport.rx_len at hall
      refine ⟨hempty t, ?_, ⟨rfl, rfl⟩⟩
      rw [hsplit, List.drop_eq_nil_of_le hall]
      rfl
    · refine ⟨⟨?_, hle⟩, hsplit, ⟨rfl, rfl⟩⟩
      dsimp only
      omega

theorem recv_result (t : ssh_transport) {length : Nat} (hpos : 0 < length) :
    (t.waiting ≠ [] → (ssh_libssh2_recv t length).2.1 ≠ 0) ∧
      (t.waiting = [] → t.closed = false → t.err ≠ 0 →
        (ssh_libssh2_recv t length).2.1 = -EPIPE) := by
  have hlen := length_waiting t
  unfold ssh_libssh2_recv
  by_cases hnone : t.rx_start ≥ t.rx_len
  · have hwait : t.waiting = [] := List.drop_eq_nil_of_le hnone
    rw [if_pos hnone]
    refine ⟨fun hne => absurd hwait hne, fun _ hclosed herr => ?_⟩
    dsimp only
    rw [if_neg (by simp [hclosed]), if_pos herr]
  · rw [if_neg hnone]
    have hsome : 0 < t.rx_len - t.rx_start := by omega
    refine ⟨fun _ => ?_, fun hwait => ?_⟩
    · dsimp only
      split_ifs <;> simp <;> omega
    · rw [hwait, List.length_nil] at hlen
      unfold ssh_transport.rx_len at hsome
      omega

/-! ## Runs of sound events -/

/-- The intact bytes are what was handed out and what waits, and a stream that failed has its error
and is not closed. -/
structure Stream.Inv (s : Stream) : Prop where
  bounds : s.t.InBounds
  intact : s.intact = s.delivered ++ s.t.waiting
  received : s.intact <+: s.received
  whole : s.dropped = false → s.intact = s.received
  failed : s.failed = true → s.t.closed = false ∧ s.t.err ≠ 0

theorem Stream.Inv.room {s : Stream} (h : s.Inv) :
    s.t.waiting.length + s.room = SSH_RX_BUF_SIZE := by
  have hlen := length_waiting s.t
  have hle := h.bounds.length_le
  unfold Stream.room
  omega

theorem Stream.Inv.step_received {s : Stream} (h : s.Inv) {chain : List Text}
    (hsound : s.Sound (.received chain)) : (s.step (.received chain)).Inv := by
  obtain ⟨hbounds, hwait, hclosed, herr⟩ := push_chain_spec chain h.bounds h.room
  have hprefix := flatten_accepted s.room chain
  refine ⟨hbounds, ?_, ?_, fun hdropped => ?_, fun hfailed => ?_⟩
  · change (if s.dropped then s.intact else s.intact ++ (accepted s.room chain).flatten) =
      s.delivered ++ (push_chain s.t chain).waiting
    rw [hwait, ← List.append_assoc, ← h.intact]
    split
    · rename_i hdropped
      rw [hsound.1 hdropped, List.append_nil]
    · rfl
  · change (if s.dropped then s.intact else s.intact ++ (accepted s.room chain).flatten) <+:
      s.received ++ chain.flatten
    split
    · exact h.received.trans (List.prefix_append _ _)
    · rename_i hdropped
      rw [h.whole (Bool.not_eq_true _ ▸ hdropped), List.prefix_append_right_inj]
      exact hprefix
  · have hdropped : (s.dropped || decide (s.room < chain.flatten.length)) = false := hdropped
    obtain ⟨hbefore, hfits⟩ := Bool.or_eq_false_iff.mp hdropped
    have hfits : chain.flatten.length ≤ s.room := Nat.not_lt.mp (of_decide_eq_false hfits)
    change (if s.dropped then s.intact else s.intact ++ (accepted s.room chain).flatten) =
      s.received ++ chain.flatten
    rw [hbefore, accepted_of_fits hfits, h.whole hbefore]
    rfl
  · have hfailed : (s.failed || decide (s.room < chain.flatten.length)) = true := hfailed
    have herr' : (s.step (.received chain)).t.err =
        if chain.flatten.length ≤ s.room then s.t.err else ERR_MEM := herr
    have hclosed' : (s.step (.received chain)).t.closed = s.t.closed := hclosed
    rw [hclosed', herr']
    by_cases hfits : chain.flatten.length ≤ s.room
    · rw [if_pos hfits]
      rw [decide_eq_false (Nat.not_lt.mpr hfits), Bool.or_false] at hfailed
      exact h.failed hfailed
    · rw [if_neg hfits]
      exact ⟨hsound.2 (Nat.not_le.mp hfits), by decide⟩

theorem Stream.Inv.step {s : Stream} (h : s.Inv) {ev : StreamEvent} (hsound : s.Sound ev) :
    (s.step ev).Inv := by
  cases ev with
  | received chain => exact h.step_received hsound
  | eof =>
    have hnot : s.failed = false := hsound
    refine ⟨⟨h.bounds.start_le, h.bounds.length_le⟩, h.intact, h.received, h.whole,
      fun hfailed => ?_⟩
    have hfailed : s.failed = true := hfailed
    rw [hnot] at hfailed
    cases hfailed
  | receivedErr err =>
    by_cases herr : err = ERR_OK
    · have hnot : s.failed = false := (if_pos herr).mp hsound
      have ht : (s.step (.receivedErr err)).t = { s.t with closed := true } := by
        simp only [Stream.step, ssh_altcp_recv_cb, herr, ne_eq, not_true_eq_false, if_false]
      refine ⟨?_, ?_, h.received, h.whole, fun hfailed => ?_⟩
      · rw [ht]
        exact ⟨h.bounds.start_le, h.bounds.length_le⟩
      · rw [ht]
        exact h.intact
      · have hfailed : (s.failed || err != ERR_OK) = true := hfailed
        rw [hnot, herr] at hfailed
        cases hfailed
    · have hclosed : s.t.closed = false := (if_neg herr).mp hsound
      have ht : (s.step (.receivedErr err)).t = { s.t with err := err } := by
        simp only [Stream.step, ssh_altcp_recv_cb, if_pos herr]
      refine ⟨?_, ?_, h.received, h.whole, fun _ => ?_⟩
      · rw [ht]
        exact ⟨h.bounds.start_le, h.bounds.length_le⟩
      · rw [ht]
        exact h.intact
      · rw [ht]
        exact ⟨hclosed, herr⟩
  | error err => exact hsound.elim
  | recv length =>
    obtain ⟨hbounds, hwait, halike⟩ := recv_spec h.bounds length
    refine ⟨hbounds, ?_, h.received, h.whole, fun hfailed => ?_⟩
    · change s.intact = (s.delivered ++ (ssh_libssh2_recv s.t length).2.2) ++
        (ssh_libssh2_recv s.t length).1.waiting
      rw [h.intact, hwait, List.append_assoc]
    · obtain ⟨hclosed, herr⟩ := h.failed hfailed
      exact ⟨halike.closed.trans hclosed, fun h0 => herr (halike.err.symm.trans h0)⟩

theorem Stream.Inv.faithful {s : Stream} (h : s.Inv) : s.Faithful := by
  have hintact : s.delivered <+: s.intact := ⟨s.t.waiting, h.intact.symm⟩
  refine ⟨hintact.trans h.received, hintact, fun length hpos => ?_⟩
  obtain ⟨hdata, hstate⟩ := recv_result s.t hpos
  have herror (hfailed : s.failed = true) (hwait : s.t.waiting = []) :
      (ssh_libssh2_recv s.t length).2.1 = -EPIPE :=
    hstate hwait (h.failed hfailed).1 (h.failed hfailed).2
  refine ⟨fun hfailed => ?_, herror⟩
  by_cases hwait : s.t.waiting = []
  · rw [herror hfailed hwait]
    decide
  · exact hdata hwait

/-- On a connection whose events are all sound the stream stays faithful. -/
theorem stream_faithful (evs : List StreamEvent)
    (hsound : ∀ h ev t, evs = h ++ ev :: t → (Stream.run h).Sound ev) :
    ∀ h t, evs = h ++ t → (Stream.run h).Faithful := by
  have hinv (h t : List StreamEvent) (hevs : evs = h ++ t) : (Stream.run h).Inv := by
    induction h using List.reverseRecOn generalizing t with
    | nil =>
      refine ⟨⟨le_refl _, Nat.zero_le _⟩, rfl, List.prefix_refl _, fun _ => rfl,
        fun hfailed => ?_⟩
      have hfailed : false = true := hfailed
      cases hfailed
    | append_singleton h ev ih =>
      have hsplit : evs = h ++ ev :: t := by rw [hevs, List.append_assoc]; rfl
      have hstep := (ih (ev :: t) hsplit).step (hsound h ev t hsplit)
      unfold Stream.run at hstep ⊢
      rw [List.foldl_append]
      exact hstep
  exact fun h t hevs => (hinv h t hevs).faithful

/-- Two bytes arrive, one is read, and the peer ends the stream. -/
theorem two_bytes_faithful :
    (Stream.run [.received [[1, 2]], .recv 1, .eof]).Faithful := by
  refine stream_faithful [.received [[1, 2]], .recv 1, .eof] ?_ _ [] rfl
  intro h ev t hevs
  rcases h with _ | ⟨a, _ | ⟨b, _ | ⟨c, h⟩⟩⟩
  all_goals
    simp at hevs
  · obtain ⟨rfl, -⟩ := hevs
    exact ⟨fun hdropped => absurd hdropped (by decide), fun _ => rfl⟩
  · obtain ⟨rfl, rfl, -⟩ := hevs
    trivial
  · obtain ⟨rfl, rfl, rfl, -⟩ := hevs
    rfl

/-- A connection that lwIP reports as reset reads as one that ended. -/
theorem reset_reads_as_end :
    (Stream.run [.error (-14)]).failed = true ∧
      (ssh_libssh2_recv (Stream.run [.error (-14)]).t 16).2.1 = 0 ∧
      ¬ (Stream.run [.error (-14)]).Faithful := by
  have hzero : (ssh_libssh2_recv (Stream.run [.error (-14)]).t 16).2.1 = 0 := by decide
  exact ⟨rfl, hzero, fun h => (h.reports 16 (by decide)).1 rfl hzero⟩

end vibeos.ssh
