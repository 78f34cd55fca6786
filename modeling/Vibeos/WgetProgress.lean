-- The two places that compute the percentage of a download. The line of the terminal divides by
-- the announced length, also when it is 0.
import Vibeos.WgetHygiene

namespace vibeos.wget

open vibeos.fs

/-! ## The percentage -/

/-- What a reporter computes in a call. A division by 0 has no result. -/
inductive Percent where
  | skipped
  | divByZero
  | value (percent : BitVec 32)
deriving DecidableEq

/-- `(wget_job.body_len * 100) / wget_job.content_len`. -/
def Job.percent (j : Job) : Percent :=
  if BitVec.ofNat 32 j.content_len = 0 then .divByZero
  else .value (BitVec.ofNat 32 j.body.length * 100 / BitVec.ofNat 32 j.content_len)

structure ProgressUi where
  wget_ui_last_update : BitVec 32
  wget_last_percent : BitVec 32
  save_active : Bool

def ProgressUi.updated (ui : ProgressUi) (now : BitVec 32) : ProgressUi :=
  { ui with wget_ui_last_update := now }

/-- What is computed, the answer, and the variables after the call. -/
def wget_progress_dirty (j : Job) (ui : ProgressUi) (now : BitVec 32) :
    Percent × Bool × ProgressUi :=
  let due := decide (120 ≤ now - ui.wget_ui_last_update)
  if j.request_pending then (.skipped, true, ui)
  else if j.done ∧ j.success ∧ ui.save_active then
    (.skipped, due, if due then ui.updated now else ui)
  else if j.done ∧ j.success then
    (.skipped, decide (ui.wget_last_percent ≠ 100), { ui with wget_last_percent := 100 })
  else if j.active ∧ j.has_content_len ∧ 0 < BitVec.ofNat 32 j.content_len then
    match j.percent with
    | .value percent =>
      if percent ≠ ui.wget_last_percent ∨ due then
        (.value percent, true, { ui.updated now with wget_last_percent := percent })
      else (.value percent, false, ui)
    | c => (c, false, ui)
  else if j.active ∧ due then (.skipped, true, ui.updated now)
  else (.skipped, false, ui)

def format_size_human (bytes : BitVec 32) : List UInt8 :=
  let scaled := fun (unit : BitVec 32) (name : String) =>
    lib_itoa (bytes / unit).toNat ++ [46, 48 + UInt8.ofNat (bytes % unit * 10 / unit).toNat] ++
      ascii name
  if 1024 * 1024 * 1024 ≤ bytes then scaled (1024 * 1024 * 1024) "GB"
  else if 1024 * 1024 ≤ bytes then scaled (1024 * 1024) "MB"
  else if 1024 ≤ bytes then scaled 1024 "KB"
  else lib_itoa bytes.toNat ++ ascii "B"

def Job.bar (j : Job) (percent : BitVec 32) : List UInt8 :=
  let filled := (percent * 20 / 100).toInt
  ascii "[" ++ ((List.range 20).map fun i => if (i : Int) < filled then 61 else 32) ++ ascii "] " ++
    format_size_human (BitVec.ofNat 32 j.body.length) ++ ascii "/" ++
    format_size_human (BitVec.ofNat 32 j.content_len)

def spin (now : BitVec 32) : List UInt8 :=
  [[124, 47, 45, 92].getD ((now / 100) &&& 3).toNat 0]

/-- What is computed, and the text of the line, if there is one. -/
def set_wget_progress_line (j : Job) (now : BitVec 32) : Percent × Option (List UInt8) :=
  let line := ascii "wget " ++ (if j.filename = [] then ascii "-" else j.filename) ++ ascii " "
  if j.resolve_pending ∨ j.resolve_in_progress then
    (.skipped, some (line ++ ascii "DNS " ++ spin now))
  else if j.active ∧ j.has_content_len then
    match j.percent with
    | .value percent => (.value percent, some (line ++ j.bar percent))
    | c => (c, none)
  else if j.done then (.skipped, some (line ++ if j.success then ascii "DONE" else j.err))
  else (.skipped, some (line ++ spin now))

/-- The percentage is that of the bytes so far, at most 100, and no number on the way to it is
too big. -/
def Percent.Right (j : Job) : Percent → Prop
  | .skipped => True
  | .divByZero => False
  | .value percent => j.body.length * 100 < 2 ^ 32 ∧
      percent.toNat = min 100 (100 * j.body.length / j.content_len)

/-! ## When a percentage is computed -/

def Job.DirtyComputes (j : Job) : Prop :=
  j.request_pending = false ∧ ¬ (j.done = true ∧ j.success = true) ∧ j.active = true ∧
    j.has_content_len = true ∧ 0 < j.content_len

def Job.LineComputes (j : Job) : Prop :=
  j.resolve_pending = false ∧ j.resolve_in_progress = false ∧ j.active = true ∧
    j.has_content_len = true

/-- Less than one percent more came than was announced. -/
def Job.NotOver (j : Job) : Prop := 100 * j.body.length < 101 * j.content_len

/-- Where a reporter computes the percentage, the length is not 0, and not more came than that. -/
def Job.Plain (j : Job) : Prop :=
  (j.DirtyComputes → j.NotOver) ∧ (j.LineComputes → 0 < j.content_len ∧ j.NotOver)

variable {j : Job}

theorem dirty_percent (hlen : j.content_len < 2 ^ 32) (ui : ProgressUi) (now : BitVec 32) :
    (j.DirtyComputes ∧ (wget_progress_dirty j ui now).1 = j.percent) ∨
      (¬ j.DirtyComputes ∧ (wget_progress_dirty j ui now).1 = .skipped) := by
  have hpos : 0 < BitVec.ofNat 32 j.content_len ↔ 0 < j.content_len := by
    rw [BitVec.lt_def, BitVec.toNat_ofNat, Nat.mod_eq_of_lt hlen]
    rfl
  unfold wget_progress_dirty Job.DirtyComputes
  dsimp only
  split
  case isTrue h => exact .inr ⟨fun hc => by simp [hc.1] at h, rfl⟩
  split
  case isTrue h => exact .inr ⟨fun hc => hc.2.1 ⟨h.1, h.2.1⟩, rfl⟩
  split
  case isTrue h => exact .inr ⟨fun hc => hc.2.1 h, rfl⟩
  case isFalse hpending _ hdone =>
    split
    case isTrue h =>
      refine .inl ⟨⟨Bool.eq_false_of_not_eq_true hpending, hdone, h.1, h.2.1, hpos.mp h.2.2⟩, ?_⟩
      cases hp : j.percent with
      | value percent =>
        dsimp only
        split <;> rfl
      | skipped => rfl
      | divByZero => rfl
    case isFalse h =>
      refine .inr ⟨fun hc => h ⟨hc.2.2.1, hc.2.2.2.1, hpos.mpr hc.2.2.2.2⟩, ?_⟩
      split <;> rfl

theorem line_percent (j : Job) (now : BitVec 32) :
    (j.LineComputes ∧ (set_wget_progress_line j now).1 = j.percent) ∨
      (¬ j.LineComputes ∧ (set_wget_progress_line j now).1 = .skipped) := by
  unfold set_wget_progress_line Job.LineComputes
  dsimp only
  split
  case isTrue h => exact .inr ⟨fun hc => by simp [hc.1, hc.2.1] at h, rfl⟩
  case isFalse hresolve =>
    rw [not_or, Bool.not_eq_true, Bool.not_eq_true] at hresolve
    split
    case isTrue h =>
      refine .inl ⟨⟨hresolve.1, hresolve.2, h⟩, ?_⟩
      cases hp : j.percent <;> rfl
    case isFalse h =>
      refine .inr ⟨fun hc => h hc.2.2, ?_⟩
      split <;> rfl

theorem percent_right_iff (hbody : j.body.length * 100 < 2 ^ 32) (hlen : j.content_len < 2 ^ 32) :
    j.percent.Right j ↔ 0 < j.content_len ∧ j.NotOver := by
  have hzero : BitVec.ofNat 32 j.content_len = 0 ↔ j.content_len = 0 := by
    rw [← BitVec.toNat_inj, BitVec.toNat_ofNat, Nat.mod_eq_of_lt hlen]
    rfl
  unfold Job.percent
  by_cases h0 : j.content_len = 0
  · rw [if_pos (hzero.mpr h0)]
    exact iff_of_false id fun h => absurd h0 (Nat.ne_of_gt h.1)
  · have hpos : 0 < j.content_len := Nat.pos_of_ne_zero h0
    have hvalue : (BitVec.ofNat 32 j.body.length * 100 / BitVec.ofNat 32 j.content_len).toNat =
        100 * j.body.length / j.content_len := by
      rw [BitVec.toNat_udiv, BitVec.toNat_mul, BitVec.toNat_ofNat, BitVec.toNat_ofNat,
        Nat.mod_eq_of_lt hlen, Nat.mod_eq_of_lt (by omega : j.body.length < 2 ^ 32)]
      change j.body.length * 100 % 2 ^ 32 / j.content_len = _
      rw [Nat.mod_eq_of_lt hbody, Nat.mul_comm]
    rw [if_neg (mt hzero.mp h0)]
    unfold Percent.Right Job.NotOver
    dsimp only
    rw [hvalue, and_iff_right hbody, and_iff_right hpos, eq_comm, min_eq_right_iff,
      Nat.div_le_iff_le_mul_add_pred hpos]
    omega

/-! ## The numbers of a job stay small -/

theorem leadingNumber_lt (s : List UInt8) : leadingNumber s < 2 ^ 31 := by
  unfold leadingNumber
  induction s.takeWhile isDigit using List.reverseRecOn with
  | nil => decide
  | append_singleton ds d _ =>
    rw [List.foldl_append]
    exact Int.bmod_lt (by decide)

theorem parse_content_length_lt (hdr : List UInt8) : parse_content_length hdr < 2 ^ 31 := by
  unfold parse_content_length
  dsimp only
  split
  · decide
  · exact leadingNumber_lt _

section

variable [NetConfig]

/-- The body fits the buffer, and the length fits its variable. -/
def Job.Counted (j : Job) : Prop := j.body.length ≤ WGET_MAX_FILE_SIZE ∧ j.content_len < 2 ^ 32

variable {w : World}

theorem Job.Counted.congr {j' : Job} (h : j.Counted) (hbody : j'.body = j.body)
    (hlen : j'.content_len = j.content_len) : j'.Counted := by
  unfold Job.Counted
  rw [hbody, hlen]
  exact h

theorem counted_finish {success : Bool} {msg : Option (List UInt8)} (h : w.job.Counted) :
    (wget_finish w success msg).job.Counted := by
  rw [job_wget_finish]
  exact h.congr rfl rfl

theorem counted_close {abort : Bool} (h : w.job.Counted) :
    (wget_close_pcb w abort).job.Counted := by
  rw [job_wget_close_pcb]
  exact h.congr rfl rfl

theorem counted_header_byte (h : j.Counted) (c : UInt8) : (j.header_byte c).Counted := by
  have hlt := parse_content_length_lt (j.header ++ [c])
  unfold Job.header_byte
  dsimp only
  split
  · refine ⟨h.1, ?_⟩
    dsimp only
    split
    · omega
    · exact h.2
  · exact h.congr rfl rfl

theorem counted_recv_pbuf (h : w.job.Counted) (p : Nat) (src : List UInt8) :
    (recv_pbuf p w src).1.job.Counted := by
  induction src generalizing w with
  | nil => exact h
  | cons c rest ih =>
    rw [recv_pbuf]
    split
    · exact h
    · split
      · split
        · exact counted_finish (counted_close h)
        · exact ih (counted_header_byte h c)
      · split
        · exact counted_finish (counted_close h)
        · rename_i hfits
          have hstore : (w.store p (c :: rest)).job.Counted := by
            refine ⟨?_, h.2⟩
            change (w.job.body ++ c :: rest).length ≤ WGET_MAX_FILE_SIZE
            rw [List.length_append]
            omega
          dsimp only
          split
          · exact counted_finish (counted_close hstore)
          · exact hstore

theorem counted_recv_chain (h : w.job.Counted) (p : Nat) (chain : List Pbuf) :
    (recv_chain p w chain).1.job.Counted := by
  induction chain generalizing w with
  | nil => exact h
  | cons q rest ih =>
    have hone := counted_recv_pbuf h p q.payload
    rw [recv_chain]
    split
    · exact h
    · generalize recv_pbuf p w q.payload = r at hone ⊢
      obtain ⟨u, ended⟩ := r
      cases ended with
      | true => exact hone
      | false => exact ih hone

theorem counted_recv_closed (h : w.job.Counted) : (recv_closed w).job.Counted := by
  unfold recv_closed
  dsimp only
  split
  · exact counted_finish (counted_close h)
  · split
    · exact counted_finish (counted_close h)
    · split
      · exact counted_finish (counted_close h)
      · exact counted_finish (counted_close h)

theorem counted_recv_cb (h : w.job.Counted) (p : Nat) (chain : Option (List Pbuf))
    (err : Int) : (wget_recv_cb w p chain err).1.job.Counted := by
  unfold wget_recv_cb
  split
  · exact counted_finish (counted_close h)
  · cases chain with
    | none => exact counted_recv_closed h
    | some chain =>
      have hscanned : (if w.feeds then feed_chain p w chain else w).job.Counted := by
        rw [job_first_pass]
        unfold World.scanned
        split
        · exact h.congr rfl rfl
        · exact h
      have hloops := counted_recv_chain hscanned p chain
      dsimp only
      generalize recv_chain p (if w.feeds then feed_chain p w chain else w) chain = r
        at hloops ⊢
      obtain ⟨u, ended⟩ := r
      cases ended with
      | true => exact hloops
      | false =>
        dsimp only
        split
        · exact hloops
        · exact hloops

/-! ## Every step -/

theorem counted_start_connection {o : Oracle} {addr port : Nat} (h : w.job.Counted) :
    (start_connection o w addr port).job.Counted := by
  unfold start_connection
  split
  · exact counted_finish h
  · dsimp only
    split
    · exact counted_finish (counted_close (h.congr rfl rfl))
    · exact h.congr rfl rfl

theorem counted_start {o : Oracle} {addr port : Nat} {tls : Bool} (h : w.job.Counted) :
    (wget_start_with_addr o w addr port tls).job.Counted := by
  unfold wget_start_with_addr wget_ensure_tls_allocator
  split
  · exact h
  dsimp only
  split
  · cases w.tls_conf || o.tls_config with
    | false => exact counted_finish (h.congr rfl rfl)
    | true => exact counted_start_connection (h.congr rfl rfl)
  · exact counted_start_connection (h.congr rfl rfl)

theorem counted_kick_connect {o : Oracle} (h : w.job.Counted) :
    (kick_connect o w).job.Counted := by
  unfold kick_connect
  split
  · exact counted_finish (h.congr rfl rfl)
  · exact counted_start (h.congr rfl rfl)

theorem counted_kick {o : Oracle} (h : w.job.Counted) :
    (wget_kick_if_needed o w).job.Counted := by
  unfold wget_kick_if_needed
  split
  · exact h
  split
  · exact counted_kick_connect h
  split
  · exact h
  dsimp only
  split
  · exact counted_kick_connect (h.congr rfl rfl)
  · exact h.congr rfl rfl
  · exact counted_finish (h.congr rfl rfl)

theorem counted_request (r : Request) (o : Oracle) : (r.job o).Counted := by
  have hzero : Job.zero.Counted := ⟨Nat.zero_le _, Nat.two_pow_pos 32⟩
  unfold Request.job
  dsimp only
  split
  · exact hzero.congr rfl rfl
  · exact hzero.congr rfl rfl

omit [NetConfig] in
theorem job_callback (p : Nat) (w : World) (f : World → World × Int) :
    (callback p w f).job = (f (w.log (.entered p))).1.job := rfl

theorem counted_step (o : Oracle) (i : Input) (h : w.job.Counted) :
    (step o w i).job.Counted := by
  cases i with
  | queue r => exact counted_kick (counted_request r o)
  | adopt owner => exact h.congr rfl rfl
  | windows wins => exact h
  | kick => exact counted_kick h
  | timeout =>
    rw [step, wget_timeout_step]
    dsimp only
    split
    · exact h
    split
    · exact counted_finish (h.congr rfl rfl)
    split
    · exact counted_finish (counted_close h)
    · exact h
  | interrupt =>
    rw [step, wget_interrupt]
    split
    · exact counted_finish (counted_close h)
    · exact h
  | dns q ipaddr =>
    unfold step wget_dns_found_cb
    dsimp only
    split
    · exact h.congr rfl rfl
    · cases ipaddr with
      | none => exact counted_finish (h.congr rfl rfl)
      | some a => exact h.congr rfl rfl
  | connected p err =>
    rw [step, job_callback, wget_connected_cb]
    split
    · exact counted_finish (counted_close h)
    · exact h.congr rfl rfl
  | recv p chain err =>
    have hentered : (w.log (.entered p)).job.Counted := h
    rw [step, job_callback]
    exact counted_recv_cb hentered p chain err
  | error p err =>
    rw [step, wget_err_cb]
    dsimp only
    split
    · exact h.congr rfl rfl
    · exact counted_finish (h.congr rfl rfl)

theorem counted_of_run {cond : World → Input → Prop} (h : Run cond w) : w.job.Counted := by
  induction h with
  | start wins => exact ⟨Nat.zero_le _, Nat.two_pow_pos 32⟩
  | step o i _ _ _ ih => exact counted_step o i ih

/-- In every state of every run, both reporters are right exactly when the state is plain. -/
theorem progress_right_iff (hmax : WGET_MAX_FILE_SIZE ≤ 1024 * 1024)
    (h : Run (fun _ _ => True) w) (ui : ProgressUi) (now : BitVec 32) :
    ((wget_progress_dirty w.job ui now).1.Right w.job ∧
      (set_wget_progress_line w.job now).1.Right w.job) ↔ w.job.Plain := by
  obtain ⟨hbody, hlen⟩ := counted_of_run h
  have hright := percent_right_iff (by omega) hlen
  have hdirty : (wget_progress_dirty w.job ui now).1.Right w.job ↔
      (w.job.DirtyComputes → w.job.NotOver) := by
    obtain ⟨hc, heq⟩ | ⟨hc, heq⟩ := dirty_percent hlen ui now
    · rw [heq, hright]
      exact ⟨fun hr _ => hr.2, fun hr => ⟨hc.2.2.2.2, hr hc⟩⟩
    · rw [heq]
      exact iff_of_true trivial fun h => absurd h hc
  have hline : (set_wget_progress_line w.job now).1.Right w.job ↔
      (w.job.LineComputes → 0 < w.job.content_len ∧ w.job.NotOver) := by
    obtain ⟨hc, heq⟩ | ⟨hc, heq⟩ := line_percent w.job now
    · rw [heq, hright]
      exact ⟨fun hr _ => hr, fun hr => hr hc⟩
    · rw [heq]
      exact iff_of_true trivial fun h => absurd h hc
  rw [hdirty, hline]
  rfl

end

/-! ## Two runs -/

/-- An answer with a page of no bytes, without the end of the connection. -/
def emptyPage : List Pbuf := [⟨ascii "HTTP/1.0 200 OK\r\nContent-Length: 0\r\n\r\n", by decide⟩]

def emptyPageWorld : World :=
  @step qemuNet plainOracle connectedWorld (.recv 0 (some emptyPage) ERR_OK)

theorem run_emptyPage : @Run qemuNet (fun _ _ => True) emptyPageWorld :=
  @Run.step qemuNet _ connectedWorld plainOracle (.recv 0 (some emptyPage) ERR_OK)
    (@Run.mono qemuNet _ (fun _ _ => True) (fun _ _ _ => trivial) _ run_connected)
    ⟨by decide, by decide⟩ trivial

/-- The display while the connection is made. -/
theorem progress_right_connected :
    ((wget_progress_dirty connectedWorld.job ⟨0, 101, false⟩ 7).1.Right connectedWorld.job ∧
      (set_wget_progress_line connectedWorld.job 7).1.Right connectedWorld.job) ↔
    connectedWorld.job.Plain :=
  @progress_right_iff qemuNet _ (by decide)
    (@Run.mono qemuNet _ (fun _ _ => True) (fun _ _ _ => trivial) _ run_connected) ⟨0, 101, false⟩ 7

/-- The line divides by the length 0. -/
theorem line_divides_by_zero : @Run qemuNet (fun _ _ => True) emptyPageWorld ∧
    (set_wget_progress_line emptyPageWorld.job 0).1 = .divByZero ∧
    ¬ (set_wget_progress_line emptyPageWorld.job 0).1.Right emptyPageWorld.job := by
  have hzero : (set_wget_progress_line emptyPageWorld.job 0).1 = .divByZero := by
    decide +kernel
  exact ⟨run_emptyPage, hzero, by rw [hzero]; exact id⟩

end vibeos.wget
