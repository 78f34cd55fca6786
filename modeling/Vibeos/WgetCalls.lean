-- The altcp calls of the downloads: none on a connection that is closed, aborted or freed,
-- and a callback that has aborted its connection says so to lwIP.
import Vibeos.WgetSteps

namespace vibeos.wget

open vibeos.fs vibeos.Segments

/-! ## The log of calls -/

/-- The callback for `p` that runs has aborted `p`. -/
def abortedSince (p : Nat) : List Event → Bool
  | [] => false
  | e :: older =>
    match e with
    | .entered _ => false
    | .call q .abort => decide (q = p) || abortedSince p older
    | _ => abortedSince p older

/-- No call comes after the end of its connection, and a callback that aborted its
connection has returned `ERR_ABRT`. -/
def Clean : List Event → Prop
  | [] => True
  | e :: older =>
    (match e with
      | .call p _ => ¬ Ended older p
      | .returned p err => abortedSince p older = true → err = ERR_ABRT
      | _ => True) ∧ Clean older

instance : (es : List Event) → Decidable (Clean es)
  | [] => isTrue trivial
  | e :: older => by
    have := instDecidableClean older
    unfold Clean
    cases e <;> infer_instance

/-- An event that is no call, no return and not the end of a connection. -/
def Event.Silent : Event → Prop
  | .call _ _ => False
  | .freed _ => False
  | .returned _ _ => False
  | .entered _ => False
  | _ => True

theorem ended_silent {e : Event} {es : List Event} {p : Nat} (h : e.Silent) :
    Ended (e :: es) p ↔ Ended es p := by
  cases e <;> simp_all [Ended, Event.Silent]

theorem abortedSince_silent {e : Event} (es : List Event) (p : Nat) (h : e.Silent) :
    abortedSince p (e :: es) = abortedSince p es := by
  cases e <;> simp_all [abortedSince, Event.Silent]

theorem clean_silent {e : Event} {es : List Event} (h : e.Silent) :
    Clean (e :: es) ↔ Clean es := by
  cases e <;> simp_all [Clean, Event.Silent]

/-- The log of a code that has kept the rules so far: `pcbs` connections were made, and
`own` is the connection of the job. -/
structure Tidy (es : List Event) (pcbs : Nat) (own : Option Nat) : Prop where
  clean : Clean es
  own_lives : ∀ p, own = some p → p < pcbs ∧ ¬ Ended es p
  called : ∀ p c, .call p c ∈ es → p < pcbs
  freed : ∀ p, .freed p ∈ es → p < pcbs

theorem Tidy.ended_lt {es : List Event} {n : Nat} {own : Option Nat} (h : Tidy es n own) {p : Nat}
    (he : Ended es p) : p < n := by
  rcases he with he | he | he
  · exact h.called _ _ he
  · exact h.called _ _ he
  · exact h.freed _ he

theorem Tidy.silent {es : List Event} {n : Nat} {own : Option Nat} (h : Tidy es n own) {e : Event}
    (he : e.Silent) : Tidy (e :: es) n own where
  clean := (clean_silent he).mpr h.clean
  own_lives p hp := by
    rw [ended_silent he]
    exact h.own_lives p hp
  called p c hm := by
    rcases List.mem_cons.mp hm with hm | hm
    · rw [← hm] at he
      exact he.elim
    · exact h.called p c hm
  freed p hm := by
    rcases List.mem_cons.mp hm with hm | hm
    · rw [← hm] at he
      exact he.elim
    · exact h.freed p hm

theorem Tidy.forget {es : List Event} {n : Nat} {own : Option Nat} (h : Tidy es n own) :
    Tidy es n none :=
  ⟨h.clean, fun _ hp => (by cases hp), h.called, h.freed⟩

theorem Tidy.entered {es : List Event} {n : Nat} {own : Option Nat} (h : Tidy es n own)
    (p : Nat) : Tidy (.entered p :: es) n own where
  clean := ⟨trivial, h.clean⟩
  own_lives q hq := by
    have := h.own_lives q hq
    simpa [Ended] using this
  called q c hm := h.called q c (by simpa using hm)
  freed q hm := h.freed q (by simpa using hm)

theorem Tidy.returned {es : List Event} {n : Nat} {own : Option Nat} (h : Tidy es n own)
    {p : Nat} {err : Int} (hret : abortedSince p es = true → err = ERR_ABRT) :
    Tidy (.returned p err :: es) n own where
  clean := ⟨hret, h.clean⟩
  own_lives q hq := by
    have := h.own_lives q hq
    simpa [Ended] using this
  called q c hm := h.called q c (by simpa using hm)
  freed q hm := h.freed q (by simpa using hm)

theorem Tidy.call {es : List Event} {n : Nat} {own : Option Nat} (h : Tidy es n own) {p : Nat}
    {c : Call} (hp : p < n) (hlive : ¬ Ended es p) (hclose : c ≠ .close) (habort : c ≠ .abort) :
    Tidy (.call p c :: es) n own where
  clean := ⟨hlive, h.clean⟩
  own_lives q hq := by
    obtain ⟨hlt, hne⟩ := h.own_lives q hq
    refine ⟨hlt, ?_⟩
    simpa [Ended, Ne.symm hclose, Ne.symm habort] using hne
  called q c' hm := by
    rcases List.mem_cons.mp hm with hm | hm
    · cases hm
      exact hp
    · exact h.called q c' hm
  freed q hm := h.freed q (by simpa using hm)

theorem Tidy.last_call {es : List Event} {n : Nat} {p : Nat} (h : Tidy es n (some p)) (c : Call) :
    Tidy (.call p c :: es) n none where
  clean := ⟨(h.own_lives p rfl).2, h.clean⟩
  own_lives q hq := by cases hq
  called q c' hm := by
    rcases List.mem_cons.mp hm with hm | hm
    · cases hm
      exact (h.own_lives p rfl).1
    · exact h.called q c' hm
  freed q hm := h.freed q (by simpa using hm)

theorem ended_call {es : List Event} {p q : Nat} {c : Call} (hclose : c ≠ .close)
    (habort : c ≠ .abort) : Ended (.call q c :: es) p ↔ Ended es p := by
  simp [Ended, Ne.symm hclose, Ne.symm habort]

def World.Tidy (w : World) : Prop := vibeos.wget.Tidy w.events w.pcbs w.job.pcb

/-! ## The helpers -/

theorem tidy_wget_finish {w : World} (h : w.Tidy) (success : Bool) (msg : Option (List UInt8)) :
    (wget_finish w success msg).Tidy := by
  unfold wget_finish
  dsimp only
  split
  · split
    · exact h.silent trivial
    · split
      · exact h.silent trivial
      · exact h
  · exact h

theorem events_wget_finish (w : World) (success : Bool) (msg : Option (List UInt8)) :
    (wget_finish w success msg).events = w.events ∨
      ∃ e : Event, e.Silent ∧ (wget_finish w success msg).events = e :: w.events := by
  unfold wget_finish
  dsimp only
  split
  · split
    · refine Or.inr ⟨_, ?_, rfl⟩
      trivial
    · split
      · refine Or.inr ⟨_, ?_, rfl⟩
        trivial
      · exact Or.inl rfl
  · exact Or.inl rfl

theorem ended_wget_finish (w : World) (success : Bool) (msg : Option (List UInt8)) (p : Nat) :
    Ended (wget_finish w success msg).events p ↔ Ended w.events p := by
  rcases events_wget_finish w success msg with h | ⟨e, he, h⟩
  · rw [h]
  · rw [h, ended_silent he]

theorem abortedSince_wget_finish (w : World) (success : Bool) (msg : Option (List UInt8))
    (p : Nat) :
    abortedSince p (wget_finish w success msg).events = abortedSince p w.events := by
  rcases events_wget_finish w success msg with h | ⟨e, he, h⟩
  · rw [h]
  · rw [h, abortedSince_silent _ _ he]

def lastCall (abort : Bool) : Call := if abort then .abort else .close

theorem events_wget_close_pcb {w : World} {p : Nat} (h : w.job.pcb = some p) (abort : Bool) :
    (wget_close_pcb w abort).events =
      .call p (lastCall abort) :: .call p (.err false) :: .call p (.sent false) ::
        .call p (.recv false) :: .call p (.arg false) :: w.events := by
  unfold wget_close_pcb
  rw [h]
  cases abort <;> rfl

theorem pcbs_wget_finish (w : World) (success : Bool) (msg : Option (List UInt8)) :
    (wget_finish w success msg).pcbs = w.pcbs := by
  unfold wget_finish
  dsimp only
  split
  · split
    · rfl
    · split <;> rfl
  · rfl

theorem wget_close_pcb_of_none {w : World} (h : w.job.pcb = none) (abort : Bool) :
    wget_close_pcb w abort = w := by
  unfold wget_close_pcb
  rw [h]

theorem pcbs_wget_close_pcb (w : World) (abort : Bool) : (wget_close_pcb w abort).pcbs = w.pcbs := by
  unfold wget_close_pcb
  split
  · rfl
  · cases abort <;> rfl

theorem tidy_wget_close_pcb {w : World} (h : w.Tidy) (abort : Bool) :
    (wget_close_pcb w abort).Tidy := by
  unfold World.Tidy
  rw [pcbs_wget_close_pcb, job_wget_close_pcb]
  cases hp : w.job.pcb with
  | none =>
    rw [wget_close_pcb_of_none hp]
    exact Tidy.forget h
  | some p =>
    rw [events_wget_close_pcb hp]
    unfold World.Tidy at h
    rw [hp] at h
    have h1 := h.call (c := .arg false) (h.own_lives p rfl).1 (h.own_lives p rfl).2
      (fun h => nomatch h) (fun h => nomatch h)
    have h2 := h1.call (c := .recv false) (h1.own_lives p rfl).1 (h1.own_lives p rfl).2
      (fun h => nomatch h) (fun h => nomatch h)
    have h3 := h2.call (c := .sent false) (h2.own_lives p rfl).1 (h2.own_lives p rfl).2
      (fun h => nomatch h) (fun h => nomatch h)
    have h4 := h3.call (c := .err false) (h3.own_lives p rfl).1 (h3.own_lives p rfl).2
      (fun h => nomatch h) (fun h => nomatch h)
    exact h4.last_call _

theorem ended_wget_close_pcb (w : World) (abort : Bool) (p : Nat) :
    Ended (wget_close_pcb w abort).events p ↔ w.job.pcb = some p ∨ Ended w.events p := by
  cases hq : w.job.pcb with
  | none =>
    rw [wget_close_pcb_of_none hq]
    simp
  | some q =>
    rw [events_wget_close_pcb hq]
    cases abort <;> simp [Ended, lastCall, eq_comm, or_assoc, or_left_comm]

theorem abortedSince_wget_close_pcb (w : World) (abort : Bool) (p : Nat) :
    abortedSince p (wget_close_pcb w abort).events =
      ((abort && decide (w.job.pcb = some p)) || abortedSince p w.events) := by
  cases hq : w.job.pcb with
  | none =>
    rw [wget_close_pcb_of_none hq]
    simp
  | some q =>
    rw [events_wget_close_pcb hq]
    cases abort <;> simp [abortedSince, lastCall]

theorem Quiet.silent {p : Nat} {w u : World} (h : Quiet p w u) :
    ∃ es, u.events = es ++ w.events ∧ ∀ e ∈ es, e.Silent := by
  obtain ⟨es, hes, _, hq⟩ := h.events
  refine ⟨es, hes, ?_⟩
  intro e he
  rcases hq e he with ⟨b, rfl⟩ | ⟨win, b, rfl⟩
  · trivial
  · trivial

theorem Quiet.tidy {p : Nat} {w u : World} (h : Quiet p w u) (ht : w.Tidy) : u.Tidy := by
  obtain ⟨es, hes, hs⟩ := h.silent
  unfold World.Tidy at *
  rw [h.pcb, h.pcbs, hes]
  clear hes h
  induction es with
  | nil => exact ht
  | cons e es ih =>
    exact (ih fun e' he' => hs e' (List.mem_cons_of_mem _ he')).silent
      (hs e List.mem_cons_self)

theorem Quiet.ended {p : Nat} {w u : World} (h : Quiet p w u) (q : Nat) :
    Ended u.events q ↔ Ended w.events q := by
  obtain ⟨es, hes, hs⟩ := h.silent
  rw [hes]
  clear hes h
  induction es with
  | nil => rfl
  | cons e es ih =>
    rw [List.cons_append, ended_silent (hs e List.mem_cons_self)]
    exact ih fun e' he' => hs e' (List.mem_cons_of_mem _ he')

theorem Quiet.abortedSince {p : Nat} {w u : World} (h : Quiet p w u) (q : Nat) :
    abortedSince q u.events = abortedSince q w.events := by
  obtain ⟨es, hes, hs⟩ := h.silent
  rw [hes]
  clear hes h
  induction es with
  | nil => rfl
  | cons e es ih =>
    rw [List.cons_append, abortedSince_silent _ _ (hs e List.mem_cons_self)]
    exact ih fun e' he' => hs e' (List.mem_cons_of_mem _ he')

end vibeos.wget
