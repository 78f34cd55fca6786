-- A job with its heap: the blocks that it holds, the pointers that it gave back, and
-- what the heap promises over every run.
import Vibeos.JitHeapCalls
import Mathlib.Data.List.Pairwise

namespace vibeos.tcc_glue

open vibeos.Mem vibeos.FirstFit

/-- A block that the job holds: the pointer it got and the bytes it asked for. -/
structure Block where
  ptr : Nat
  size : Nat
deriving DecidableEq

/-- The job, its blocks, and the pointers it freed since the heap last gave it a block. -/
structure World where
  job : JitJob
  live : List Block
  dead : List Nat

/-- A call of the job, or its write of `n` bytes. -/
inductive Act where
  | umalloc (size : UInt32)
  | ufree (p : UInt32)
  | ucalloc (nmemb size : UInt32)
  | urealloc (p size : UInt32)
  | write (a n : Nat) (bytes : Nat → UInt8)

namespace World

/-- A call gave `r` for `size` bytes, 0 for nothing. -/
def gave (w : World) (job : JitJob) (r size : Nat) : World :=
  if r = 0 then { w with job := job } else ⟨job, ⟨r, size⟩ :: w.live, []⟩

/-- The block at `p` is given back, unless the heap refuses because the job is cancelled. -/
def gaveBack (w : World) (job : JitJob) (p : Nat) (cancelled : Bool) : World :=
  if cancelled then { w with job := job }
  else ⟨job, w.live.filter fun b => b.ptr ≠ p,
    (w.live.filter fun b => b.ptr = p).map Block.ptr ++ w.dead⟩

def resized (w : World) (job : JitJob) (p size : Nat) : World :=
  { w with job := job, live := w.live.map fun b => if b.ptr = p then ⟨p, size⟩ else b }

def moved (w : World) (job : JitJob) (p r size : Nat) (cancelled : Bool) : World :=
  (w.gave job r size).gaveBack job p cancelled

section Steps

variable [JitConfig]

/-- The world after an act, `none` when a loop of the heap does not end. `ufree` asks whether the
job is cancelled when it begins: at once, after the one yield of `urealloc`, or after that
of `umalloc` too. -/
def step (w : World) : Act → Option World
  | .umalloc size => (tcc_glue.umalloc w.job size.toNat).map fun r => w.gave r.2 r.1 size.toNat
  | .ufree p =>
    (tcc_glue.ufree w.job p.toNat).map fun job =>
      w.gaveBack job p.toNat w.job.cancel_requested
  | .ucalloc nmemb size =>
    (tcc_glue.ucalloc w.job nmemb.toNat size.toNat).map fun r =>
      w.gave r.2 r.1 (nmemb.toNat * size.toNat % 2 ^ 32)
  | .urealloc p size =>
    (tcc_glue.urealloc w.job p.toNat size.toNat).map fun r =>
      let job := jit_maybe_yield w.job
      if p.toNat = 0 then w.gave r.2 r.1 size.toNat
      else if size.toNat = 0 then w.gaveBack r.2 p.toNat job.cancel_requested
      else if r.1 = 0 then { w with job := r.2 }
      else if r.1 = p.toNat then w.resized r.2 p.toNat size.toNat
      else w.moved r.2 p.toNat r.1 size.toNat (jit_maybe_yield job).cancel_requested
  | .write a n bytes => some { w with job := { w.job with mem := patch w.job.mem a n bytes } }

end Steps

def Live (w : World) (p : Nat) : Prop := ∃ b ∈ w.live, b.ptr = p

/-- A pointer that the job may pass: 0, that of a block, or one that it freed. -/
def Known (w : World) (p : Nat) : Prop := p = 0 ∨ w.Live p ∨ p ∈ w.dead

/-- The job passes pointers that the heap gave it and writes inside the bytes it asked for. -/
def InBlocks (w : World) : Act → Prop
  | .ufree p => w.Known p.toNat
  | .urealloc p _ => w.Known p.toNat
  | .write a n _ => ∃ b ∈ w.live, b.ptr ≤ a ∧ a + n ≤ b.ptr + b.size
  | _ => True

/-- The size of an act rounds up to a multiple of 8 without a wrap, or nothing is rounded. -/
def NoWrap (w : World) : Act → Prop
  | .umalloc size => w.job.cancel_requested = true ∨ size.toNat ≤ 0xfffffff8
  | .ucalloc nmemb size => w.job.cancel_requested = true ∨
      nmemb.toNat * size.toNat ≤ 0xfffffff8 ∨ 2 ^ 32 ≤ nmemb.toNat * size.toNat
  | .urealloc _ size => w.job.cancel_requested = true ∨ size.toNat ≤ 0xfffffff8
  | _ => True

end World

/-- Worlds that acts with a law reach from a heap that was just reset. -/
inductive Reaches [JitConfig] (ok : World → Act → Prop) (job : JitJob) : World → Prop where
  | init : Reaches ok job ⟨jit_uheap_reset job, [], []⟩
  | step {w w' : World} (a : Act) : Reaches ok job w → ok w a → w.step a = some w' →
      Reaches ok job w'

/-! ## The invariant -/

section Safety

variable [JitConfig]

/-- The used cells are those of the blocks, and the freed headers are gone. -/
structure Inv (w : World) (cells : List Cell) : Prop where
  ready : w.job.Ready
  cut : Cut w.job.mem w.job.uheap cells
  owns : ∀ b ∈ w.live, ∃ x n, b.ptr = x + UBLOCK_SIZE ∧
    At UBLOCK_SIZE w.job.uheap cells x ⟨n, false⟩ ∧ b.size ≤ n
  held : ∀ x c, At UBLOCK_SIZE w.job.uheap cells x c → c.free = false →
    ∃ b ∈ w.live, b.ptr = x + UBLOCK_SIZE
  apart : w.live.Pairwise fun b c => b.ptr ≠ c.ptr
  dead : ∀ p ∈ w.dead, ∃ y, p = y + UBLOCK_SIZE ∧ Gone w.job.mem w.job.uheap cells y

variable {w : World} {cells cells' : List Cell} {job' : JitJob} {m' : Mem} {x n size : Nat}

theorem Inv.same (h : Inv w cells) (hsame : Same w.job job') :
    Inv { w with job := job' } cells := by
  obtain ⟨hmem, huheap, hhead⟩ := id hsame
  refine ⟨hsame.ready h.ready, ?_, ?_, ?_, h.apart, ?_⟩
  · rw [hmem, huheap]
    exact h.cut
  · rw [huheap]
    exact h.owns
  · rw [huheap]
    exact h.held
  · rw [hmem, huheap]
    exact h.dead

theorem Inv.took (h : Inv w cells) (htook : Took w.job.mem w.job.uheap cells x n m' cells')
    (hsize : size ≤ n) (job : JitJob) (hsame : Same w.job job) :
    Inv ⟨{ job with mem := m' }, ⟨x + UBLOCK_SIZE, size⟩ :: w.live, []⟩ cells' := by
  obtain ⟨hmem, huheap, hhead⟩ := id hsame
  have hready := hsame.ready h.ready
  obtain ⟨c, hat, hfree, -⟩ := htook.hole
  refine ⟨⟨hready.head, hready.pos, hready.fits⟩, ?_, fun b hb => ?_, fun y d hd hused => ?_,
    List.Pairwise.cons (fun b hb hptr => ?_) h.apart, fun p hp => nomatch hp⟩
  · dsimp only
    rw [huheap]
    exact htook.cut
  · dsimp only
    rw [huheap]
    rcases List.mem_cons.mp hb with rfl | hb
    · exact ⟨x, n, rfl, (htook.used x _ rfl).mpr (Or.inl ⟨rfl, rfl⟩), hsize⟩
    · obtain ⟨y, k, hptr, hy, hk⟩ := h.owns b hb
      exact ⟨y, k, hptr, (htook.used y _ rfl).mpr (Or.inr hy), hk⟩
  · dsimp only at hd
    rw [huheap] at hd
    rcases (htook.used y d hused).mp hd with ⟨rfl, -⟩ | hd
    · exact ⟨_, List.mem_cons_self, rfl⟩
    · obtain ⟨b, hb, hptr⟩ := h.held y d hd hused
      exact ⟨b, List.mem_cons_of_mem _ hb, hptr⟩
  · obtain ⟨y, k, hbptr, hy, -⟩ := h.owns b hb
    have hxy : x = y := Nat.add_right_cancel (hptr.trans hbptr)
    subst hxy
    rw [At.eq_of_pos (by decide) hat hy] at hfree
    exact nomatch hfree

theorem Inv.payload (h : Inv w cells) (m' : Mem)
    (hat : At UBLOCK_SIZE w.job.uheap cells x ⟨n, false⟩)
    (hsame : ∀ y, y < x + UBLOCK_SIZE ∨ x + UBLOCK_SIZE + n ≤ y → m' y = w.job.mem y) :
    Inv { w with job := { w.job with mem := m' } } cells where
  ready := ⟨h.ready.head, h.ready.pos, h.ready.fits⟩
  cut := h.cut.congr_payload hat hsame
  owns := h.owns
  held := h.held
  apart := h.apart
  dead p hp := by
    obtain ⟨y, hptr, hburied, hmagic, hfree⟩ := h.dead p hp
    have hheader : ublock m' y = ublock w.job.mem y := by
      apply ublock_congr
      intro i hlo hhi
      apply hsame
      obtain ⟨z, e, he, hefree, hplace⟩ := hburied
      rcases he.apart hat with ⟨-, rfl⟩ | hle | hle
      · exact nomatch hefree
      · omega
      · dsimp only at hle
        omega
    refine ⟨y, hptr, hburied, ?_, ?_⟩
    · rw [hheader, hmagic]
    · rw [hheader]
      exact hfree

theorem Inv.freed (h : Inv w cells) (hfreed : Freed w.job.mem w.job.uheap cells x m' cells')
    (job : JitJob) (hsame : Same w.job job) :
    Inv ⟨{ job with mem := m' }, w.live.filter fun b => b.ptr ≠ x + UBLOCK_SIZE,
      (w.live.filter fun b => b.ptr = x + UBLOCK_SIZE).map Block.ptr ++ w.dead⟩ cells' := by
  obtain ⟨hmem, huheap, hhead⟩ := id hsame
  have hready := hsame.ready h.ready
  refine ⟨⟨hready.head, hready.pos, hready.fits⟩, ?_, fun b hb => ?_, fun y d hd hused => ?_,
    h.apart.filter _, fun p hp => ?_⟩
  · dsimp only
    rw [huheap]
    exact hfreed.cut
  · obtain ⟨hlive, hne⟩ := List.mem_filter.mp hb
    obtain ⟨y, k, hptr, hy, hk⟩ := h.owns b hlive
    refine ⟨y, k, hptr, ?_, hk⟩
    dsimp only
    rw [huheap]
    refine (hfreed.used y _ rfl).mpr ⟨?_, hy⟩
    rintro rfl
    exact of_decide_eq_true hne hptr
  · dsimp only at hd
    rw [huheap] at hd
    obtain ⟨hyx, hd⟩ := (hfreed.used y d hused).mp hd
    obtain ⟨b, hb, hptr⟩ := h.held y d hd hused
    refine ⟨b, List.mem_filter.mpr ⟨hb, decide_eq_true ?_⟩, hptr⟩
    omega
  · dsimp only
    rw [huheap]
    rcases List.mem_append.mp hp with hp | hp
    · obtain ⟨b, hb, rfl⟩ := List.mem_map.mp hp
      exact ⟨x, of_decide_eq_true (List.mem_filter.mp hb).2, hfreed.gone x (Or.inl rfl)⟩
    · obtain ⟨y, hptr, hgone⟩ := h.dead p hp
      exact ⟨y, hptr, hfreed.gone y (Or.inr hgone)⟩

theorem Inv.resized (h : Inv w cells) (hat : At UBLOCK_SIZE w.job.uheap cells x ⟨n, false⟩)
    (hsize : size ≤ n) (hsame : Same w.job job') :
    Inv (w.resized job' (x + UBLOCK_SIZE) size) cells := by
  have hptr : ∀ b : Block,
      (if b.ptr = x + UBLOCK_SIZE then ⟨x + UBLOCK_SIZE, size⟩ else b : Block).ptr = b.ptr := by
    intro b
    split
    · exact Eq.symm ‹_›
    · rfl
  obtain ⟨hready, hcut, howns, hheld, hapart, hdead⟩ := h.same hsame
  refine ⟨hready, hcut, fun b hb => ?_, fun y c hc hused => ?_, ?_, hdead⟩
  · obtain ⟨c, hc, rfl⟩ := List.mem_map.mp hb
    by_cases hcx : c.ptr = x + UBLOCK_SIZE
    · rw [if_pos hcx]
      refine ⟨x, n, rfl, ?_, hsize⟩
      unfold World.resized
      rw [hsame.uheap]
      exact hat
    · rw [if_neg hcx]
      exact howns c hc
  · obtain ⟨b, hb, hbptr⟩ := hheld y c hc hused
    exact ⟨_, List.mem_map_of_mem hb, (hptr b).trans hbptr⟩
  · refine List.Pairwise.map _ (fun b c hbc => ?_) hapart
    rw [hptr, hptr]
    exact hbc

/-! ## Steps -/

omit [JitConfig] in
theorem gave_zero (w : World) (job : JitJob) (size : Nat) :
    w.gave job 0 size = { w with job := job } := if_pos rfl

omit [JitConfig] in
theorem gave_ptr (w : World) (job : JitJob) (x size : Nat) :
    w.gave job (x + UBLOCK_SIZE) size = ⟨job, ⟨x + UBLOCK_SIZE, size⟩ :: w.live, []⟩ :=
  if_neg (by unfold UBLOCK_SIZE; omega)

/-- The call ends, and its world has the invariant. -/
def Keeps (w' : Option World) : Prop := ∃ v cells, w' = some v ∧ Inv v cells

theorem Inv.keeps (h : Inv w cells) : Keeps (some w) := ⟨w, cells, rfl, h⟩

theorem Inv.umalloc (h : Inv w cells)
    (hsize : w.job.cancel_requested = true ∨ size ≤ 0xfffffff8) :
    Keeps ((umalloc w.job size).map fun r => w.gave r.2 r.1 size) := by
  rcases umalloc_cases h.ready h.cut hsize with
      ⟨job', hnull, hsame⟩ | ⟨x, n, m', cells', hn, hgive, htook⟩
  · simp only [hnull, Option.map_some, gave_zero]
    exact (h.same hsame).keeps
  · simp only [hgive, Option.map_some, gave_ptr]
    exact (h.took htook hn _ (same_yield w.job)).keeps

omit [JitConfig] in
theorem gaveBack_of_not_live {p : Nat} (hlive : ¬ w.Live p) (c : Bool) :
    w.gaveBack job' p c = { w with job := job' } := by
  have hkept : w.live.filter (fun b => b.ptr ≠ p) = w.live :=
    List.filter_eq_self.mpr fun b hb => decide_eq_true fun hptr => hlive ⟨b, hb, hptr⟩
  have hnone : w.live.filter (fun b => b.ptr = p) = [] :=
    List.filter_eq_nil_iff.mpr fun b hb hptr => hlive ⟨b, hb, of_decide_eq_true hptr⟩
  unfold World.gaveBack
  rw [hkept, hnone]
  cases c <;> rfl

theorem Inv.ufree_ignored (h : Inv w cells) {p : Nat} (hp : p = 0 ∨ p ∈ w.dead) :
    ∃ job', ufree w.job p = some job' ∧ Same w.job job' := by
  rcases hp with rfl | hp
  · exact ⟨w.job, if_pos rfl, Same.refl w.job⟩
  · obtain ⟨y, rfl, hgone⟩ := h.dead p hp
    exact ufree_of_gone hgone

theorem Inv.ufree (h : Inv w cells) {p : Nat} (hp : w.Known p) :
    Keeps ((ufree w.job p).map fun job => w.gaveBack job p w.job.cancel_requested) := by
  by_cases hlive : w.Live p
  · obtain ⟨b, hb, rfl⟩ := hlive
    obtain ⟨x, n, hptr, hat, -⟩ := h.owns b hb
    rw [hptr]
    cases hcancel : w.job.cancel_requested with
    | true =>
      have hrefuse : tcc_glue.ufree w.job (x + UBLOCK_SIZE) = some w.job := by
        unfold tcc_glue.ufree
        rw [if_pos hcancel, ite_self]
      rw [hrefuse]
      exact (h.same (Same.refl w.job)).keeps
    | false =>
      obtain ⟨m', cells', htake, hfreed⟩ := ufree_spec h.ready h.cut hat rfl hcancel
      rw [htake]
      exact (h.freed hfreed _ (same_yield w.job)).keeps
  · obtain ⟨job', hignore, hsame⟩ := h.ufree_ignored (hp.imp_right fun hor => hor.resolve_left hlive)
    simp only [hignore, Option.map_some, gaveBack_of_not_live hlive]
    exact (h.same hsame).keeps

omit [JitConfig] in
theorem overflow_checked {nmemb size : Nat} (h : 2 ^ 32 ≤ nmemb * size) :
    size ≠ 0 ∧ nmemb * size % 2 ^ 32 / size ≠ nmemb := by
  have hsize : 0 < size := by
    rcases Nat.eq_zero_or_pos size with rfl | hpos
    · omega
    · exact hpos
  refine ⟨Nat.ne_of_gt hsize, fun heq => ?_⟩
  have hle := Nat.div_mul_le_self (nmemb * size % 2 ^ 32) size
  rw [heq] at hle
  omega

theorem Inv.ucalloc (h : Inv w cells) {nmemb size : Nat}
    (hsize : w.job.cancel_requested = true ∨ nmemb * size ≤ 0xfffffff8 ∨ 2 ^ 32 ≤ nmemb * size) :
    Keeps ((ucalloc w.job nmemb size).map fun r => w.gave r.2 r.1 (nmemb * size % 2 ^ 32)) := by
  unfold tcc_glue.ucalloc
  split
  · simp only [Option.map_some, gave_zero]
    exact (h.same (Same.refl w.job)).keeps
  · rename_i hcancel
    have hsize := hsize.resolve_left hcancel
    dsimp only
    split
    · simp only [Option.map_some, gave_zero]
      exact (h.same (same_yield w.job)).keeps
    · rename_i hcheck
      have hsmall : nmemb * size ≤ 0xfffffff8 :=
        hsize.resolve_right fun hbig => hcheck (overflow_checked hbig)
      have htotal : nmemb * size % 2 ^ 32 ≤ 0xfffffff8 :=
        Nat.le_trans (Nat.mod_le _ _) hsmall
      generalize nmemb * size % 2 ^ 32 = total at *
      have hle : total ≤ if total ≠ 0 then total else 1 := by split <;> omega
      rcases umalloc_cases ((same_yield w.job).ready h.ready) h.cut
          (Or.inr (by split <;> omega : (if total ≠ 0 then total else 1) ≤ 0xfffffff8)) with
        ⟨job', hnull, hsame⟩ | ⟨x, n, m', cells', hn, hgive, htook⟩
      · rw [hnull]
        simp only [Option.map_some, ne_eq, not_true, if_false, gave_zero]
        exact (h.same ((same_yield w.job).trans hsame)).keeps
      · have htaken := h.took htook (Nat.le_trans hle hn) (jit_maybe_yield (jit_maybe_yield w.job))
          ((same_yield w.job).trans (same_yield _))
        have hat := (htook.used x ⟨n, false⟩ rfl).mpr (Or.inl ⟨rfl, rfl⟩)
        have hptr : x + UBLOCK_SIZE ≠ 0 := by unfold UBLOCK_SIZE; omega
        rw [hgive]
        simp only [Option.map_some, if_pos hptr, gave_ptr]
        exact (htaken.payload (fill m' (x + UBLOCK_SIZE) 0 total) hat
          fun y hy => patch_out (by omega)).keeps

theorem Inv.write (h : Inv w cells) {a n : Nat} (bytes : Nat → UInt8)
    (hown : ∃ b ∈ w.live, b.ptr ≤ a ∧ a + n ≤ b.ptr + b.size) :
    Keeps (w.step (.write a n bytes)) := by
  obtain ⟨b, hb, hlo, hhi⟩ := hown
  obtain ⟨x, k, hptr, hat, hk⟩ := h.owns b hb
  exact (h.payload _ hat fun y hy => patch_out (by omega)).keeps

theorem Inv.moved (h : Inv w cells) {y k size : Nat} {x n : Nat}
    (hat : At UBLOCK_SIZE w.job.uheap cells x ⟨n, false⟩)
    (htook : Took w.job.mem w.job.uheap cells y k m' cells') (hk : size ≤ k) (hn : n < size) :
    Keeps ((tcc_glue.ufree (copied w.job m' x y n) (x + UBLOCK_SIZE)).map fun job =>
      w.moved job (x + UBLOCK_SIZE) (y + UBLOCK_SIZE) size
        (jit_maybe_yield (jit_maybe_yield w.job)).cancel_requested) := by
  have htaken := h.took htook hk (jit_maybe_yield (jit_maybe_yield w.job))
    ((same_yield w.job).trans (same_yield _))
  have hnew := (htook.used y ⟨k, false⟩ rfl).mpr (Or.inl ⟨rfl, rfl⟩)
  have hcopied := htaken.payload (copy m' (y + UBLOCK_SIZE) (x + UBLOCK_SIZE) n) hnew
    fun i hi => patch_out (by omega)
  have hlive : ∃ b ∈ w.live, b.ptr = x + UBLOCK_SIZE := h.held x _ hat rfl
  obtain ⟨b, hb, hptr⟩ := hlive
  have hfree := hcopied.ufree (p := x + UBLOCK_SIZE)
    (Or.inr (Or.inl ⟨b, List.mem_cons_of_mem _ hb, hptr⟩))
  unfold World.moved
  simp only [gave_ptr]
  exact hfree

theorem Inv.urealloc (h : Inv w cells) {p size : UInt32} (hp : w.Known p.toNat)
    (hsize : w.job.cancel_requested = true ∨ size.toNat ≤ 0xfffffff8) :
    Keeps (w.step (.urealloc p size)) := by
  simp only [World.step]
  generalize p.toNat = p at *
  generalize size.toNat = size at *
  cases hcancel : w.job.cancel_requested with
  | true =>
    have hrefuse : tcc_glue.urealloc w.job p size = some (0, w.job) := by
      unfold tcc_glue.urealloc
      rw [if_pos hcancel]
    have hyield : (jit_maybe_yield w.job).cancel_requested = true := by
      unfold jit_maybe_yield
      rw [hcancel]
      rfl
    simp only [hrefuse, Option.map_some, gave_zero, hyield, World.gaveBack, if_true, ite_self]
    exact (h.same (Same.refl w.job)).keeps
  | false =>
    have hsize := hsize.resolve_left (by simp [hcancel])
    by_cases hnull : p = 0
    · have hcall : tcc_glue.urealloc w.job p size = tcc_glue.umalloc (jit_maybe_yield w.job) size := by
        unfold tcc_glue.urealloc
        rw [if_neg (by simp [hcancel]), if_pos hnull]
      rw [hcall]
      simp only [if_pos hnull]
      exact (h.same (same_yield w.job)).umalloc (Or.inr hsize)
    · by_cases hzero : size = 0
      · have hcall : tcc_glue.urealloc w.job p size =
            (tcc_glue.ufree (jit_maybe_yield w.job) p).map fun job => (0, job) := by
          unfold tcc_glue.urealloc
          rw [if_neg (by simp [hcancel]), if_neg hnull, if_pos hzero]
        rw [hcall, Option.map_map]
        simp only [Function.comp_def, if_neg hnull, if_pos hzero]
        exact (h.same (same_yield w.job)).ufree hp
      · simp only [if_neg hnull, if_neg hzero]
        by_cases hlive : w.Live p
        · obtain ⟨b, hb, rfl⟩ := hlive
          obtain ⟨x, n, hptr, hat, -⟩ := h.owns b hb
          rw [hptr]
          rcases urealloc_cases h.ready h.cut hat hcancel hzero hsize with
              ⟨job', hcall, hsame⟩ | ⟨hle, hcall⟩ | ⟨y, k, m', cells', hk, hn, htook, hcall⟩
          · simp only [hcall, Option.map_some, if_true]
            exact (h.same hsame).keeps
          · have hne : x + UBLOCK_SIZE ≠ 0 := by unfold UBLOCK_SIZE; omega
            simp only [hcall, Option.map_some, if_neg hne, if_true]
            exact (h.resized hat hle (same_yield w.job)).keeps
          · have hne : y + UBLOCK_SIZE ≠ 0 := by unfold UBLOCK_SIZE; omega
            have hother : y + UBLOCK_SIZE ≠ x + UBLOCK_SIZE := by
              obtain ⟨c, hc, hfree, -⟩ := htook.hole
              intro heq
              obtain rfl : y = x := Nat.add_right_cancel heq
              rw [At.eq_of_pos (by decide) hc hat] at hfree
              exact nomatch hfree
            rw [hcall, Option.map_map]
            simp only [Function.comp_def, if_neg hne, if_neg hother]
            exact h.moved hat htook hk hn
        · have hdead : p ∈ w.dead := (hp.resolve_left hnull).resolve_left hlive
          obtain ⟨y, rfl, hgone⟩ := h.dead p hdead
          obtain ⟨job', hcall, hsame⟩ := urealloc_of_gone hgone hzero
          simp only [hcall, Option.map_some, if_true]
          exact (h.same hsame).keeps

theorem Inv.step (h : Inv w cells) {a : Act} (hin : w.InBlocks a) (hwrap : w.NoWrap a) :
    Keeps (w.step a) := by
  cases a with
  | umalloc size => exact h.umalloc hwrap
  | ufree p => exact h.ufree hin
  | ucalloc nmemb size => exact h.ucalloc hwrap
  | urealloc p size => exact h.urealloc hin hwrap
  | write a n bytes => exact h.write bytes hin

theorem inv_init {job : JitJob} (hpos : 0 < job.uheap)
    (hfits : job.uheap + JIT_UHEAP_SIZE < 2 ^ 32) :
    Inv ⟨jit_uheap_reset job, [], []⟩ [⟨JIT_UHEAP_SIZE - UBLOCK_SIZE, true⟩] := by
  have hsize := JIT_UHEAP_SIZE_cases
  have hhdr : UBLOCK_SIZE = 16 := rfl
  refine ⟨⟨rfl, hpos, hfits⟩, ⟨⟨?_, trivial⟩, ?_, fun c hc => ?_, List.isChain_singleton _⟩,
    (fun b hb => by cases hb), fun x c hc hused => ?_, List.Pairwise.nil, (fun p hp => by cases hp)⟩
  · refine ublock_set_ublock ⟨?_, ?_, ?_, ?_⟩
    · exact (by decide : JIT_UHEAP_MAGIC < 2 ^ 32)
    · dsimp only
      omega
    · exact (by decide : 1 < 2 ^ 32)
    · exact Nat.two_pow_pos 32
  · simp only [FirstFit.stop, jit_uheap_reset]
    omega
  · rw [List.mem_singleton.mp hc]
    unfold GoodSize
    dsimp only
    omega
  · rcases hc with ⟨-, rfl⟩ | hc
    · cases hused
    · exact hc.elim

/-! ## What the job can rely on -/

/-- The block list of the job: it tiles the bytes of the heap, and the blocks of the job have
cells of their own. -/
structure Tidy (w : World) (cells : List Cell) : Prop where
  head : w.job.uheap_head = w.job.uheap
  tiles : Tiles w.job.mem w.job.uheap cells
  stop : FirstFit.stop UBLOCK_SIZE w.job.uheap cells = w.job.uheap + JIT_UHEAP_SIZE
  spaced : Spaced cells
  owns : ∀ b ∈ w.live, ∃ x c, b.ptr = x + UBLOCK_SIZE ∧
    At UBLOCK_SIZE w.job.uheap cells x c ∧ c.free = false ∧ b.size ≤ c.size
  disjoint : w.live.Pairwise fun b c => b.ptr + b.size ≤ c.ptr ∨ c.ptr + c.size ≤ b.ptr
  whole : w.live = [] → cells = [⟨JIT_UHEAP_SIZE - UBLOCK_SIZE, true⟩]

theorem Inv.tidy (h : Inv w cells) : Tidy w cells where
  head := h.ready.head
  tiles := h.cut.tiles
  stop := h.cut.stop
  spaced := h.cut.spaced
  owns b hb := by
    obtain ⟨x, n, hptr, hat, hsize⟩ := h.owns b hb
    exact ⟨x, ⟨n, false⟩, hptr, hat, rfl, hsize⟩
  disjoint := by
    refine h.apart.imp_of_mem fun {b c} hb hc hne => ?_
    obtain ⟨x, n, hbptr, hx, hn⟩ := h.owns b hb
    obtain ⟨y, k, hcptr, hy, hk⟩ := h.owns c hc
    rcases hx.apart hy with ⟨rfl, -⟩ | hle | hle
    · exact absurd (hbptr.trans hcptr.symm) hne
    · dsimp only at hle
      omega
    · dsimp only at hle
      omega
  whole hnil := by
    have hstop := h.cut.stop
    have hfree : ∀ x c, At UBLOCK_SIZE w.job.uheap cells x c → c.free = true := by
      intro x c hc
      cases hused : c.free with
      | true => rfl
      | false =>
        obtain ⟨b, hb, -⟩ := h.held x c hc hused
        rw [hnil] at hb
        exact nomatch hb
    cases hcells : cells with
    | nil => exact absurd hcells h.cut.ne_nil
    | cons c cs =>
      rw [hcells] at hstop hfree
      obtain rfl := eq_of_all_free (hcells ▸ h.cut.spaced) hfree
      have hc := hfree _ c (at_head _ c [])
      obtain ⟨size, free⟩ := c
      simp only [FirstFit.stop] at hstop
      obtain rfl : free = true := hc
      congr 2
      omega

theorem Inv.aligned (h : Inv w cells) (h8 : w.job.uheap % 8 = 0) {b : Block} (hb : b ∈ w.live) :
    b.ptr % 8 = 0 := by
  obtain ⟨x, n, hptr, hat, -⟩ := h.owns b hb
  have hdvd := aligned_of_at hat h.cut.sizes
  have hlo := hat.inside.1
  unfold UBLOCK_SIZE at hptr
  omega

theorem Inv.not_live_of_dead (h : Inv w cells) {p : Nat} (hp : p ∈ w.dead) : ¬ w.Live p := by
  rintro ⟨b, hb, rfl⟩
  obtain ⟨x, n, hptr, hat, -⟩ := h.owns b hb
  obtain ⟨y, hyptr, ⟨z, c, hc, hfree, hplace⟩, -, -⟩ := h.dead _ hp
  obtain rfl : x = y := Nat.add_right_cancel (hptr.symm.trans hyptr)
  unfold UBLOCK_SIZE at *
  rcases hc.apart hat with ⟨-, rfl⟩ | hle | hle
  · exact nomatch hfree
  · omega
  · dsimp only at hle
    omega

theorem Inv.ufree_again (h : Inv w cells) {p : UInt32} (hp : p.toNat ∈ w.dead) :
    ∃ job', Same w.job job' ∧ w.step (.ufree p) = some { w with job := job' } := by
  obtain ⟨job', hignore, hsame⟩ := h.ufree_ignored (Or.inr hp)
  refine ⟨job', hsame, ?_⟩
  simp only [World.step, hignore, Option.map_some, gaveBack_of_not_live (h.not_live_of_dead hp)]

theorem Inv.bytes_of_ufree (h : Inv w cells) {y k : Nat}
    (hat : At UBLOCK_SIZE w.job.uheap cells x ⟨n, false⟩)
    (hy : At UBLOCK_SIZE w.job.uheap cells y ⟨k, false⟩) (hne : y ≠ x)
    (hcall : tcc_glue.ufree w.job (x + UBLOCK_SIZE) = some job') {i : Nat} (hi : i < k) :
    job'.mem (y + UBLOCK_SIZE + i) = w.job.mem (y + UBLOCK_SIZE + i) := by
  cases hcancel : w.job.cancel_requested with
  | true =>
    unfold tcc_glue.ufree at hcall
    rw [if_pos hcancel, ite_self] at hcall
    obtain rfl := Option.some.inj hcall
    rfl
  | false =>
    obtain ⟨m', cells', htake, hfreed⟩ := ufree_spec h.ready h.cut hat rfl hcancel
    obtain rfl := Option.some.inj (htake.symm.trans hcall)
    exact hfreed.frame y _ hy rfl hne _ (by omega) (by dsimp only; omega)

theorem Inv.bytes_of_urealloc (h : Inv w cells) {b : Block} (hb : b ∈ w.live) {size r : Nat}
    (hsize : w.job.cancel_requested = true ∨ size ≤ 0xfffffff8)
    (hcall : tcc_glue.urealloc w.job b.ptr size = some (r, job')) (hr : r ≠ 0) {i : Nat}
    (hi : i < min b.size size) : job'.mem (r + i) = w.job.mem (b.ptr + i) := by
  obtain ⟨x, n, hptr, hat, hn⟩ := h.owns b hb
  have hzero : size ≠ 0 := by
    rintro rfl
    omega
  rw [hptr] at hcall ⊢
  cases hcancel : w.job.cancel_requested with
  | true =>
    unfold tcc_glue.urealloc at hcall
    rw [if_pos hcancel] at hcall
    exact absurd (Prod.mk.inj (Option.some.inj hcall)).1.symm hr
  | false =>
    have hsize := hsize.resolve_left (by simp [hcancel])
    rcases urealloc_cases h.ready h.cut hat hcancel hzero hsize with
        ⟨job'', hnull, hsame⟩ | ⟨hle, hkeep⟩ | ⟨y, k, m', cells', hk, hnk, htook, hmove⟩
    · rw [hnull] at hcall
      exact absurd (Prod.mk.inj (Option.some.inj hcall)).1.symm hr
    · rw [hkeep] at hcall
      obtain ⟨rfl, rfl⟩ := Prod.mk.inj (Option.some.inj hcall)
      rfl
    · rw [hmove] at hcall
      obtain ⟨job'', hfree, heq⟩ := Option.map_eq_some_iff.mp hcall
      obtain ⟨rfl, rfl⟩ := Prod.mk.inj heq
      have htaken := h.took htook hk (jit_maybe_yield (jit_maybe_yield w.job))
        ((same_yield w.job).trans (same_yield _))
      have hnew := (htook.used y ⟨k, false⟩ rfl).mpr (Or.inl ⟨rfl, rfl⟩)
      have hold := (htook.used x ⟨n, false⟩ rfl).mpr (Or.inr hat)
      have hcopied := htaken.payload (copy m' (y + UBLOCK_SIZE) (x + UBLOCK_SIZE) n) hnew
        fun i hi => patch_out (by omega)
      have hother : y ≠ x := by
        obtain ⟨c, hc, hcfree, -⟩ := htook.hole
        rintro rfl
        rw [At.eq_of_pos (by decide) hc hat] at hcfree
        exact nomatch hcfree
      calc job''.mem (y + UBLOCK_SIZE + i)
          = copy m' (y + UBLOCK_SIZE) (x + UBLOCK_SIZE) n (y + UBLOCK_SIZE + i) :=
            hcopied.bytes_of_ufree hold hnew hother hfree (by omega)
        _ = m' (x + UBLOCK_SIZE + i) := patch_add (by omega)
        _ = w.job.mem (x + UBLOCK_SIZE + i) :=
            htook.frame hat rfl _ (by omega) (by dsimp only; omega)

omit [JitConfig] in
theorem job_gave (w : World) (job : JitJob) (r size : Nat) :
    (w.gave job r size).job = job := by
  unfold World.gave
  split <;> rfl

omit [JitConfig] in
theorem job_gaveBack (w : World) (job : JitJob) (p : Nat) (c : Bool) :
    (w.gaveBack job p c).job = job := by
  unfold World.gaveBack
  split <;> rfl

theorem uheap_step {w' : World} {a : Act} (h : w.step a = some w') :
    w'.job.uheap = w.job.uheap := by
  cases a with
  | umalloc size =>
    obtain ⟨r, hr, rfl⟩ := Option.map_eq_some_iff.mp h
    rw [job_gave, uheap_umalloc hr]
  | ufree p =>
    obtain ⟨r, hr, rfl⟩ := Option.map_eq_some_iff.mp h
    rw [job_gaveBack, uheap_ufree hr]
  | ucalloc nmemb size =>
    obtain ⟨r, hr, rfl⟩ := Option.map_eq_some_iff.mp h
    rw [job_gave, uheap_ucalloc hr]
  | urealloc p size =>
    obtain ⟨r, hr, rfl⟩ := Option.map_eq_some_iff.mp h
    have huheap := uheap_urealloc hr
    dsimp only
    split_ifs
    · rwa [job_gave]
    · rwa [job_gaveBack]
    · exact huheap
    · exact huheap
    · unfold World.moved
      rwa [job_gaveBack]
  | write a n bytes =>
    obtain rfl := Option.some.inj h
    rfl

theorem inv_of_reaches {job : JitJob} (hpos : 0 < job.uheap)
    (hfits : job.uheap + JIT_UHEAP_SIZE < 2 ^ 32)
    (h : Reaches (fun w a => w.InBlocks a ∧ w.NoWrap a) job w) :
    w.job.uheap = job.uheap ∧ ∃ cells, Inv w cells := by
  induction h with
  | init => exact ⟨rfl, _, inv_init hpos hfits⟩
  | step a _ hok hstep ih =>
    obtain ⟨huheap, cells, hinv⟩ := ih
    obtain ⟨v, cells', hv, hinv'⟩ := hinv.step hok.1 hok.2
    obtain rfl := Option.some.inj (hv.symm.trans hstep)
    exact ⟨(uheap_step hstep).trans huheap, cells', hinv'⟩

/-- In every run whose sizes round up without a wrap, on a heap that is 8-byte aligned, the block
list tiles the heap without free neighbours, the blocks of the job are aligned and have bytes
of their own, a heap without blocks is one free block, every call ends, a repeated free does
nothing, and `urealloc` keeps the bytes that both sizes have. -/
theorem jit_heap_safe {job : JitJob} (hpos : 0 < job.uheap)
    (hfits : job.uheap + JIT_UHEAP_SIZE < 2 ^ 32) (h8 : job.uheap % 8 = 0)
    (h : Reaches (fun w a => w.InBlocks a ∧ w.NoWrap a) job w) :
    w.job.uheap = job.uheap ∧ (∃ cells, Tidy w cells) ∧ (∀ b ∈ w.live, b.ptr % 8 = 0) ∧
      (∀ a, w.InBlocks a → w.NoWrap a → (w.step a).isSome) ∧
      (∀ p : UInt32, p.toNat ∈ w.dead →
        ∃ job', Same w.job job' ∧ w.step (.ufree p) = some { w with job := job' }) ∧
      ∀ b ∈ w.live, ∀ (size : UInt32) r job',
        w.job.cancel_requested = true ∨ size.toNat ≤ 0xfffffff8 →
        urealloc w.job b.ptr size.toNat = some (r, job') → r ≠ 0 →
        ∀ i < min b.size size.toNat, job'.mem (r + i) = w.job.mem (b.ptr + i) := by
  obtain ⟨huheap, cells, hinv⟩ := inv_of_reaches hpos hfits h
  refine ⟨huheap, ⟨cells, hinv.tidy⟩, fun b hb => hinv.aligned (huheap ▸ h8) hb,
    fun a hin hwrap => ?_, fun p hp => hinv.ufree_again hp,
    fun b hb size r job' hsize hcall hr i hi => hinv.bytes_of_urealloc hb hsize hcall hr hi⟩
  obtain ⟨v, cells', hv, -⟩ := hinv.step hin hwrap
  rw [hv]
  rfl

end Safety

/-- The heap of the smaller board, and a job with its heap at 0x80000000. -/
@[reducible]
def fpgaJit : JitConfig := ⟨true⟩

def zeroJob : JitJob where
  mem := fun _ => 0
  uheap := 0x80000000
  uheap_head := 0
  cancel_requested := false
  cancels := fun _ => false
  yields := 0

def resetWorld : World := ⟨@jit_uheap_reset fpgaJit zeroJob, [], []⟩

/-- The job asks for 24 bytes and for 8, makes 40 of the 24, and gives the 8 back. -/
def sampleActs : List Act :=
  [.umalloc 24, .umalloc 8, .urealloc 0x80000010 40, .ufree 0x80000038]

def afterAct (w : World) (a : Act) : World := (@World.step fpgaJit w a).getD w

def sampleWorld : World := sampleActs.foldl afterAct resetWorld

theorem reaches_afterAct {w : World} {a : Act}
    (h : @Reaches fpgaJit (fun w a => w.InBlocks a ∧ w.NoWrap a) zeroJob w)
    (hok : w.InBlocks a ∧ w.NoWrap a) (hends : (@World.step fpgaJit w a).isSome) :
    @Reaches fpgaJit (fun w a => w.InBlocks a ∧ w.NoWrap a) zeroJob (afterAct w a) := by
  obtain ⟨w', hw'⟩ := Option.isSome_iff_exists.mp hends
  have hafter : afterAct w a = w' := by
    unfold afterAct
    rw [hw']
    rfl
  rw [hafter]
  exact @Reaches.step fpgaJit _ zeroJob w w' a h hok hw'

theorem jit_heap_safe_sample :
    (∃ cells, @Tidy fpgaJit sampleWorld cells) ∧ (∀ b ∈ sampleWorld.live, b.ptr % 8 = 0) ∧
      sampleWorld.live = [⟨0x80000050, 40⟩] := by
  have hfirst := reaches_afterAct (@Reaches.init fpgaJit _ zeroJob) (a := .umalloc 24)
    ⟨trivial, Or.inr (by decide)⟩ (by decide)
  have hsecond := reaches_afterAct hfirst (a := .umalloc 8)
    ⟨trivial, Or.inr (by decide)⟩ (by decide)
  have hthird := reaches_afterAct hsecond (a := .urealloc 0x80000010 40)
    ⟨Or.inr (Or.inl ⟨⟨0x80000010, 24⟩, by decide, rfl⟩), Or.inr (by decide)⟩ (by decide)
  have hlast := reaches_afterAct hthird (a := .ufree 0x80000038)
    ⟨Or.inr (Or.inl ⟨⟨0x80000038, 8⟩, by decide, rfl⟩), trivial⟩ (by decide)
  have hsafe := @jit_heap_safe fpgaJit sampleWorld zeroJob (by decide) (by decide) (by decide) hlast
  exact ⟨hsafe.2.1, hsafe.2.2.1, by decide⟩

theorem umalloc_wrap_ends : (@World.step fpgaJit resetWorld (.umalloc 0xfffffff9)).isSome := by
  decide

/-- 4 GiB less 7 bytes are rounded up to nothing, and the job gets a block without a byte. -/
theorem umalloc_wraps :
    let w := (@World.step fpgaJit resetWorld (.umalloc 0xfffffff9)).get umalloc_wrap_ends
    @Reaches fpgaJit World.InBlocks zeroJob w ∧ w.live = [⟨0x80000010, 0xfffffff9⟩] ∧
      (ublock w.job.mem 0x80000000).size = 0 ∧ ¬ ∃ cells, @Tidy fpgaJit w cells := by
  intro w
  have hlive : w.live = [⟨0x80000010, 0xfffffff9⟩] := by decide
  refine ⟨?_, hlive, by decide, ?_⟩
  · exact @Reaches.step fpgaJit _ zeroJob resetWorld _ (.umalloc 0xfffffff9)
      (@Reaches.init fpgaJit _ zeroJob) trivial (Option.some_get umalloc_wrap_ends).symm
  · rintro ⟨cells, htidy⟩
    have hmem : (⟨0x80000010, 0xfffffff9⟩ : Block) ∈ w.live := by
      rw [hlive]
      exact List.mem_singleton.mpr rfl
    obtain ⟨x, c, -, hat, -, hsize⟩ := @Tidy.owns fpgaJit w cells htidy _ hmem
    have hstop := @Tidy.stop fpgaJit w cells htidy
    have hcases := @JIT_UHEAP_SIZE_cases fpgaJit
    have hend := hat.inside
    rw [hstop] at hend
    dsimp only at hsize
    omega

end vibeos.tcc_glue
