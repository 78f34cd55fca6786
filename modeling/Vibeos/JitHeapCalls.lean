-- What the calls of tcc_glue.c do to a heap that is cut into cells.
import Vibeos.JitHeapCells

namespace vibeos.tcc_glue

open vibeos.Mem vibeos.FirstFit

def GoodSize (n : Nat) : Prop := 8 ∣ n ∧ 0 < n

/-- The bytes from `base` on are a list of blocks without free neighbours. -/
structure Cut [JitConfig] (m : Mem) (base : Nat) (cells : List Cell) : Prop where
  tiles : Tiles m base cells
  stop : stop UBLOCK_SIZE base cells = base + JIT_UHEAP_SIZE
  sizes : ∀ c ∈ cells, GoodSize c.size
  spaced : Spaced cells

/-- The heap of a job is in memory and was reset. -/
structure JitJob.Ready [JitConfig] (job : JitJob) : Prop where
  head : job.uheap_head = job.uheap
  pos : 0 < job.uheap
  fits : job.uheap + JIT_UHEAP_SIZE < 2 ^ 32

@[simp]
theorem mem_jit_maybe_yield (job : JitJob) : (jit_maybe_yield job).mem = job.mem := rfl

@[simp]
theorem uheap_jit_maybe_yield (job : JitJob) : (jit_maybe_yield job).uheap = job.uheap := rfl

@[simp]
theorem uheap_head_jit_maybe_yield (job : JitJob) :
    (jit_maybe_yield job).uheap_head = job.uheap_head := rfl

structure Same (job job' : JitJob) : Prop where
  mem : job'.mem = job.mem
  uheap : job'.uheap = job.uheap
  head : job'.uheap_head = job.uheap_head

theorem Same.refl (job : JitJob) : Same job job := ⟨rfl, rfl, rfl⟩

theorem Same.trans {job job' job'' : JitJob} (h : Same job job') (h' : Same job' job'') :
    Same job job'' where
  mem := h'.mem.trans h.mem
  uheap := h'.uheap.trans h.uheap
  head := h'.head.trans h.head

theorem same_yield (job : JitJob) : Same job (jit_maybe_yield job) := ⟨rfl, rfl, rfl⟩

theorem jit_align8_spec {n : Nat} (hpos : 0 < n) (h : n ≤ 0xfffffff8) :
    n ≤ jit_align8 n ∧ GoodSize (jit_align8 n) := by
  unfold jit_align8 GoodSize
  omega

theorem aligned_of_at {base x : Nat} {c : Cell} {cells : List Cell}
    (hat : At UBLOCK_SIZE base cells x c) (hsizes : ∀ c ∈ cells, GoodSize c.size) :
    8 ∣ x - base := by
  induction cells generalizing base with
  | nil => exact hat.elim
  | cons d cells ih =>
    rcases hat with ⟨rfl, -⟩ | hat
    · simp
    · have hd := (hsizes d List.mem_cons_self).1
      have hrest := ih hat fun c hc => hsizes c (List.mem_cons_of_mem d hc)
      have hlo := hat.inside.1
      unfold UBLOCK_SIZE at *
      omega

section Calls

variable [JitConfig] {m m' : Mem} {base x y p size : Nat} {c d : Cell} {cells cells' : List Cell}
  {job : JitJob}

theorem Same.ready {job job' : JitJob} (h : Same job job') (hready : job.Ready) :
    job'.Ready where
  head := by rw [h.head, h.uheap, hready.head]
  pos := h.uheap ▸ hready.pos
  fits := h.uheap ▸ hready.fits

theorem JIT_UHEAP_SIZE_cases : JIT_UHEAP_SIZE = 2 ^ 20 ∨ JIT_UHEAP_SIZE = 2 ^ 24 := by
  unfold JIT_UHEAP_SIZE
  split
  · exact Or.inl rfl
  · exact Or.inr rfl

theorem Cut.length_lt (h : Cut m base cells) : cells.length < JIT_UHEAP_SIZE := by
  have hlen : base + UBLOCK_SIZE * cells.length ≤ FirstFit.stop UBLOCK_SIZE base cells :=
    length_le_stop base cells
  have hsize := JIT_UHEAP_SIZE_cases
  rw [h.stop] at hlen
  unfold UBLOCK_SIZE at hlen
  omega

theorem Cut.ne_nil (h : Cut m base cells) : cells ≠ [] := by
  rintro rfl
  have hstop := h.stop
  have hsize := JIT_UHEAP_SIZE_cases
  simp only [FirstFit.stop] at hstop
  omega

theorem Cut.congr (h : Cut m base cells)
    (hsame : ∀ x c, At UBLOCK_SIZE base cells x c → ∀ y, x ≤ y → y < x + UBLOCK_SIZE →
      m' y = m y) : Cut m' base cells :=
  { h with tiles := h.tiles.congr hsame }

theorem Cut.congr_payload (h : Cut m base cells) (hat : At UBLOCK_SIZE base cells x c)
    (hsame : ∀ y, y < x + UBLOCK_SIZE ∨ x + UBLOCK_SIZE + c.size ≤ y → m' y = m y) :
    Cut m' base cells := by
  refine h.congr fun z d hd y hlo hhi => hsame y ?_
  rcases hat.apart hd with ⟨rfl, rfl⟩ | hle | hle <;> omega

/-! ## `umalloc` -/

/-- The heap gave the cell at `x`, with `n` bytes. -/
structure Took (m : Mem) (base : Nat) (cells : List Cell) (x n : Nat) (m' : Mem)
    (cells' : List Cell) : Prop where
  cut : Cut m' base cells'
  hole : ∃ c, At UBLOCK_SIZE base cells x c ∧ c.free = true ∧
    ∀ y, y < x ∨ x + UBLOCK_SIZE + c.size ≤ y → m' y = m y
  used : ∀ y d, d.free = false →
    (At UBLOCK_SIZE base cells' y d ↔ y = x ∧ d = ⟨n, false⟩ ∨ At UBLOCK_SIZE base cells y d)

theorem Took.frame {n : Nat} (h : Took m base cells x n m' cells')
    (hat : At UBLOCK_SIZE base cells y d) (hused : d.free = false) :
    ∀ i, y ≤ i → i < y + UBLOCK_SIZE + d.size → m' i = m i := by
  obtain ⟨c, hc, hfree, hsame⟩ := h.hole
  intro i hlo hhi
  apply hsame
  rcases hc.apart hat with ⟨-, rfl⟩ | hle | hle
  · rw [hfree] at hused
    exact nomatch hused
  · omega
  · omega

theorem umalloc_loop_spec (hcut : Cut m base cells) (hpos : 0 < base)
    (hfits : base + JIT_UHEAP_SIZE < 2 ^ 32) {need : Nat} (hneed : GoodSize need) :
    umalloc_loop need JIT_UHEAP_SIZE base m = some (0, m) ∨
      ∃ x n m' cells', need ≤ n ∧
        umalloc_loop need JIT_UHEAP_SIZE base m = some (x + UBLOCK_SIZE, m') ∧
        Took m base cells x n m' cells' := by
  have hlink : link base cells = base := if_neg hcut.ne_nil
  have hlen := hcut.length_lt
  cases htake : take UBLOCK_SIZE 8 need base cells with
  | none =>
    have hloop := umalloc_loop_none hcut.tiles hpos hlen htake
    rw [hlink] at hloop
    exact Or.inl hloop
  | some r =>
    obtain ⟨x, cells'⟩ := r
    obtain ⟨m', hloop, htiles, hframe⟩ := umalloc_loop_some hcut.tiles hpos hlen
      (hcut.stop ▸ hfits) htake
    obtain ⟨c, hat, hfree, hfit, hstop, hused⟩ := take_spec htake
    rw [hlink] at hloop
    refine Or.inr ⟨x, granted UBLOCK_SIZE 8 need c, m', cells', need_le_granted hfit, hloop, ?_⟩
    refine ⟨⟨htiles, hstop.trans hcut.stop, ?_, (spaced_of_take hcut.spaced htake).1⟩,
      ⟨c, hat, hfree, hframe c hat⟩, hused⟩
    refine sizes_of_take hneed (fun n hn hleft => ?_) hcut.sizes htake
    unfold GoodSize UBLOCK_SIZE at *
    omega

theorem umalloc_spec (hready : job.Ready) (hcut : Cut job.mem job.uheap cells)
    (hsize : size ≤ 0xfffffff8) :
    umalloc job size = some (0, job) ∨ umalloc job size = some (0, jit_maybe_yield job) ∨
      ∃ x n m' cells', size ≤ n ∧
        umalloc job size = some (x + UBLOCK_SIZE, { jit_maybe_yield job with mem := m' }) ∧
        Took job.mem job.uheap cells x n m' cells' := by
  unfold umalloc
  split
  · exact Or.inl rfl
  · have hhead : job.uheap_head ≠ 0 := by
      have hpos := hready.pos
      rw [← hready.head] at hpos
      exact Nat.ne_of_gt hpos
    obtain ⟨hle, hgood⟩ := jit_align8_spec (n := if size ≠ 0 then size else 1)
      (by split <;> omega) (by split <;> omega)
    have hneed : size ≤ if size ≠ 0 then size else 1 := by split <;> omega
    dsimp only
    rw [uheap_head_jit_maybe_yield, if_neg hhead, mem_jit_maybe_yield, uheap_head_jit_maybe_yield]
    refine Or.inr ?_
    rcases umalloc_loop_spec hcut hready.pos hready.fits hgood with hnone |
        ⟨x, n, m', cells', hn, hloop, htook⟩
    · rw [← hready.head] at hnone
      refine Or.inl ?_
      rw [hnone]
      rfl
    · rw [← hready.head] at hloop
      refine Or.inr ⟨x, n, m', cells', by omega, ?_, htook⟩
      rw [hloop]
      rfl

/-! ## `ufree` -/

/-- The header of a cell that was freed: it stands, or lies in a free cell as it was. -/
structure Gone (m : Mem) (base : Nat) (cells : List Cell) (y : Nat) : Prop where
  buried : Buried UBLOCK_SIZE base cells y
  magic : (ublock m y).magic = JIT_UHEAP_MAGIC
  free : (ublock m y).free ≠ 0

/-- The heap took the cell at `x` back. -/
structure Freed (m : Mem) (base : Nat) (cells : List Cell) (x : Nat) (m' : Mem)
    (cells' : List Cell) : Prop where
  cut : Cut m' base cells'
  used : ∀ y d, d.free = false →
    (At UBLOCK_SIZE base cells' y d ↔ y ≠ x ∧ At UBLOCK_SIZE base cells y d)
  gone : ∀ y, y = x ∨ Gone m base cells y → Gone m' base cells' y
  frame : ∀ y d, At UBLOCK_SIZE base cells y d → d.free = false → y ≠ x →
    ∀ i, y ≤ i → i < y + UBLOCK_SIZE + d.size → m' i = m i

theorem coalesce_spec (htiles : Tiles m base cells) (hpos : 0 < base)
    (hstop : stop UBLOCK_SIZE base cells = base + JIT_UHEAP_SIZE)
    (hsizes : ∀ c ∈ cells, GoodSize c.size)
    (hfits : base + JIT_UHEAP_SIZE < 2 ^ 32) :
    ∃ m' cells', coalesce_loop JIT_UHEAP_SIZE base m = some m' ∧ Cut m' base cells' ∧
      (∀ y d, d.free = false →
        (At UBLOCK_SIZE base cells' y d ↔ At UBLOCK_SIZE base cells y d)) ∧
      (∀ y, Buried UBLOCK_SIZE base cells y → Buried UBLOCK_SIZE base cells' y) ∧
      ∀ y, ¬ Rewritten base cells y → m' y = m y := by
  have hlen : base + UBLOCK_SIZE * cells.length ≤ stop UBLOCK_SIZE base cells :=
    length_le_stop base cells
  have hsize := JIT_UHEAP_SIZE_cases
  cases cells with
  | nil =>
    simp only [FirstFit.stop] at hstop
    omega
  | cons c cs =>
    rw [hstop] at hlen
    unfold UBLOCK_SIZE at hlen
    simp only [List.length_cons] at hlen
    have hrounds : cs.length < JIT_UHEAP_SIZE := by omega
    obtain ⟨m', hloop, htiles', hframe⟩ := coalesce_loop_spec htiles hpos hrounds (hstop ▸ hfits)
    refine ⟨m', mergeFrom UBLOCK_SIZE c cs, hloop, ⟨htiles', ?_, ?_, spaced_mergeFrom c cs⟩,
      fun y d => at_mergeFrom_used, fun y => buried_mergeFrom, hframe⟩
    · rw [stop_mergeFrom, hstop]
    · refine sizes_of_mergeFrom (fun i j hi hj => ?_) hsizes
      unfold GoodSize UBLOCK_SIZE at *
      omega

theorem ufree_spec (hready : job.Ready) (hcut : Cut job.mem job.uheap cells)
    (hat : At UBLOCK_SIZE job.uheap cells x c) (hused : c.free = false)
    (hcancel : job.cancel_requested = false) :
    ∃ m' cells', ufree job (x + UBLOCK_SIZE) = some { jit_maybe_yield job with mem := m' } ∧
      Freed job.mem job.uheap cells x m' cells' := by
  have hhdr : (0 : Nat) < UBLOCK_SIZE := by decide
  obtain ⟨hmagic, -, hfree⟩ := hcut.tiles.header hat
  obtain ⟨hlo, hhi⟩ := hat.inside
  have hsize := (hcut.sizes c hat.mem).2
  have hstop := hcut.stop
  have hsizes : ∀ d ∈ release UBLOCK_SIZE x job.uheap cells, GoodSize d.size := by
    intro d hd
    obtain ⟨e, he, hed⟩ := size_of_mem_release hd
    rw [← hed]
    exact hcut.sizes e he
  obtain ⟨m', cells', hloop, hcut', hkept, hburied, hframe⟩ :=
    coalesce_spec (hcut.tiles.release hat) hready.pos ((stop_release x _ _).trans hstop) hsizes
      hready.fits
  have hreject : ¬ ((ublock job.mem x).magic ≠ JIT_UHEAP_MAGIC ∨ (ublock job.mem x).free ≠ 0) := by
    rw [hmagic, hfree, hused]
    simp
  refine ⟨m', cells', ?_, hcut', fun y d hd => ?_, fun y hy => ?_, fun y d hd hdfree hyx i hi hi' => ?_⟩
  · unfold ufree
    dsimp only
    rw [if_neg (by unfold UBLOCK_SIZE; omega), if_neg (by simp [hcancel]), Nat.add_sub_cancel,
      mem_jit_maybe_yield, uheap_jit_maybe_yield, if_neg (by omega), if_neg hreject]
    unfold jit_uheap_coalesce
    dsimp only
    rw [uheap_head_jit_maybe_yield, hready.head, hloop]
    rfl
  · rw [hkept y d hd, at_release hhdr]
    refine or_iff_left ?_
    rintro ⟨-, e, -, rfl⟩
    exact nomatch hd
  · have hb : Buried UBLOCK_SIZE job.uheap (release UBLOCK_SIZE x job.uheap cells) y := by
      rcases hy with rfl | hgone
      · exact ⟨y, _, (at_release hhdr y _ cells y _).mpr (Or.inr ⟨rfl, c, hat, rfl⟩), rfl,
          Or.inl rfl⟩
      · exact buried_release hhdr hgone.buried
    have hsame : (ublock m' y).magic = (ublock (set_free job.mem x 1) y).magic ∧
        (ublock m' y).free = (ublock (set_free job.mem x 1) y).free :=
      ⟨readLE_congr fun i hi => hframe _ (not_rewritten_of_buried hb (by omega)),
        readLE_congr fun i hi => hframe _ (not_rewritten_of_buried hb (by omega))⟩
    rcases hy with rfl | hgone
    · rw [ublock_set_free (by decide)] at hsame
      exact ⟨hburied y hb, hsame.1.trans hmagic, by rw [hsame.2]; exact one_ne_zero⟩
    · have hout := ublock_congr fun i hi hi' =>
        set_free_out (m := job.mem) (v := 1) (apart_of_buried hgone.buried hat hused hi hi')
      rw [hout] at hsame
      exact ⟨hburied y hb, hsame.1.trans hgone.magic, by rw [hsame.2]; exact hgone.free⟩
  · rw [hframe i (not_rewritten_of_used ((at_release hhdr x _ cells y d).mpr (Or.inl ⟨hyx, hd⟩))
      hdfree hi hi')]
    unfold UBLOCK_SIZE at *
    rcases hat.apart hd with ⟨rfl, -⟩ | hle | hle
    · exact absurd rfl hyx
    · exact set_free_out (by omega)
    · exact set_free_out (by omega)

theorem ufree_of_gone (hgone : Gone job.mem job.uheap cells y) :
    ∃ job', ufree job (y + UBLOCK_SIZE) = some job' ∧ Same job job' := by
  have hreject : (ublock job.mem y).magic ≠ JIT_UHEAP_MAGIC ∨ (ublock job.mem y).free ≠ 0 :=
    Or.inr hgone.free
  unfold ufree
  dsimp only
  rw [if_neg (by unfold UBLOCK_SIZE; omega), Nat.add_sub_cancel, mem_jit_maybe_yield,
    if_pos hreject, ite_self]
  split
  · exact ⟨job, rfl, Same.refl job⟩
  · exact ⟨_, rfl, same_yield job⟩

/-! ## `urealloc` -/

theorem umalloc_cases (hready : job.Ready) (hcut : Cut job.mem job.uheap cells)
    (hsize : job.cancel_requested = true ∨ size ≤ 0xfffffff8) :
    (∃ job', umalloc job size = some (0, job') ∧ Same job job') ∨
      ∃ x n m' cells', size ≤ n ∧
        umalloc job size = some (x + UBLOCK_SIZE, { jit_maybe_yield job with mem := m' }) ∧
        Took job.mem job.uheap cells x n m' cells' := by
  rcases hsize with hcancel | hsize
  · refine Or.inl ⟨job, ?_, Same.refl job⟩
    unfold umalloc
    rw [if_pos hcancel]
  · rcases umalloc_spec hready hcut hsize with hnull | hnull | htook
    · exact Or.inl ⟨job, hnull, Same.refl job⟩
    · exact Or.inl ⟨_, hnull, same_yield job⟩
    · exact Or.inr htook

/-- The job while `urealloc` gives back the cell at `x`: its bytes are in the cell at `y`. -/
def copied (job : JitJob) (m : Mem) (x y n : Nat) : JitJob :=
  { jit_maybe_yield (jit_maybe_yield job) with
    mem := copy m (y + UBLOCK_SIZE) (x + UBLOCK_SIZE) n }

theorem urealloc_cases {n : Nat} (hready : job.Ready) (hcut : Cut job.mem job.uheap cells)
    (hat : At UBLOCK_SIZE job.uheap cells x ⟨n, false⟩) (hcancel : job.cancel_requested = false)
    (hpos : size ≠ 0) (hsize : size ≤ 0xfffffff8) :
    (∃ job', urealloc job (x + UBLOCK_SIZE) size = some (0, job') ∧ Same job job') ∨
      (size ≤ n ∧
        urealloc job (x + UBLOCK_SIZE) size = some (x + UBLOCK_SIZE, jit_maybe_yield job)) ∨
      ∃ y k m' cells', size ≤ k ∧ n < size ∧ Took job.mem job.uheap cells y k m' cells' ∧
        urealloc job (x + UBLOCK_SIZE) size =
          (ufree (copied job m' x y n) (x + UBLOCK_SIZE)).map fun job =>
            (y + UBLOCK_SIZE, job) := by
  obtain ⟨hmagic, hn, hfree⟩ := hcut.tiles.header hat
  obtain ⟨hlo, hhi⟩ := hat.inside
  have hgood := (hcut.sizes _ hat.mem).2
  have hstop := hcut.stop
  have haccept :
      ¬ ((ublock job.mem x).magic ≠ JIT_UHEAP_MAGIC ∨ (ublock job.mem x).free ≠ 0) := by
    rw [hmagic, hfree]
    simp
  unfold urealloc
  dsimp only at hn hhi hgood ⊢
  rw [if_neg (by simp [hcancel]), if_neg (by unfold UBLOCK_SIZE; omega), if_neg hpos,
    Nat.add_sub_cancel, mem_jit_maybe_yield, uheap_jit_maybe_yield, if_neg (by omega),
    if_neg haccept, hn]
  split
  · rename_i hle
    exact Or.inr (Or.inl ⟨hle, rfl⟩)
  · rename_i hlt
    rcases umalloc_cases ((same_yield job).ready hready) hcut (Or.inr hsize) with
        ⟨job', hnull, hsame⟩ | ⟨y, k, m', cells', hk, hgive, htook⟩
    · refine Or.inl ⟨job', ?_, (same_yield job).trans hsame⟩
      rw [hnull]
      rfl
    · refine Or.inr (Or.inr ⟨y, k, m', cells', hk, by omega, htook, ?_⟩)
      have hkept : (ublock m' x).size = n := by
        rw [ublock_congr fun i hi hi' => htook.frame hat rfl i hi (by dsimp only; omega)]
        exact hn
      rw [hgive, Option.bind_some]
      dsimp only
      rw [if_pos (by unfold UBLOCK_SIZE; omega), hkept]
      rfl

theorem urealloc_of_gone (hgone : Gone job.mem job.uheap cells y) (hpos : size ≠ 0) :
    ∃ job', urealloc job (y + UBLOCK_SIZE) size = some (0, job') ∧ Same job job' := by
  have hreject : (ublock job.mem y).magic ≠ JIT_UHEAP_MAGIC ∨ (ublock job.mem y).free ≠ 0 :=
    Or.inr hgone.free
  unfold urealloc
  dsimp only
  rw [if_neg (by unfold UBLOCK_SIZE; omega : y + UBLOCK_SIZE ≠ 0), if_neg hpos,
    Nat.add_sub_cancel, mem_jit_maybe_yield, if_pos hreject, ite_self]
  split
  · exact ⟨job, rfl, Same.refl job⟩
  · exact ⟨_, rfl, same_yield job⟩

/-! ## The heap stays where it is -/

theorem uheap_umalloc {r : Nat × JitJob} (h : umalloc job size = some r) :
    r.2.uheap = job.uheap := by
  unfold umalloc at h
  split at h
  · obtain rfl := Option.some.inj h
    rfl
  · obtain ⟨_, _, rfl⟩ := Option.map_eq_some_iff.mp h
    dsimp only
    split <;> rfl

theorem uheap_ufree {job' : JitJob} (h : ufree job p = some job') : job'.uheap = job.uheap := by
  unfold ufree at h
  dsimp only at h
  split_ifs at h
  all_goals try (obtain rfl := Option.some.inj h; rfl)
  obtain ⟨_, _, rfl⟩ := Option.map_eq_some_iff.mp h
  rfl

theorem uheap_ucalloc {nmemb : Nat} {r : Nat × JitJob} (h : ucalloc job nmemb size = some r) :
    r.2.uheap = job.uheap := by
  unfold ucalloc at h
  dsimp only at h
  split at h
  · obtain rfl := Option.some.inj h
    rfl
  · split at h
    · obtain rfl := Option.some.inj h
      rfl
    · obtain ⟨q, hq, rfl⟩ := Option.map_eq_some_iff.mp h
      have huheap := uheap_umalloc hq
      split <;> exact huheap

theorem uheap_urealloc {r : Nat × JitJob} (h : urealloc job p size = some r) :
    r.2.uheap = job.uheap := by
  unfold urealloc at h
  dsimp only at h
  split_ifs at h
  · obtain rfl := Option.some.inj h
    rfl
  · have huheap := uheap_umalloc h
    exact huheap
  · obtain ⟨q, hq, rfl⟩ := Option.map_eq_some_iff.mp h
    have huheap := uheap_ufree hq
    exact huheap
  · obtain rfl := Option.some.inj h
    rfl
  · obtain rfl := Option.some.inj h
    rfl
  · obtain rfl := Option.some.inj h
    rfl
  · obtain ⟨q, hq, hr⟩ := Option.bind_eq_some_iff.mp h
    have huheap := uheap_umalloc hq
    split at hr
    · obtain ⟨j, hj, rfl⟩ := Option.map_eq_some_iff.mp hr
      exact (uheap_ufree hj).trans huheap
    · obtain rfl := Option.some.inj hr
      exact huheap

end Calls

end vibeos.tcc_glue
