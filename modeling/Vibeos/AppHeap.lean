-- The heap of an application: one pointer that goes up. A size near 2^32 is rounded up to 0, and
-- such a call gets a block of 16 bytes.
import Vibeos.Ecall
import Vibeos.ByteMem
import Mathlib.Order.Interval.Set.Basic
import Mathlib.Data.Set.BooleanAlgebra
import Mathlib.Order.CompletePartialOrder

namespace vibeos.trap

open vibeos.fs

/-! ## app_runtime.c -/

def app_heap_reset (k : Kernel) (lo hi : BitVec 32) : Kernel :=
  { k with
    loaded_app_heap_lo := align_up_reg lo 16
    loaded_app_heap_hi := hi &&& ~~~0xF
    loaded_app_heap_cur := align_up_reg lo 16 }

/-! ## Runs -/

/-- A call of the allocator: the state before it, the size and the result. -/
structure HeapCall where
  before : Kernel
  size : BitVec 32
  p : BitVec 32

/-- The calls for these sizes, one after the other. -/
def heapCalls : Kernel → List (BitVec 32) → List HeapCall
  | _, [] => []
  | k, size :: sizes =>
    let r := app_heap_alloc k size
    ⟨k, size, r.1⟩ :: heapCalls r.2 sizes

def HeapCall.block (c : HeapCall) : Set Nat := Set.Ico c.p.toNat (c.p.toNat + c.size.toNat)

def HeapCall.Inside (lo hi : BitVec 32) (c : HeapCall) : Prop :=
  c.p ≠ 0 → lo.toNat ≤ c.p.toNat ∧ c.p.toNat + c.size.toNat ≤ hi.toNat ∧ 16 ∣ c.p.toNat

/-- Every block lies in the heap and starts at a multiple of 16, and no two have a byte in
common. -/
structure HeapSound (lo hi : BitVec 32) (calls : List HeapCall) : Prop where
  inside : ∀ c ∈ calls, c.Inside lo hi
  disjoint : calls.Pairwise fun c d => c.p ≠ 0 → d.p ≠ 0 → Disjoint c.block d.block

/-- The heap has no place left (or its next place is 0, which counts as no block), or the numbers
can be rounded up, or there is less left than the call asks for. -/
def Kernel.HeapServes (k : Kernel) (lo size : BitVec 32) : Prop :=
  k.loaded_app_heap_hi.toNat ≤ k.loaded_app_heap_cur.toNat ∨ k.loaded_app_heap_cur = 0 ∨
    size.toNat ≤ 0xFFFFFFF0 ∧ (lo.toNat ≤ 0xFFFFFFF0 ∨
      k.loaded_app_heap_hi.toNat < k.loaded_app_heap_cur.toNat + size.toNat)

/-! ## Rounding -/

theorem toNat_and_not_fifteen (v : BitVec 32) : (v &&& ~~~15#32).toNat = v.toNat / 16 * 16 :=
  WordBits.toNat_and_not_low v 4

theorem toNat_align_up (v : BitVec 32) :
    (align_up_reg v 16).toNat = (v.toNat + 15) % 2 ^ 32 / 16 * 16 := by
  have hsum : v + 16 - 1 = v + 15#32 := by bv_omega
  rw [align_up_reg, hsum]
  exact (toNat_and_not_fifteen (v + 15#32)).trans (by rw [BitVec.toNat_add]; rfl)

theorem align_up_of_dvd {v : BitVec 32} (h : 16 ∣ v.toNat) : align_up_reg v 16 = v := by
  apply BitVec.eq_of_toNat_eq
  rw [toNat_align_up]
  omega

def blockBytes (size : BitVec 32) : Nat := max 16 ((size.toNat + 15) % 2 ^ 32 / 16 * 16)

theorem toNat_need (size : BitVec 32) :
    (if align_up_reg size 16 = 0 then 16 else align_up_reg size 16).toNat = blockBytes size := by
  have hsize := toNat_align_up size
  unfold blockBytes
  split
  case isTrue h =>
    rw [h] at hsize
    have hzero : (size.toNat + 15) % 2 ^ 32 / 16 * 16 = 0 := hsize.symm
    rw [hzero]
    rfl
  case isFalse h =>
    have hne : (align_up_reg size 16).toNat ≠ 0 := fun h0 => h (BitVec.eq_of_toNat_eq h0)
    omega

/-! ## One call -/

/-- The limits are as the reset left them, and the next place is in order. -/
structure Kernel.HeapKept (k : Kernel) (lo hi : BitVec 32) : Prop where
  lo_eq : k.loaded_app_heap_lo = align_up_reg lo 16
  hi_eq : k.loaded_app_heap_hi.toNat = hi.toNat / 16 * 16
  lo_le : k.loaded_app_heap_lo.toNat ≤ k.loaded_app_heap_cur.toNat
  aligned : 16 ∣ k.loaded_app_heap_cur.toNat

theorem HeapKept.reset (k : Kernel) (lo hi : BitVec 32) :
    (app_heap_reset k lo hi).HeapKept lo hi where
  lo_eq := rfl
  hi_eq := toNat_and_not_fifteen hi
  lo_le := le_refl _
  aligned := by
    change 16 ∣ (align_up_reg lo 16).toNat
    rw [toNat_align_up]
    omega

variable {k : Kernel} {lo hi size : BitVec 32}

theorem Kernel.HeapKept.alloc_cases (h : k.HeapKept lo hi) (size : BitVec 32) :
    (app_heap_alloc k size = (0, k) ∧
      k.loaded_app_heap_hi.toNat < k.loaded_app_heap_cur.toNat + blockBytes size) ∨
    ((app_heap_alloc k size).1 = k.loaded_app_heap_cur ∧
      (app_heap_alloc k size).2.HeapKept lo hi ∧
      (app_heap_alloc k size).2.loaded_app_heap_cur.toNat =
        k.loaded_app_heap_cur.toNat + blockBytes size ∧
      k.loaded_app_heap_cur.toNat + blockBytes size ≤ k.loaded_app_heap_hi.toNat) := by
  have hcur : align_up_reg k.loaded_app_heap_cur 16 = k.loaded_app_heap_cur :=
    align_up_of_dvd h.aligned
  have hlo : ¬ k.loaded_app_heap_cur < k.loaded_app_heap_lo := by
    rw [BitVec.lt_def]
    exact Nat.not_lt.mpr h.lo_le
  have hneed := toNat_need size
  have hpos : 16 ≤ blockBytes size := le_max_left 16 _
  have h16 : 16 ∣ blockBytes size := by
    unfold blockBytes
    omega
  generalize hn : (if align_up_reg size 16 = 0 then 16 else align_up_reg size 16) = need at hneed
  have heq : app_heap_alloc k size =
      if k.loaded_app_heap_hi ≤ k.loaded_app_heap_cur ∨
        k.loaded_app_heap_hi - k.loaded_app_heap_cur < need then (0, k)
      else (k.loaded_app_heap_cur,
        { k with loaded_app_heap_cur := k.loaded_app_heap_cur + need }) := by
    unfold app_heap_alloc
    dsimp only
    rw [hcur, if_neg hlo, hn]
  by_cases hfull : k.loaded_app_heap_hi ≤ k.loaded_app_heap_cur ∨
      k.loaded_app_heap_hi - k.loaded_app_heap_cur < need
  · refine .inl ⟨by rw [heq, if_pos hfull], ?_⟩
    rw [← hneed]
    bv_omega
  · have hfits : k.loaded_app_heap_cur.toNat + need.toNat ≤ k.loaded_app_heap_hi.toNat := by
      bv_omega
    have hsum : (k.loaded_app_heap_cur + need).toNat =
        k.loaded_app_heap_cur.toNat + need.toNat := by
      rw [BitVec.toNat_add]
      omega
    rw [heq, if_neg hfull, ← hneed]
    refine .inr ⟨rfl, ⟨h.lo_eq, h.hi_eq, ?_, ?_⟩, hsum, hfits⟩
    · change k.loaded_app_heap_lo.toNat ≤ (k.loaded_app_heap_cur + need).toNat
      rw [hsum]
      exact Nat.le_add_right_of_le h.lo_le
    · change 16 ∣ (k.loaded_app_heap_cur + need).toNat
      rw [hsum, hneed]
      exact Nat.dvd_add h.aligned h16

theorem Kernel.HeapKept.alloc (h : k.HeapKept lo hi) (size : BitVec 32) :
    (app_heap_alloc k size).2.HeapKept lo hi ∧
      k.loaded_app_heap_cur.toNat ≤ (app_heap_alloc k size).2.loaded_app_heap_cur.toNat := by
  obtain ⟨hnull, -⟩ | ⟨-, hkept, hcur, -⟩ := h.alloc_cases size
  · rw [hnull]
    exact ⟨h, le_refl _⟩
  · exact ⟨hkept, by omega⟩

theorem Kernel.HeapKept.inside_iff (h : k.HeapKept lo hi) (size : BitVec 32) :
    (⟨k, size, (app_heap_alloc k size).1⟩ : HeapCall).Inside lo hi ↔ k.HeapServes lo size := by
  have hlo := h.lo_le
  have hhi := h.hi_eq
  have haligned := h.aligned
  rw [h.lo_eq, toNat_align_up] at hlo
  have hzero : k.loaded_app_heap_cur = 0 ↔ k.loaded_app_heap_cur.toNat = 0 := by bv_omega
  unfold HeapCall.Inside Kernel.HeapServes
  obtain ⟨hnull, hless⟩ | ⟨hp, -, -, hfits⟩ := h.alloc_cases size
  · -- no block: a size that is rounded to 0 finds no place at all
    rw [hnull]
    refine iff_of_true (fun hne => absurd rfl hne) ?_
    unfold blockBytes at hless
    omega
  · dsimp only
    rw [hp, Ne, hzero]
    unfold blockBytes at hfits
    omega

/-! ## Whole runs -/

theorem heapCalls_kept (h : k.HeapKept lo hi) (sizes : List (BitVec 32)) :
    ∀ c ∈ heapCalls k sizes, c.before.HeapKept lo hi ∧
      k.loaded_app_heap_cur.toNat ≤ c.before.loaded_app_heap_cur.toNat ∧
      c.p = (app_heap_alloc c.before c.size).1 := by
  induction sizes generalizing k with
  | nil => simp [heapCalls]
  | cons size sizes ih =>
    obtain ⟨hkept, hle⟩ := h.alloc size
    refine List.forall_mem_cons.mpr ⟨⟨h, le_refl _, rfl⟩, fun c hc => ?_⟩
    obtain ⟨hbefore, hcur, hp⟩ := ih hkept c hc
    exact ⟨hbefore, hle.trans hcur, hp⟩

theorem heapCalls_ascend (h : k.HeapKept lo hi) (sizes : List (BitVec 32)) :
    (heapCalls k sizes).Pairwise fun c d => c.p ≠ 0 → d.p ≠ 0 →
      c.p.toNat + blockBytes c.size ≤ d.p.toNat := by
  induction sizes generalizing k with
  | nil => exact .nil
  | cons size sizes ih =>
    refine .cons (fun d hd hc0 hd0 => ?_) (ih (h.alloc size).1)
    obtain ⟨hbefore, hle, hp⟩ := heapCalls_kept (h.alloc size).1 sizes d hd
    obtain ⟨hnull, -⟩ | ⟨hfirst, -, hcur, -⟩ := h.alloc_cases size
    · exact absurd (by rw [hnull]) hc0
    obtain ⟨hnull, -⟩ | ⟨hlater, -, -, -⟩ := hbefore.alloc_cases d.size
    · exact absurd (by rw [hp, hnull]) hd0
    dsimp only
    rw [hp, hlater, hfirst, ← hcur]
    exact hle

theorem HeapCall.disjoint {c d : HeapCall} (hsize : c.size.toNat ≤ 0xFFFFFFF0)
    (h : c.p.toNat + blockBytes c.size ≤ d.p.toNat) : Disjoint c.block d.block := by
  refine Set.disjoint_left.mpr fun a hc hd => ?_
  have hlt := hc.2
  have hle := hd.1
  unfold blockBytes at h
  omega

/-- In a run from a reset, the blocks are sound exactly when each call finds a heap that serves
it. -/
theorem heap_sound_iff (k : Kernel) (lo hi : BitVec 32) (sizes : List (BitVec 32)) :
    HeapSound lo hi (heapCalls (app_heap_reset k lo hi) sizes) ↔
      ∀ c ∈ heapCalls (app_heap_reset k lo hi) sizes, c.before.HeapServes lo c.size := by
  have hreset := HeapKept.reset k lo hi
  have hiff : ∀ c ∈ heapCalls (app_heap_reset k lo hi) sizes,
      (c.Inside lo hi ↔ c.before.HeapServes lo c.size) := by
    intro c hc
    obtain ⟨hbefore, -, hp⟩ := heapCalls_kept hreset sizes c hc
    rw [← hbefore.inside_iff c.size, ← hp]
  constructor
  · intro h c hc
    exact (hiff c hc).mp (h.inside c hc)
  · intro h
    have hinside : ∀ c ∈ heapCalls (app_heap_reset k lo hi) sizes, c.Inside lo hi :=
      fun c hc => (hiff c hc).mpr (h c hc)
    refine ⟨hinside, ?_⟩
    refine (heapCalls_ascend hreset sizes).imp_of_mem fun {c d} hc hd hle hc0 hd0 => ?_
    -- a block inside the heap has a size that can be rounded up
    have hbound := (hinside c hc hc0).2.1
    have hp : c.p.toNat ≠ 0 := fun h0 => hc0 (BitVec.eq_of_toNat_eq h0)
    have h16 := (hinside c hc hc0).2.2
    exact HeapCall.disjoint (by omega) (hle hc0 hd0)

section

attribute [local instance] fpgaBuild

/-- The kernel before an application has a heap. -/
def idleKernel : Kernel where
  mem := fun _ => 0
  fs := freshFs
  wins := []
  app_owner_win_id := -1
  uart := []
  loaded_app_heap_lo := 0
  loaded_app_heap_hi := 0
  loaded_app_heap_cur := 0
  loaded_app_exit_code := 0
  need_resched := false
  satp := 0
  mstatus := 0

/-- A heap of one page, and a call for as many bytes as 32 bits can count: it gets the first block
of the heap, and the next call gets the place 16 bytes later. -/
theorem huge_size_gets_block :
    (heapCalls (app_heap_reset idleKernel 0x1000 0x2000) [0xFFFFFFFF, 16]).map HeapCall.p =
      [0x1000, 0x1010] ∧
    ¬ HeapSound 0x1000 0x2000
      (heapCalls (app_heap_reset idleKernel 0x1000 0x2000) [0xFFFFFFFF, 16]) := by
  have hcalls : (heapCalls (app_heap_reset idleKernel 0x1000 0x2000) [0xFFFFFFFF, 16]).map
      HeapCall.p = [0x1000, 0x1010] := by decide
  refine ⟨hcalls, fun h => ?_⟩
  have hfirst := h.inside _ (List.mem_cons_self ..) (by decide)
  exact absurd hfirst.2.1 (by decide)

end

end vibeos.trap
