-- A bitmap in a memory of bytes: bit `i` is bit `i % 8` of the byte `i / 8`. Scans that set bits of a
-- bitmap: a scan adds a set of cells when it is run on a bitmap that has none of them; scans of
-- disjoint sets can run one after another, in any number.
import Vibeos.ByteMem
import Mathlib.Data.Nat.Bitwise
import Mathlib.Logic.Function.Basic
import Mathlib.Data.List.Nodup

namespace vibeos.Bitmap

open vibeos.Mem

def mask (i : Nat) : UInt8 := UInt8.ofNat (1 <<< (i &&& 7))

/-- `bitmap[i >> 3] & (1 << (i & 7))`, for the bitmap at `base`. -/
def test (m : Mem) (base i : Nat) : Bool := m (base + i >>> 3) &&& mask i != 0

def set (m : Mem) (base i : Nat) : Mem :=
  patch m (base + i >>> 3) 1 fun _ => m (base + i >>> 3) ||| mask i

def clear (m : Mem) (base i : Nat) : Mem :=
  patch m (base + i >>> 3) 1 fun _ => m (base + i >>> 3) &&& ~~~ mask i

/-- The bits `i`, `i + 1`, … are set, `n` of them. -/
def setFrom (m : Mem) (base i : Nat) : Nat → Mem
  | 0 => m
  | n + 1 => setFrom (set m base i) base (i + 1) n

def clearFrom (m : Mem) (base i : Nat) : Nat → Mem
  | 0 => m
  | n + 1 => clearFrom (clear m base i) base (i + 1) n

variable {m m' : Mem} {base i j n k : Nat}

/-! ## One bit -/

theorem toNat_mask (i : Nat) : (mask i).toNat = 2 ^ (i % 8) := by
  have hseven : i &&& 7 = i % 8 := Nat.and_two_pow_sub_one_eq_mod i 3
  have hlt : 2 ^ (i % 8) < 2 ^ 8 := Nat.pow_lt_pow_right (by decide) (Nat.mod_lt i (by decide))
  rw [mask, hseven, Nat.one_shiftLeft, UInt8.toNat_ofNat', Nat.mod_eq_of_lt hlt]

theorem and_mask_ne_zero (b : UInt8) (i : Nat) :
    (b &&& mask i != 0) = b.toNat.testBit (i % 8) := by
  have hzero : b &&& mask i = 0 ↔ b.toNat.testBit (i % 8) = false := by
    rw [← UInt8.toNat_inj, UInt8.toNat_and, toNat_mask, Nat.and_two_pow]
    cases b.toNat.testBit (i % 8) <;> simp
  cases hbit : b.toNat.testBit (i % 8)
  · rw [hzero.mpr hbit]
    rfl
  · simp [hzero, hbit]

theorem test_eq (m : Mem) (base i : Nat) :
    test m base i = (m (base + i / 8)).toNat.testBit (i % 8) := by
  unfold test
  rw [and_mask_ne_zero, Nat.shiftRight_eq_div_pow]

theorem test_congr (h : m' (base + i / 8) = m (base + i / 8)) :
    test m' base i = test m base i := by
  rw [test_eq, test_eq, h]

theorem test_set (m : Mem) (base i j : Nat) :
    test (set m base i) base j = (decide (i = j) || test m base j) := by
  rw [test_eq, test_eq, set, Nat.shiftRight_eq_div_pow]
  by_cases hbyte : i / 8 = j / 8
  · rw [← hbyte, patch_in (Nat.le_refl _) (Nat.lt_succ_self _), UInt8.toNat_or, Nat.testBit_or,
      toNat_mask, Nat.testBit_two_pow, Bool.or_comm]
    congr 1
    exact decide_eq_decide.mpr (by omega)
  · rw [patch_out (by omega), decide_eq_false (by omega : ¬ i = j), Bool.false_or]

theorem testBit_toNat_not (b : UInt8) (hk : k < 8) :
    (~~~ b).toNat.testBit k = !b.toNat.testBit k := by
  have hnot : (~~~ b).toNat = 2 ^ 8 - (b.toNat + 1) := by
    rw [UInt8.toNat_not]
    simp only [UInt8.size]
    omega
  rw [hnot, Nat.testBit_two_pow_sub_succ (UInt8.toNat_lt b), decide_eq_true hk, Bool.true_and]

theorem test_clear (m : Mem) (base i j : Nat) :
    test (clear m base i) base j = (!decide (i = j) && test m base j) := by
  rw [test_eq, test_eq, clear, Nat.shiftRight_eq_div_pow]
  by_cases hbyte : i / 8 = j / 8
  · rw [← hbyte, patch_in (Nat.le_refl _) (Nat.lt_succ_self _), UInt8.toNat_and, Nat.testBit_and,
      testBit_toNat_not _ (Nat.mod_lt j (by decide)), toNat_mask, Nat.testBit_two_pow,
      Bool.and_comm]
    congr 2
    exact decide_eq_decide.mpr (by omega)
  · rw [patch_out (by omega), decide_eq_false (by omega : ¬ i = j)]
    rfl

theorem test_of_ones (h : m (base + i / 8) = 0xff) : test m base i = true := by
  have hlt : i % 8 < 8 := Nat.mod_lt i (by decide)
  have hones : ∀ k < 8, (0xff : UInt8).toNat.testBit k = true := by decide
  rw [test_eq, h, hones _ hlt]

/-! ## Ranges of bits -/

theorem test_setFrom (m : Mem) (base i n j : Nat) :
    test (setFrom m base i n) base j = (decide (i ≤ j ∧ j < i + n) || test m base j) := by
  induction n generalizing m i with
  | zero => rw [setFrom, decide_eq_false (by omega : ¬ (i ≤ j ∧ j < i + 0)), Bool.false_or]
  | succ n ih =>
    rw [setFrom, ih, test_set, ← Bool.or_assoc, ← Bool.decide_or]
    congr 1
    exact decide_eq_decide.mpr (by omega)

theorem test_clearFrom (m : Mem) (base i n j : Nat) :
    test (clearFrom m base i n) base j = (!decide (i ≤ j ∧ j < i + n) && test m base j) := by
  induction n generalizing m i with
  | zero =>
    rw [clearFrom, decide_eq_false (by omega : ¬ (i ≤ j ∧ j < i + 0))]
    rfl
  | succ n ih =>
    rw [clearFrom, ih, test_clear, ← Bool.and_assoc, ← Bool.not_or, ← Bool.decide_or]
    congr 2
    exact decide_eq_decide.mpr (by omega)

theorem sameOutside_set (h : i < 8 * k) : SameOutside base (base + k) m (set m base i) := by
  unfold set
  rw [Nat.shiftRight_eq_div_pow]
  exact SameOutside.of_patch (Or.inr (by omega))

theorem sameOutside_clear (h : i < 8 * k) : SameOutside base (base + k) m (clear m base i) := by
  unfold clear
  rw [Nat.shiftRight_eq_div_pow]
  exact SameOutside.of_patch (Or.inr (by omega))

theorem sameOutside_setFrom (h : i + n ≤ 8 * k) :
    SameOutside base (base + k) m (setFrom m base i n) := by
  induction n generalizing m i with
  | zero => exact SameOutside.refl base (base + k) m
  | succ n ih => exact (sameOutside_set (by omega)).trans (ih (by omega))

theorem sameOutside_clearFrom (h : i + n ≤ 8 * k) :
    SameOutside base (base + k) m (clearFrom m base i n) := by
  induction n generalizing m i with
  | zero => exact SameOutside.refl base (base + k) m
  | succ n ih => exact (sameOutside_clear (by omega)).trans (ih (by omega))

end vibeos.Bitmap

/-! ## Scans -/

namespace Marking

variable {α ι : Type*}

/-- Run on a bitmap without the cells `S`, the scan sets exactly these. -/
def Adds (scan : (α → Bool) → α → Bool) (S : α → Prop) : Prop :=
  ∀ m, (∀ x, S x → m x = false) → ∀ x, scan m x = true ↔ m x = true ∨ S x

theorem adds_id : Adds (fun m : α → Bool => m) fun _ => False := by
  intro m _ x
  simp

theorem adds_update [DecidableEq α] (a : α) :
    Adds (fun m => Function.update m a true) fun x => x = a := by
  intro m _ x
  by_cases hx : x = a
  · subst hx
    simp
  · simp [hx]

theorem Adds.congr {scan : (α → Bool) → α → Bool} {S S' : α → Prop} (h : Adds scan S)
    (hS : ∀ x, S x ↔ S' x) : Adds scan S' := by
  intro m hm x
  rw [h m (fun y hy => hm y ((hS y).mp hy)) x, hS x]

theorem Adds.comp {f g : (α → Bool) → α → Bool} {S S' : α → Prop} (hf : Adds f S)
    (hg : Adds g S') (hd : ∀ x, S x → ¬ S' x) : Adds (fun m => g (f m)) fun x => S x ∨ S' x := by
  intro m hm x
  have hfm := hf m fun y hy => hm y (Or.inl hy)
  have hclear : ∀ y, S' y → f m y = false := by
    intro y hy
    rw [← Bool.not_eq_true, hfm y, hm y (Or.inr hy)]
    rintro (h | h)
    · cases h
    · exact hd y h hy
  rw [hg (f m) hclear x, hfm x, or_assoc]

theorem adds_foldl {f : ι → (α → Bool) → α → Bool} {S : ι → α → Prop} {l : List ι}
    (hl : l.Nodup) (hf : ∀ i ∈ l, Adds (f i) (S i))
    (hd : ∀ i j, i ≠ j → ∀ x, S i x → ¬ S j x) :
    Adds (fun m => l.foldl (fun m i => f i m) m) fun x => ∃ i ∈ l, S i x := by
  induction l with
  | nil => exact adds_id.congr (by simp)
  | cons i l ih =>
    have hrest := ih (List.nodup_cons.mp hl).2 fun j hj => hf j (List.mem_cons_of_mem _ hj)
    refine ((hf i List.mem_cons_self).comp hrest ?_).congr (by simp)
    rintro x hx ⟨j, hj, hxj⟩
    refine hd i j ?_ x hx hxj
    rintro rfl
    exact (List.nodup_cons.mp hl).1 hj

end Marking
