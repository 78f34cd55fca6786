-- A memory of bytes. `patch` replaces a range of bytes; copies, fills and little-endian
-- stores are patches, so one frame law does for all of them. An address without its low bits is
-- rounded down. A log of writes over a memory of cells: what one cell holds after a log, or after any
-- prefix of it.
import Mathlib.Algebra.Order.Ring.Nat
import Mathlib.Tactic.Ring
import Mathlib.Tactic.Common
import Mathlib.Logic.Function.Basic

namespace vibeos

abbrev Mem := Nat → UInt8

namespace Mem

variable {m m' : Mem} {a b n k x : Nat} {f : Nat → UInt8}

/-! ## Patches -/

/-- The memory with the `n` bytes from `a` on replaced by `f 0`, `f 1` and so on. -/
def patch (m : Mem) (a n : Nat) (f : Nat → UInt8) : Mem := fun x =>
  if a ≤ x ∧ x < a + n then f (x - a) else m x

/-- `memcpy` and `memmove`: the bytes from `src` on go to `dst`. -/
def copy (m : Mem) (dst src n : Nat) : Mem := patch m dst n fun i => m (src + i)

def fill (m : Mem) (dst : Nat) (v : UInt8) (n : Nat) : Mem := patch m dst n fun _ => v

theorem patch_in (h1 : a ≤ x) (h2 : x < a + n) : patch m a n f x = f (x - a) :=
  if_pos ⟨h1, h2⟩

theorem patch_add (h : k < n) : patch m a n f (a + k) = f k := by
  rw [patch_in (Nat.le_add_right a k) (Nat.add_lt_add_left h a), Nat.add_sub_cancel_left]

theorem patch_out (h : x < a ∨ a + n ≤ x) : patch m a n f x = m x :=
  if_neg (by omega)

@[simp]
theorem patch_zero : patch m a 0 f = m := by
  funext x
  exact patch_out (by omega)

theorem patch_congr {g : Nat → UInt8} (h : ∀ i < n, f i = g i) :
    patch m a n f = patch m a n g := by
  funext x
  by_cases hx : a ≤ x ∧ x < a + n
  · rw [patch_in hx.1 hx.2, patch_in hx.1 hx.2, h _ (by omega)]
  · rw [patch_out (by omega), patch_out (by omega)]

theorem patch_append (m : Mem) (a n k : Nat) (f g : Nat → UInt8) :
    patch (patch m a n f) (a + n) k g =
      patch m a (n + k) fun i => if i < n then f i else g (i - n) := by
  funext x
  by_cases hx : a ≤ x ∧ x < a + (n + k)
  · rw [patch_in hx.1 hx.2]
    by_cases hn : x < a + n
    · rw [patch_out (Or.inl hn), patch_in hx.1 hn, if_pos (by omega)]
    · rw [patch_in (by omega) (by omega), if_neg (by omega), Nat.sub_add_eq]
  · rw [patch_out (by omega), patch_out (by omega), patch_out (by omega)]

theorem patch_eq_self (h : ∀ i < n, f i = m (a + i)) : patch m a n f = m := by
  funext x
  by_cases hx : a ≤ x ∧ x < a + n
  · rw [patch_in hx.1 hx.2, h (x - a) (by omega)]
    congr 1
    omega
  · exact patch_out (by omega)

theorem patch_eq_self_iff : patch m a n f = m ↔ ∀ i < n, f i = m (a + i) := by
  refine ⟨fun h i hi => ?_, patch_eq_self⟩
  exact (patch_add hi).symm.trans (congrFun h (a + i))

theorem patch_patch_self (m : Mem) (a n : Nat) (f g : Nat → UInt8) :
    patch (patch m a n f) a n g = patch m a n g := by
  funext x
  by_cases hx : a ≤ x ∧ x < a + n
  · rw [patch_in hx.1 hx.2, patch_in hx.1 hx.2]
  · rw [patch_out (by omega), patch_out (by omega), patch_out (by omega)]

/-! ## Little-endian words -/

/-- The number that the `n` bytes from `a` on spell, the low byte first. -/
def readLE (m : Mem) (a : Nat) : Nat → Nat
  | 0 => 0
  | n + 1 => readLE m a n + (m (a + n)).toNat * 256 ^ n

/-- Byte `i` of a number, the low byte first. -/
def byteOf (v i : Nat) : UInt8 := UInt8.ofNat (v / 256 ^ i)

/-- The low `n` bytes of `v` at `a`. -/
def writeLE (m : Mem) (a n v : Nat) : Mem := patch m a n (byteOf v)

theorem toNat_byteOf (v i : Nat) : (byteOf v i).toNat = v / 256 ^ i % 256 := by
  simp [byteOf]

theorem readLE_lt (m : Mem) (a n : Nat) : readLE m a n < 256 ^ n := by
  induction n with
  | zero => exact Nat.one_pos
  | succ n ih =>
    have hbyte : (m (a + n)).toNat < 256 := UInt8.toNat_lt _
    calc readLE m a n + (m (a + n)).toNat * 256 ^ n
        < 256 ^ n + (m (a + n)).toNat * 256 ^ n := Nat.add_lt_add_right ih _
      _ = ((m (a + n)).toNat + 1) * 256 ^ n := by ring
      _ ≤ 256 * 256 ^ n := Nat.mul_le_mul_right _ hbyte
      _ = 256 ^ (n + 1) := by ring

theorem readLE_congr (h : ∀ i < n, m' (a + i) = m (a + i)) : readLE m' a n = readLE m a n := by
  induction n with
  | zero => rfl
  | succ n ih =>
    simp only [readLE]
    rw [ih fun i hi => h i (Nat.lt_succ_of_lt hi), h n (Nat.lt_succ_self n)]

theorem readLE_patch_out (h : b + k ≤ a ∨ a + n ≤ b) :
    readLE (patch m a n f) b k = readLE m b k :=
  readLE_congr fun i hi => patch_out (by omega)

theorem writeLE_out {v : Nat} (h : x < a ∨ a + n ≤ x) : writeLE m a n v x = m x :=
  patch_out h

theorem readLE_writeLE_out {v : Nat} (h : b + k ≤ a ∨ a + n ≤ b) :
    readLE (writeLE m a n v) b k = readLE m b k :=
  readLE_patch_out h

theorem readLE_writeLE (m : Mem) (a n v : Nat) : readLE (writeLE m a n v) a n = v % 256 ^ n := by
  have hprefix : ∀ k ≤ n, readLE (writeLE m a n v) a k = v % 256 ^ k := by
    intro k hk
    induction k with
    | zero => simp [readLE, Nat.mod_one]
    | succ k ih =>
      simp only [readLE]
      rw [ih (by omega), writeLE, patch_add (by omega), toNat_byteOf, Nat.mod_pow_succ,
        Nat.mul_comm]
  exact hprefix n (Nat.le_refl n)

theorem readLE_writeLE_of_lt {v : Nat} (h : v < 256 ^ n) : readLE (writeLE m a n v) a n = v := by
  rw [readLE_writeLE, Nat.mod_eq_of_lt h]

theorem byteOf_readLE (h : k < n) : byteOf (readLE m a n) k = m (a + k) := by
  apply UInt8.toNat_inj.mp
  rw [toNat_byteOf]
  induction n with
  | zero => omega
  | succ n ih =>
    simp only [readLE]
    rcases Nat.lt_succ_iff_lt_or_eq.mp h with hlt | rfl
    · have hsplit : (m (a + n)).toNat * 256 ^ n =
          256 ^ k * (256 * ((m (a + n)).toNat * 256 ^ (n - k - 1))) := by
        have hpow : 256 ^ n = 256 ^ k * (256 * 256 ^ (n - k - 1)) := by
          rw [← Nat.pow_succ', ← Nat.pow_add]
          congr 1
          omega
        rw [hpow]
        ring
      rw [hsplit, Nat.add_mul_div_left _ _ (Nat.pow_pos (by decide)), Nat.add_mul_mod_self_left,
        ih hlt]
    · rw [Nat.mul_comm, Nat.add_mul_div_left _ _ (Nat.pow_pos (by decide)),
        Nat.div_eq_of_lt (readLE_lt m a k), Nat.zero_add,
        Nat.mod_eq_of_lt (UInt8.toNat_lt _)]

theorem writeLE_readLE (m m' : Mem) (a n : Nat) :
    writeLE m' a n (readLE m a n) = patch m' a n fun i => m (a + i) := by
  funext x
  by_cases hx : a ≤ x ∧ x < a + n
  · rw [writeLE, patch_in hx.1 hx.2, patch_in hx.1 hx.2, byteOf_readLE (by omega)]
  · rw [writeLE_out (by omega), patch_out (by omega)]

/-! ## Frames -/

/-- Nothing outside of `[lo, hi)` differs. -/
def SameOutside (lo hi : Nat) (m m' : Mem) : Prop := ∀ x, x < lo ∨ hi ≤ x → m' x = m x

namespace SameOutside

variable {lo hi : Nat} {m₁ m₂ m₃ : Mem}

theorem refl (lo hi : Nat) (m : Mem) : SameOutside lo hi m m := fun _ _ => rfl

theorem trans (h₁ : SameOutside lo hi m₁ m₂) (h₂ : SameOutside lo hi m₂ m₃) :
    SameOutside lo hi m₁ m₃ := fun x hx => (h₂ x hx).trans (h₁ x hx)

theorem of_patch (h : n = 0 ∨ lo ≤ a ∧ a + n ≤ hi) : SameOutside lo hi m (patch m a n f) := by
  intro x hx
  rcases h with rfl | h
  · rw [patch_zero]
  · exact patch_out (by omega)

theorem readLE (h : SameOutside lo hi m m') (hr : b + k ≤ lo ∨ hi ≤ b) :
    Mem.readLE m' b k = Mem.readLE m b k :=
  readLE_congr fun i hi => h (b + i) (by omega)

end SameOutside

end Mem

end vibeos

/-! ## The low bits of a word -/

namespace vibeos.WordBits

variable {w : Nat}

theorem getLsbD_low {k i : Nat} (hi : i < w) :
    (BitVec.ofNat w (2 ^ k - 1)).getLsbD i = decide (i < k) := by
  rw [BitVec.getLsbD_ofNat, Nat.testBit_two_pow_sub_one, decide_eq_true hi, Bool.true_and]

theorem and_not_low (v : BitVec w) (k : Nat) :
    v &&& ~~~ BitVec.ofNat w (2 ^ k - 1) = (v >>> k) <<< k := by
  apply BitVec.eq_of_getLsbD_eq
  intro i hi
  rw [BitVec.getLsbD_and, BitVec.getLsbD_not, getLsbD_low hi, BitVec.getLsbD_shiftLeft,
    BitVec.getLsbD_ushiftRight]
  by_cases hk : i < k
  · simp [hk]
  · rw [Nat.add_sub_cancel' (Nat.le_of_not_lt hk)]
    simp [hk, hi]

theorem toNat_and_not_low (v : BitVec w) (k : Nat) :
    (v &&& ~~~ BitVec.ofNat w (2 ^ k - 1)).toNat = v.toNat / 2 ^ k * 2 ^ k := by
  have hle : v.toNat / 2 ^ k * 2 ^ k ≤ v.toNat := Nat.div_mul_le_self _ _
  rw [and_not_low, BitVec.toNat_shiftLeft, BitVec.toNat_ushiftRight, Nat.shiftRight_eq_div_pow,
    Nat.shiftLeft_eq, Nat.mod_eq_of_lt (Nat.lt_of_le_of_lt hle v.isLt)]

end vibeos.WordBits

/-! ## A log of writes -/

namespace WriteLog

variable {α β : Type*} [DecidableEq α]

/-- The memory after the writes of the log, the oldest first. -/
def replay (m : α → β) (ws : List (α × β)) : α → β :=
  ws.foldl (fun m w => Function.update m w.1 w.2) m

@[simp]
theorem replay_nil (m : α → β) : replay m [] = m := rfl

@[simp]
theorem replay_cons (m : α → β) (w : α × β) (ws : List (α × β)) :
    replay m (w :: ws) = replay (Function.update m w.1 w.2) ws := rfl

theorem replay_append (m : α → β) (ws vs : List (α × β)) :
    replay m (ws ++ vs) = replay (replay m ws) vs := by
  simp [replay, List.foldl_append]

theorem replay_of_not_mem {m : α → β} {ws : List (α × β)} {a : α}
    (h : ∀ w ∈ ws, w.1 ≠ a) : replay m ws a = m a := by
  induction ws generalizing m with
  | nil => rfl
  | cons w ws ih =>
    rw [replay_cons, ih fun v hv => h v (List.mem_cons_of_mem _ hv)]
    exact Function.update_of_ne (h w List.mem_cons_self).symm _ _

theorem replay_of_mem {m : α → β} {ws : List (α × β)} {a : α} (h : ∃ w ∈ ws, w.1 = a) :
    ∃ w ∈ ws, w.1 = a ∧ replay m ws a = w.2 := by
  induction ws generalizing m with
  | nil => simp at h
  | cons w ws ih =>
    by_cases hlater : ∃ v ∈ ws, v.1 = a
    · obtain ⟨v, hv, h1, h2⟩ := @ih (Function.update m w.1 w.2) hlater
      exact ⟨v, List.mem_cons_of_mem _ hv, h1, h2⟩
    · obtain ⟨v, hv, rfl⟩ := h
      rcases List.mem_cons.mp hv with rfl | hv
      · refine ⟨v, List.mem_cons_self, rfl, ?_⟩
        rw [replay_cons, replay_of_not_mem fun x hx hxa => hlater ⟨x, hx, hxa⟩]
        exact Function.update_self _ _ _
      · exact absurd ⟨v, hv, rfl⟩ hlater

theorem replay_take_of_not_mem {m : α → β} {ws : List (α × β)} {a : α} (k : Nat)
    (h : ∀ w ∈ ws, w.1 ≠ a) : replay m (ws.take k) a = m a :=
  replay_of_not_mem fun w hw => h w (List.mem_of_mem_take hw)

omit [DecidableEq α] in
theorem take_append_singleton (ws : List (α × β)) (w : α × β) (k : Nat) :
    (ws ++ [w]).take k = ws.take k ∨ (ws ++ [w]).take k = ws ++ [w] := by
  rcases Nat.lt_or_ge ws.length k with h | h
  · exact Or.inr (List.take_of_length_le (by simp; omega))
  · exact Or.inl (List.take_append_of_le_length h)

end WriteLog
