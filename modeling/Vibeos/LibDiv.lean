-- The 64-bit divisions that the compiler calls, in lib.c: a loop that shifts the dividend into a
-- remainder bit by bit, and the signed wrappers around it.
import Mathlib.Data.Nat.Bitwise
import Mathlib.Tactic.Ring

-- The functions are called what the compiler calls them.
set_option linter.style.nameCheck false

namespace vibeos.lib

/-! ## The functions -/

def shiftIn (r n : BitVec 64) (i : Nat) : BitVec 64 := r <<< 1 ||| (n >>> i &&& 1)

/-- The loop of `__umoddi3` from bit `i - 1` down to 0. -/
def umod_loop (n d : BitVec 64) : Nat → BitVec 64 → BitVec 64
  | 0, r => r
  | i + 1, r =>
    let r := shiftIn r n i
    umod_loop n d i (if r ≥ d then r - d else r)

def __umoddi3 (n d : BitVec 64) : BitVec 64 := umod_loop n d 64 0

/-- The loop of `__udivdi3` from bit `i - 1` down to 0. -/
def udiv_loop (numerator denominator : BitVec 64) : Nat → BitVec 64 → BitVec 64 → BitVec 64
  | 0, quotient, _ => quotient
  | i + 1, quotient, remainder =>
    let remainder := shiftIn remainder numerator i
    if remainder ≥ denominator then
      udiv_loop numerator denominator i (quotient ||| 1#64 <<< i) (remainder - denominator)
    else udiv_loop numerator denominator i quotient remainder

def __udivdi3 (numerator denominator : BitVec 64) : BitVec 64 :=
  if denominator = 0 then 0xFFFFFFFFFFFFFFFF else udiv_loop numerator denominator 64 0 0

/-- `sign` is 1 or -1, and the products and negations wrap. -/
def __divdi3 (n d : BitVec 64) : BitVec 64 :=
  let sign : Int := 1
  let (n, sign) := if n.slt 0 then (-n, -sign) else (n, sign)
  let (d, sign) := if d.slt 0 then (-d, -sign) else (d, sign)
  BitVec.ofInt 64 sign * __udivdi3 n d

def __moddi3 (n d : BitVec 64) : BitVec 64 :=
  let sign : Int := 1
  let (n, sign) := if n.slt 0 then (-n, -sign) else (n, sign)
  let d := if d.slt 0 then -d else d
  BitVec.ofInt 64 sign * __umoddi3 n d

/-! ## One bit of the division -/

theorem div_mod_shift (a bit : Nat) {d : Nat} (hd : 0 < d) (hbit : bit < 2) :
    (2 * a + bit) / d = 2 * (a / d) + (if d ≤ 2 * (a % d) + bit then 1 else 0) ∧
    (2 * a + bit) % d = 2 * (a % d) + bit - if d ≤ 2 * (a % d) + bit then d else 0 := by
  have hlt := Nat.mod_lt a hd
  have hsplit := Nat.div_add_mod a d
  rw [Nat.div_mod_unique hd]
  split
  · have hmul : d * (2 * (a / d) + 1) = 2 * (d * (a / d)) + d := by ring
    rw [hmul]
    omega
  · have hmul : d * (2 * (a / d) + 0) = 2 * (d * (a / d)) := by ring
    rw [hmul]
    omega

theorem div_pow_succ (n i : Nat) : n / 2 ^ i = 2 * (n / 2 ^ (i + 1)) + n / 2 ^ i % 2 := by
  rw [Nat.pow_succ, ← Nat.div_div_eq_div_mul]
  omega

theorem toNat_shiftIn {r n : BitVec 64} {i : Nat} (hr : r.toNat < 2 ^ 63) :
    (shiftIn r n i).toNat = 2 * r.toNat + n.toNat / 2 ^ i % 2 := by
  have hone : (1 : BitVec 64).toNat = 1 := rfl
  unfold shiftIn
  rw [BitVec.toNat_or, BitVec.toNat_and, BitVec.toNat_ushiftRight, BitVec.toNat_shiftLeft, hone,
    Nat.and_one_is_mod, Nat.shiftRight_eq_div_pow, Nat.shiftLeft_eq, Nat.mod_eq_of_lt (by omega),
    ← Nat.shiftLeft_eq, ← Nat.shiftLeft_add_eq_or_of_lt (by omega), Nat.shiftLeft_eq]
  ring

theorem toNat_setBit {q : BitVec 64} {a i : Nat} (hi : i < 64) (hq : q.toNat = a * 2 ^ (i + 1)) :
    (q ||| 1#64 <<< i).toNat = a * 2 ^ (i + 1) + 2 ^ i := by
  have hbit : (1#64 <<< i).toNat = 2 ^ i := by
    have hfits : 2 ^ i < 2 ^ 64 := Nat.pow_lt_pow_right (by decide) hi
    rw [BitVec.toNat_shiftLeft, BitVec.toNat_one (by decide), Nat.shiftLeft_eq, Nat.one_mul,
      Nat.mod_eq_of_lt hfits]
  have hbelow : 2 ^ i < 2 ^ (i + 1) := Nat.pow_lt_pow_right (by decide) (by omega)
  rw [BitVec.toNat_or, hbit, hq, ← Nat.shiftLeft_eq, Nat.shiftLeft_add_eq_or_of_lt hbelow]

theorem toNat_step {n d r : BitVec 64} {i : Nat} (hd : 0 < d.toNat)
    (hr : r.toNat = n.toNat / 2 ^ (i + 1) % d.toNat) :
    let r' := shiftIn r n i
    (if r' ≥ d then r' - d else r').toNat = n.toNat / 2 ^ i % d.toNat ∧
    n.toNat / 2 ^ i / d.toNat =
      2 * (n.toNat / 2 ^ (i + 1) / d.toNat) + if r' ≥ d then 1 else 0 := by
  have hfew : n.toNat / 2 ^ (i + 1) < 2 ^ 63 := by
    apply Nat.div_lt_of_lt_mul
    have hpow : 2 ^ 1 ≤ 2 ^ (i + 1) := Nat.pow_le_pow_right (by decide) (by omega)
    have hn := n.isLt
    omega
  have hshift : (shiftIn r n i).toNat = 2 * r.toNat + n.toNat / 2 ^ i % 2 := by
    apply toNat_shiftIn
    have hle := Nat.mod_le (n.toNat / 2 ^ (i + 1)) d.toNat
    omega
  obtain ⟨hdiv, hmod⟩ := div_mod_shift (n.toNat / 2 ^ (i + 1)) (n.toNat / 2 ^ i % 2) hd
    (Nat.mod_lt _ (by decide))
  rw [← div_pow_succ, ← hr, ← hshift] at hdiv hmod
  simp only [ge_iff_le, BitVec.le_def]
  refine ⟨?_, hdiv⟩
  rw [hmod]
  split
  · exact BitVec.toNat_sub_of_le ‹_›
  · rfl

/-! ## The loops -/

theorem umod_loop_spec {n d : BitVec 64} (hd : 0 < d.toNat) (i : Nat) {r : BitVec 64}
    (hr : r.toNat = n.toNat / 2 ^ i % d.toNat) :
    (umod_loop n d i r).toNat = n.toNat % d.toNat := by
  induction i generalizing r with
  | zero => rw [umod_loop, hr, Nat.pow_zero, Nat.div_one]
  | succ i ih => exact ih (toNat_step hd hr).1

/-- Before bit `i - 1` the remainder and the quotient are those of the bits above, the quotient at
its place: the bits that the loop sets from there on are all below it. -/
theorem udiv_loop_spec {n d : BitVec 64} (hd : 0 < d.toNat) {i : Nat} (hi : i ≤ 64)
    {q r : BitVec 64} (hr : r.toNat = n.toNat / 2 ^ i % d.toNat)
    (hq : q.toNat = n.toNat / 2 ^ i / d.toNat * 2 ^ i) :
    (udiv_loop n d i q r).toNat = n.toNat / d.toNat := by
  induction i generalizing q r with
  | zero => rw [udiv_loop, hq, Nat.pow_zero, Nat.div_one, Nat.mul_one]
  | succ i ih =>
    obtain ⟨hmod, hdiv⟩ := toNat_step hd hr
    simp only [udiv_loop]
    split <;> rename_i hcmp
    · rw [if_pos hcmp] at hmod hdiv
      apply ih (by omega) hmod
      rw [hdiv, toNat_setBit (by omega) hq]
      ring
    · rw [if_neg hcmp] at hmod hdiv
      apply ih (by omega) hmod
      rw [hdiv, hq, Nat.pow_succ]
      ring

/-! ## The unsigned helpers -/

theorem toNat_pos {d : BitVec 64} (hd : d ≠ 0) : 0 < d.toNat := by
  apply Nat.pos_of_ne_zero
  intro h0
  exact hd (BitVec.eq_of_toNat_eq h0)

theorem toNat_umoddi3 (n : BitVec 64) {d : BitVec 64} (hd : d ≠ 0) :
    (__umoddi3 n d).toNat = n.toNat % d.toNat := by
  apply umod_loop_spec (toNat_pos hd)
  rw [Nat.div_eq_of_lt n.isLt, Nat.zero_mod]
  rfl

theorem toNat_udivdi3 (n : BitVec 64) {d : BitVec 64} (hd : d ≠ 0) :
    (__udivdi3 n d).toNat = n.toNat / d.toNat := by
  rw [__udivdi3, if_neg hd]
  apply udiv_loop_spec (toNat_pos hd) (Nat.le_refl 64)
  · rw [Nat.div_eq_of_lt n.isLt, Nat.zero_mod]
    rfl
  · rw [Nat.div_eq_of_lt n.isLt, Nat.zero_div, Nat.zero_mul]
    rfl

theorem umoddi3_eq (n : BitVec 64) {d : BitVec 64} (hd : d ≠ 0) : __umoddi3 n d = n % d :=
  BitVec.eq_of_toNat_eq (by rw [toNat_umoddi3 n hd, BitVec.toNat_umod])

theorem udivdi3_eq (n : BitVec 64) {d : BitVec 64} (hd : d ≠ 0) : __udivdi3 n d = n / d :=
  BitVec.eq_of_toNat_eq (by rw [toNat_udivdi3 n hd, BitVec.toNat_udiv])

/-! ## The signed helpers -/

theorem plus_times (x : BitVec 64) : BitVec.ofInt 64 1 * x = x := BitVec.one_mul x

theorem minus_times (x : BitVec 64) : BitVec.ofInt 64 (-1) * x = -x := by
  rw [show BitVec.ofInt 64 (-1) = -1#64 from rfl, BitVec.neg_mul, BitVec.one_mul]

theorem divdi3_eq (n : BitVec 64) {d : BitVec 64} (hd : d ≠ 0) : __divdi3 n d = n.sdiv d := by
  have hneg : -d ≠ 0 := fun h => hd (BitVec.neg_eq_zero_iff.mp h)
  rw [BitVec.sdiv_eq]
  unfold __divdi3
  simp only [← BitVec.slt_zero_eq_msb]
  cases n.slt 0 <;> cases d.slt 0
  · exact (plus_times _).trans (udivdi3_eq n hd)
  · exact (minus_times _).trans (congrArg _ (udivdi3_eq n hneg))
  · exact (minus_times _).trans (congrArg _ (udivdi3_eq (-n) hd))
  · exact (plus_times _).trans (udivdi3_eq (-n) hneg)

theorem moddi3_eq (n : BitVec 64) {d : BitVec 64} (hd : d ≠ 0) : __moddi3 n d = n.srem d := by
  have hneg : -d ≠ 0 := fun h => hd (BitVec.neg_eq_zero_iff.mp h)
  rw [BitVec.srem_eq]
  unfold __moddi3
  simp only [← BitVec.slt_zero_eq_msb]
  cases n.slt 0 <;> cases d.slt 0
  · exact (plus_times _).trans (umoddi3_eq n hd)
  · exact (plus_times _).trans (umoddi3_eq n hneg)
  · exact (minus_times _).trans (congrArg _ (umoddi3_eq (-n) hd))
  · exact (minus_times _).trans (congrArg _ (umoddi3_eq (-n) hneg))

theorem divdi3_eq_tdiv (n : BitVec 64) {d : BitVec 64} (hd : d ≠ 0) :
    __divdi3 n d = BitVec.ofInt 64 (n.toInt.tdiv d.toInt) := by
  apply BitVec.eq_of_toInt_eq
  rw [divdi3_eq n hd, BitVec.toInt_sdiv, BitVec.toInt_ofInt]

theorem toInt_moddi3 (n : BitVec 64) {d : BitVec 64} (hd : d ≠ 0) :
    (__moddi3 n d).toInt = n.toInt.tmod d.toInt := by
  rw [moddi3_eq n hd, BitVec.toInt_srem]

theorem divmoddi3_add (n : BitVec 64) {d : BitVec 64} (hd : d ≠ 0) :
    n = __divdi3 n d * d + __moddi3 n d := by
  have hr : __moddi3 n d = BitVec.ofInt 64 (n.toInt.tmod d.toInt) := by
    rw [← toInt_moddi3 n hd, BitVec.ofInt_toInt]
  calc n = BitVec.ofInt 64 n.toInt := (BitVec.ofInt_toInt).symm
    _ = BitVec.ofInt 64 (n.toInt.tdiv d.toInt * d.toInt + n.toInt.tmod d.toInt) := by
      rw [Int.mul_comm, Int.mul_tdiv_add_tmod]
    _ = BitVec.ofInt 64 (n.toInt.tdiv d.toInt) * d + BitVec.ofInt 64 (n.toInt.tmod d.toInt) := by
      rw [BitVec.ofInt_add, BitVec.ofInt_mul, BitVec.ofInt_toInt]
    _ = __divdi3 n d * d + __moddi3 n d := by rw [divdi3_eq_tdiv n hd, hr]

/-- For every dividend and every divisor but 0 the unsigned helpers give the one quotient and
remainder, and the signed ones the quotient cut towards zero with a remainder on the side of the
dividend. `INT64_MIN / -1` is the only quotient that wraps. -/
theorem divisions_exact (n d : BitVec 64) (hd : d ≠ 0) :
    (n.toNat = (__udivdi3 n d).toNat * d.toNat + (__umoddi3 n d).toNat ∧
      (__umoddi3 n d).toNat < d.toNat ∧
      ∀ q r : Nat, n.toNat = q * d.toNat + r → r < d.toNat →
        q = (__udivdi3 n d).toNat ∧ r = (__umoddi3 n d).toNat) ∧
    (n = __divdi3 n d * d + __moddi3 n d ∧
      (__moddi3 n d).toInt.natAbs < d.toInt.natAbs ∧
      (0 ≤ n.toInt → 0 ≤ (__moddi3 n d).toInt) ∧
      (n.toInt ≤ 0 → (__moddi3 n d).toInt ≤ 0) ∧
      __divdi3 n d = BitVec.ofInt 64 (n.toInt.tdiv d.toInt) ∧
      (n ≠ BitVec.intMin 64 ∨ d ≠ -1 → (__divdi3 n d).toInt = n.toInt.tdiv d.toInt)) := by
  have hpos := toNat_pos hd
  have hint : d.toInt ≠ 0 := fun h0 => hd (BitVec.eq_of_toInt_eq (by rw [h0]; rfl))
  refine ⟨⟨?_, ?_, ?_⟩, divmoddi3_add n hd, ?_, ?_, ?_, divdi3_eq_tdiv n hd,
    ?_⟩
  · rw [toNat_udivdi3 n hd, toNat_umoddi3 n hd, Nat.mul_comm, Nat.div_add_mod]
  · rw [toNat_umoddi3 n hd]
    exact Nat.mod_lt _ hpos
  · intro q r hn hr
    rw [toNat_udivdi3 n hd, toNat_umoddi3 n hd]
    have hsum : r + d.toNat * q = n.toNat := by rw [hn, Nat.mul_comm, Nat.add_comm]
    obtain ⟨hdiv, hmod⟩ := (Nat.div_mod_unique hpos).mpr ⟨hsum, hr⟩
    exact ⟨hdiv.symm, hmod.symm⟩
  · rw [toInt_moddi3 n hd, Int.natAbs_tmod]
    exact Nat.mod_lt _ (Int.natAbs_pos.mpr hint)
  · intro hn
    rw [toInt_moddi3 n hd]
    exact Int.tmod_nonneg _ hn
  · intro hn
    rw [toInt_moddi3 n hd]
    have hneg := Int.tmod_nonneg d.toInt (Int.neg_nonneg_of_nonpos hn)
    rw [Int.neg_tmod] at hneg
    omega
  · intro hfits
    rw [divdi3_eq n hd]
    exact BitVec.toInt_sdiv_of_ne_or_ne n d hfits

/-- The one quotient that does not fit wraps to itself, with remainder 0. -/
theorem divisions_exact_min : BitVec.intMin 64 = __divdi3 (BitVec.intMin 64) (-1) * (-1) +
    __moddi3 (BitVec.intMin 64) (-1) :=
  (divisions_exact (BitVec.intMin 64) (-1) (by decide)).2.1

end vibeos.lib
