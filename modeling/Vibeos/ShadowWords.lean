-- A memory of bytes that is written in words, behind a shadow copy that saves the writes which
-- change nothing.
import Mathlib.Tactic.Common

namespace vibeos.Shadow

/-! ## Bytes of a word -/

/-- The word of four bytes, the least significant first. -/
def pack (bytes : Nat → BitVec 8) (p : Nat) : BitVec 32 :=
  bytes (p + 3) ++ bytes (p + 2) ++ bytes (p + 1) ++ bytes p

def byte (word : BitVec 32) (b : Nat) : BitVec 8 := word.extractLsb' (8 * b) 8

def setByte (word : BitVec 32) (b : Nat) (v : BitVec 8) : BitVec 32 :=
  (word &&& ~~~(0xff#32 <<< (8 * b))) ||| (v.setWidth 32 <<< (8 * b))

theorem getLsbD_byte (word : BitVec 32) (b : Nat) {j : Nat} (hj : j < 8) :
    (byte word b).getLsbD j = word.getLsbD (8 * b + j) := by
  unfold byte
  rw [BitVec.getLsbD_extractLsb', decide_eq_true hj, Bool.true_and]

theorem getLsbD_pack (bytes : Nat → BitVec 8) (p : Nat) {b j : Nat} (hb : b < 4) (hj : j < 8) :
    (pack bytes p).getLsbD (8 * b + j) = (bytes (p + b)).getLsbD j := by
  unfold pack
  match b, hb with
  | 0, _ =>
    rw [BitVec.getLsbD_append, if_pos (by omega)]
    exact congrArg _ (by omega)
  | 1, _ =>
    rw [BitVec.getLsbD_append, if_neg (by omega), BitVec.getLsbD_append, if_pos (by omega)]
    exact congrArg _ (by omega)
  | 2, _ =>
    rw [BitVec.getLsbD_append, if_neg (by omega), BitVec.getLsbD_append, if_neg (by omega),
      BitVec.getLsbD_append, if_pos (by omega)]
    exact congrArg _ (by omega)
  | 3, _ =>
    rw [BitVec.getLsbD_append, if_neg (by omega), BitVec.getLsbD_append, if_neg (by omega),
      BitVec.getLsbD_append, if_neg (by omega)]
    exact congrArg _ (by omega)

theorem byte_pack (bytes : Nat → BitVec 8) (p : Nat) {b : Nat} (hb : b < 4) :
    byte (pack bytes p) b = bytes (p + b) := by
  apply BitVec.eq_of_getLsbD_eq
  intro j hj
  rw [getLsbD_byte _ _ hj, getLsbD_pack _ _ hb hj]

theorem pack_eq_of_bytes {bytes : Nat → BitVec 8} {p : Nat} {word : BitVec 32}
    (h : ∀ b, b < 4 → bytes (p + b) = byte word b) : pack bytes p = word := by
  apply BitVec.eq_of_getLsbD_eq
  intro k hk
  have hb : k / 8 < 4 := by omega
  have hj : k % 8 < 8 := by omega
  have hsplit : 8 * (k / 8) + k % 8 = k := by omega
  rw [← hsplit, getLsbD_pack _ _ hb hj, h _ hb, getLsbD_byte _ _ hj]

theorem byte_setByte (word : BitVec 32) (v : BitVec 8) {b k : Nat} (hk : k < 4) :
    byte (setByte word b v) k = if k = b then v else byte word k := by
  apply BitVec.eq_of_getLsbD_eq
  intro j hj
  have hmask : 0xff#32 = (BitVec.allOnes 8).setWidth 32 := rfl
  have hlt : 8 * k + j < 32 := by omega
  rw [getLsbD_byte _ _ hj]
  unfold setByte
  rw [hmask]
  simp only [BitVec.getLsbD_or, BitVec.getLsbD_and, BitVec.getLsbD_not, BitVec.getLsbD_shiftLeft,
    BitVec.getLsbD_setWidth, BitVec.getLsbD_allOnes, hlt, decide_true, Bool.true_and]
  rcases Nat.lt_trichotomy k b with hkb | rfl | hkb
  · rw [if_neg (by omega), getLsbD_byte _ _ hj]
    simp [show 8 * k + j < 8 * b by omega]
  · have hout : ¬ 8 * k + j < 8 * k := by omega
    have hin : 8 * k + j - 8 * k = j := by omega
    rw [if_pos rfl, decide_eq_false hout, hin]
    simp [hj, show j < 32 by omega]
  · rw [if_neg (by omega), getLsbD_byte _ _ hj]
    have hhigh : ¬ 8 * k + j - 8 * b < 8 := by omega
    have hzero : v.getLsbD (8 * k + j - 8 * b) = false := BitVec.getLsbD_of_ge _ _ (by omega)
    simp [hhigh, hzero]

/-- A word with this byte replaced, if there is another for it. -/
def replaceByte (f : Nat → Option (BitVec 8)) (word : BitVec 32) (b : Nat) : BitVec 32 :=
  match f b with
  | some v => setByte word b v
  | none => word

def setBytes (f : Nat → Option (BitVec 8)) (word : BitVec 32) (bs : List Nat) : BitVec 32 :=
  bs.foldl (replaceByte f) word

theorem byte_replaceByte (f : Nat → Option (BitVec 8)) (word : BitVec 32) (b : Nat) {k : Nat}
    (hk : k < 4) :
    byte (replaceByte f word b) k = if k = b then (f k).getD (byte word k) else byte word k := by
  unfold replaceByte
  by_cases hkb : k = b
  · subst k
    rw [if_pos rfl]
    cases f b with
    | none => rfl
    | some v => exact (byte_setByte word v hk).trans (if_pos rfl)
  · rw [if_neg hkb]
    cases f b with
    | none => rfl
    | some v => exact (byte_setByte word v hk).trans (if_neg hkb)

theorem byte_setBytes (f : Nat → Option (BitVec 8)) (word : BitVec 32) (bs : List Nat) {k : Nat}
    (hk : k < 4) :
    byte (setBytes f word bs) k = if k ∈ bs then (f k).getD (byte word k) else byte word k := by
  induction bs generalizing word with
  | nil => rfl
  | cons b bs ih =>
    refine (ih _).trans ?_
    rw [byte_replaceByte f word b hk]
    by_cases hkb : k = b
    · have hmem : k ∈ b :: bs := List.mem_cons.mpr (.inl hkb)
      rw [if_pos hkb, if_pos hmem]
      cases f k with
      | none => exact ite_self _
      | some v => exact ite_self _
    · rw [if_neg hkb]
      simp only [List.mem_cons, hkb, false_or]

/-! ## The shadow -/

structure Mem where
  shadow : Nat → BitVec 32
  bytes : Nat → BitVec 8

/-- The shadow holds the words of the memory. -/
def Coherent (m : Mem) : Prop := ∀ i, m.shadow i = pack m.bytes (4 * i)

/-- The memory with a word written at an address. -/
def write (bytes : Nat → BitVec 8) (p : Nat) (word : BitVec 32) : Nat → BitVec 8 :=
  fun q => if p ≤ q ∧ q < p + 4 then byte word (q - p) else bytes q

/-- A word is written if it is not the one of the shadow. -/
def put (m : Mem) (p : Nat) (word : BitVec 32) : Mem :=
  if m.shadow (p / 4) ≠ word then
    ⟨fun i => if i = p / 4 then word else m.shadow i, write m.bytes p word⟩
  else m

section Put

variable {m : Mem} {p : Nat}

theorem pack_write (bytes : Nat → BitVec 8) (word : BitVec 32) {i : Nat} (hp : p % 4 = 0) :
    pack (write bytes p word) (4 * i) = if i = p / 4 then word else pack bytes (4 * i) := by
  apply pack_eq_of_bytes
  intro b hb
  unfold write
  by_cases hi : i = p / 4
  · rw [if_pos (by omega), if_pos hi]
    exact congrArg _ (by omega)
  · rw [if_neg (by omega), if_neg hi, byte_pack _ _ hb]

theorem put_coherent (h : Coherent m) (hp : p % 4 = 0) (word : BitVec 32) :
    Coherent (put m p word) := by
  intro i
  unfold put
  split
  · dsimp only
    rw [pack_write _ _ hp, h i]
  · exact h i

theorem put_bytes (h : Coherent m) (hp : p % 4 = 0) (word : BitVec 32) (q : Nat) :
    (put m p word).bytes q = if q / 4 = p / 4 then byte word (q % 4) else m.bytes q := by
  unfold put
  split
  · dsimp only
    unfold write
    by_cases hq : q / 4 = p / 4
    · rw [if_pos (by omega), if_pos hq]
      exact congrArg _ (by omega)
    · rw [if_neg (by omega), if_neg hq]
  · rename_i heq
    split
    · rename_i hq
      have hword : pack m.bytes (4 * (p / 4)) = word := by
        rw [← h]
        exact Decidable.not_not.mp heq
      rw [← hword, byte_pack _ _ (Nat.mod_lt q (by omega))]
      exact congrArg _ (by omega)
    · rfl

end Put

/-! ## Many words -/

/-- The words of a function of the address, at the addresses of a list. -/
def putAll (word : Nat → BitVec 32) (ps : List Nat) (m : Mem) : Mem :=
  ps.foldl (fun m p => put m p (word p)) m

theorem putAll_coherent (word : Nat → BitVec 32) {ps : List Nat} (hps : ∀ p ∈ ps, p % 4 = 0)
    {m : Mem} (h : Coherent m) : Coherent (putAll word ps m) := by
  induction ps generalizing m with
  | nil => exact h
  | cons p ps ih =>
    exact ih (fun q hq => hps q (List.mem_cons_of_mem p hq))
      (put_coherent h (hps p List.mem_cons_self) _)

theorem putAll_bytes (word : Nat → BitVec 32) {ps : List Nat} (hps : ∀ p ∈ ps, p % 4 = 0)
    {m : Mem} (h : Coherent m) (q : Nat) :
    (putAll word ps m).bytes q =
      if 4 * (q / 4) ∈ ps then byte (word (4 * (q / 4))) (q % 4) else m.bytes q := by
  induction ps generalizing m with
  | nil => rfl
  | cons p ps ih =>
    have hp := hps p List.mem_cons_self
    have hstep := ih (fun q hq => hps q (List.mem_cons_of_mem p hq)) (put_coherent h hp (word p))
    refine hstep.trans ?_
    rw [put_bytes h hp]
    by_cases hin : 4 * (q / 4) ∈ ps
    · rw [if_pos hin, if_pos (List.mem_cons_of_mem p hin)]
    · rw [if_neg hin]
      by_cases hq : 4 * (q / 4) = p
      · rw [if_pos (by omega), if_pos (hq ▸ List.mem_cons_self), hq]
      · rw [if_neg (by omega), if_neg (fun hcons => (List.mem_cons.mp hcons).elim hq hin)]

end vibeos.Shadow
