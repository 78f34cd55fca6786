-- The number parsers of tcc_glue.c: strtoul and the three functions on top of it, beside the
-- numerals that the C standard gives to these functions.
import Mathlib.Data.List.Basic
import Mathlib.Algebra.Group.Int.Defs
import Mathlib.Algebra.Group.Nat.Defs
import Mathlib.Tactic.Common

namespace vibeos.strto

/-! ## The code -/

/-- `v`: the value of a digit up to `f`, or none for -1. -/
def hex_value (c : UInt8) : Option Nat :=
  if 48 ≤ c.toNat ∧ c.toNat ≤ 57 then some (c.toNat - 48)
  else if 97 ≤ c.toNat ∧ c.toNat ≤ 102 then some (c.toNat - 97 + 10)
  else if 65 ≤ c.toNat ∧ c.toNat ≤ 70 then some (c.toNat - 65 + 10)
  else none

/-- The loop of `strtoul`: the result in 32 bits, and how far it comes. -/
def scan (base : Nat) : Nat → List UInt8 → Nat × Nat
  | res, [] => (res, 0)
  | res, c :: s =>
    match hex_value c with
    | none => (res, 0)
    | some v =>
      if base ≤ v then (res, 0)
      else
        let r := scan base ((res * base + v) % 2 ^ 32) s
        (r.1, r.2 + 1)

/-- The base that `strtoul` takes, and where it begins to read. -/
def pick_base (s : List UInt8) (base : Nat) : Nat × Nat :=
  if base = 0 then
    match s with
    | 48 :: c :: _ => if c = 120 ∨ c = 88 then (16, 2) else (8, 1)
    | 48 :: _ => (8, 1)
    | _ => (10, 0)
  else (base, 0)

/-- `strtoul`: the value, and the place of the end pointer. -/
def strtoul (s : List UInt8) (base : Nat) : Nat × Nat :=
  let (base, p) := pick_base s base
  let r := scan base 0 (s.drop p)
  (r.1, p + r.2)

def long (n : Int) : Int := n.bmod (2 ^ 32)

def strtol (s : List UInt8) (base : Nat) : Int × Nat :=
  match s with
  | 45 :: rest =>
    let r := strtoul rest base
    (long (-long r.1), r.2 + 1)
  | _ =>
    let r := strtoul s base
    (long r.1, r.2)

/-- `strtoull` makes the result of `strtoul` wider. -/
def strtoull (s : List UInt8) (base : Nat) : Nat × Nat := strtoul s base

def strtoll (s : List UInt8) (base : Nat) : Int × Nat := strtol s base

/-! ## Numerals -/

/-- The value of a digit, up to the 35 of `z`. -/
def alnum_value (c : UInt8) : Option Nat :=
  if 48 ≤ c.toNat ∧ c.toNat ≤ 57 then some (c.toNat - 48)
  else if 97 ≤ c.toNat ∧ c.toNat ≤ 122 then some (c.toNat - 97 + 10)
  else if 65 ≤ c.toNat ∧ c.toNat ≤ 90 then some (c.toNat - 65 + 10)
  else none

def digits (value : UInt8 → Option Nat) (base : Nat) : List UInt8 → List Nat
  | [] => []
  | c :: s =>
    match value c with
    | none => []
    | some v => if v < base then v :: digits value base s else []

/-- What digits stand for, the first one highest. -/
def valueOf (base : Nat) (ds : List Nat) : Nat := ds.foldl (fun n d => n * base + d) 0

def isSpace (c : UInt8) : Bool := c == 32 || (9 ≤ c && c ≤ 13)

def hexMark : List UInt8 → Bool
  | 48 :: x :: _ => x == 120 || x == 88
  | _ => false

/-- The text begins with `0x` or `0X` and a hexadecimal digit. -/
def hexNumeral (s : List UInt8) : Bool := hexMark s && digits alnum_value 16 (s.drop 2) != []

/-- The base of an unsigned numeral, and the length of the prefix in front of its digits. -/
def baseOf (s : List UInt8) (base : Nat) : Nat × Nat :=
  if (base = 0 ∨ base = 16) ∧ hexNumeral s then (16, 2)
  else if base = 0 then (if s.head? = some 48 then 8 else 10, 0)
  else (base, 0)

/-- The value and the length of the unsigned numeral that a text begins with. -/
def unsigned? (s : List UInt8) (base : Nat) : Option (Nat × Nat) :=
  let (b, p) := baseOf s base
  let ds := digits alnum_value b (s.drop p)
  if ds = [] then none else some (valueOf b ds, p + ds.length)

/-- The sign and the text behind it. -/
def signed (s : List UInt8) : Bool × Nat × List UInt8 :=
  match s with
  | 45 :: rest => (true, 1, rest)
  | 43 :: rest => (false, 1, rest)
  | _ => (false, 0, s)

/-- The numeral that a text begins with, behind white space and a sign: its value, and where it
ends. A text without one has the value 0, and ends where it begins. -/
def numeral? (s : List UInt8) (base : Nat) : Option (Int × Nat) :=
  let blanks := s.takeWhile isSpace
  let (neg, sign, rest) := signed (s.dropWhile isSpace)
  (unsigned? rest base).map fun n =>
    (if neg then -(n.1 : Int) else n.1, blanks.length + sign + n.2)

def parsed (s : List UInt8) (base : Nat) : Int × Nat := (numeral? s base).getD (0, 0)

/-- The four functions give what the standard says, in 32 and in 64 bits. -/
structure Right (s : List UInt8) (base : Nat) : Prop where
  strtoul : ((strtoul s base).1 : Int) = (parsed s base).1 % 2 ^ 32 ∧
    (strtoul s base).2 = (parsed s base).2
  strtol : (strtol s base).1 = (parsed s base).1.bmod (2 ^ 32) ∧
    (strtol s base).2 = (parsed s base).2
  strtoull : ((strtoull s base).1 : Int) = (parsed s base).1 % 2 ^ 64 ∧
    (strtoull s base).2 = (parsed s base).2
  strtoll : (strtoll s base).1 = (parsed s base).1.bmod (2 ^ 64) ∧
    (strtoll s base).2 = (parsed s base).2

/-! ## Digits -/

variable {s : List UInt8} {base : Nat}

theorem hex_value_eq_some {c : UInt8} {v : Nat} :
    hex_value c = some v ↔ alnum_value c = some v ∧ v < 16 := by
  unfold hex_value alnum_value
  split_ifs <;> simp only [Option.some.injEq, false_and, false_iff] <;> omega

/-- Behind the digits that the code knows stands a letter that is a digit too. -/
def LetterNext (base : Nat) (s : List UInt8) : Prop :=
  ∃ c v, s[(digits hex_value base s).length]? = some c ∧ alnum_value c = some v ∧ 16 ≤ v ∧ v < base

theorem digits_cases (base : Nat) (s : List UInt8) :
    LetterNext base s ∧ (digits hex_value base s).length < (digits alnum_value base s).length ∨
      ¬ LetterNext base s ∧ digits hex_value base s = digits alnum_value base s := by
  induction s with
  | nil =>
    refine Or.inr ⟨?_, rfl⟩
    rintro ⟨c, v, hc, _⟩
    simp at hc
  | cons c s ih =>
    cases hhex : hex_value c with
    | some v =>
      obtain ⟨halnum, hv⟩ := hex_value_eq_some.mp hhex
      by_cases hbase : v < base
      · have hletter : LetterNext base (c :: s) ↔ LetterNext base s := by
          simp [LetterNext, digits, hhex, hbase]
        rw [hletter]
        simpa [digits, hhex, halnum, hbase] using ih
      · refine Or.inr ⟨?_, by simp [digits, hhex, halnum, hbase]⟩
        rintro ⟨d, w, hd, hw, _, hlt⟩
        obtain rfl : c = d := by simpa [digits, hhex, hbase] using hd
        rw [halnum] at hw
        cases hw
        exact hbase hlt
    | none =>
      have hnone : digits hex_value base (c :: s) = [] := by simp [digits, hhex]
      cases halnum : alnum_value c with
      | none =>
        refine Or.inr ⟨?_, by simp [digits, hhex, halnum]⟩
        rintro ⟨d, w, hd, hw, _⟩
        obtain rfl : c = d := by simpa [hnone] using hd
        rw [halnum] at hw
        cases hw
      | some v =>
        have hv : 16 ≤ v := by
          by_contra hlt
          rw [hex_value_eq_some.mpr ⟨halnum, by omega⟩] at hhex
          cases hhex
        by_cases hbase : v < base
        · exact Or.inl ⟨⟨c, v, by simp [hnone], halnum, hv, hbase⟩,
            by rw [hnone]; simp [digits, halnum, hbase]⟩
        · refine Or.inr ⟨?_, by simp [digits, hhex, halnum, hbase]⟩
          rintro ⟨d, w, hd, hw, _, hlt⟩
          obtain rfl : c = d := by simpa [hnone] using hd
          rw [halnum] at hw
          cases hw
          exact hbase hlt

theorem not_letter_of_le (h : base ≤ 16) (s : List UInt8) : ¬ LetterNext base s := by
  rintro ⟨c, v, _, _, hv, hlt⟩
  omega

theorem digits_eq (h : base ≤ 16) (s : List UInt8) :
    digits hex_value base s = digits alnum_value base s := by
  rcases digits_cases base s with ⟨hletter, _⟩ | ⟨_, heq⟩
  · exact absurd hletter (not_letter_of_le h s)
  · exact heq

/-! ## What the loop computes -/

theorem foldl_mod (base M : Nat) (ds : List Nat) (n : Nat) :
    ds.foldl (fun n d => (n * base + d) % M) (n % M) =
      ds.foldl (fun n d => n * base + d) n % M := by
  induction ds generalizing n with
  | nil => rfl
  | cons d ds ih =>
    rw [List.foldl_cons, List.foldl_cons, ← ih]
    congr 1
    rw [Nat.add_mod, Nat.mod_mul_mod, ← Nat.add_mod]

theorem scan_eq (base : Nat) (s : List UInt8) (res : Nat) :
    scan base res s =
      ((digits hex_value base s).foldl (fun n d => (n * base + d) % 2 ^ 32) res,
        (digits hex_value base s).length) := by
  induction s generalizing res with
  | nil => rfl
  | cons c s ih =>
    rw [scan, digits]
    cases hex_value c with
    | none => rfl
    | some v =>
      dsimp only
      by_cases hbase : v < base
      · rw [if_neg (by omega), if_pos hbase, ih]
        rfl
      · rw [if_pos (by omega), if_neg hbase]
        rfl

theorem strtoul_eq (s : List UInt8) (base : Nat) :
    strtoul s base =
      let b := (pick_base s base).1
      let p := (pick_base s base).2
      (valueOf b (digits hex_value b (s.drop p)) % 2 ^ 32,
        p + (digits hex_value b (s.drop p)).length) := by
  unfold strtoul
  dsimp only
  rw [scan_eq]
  have := foldl_mod (pick_base s base).1 (2 ^ 32)
    (digits hex_value (pick_base s base).1 (s.drop (pick_base s base).2)) 0
  rw [Nat.zero_mod] at this
  rw [this]
  rfl

/-! ## Texts without a sign -/

/-- What an unsigned numeral gives, in 32 bits. -/
def asUnsigned (s : List UInt8) (base : Nat) : Nat × Nat := (unsigned? s base).getD (0, 0)

/-- The texts and bases of which the code reads the numeral. -/
structure Direct (s : List UInt8) (base : Nat) : Prop where
  mark : base = 0 → hexMark s = true → hexNumeral s = true
  prefixed : base = 16 → hexNumeral s = false
  letters : ¬ LetterNext base s

theorem asUnsigned_eq (s : List UInt8) (base : Nat) :
    asUnsigned s base =
      let b := (baseOf s base).1
      let p := (baseOf s base).2
      let ds := digits alnum_value b (s.drop p)
      if ds = [] then (0, 0) else (valueOf b ds, p + ds.length) := by
  unfold asUnsigned unsigned?
  dsimp only
  split <;> rfl

theorem digits_cons_zero (value : UInt8 → Option Nat) (hvalue : value 48 = some 0)
    (hbase : 0 < base) (s : List UInt8) :
    digits value base (48 :: s) = 0 :: digits value base s := by
  rw [digits, hvalue]
  exact if_pos hbase

theorem digits_mark (hbase : 0 < base) (hle : base ≤ 16) {x : UInt8} (hx : x = 120 ∨ x = 88)
    (s : List UInt8) : digits alnum_value base (48 :: x :: s) = [0] := by
  rw [digits_cons_zero alnum_value rfl hbase, ← digits_eq hle]
  rcases hx with rfl | rfl <;> rfl

theorem valueOf_zero_cons (base : Nat) (ds : List Nat) :
    valueOf base (0 :: ds) = valueOf base ds := by
  simp [valueOf]

theorem strtoul_same {b : Nat} (hpick : pick_base s base = (b, 0)) (hbase : baseOf s base = (b, 0))
    (hdigits : digits hex_value b s = digits alnum_value b s) :
    strtoul s base = ((asUnsigned s base).1 % 2 ^ 32, (asUnsigned s base).2) := by
  rw [strtoul_eq, asUnsigned_eq, hpick, hbase]
  simp only [List.drop_zero, hdigits, Nat.zero_add]
  split
  · rename_i hnil
    rw [hnil]
    rfl
  · rfl

theorem hexMark_iff : hexMark s = true ↔ ∃ x rest, s = 48 :: x :: rest ∧ (x = 120 ∨ x = 88) := by
  unfold hexMark
  split
  · rename_i x rest
    simp
  · rename_i hno
    simp only [Bool.false_eq_true, false_iff]
    rintro ⟨x, rest, rfl, _⟩
    exact hno x rest rfl

theorem strtoul_zero (s : List UInt8) :
    strtoul s 0 = ((asUnsigned s 0).1 % 2 ^ 32, (asUnsigned s 0).2) ↔
      (hexMark s = true → hexNumeral s = true) := by
  cases hmark : hexMark s with
  | true =>
    obtain ⟨x, rest, rfl, hx⟩ := hexMark_iff.mp hmark
    have hpick : pick_base (48 :: x :: rest) 0 = (16, 2) := by simp [pick_base, hx]
    cases hnum : hexNumeral (48 :: x :: rest) with
    | true =>
      have hbase : baseOf (48 :: x :: rest) 0 = (16, 2) := by simp [baseOf, hnum]
      have hne : digits alnum_value 16 rest ≠ [] := by
        simpa [hexNumeral, hmark] using hnum
      refine iff_of_true ?_ fun _ => rfl
      rw [strtoul_eq, asUnsigned_eq, hpick, hbase]
      simp [digits_eq, hne]
    | false =>
      have hbase : baseOf (48 :: x :: rest) 0 = (8, 0) := by simp [baseOf, hnum]
      refine iff_of_false (fun heq => ?_) (by simp)
      have hend := congrArg Prod.snd heq
      rw [strtoul_eq, asUnsigned_eq, hpick, hbase] at hend
      simp [@digits_mark 8 (by omega) (by omega) _ hx] at hend
      omega
  | false =>
    have hnum : hexNumeral s = false := by simp [hexNumeral, hmark]
    refine iff_of_true ?_ (by simp)
    by_cases hzero : s.head? = some 48
    · -- an octal numeral: the code reads from behind the zero on
      obtain ⟨rest, rfl⟩ := List.head?_eq_some_iff.mp hzero
      have hpick : pick_base (48 :: rest) 0 = (8, 1) := by
        cases rest with
        | nil => rfl
        | cons c rest =>
          have hc : ¬ (c = 120 ∨ c = 88) := fun hc => by
            rw [hexMark_iff.mpr ⟨c, rest, rfl, hc⟩] at hmark
            cases hmark
          simp [pick_base, hc]
      have hbase : baseOf (48 :: rest) 0 = (8, 0) := by simp [baseOf, hnum]
      rw [strtoul_eq, asUnsigned_eq, hpick, hbase]
      simp [digits_cons_zero alnum_value rfl, valueOf_zero_cons, digits_eq, Nat.add_comm]
    · have hpick : pick_base s 0 = (10, 0) := by
        unfold pick_base
        rw [if_pos rfl]
        split
        · simp at hzero
        · simp at hzero
        · rfl
      exact strtoul_same hpick (by simp [baseOf, hnum, hzero]) (digits_eq (by omega) s)

theorem strtoul_base (hbase : base ≠ 0) (s : List UInt8) :
    strtoul s base = ((asUnsigned s base).1 % 2 ^ 32, (asUnsigned s base).2) ↔
      (base = 16 → hexNumeral s = false) ∧ ¬ LetterNext base s := by
  have hpick : pick_base s base = (base, 0) := by simp [pick_base, hbase]
  by_cases hhex : base = 16 ∧ hexNumeral s = true
  · obtain ⟨rfl, hnum⟩ := hhex
    refine iff_of_false (fun heq => ?_) (by simp [hnum])
    have hmark : hexMark s = true := by
      simp only [hexNumeral, Bool.and_eq_true] at hnum
      exact hnum.1
    obtain ⟨x, rest, rfl, hx⟩ := hexMark_iff.mp hmark
    have hbase : baseOf (48 :: x :: rest) 16 = (16, 2) := by simp [baseOf, hnum]
    have hne : digits alnum_value 16 rest ≠ [] := by
      simpa [hexNumeral, hmark] using hnum
    have hend := congrArg Prod.snd heq
    rw [strtoul_eq, asUnsigned_eq, hpick, hbase] at hend
    simp [digits_eq, @digits_mark 16 (by omega) (by omega) _ hx, hne] at hend
    omega
  · have hsame : baseOf s base = (base, 0) := by
      unfold baseOf
      rw [if_neg (by simp only [hbase, false_or]; exact hhex), if_neg hbase]
    have hpre : base = 16 → hexNumeral s = false := fun h => by simpa [h] using hhex
    rcases digits_cases base s with ⟨hletter, hlt⟩ | ⟨hletter, hdigits⟩
    · refine iff_of_false (fun heq => ?_) fun h => h.2 hletter
      have hend := congrArg Prod.snd heq
      rw [strtoul_eq, asUnsigned_eq, hpick, hsame] at hend
      have hne : digits alnum_value base s ≠ [] := by
        rintro hnil
        simp [hnil] at hlt
      simp [hne] at hend
      omega
    · exact iff_of_true (strtoul_same hpick hsame hdigits) ⟨hpre, hletter⟩

theorem strtoul_direct_iff (s : List UInt8) (base : Nat) :
    strtoul s base = ((asUnsigned s base).1 % 2 ^ 32, (asUnsigned s base).2) ↔
      Direct s base := by
  by_cases hbase : base = 0
  · subst hbase
    rw [strtoul_zero]
    exact ⟨fun h => ⟨fun _ => h, by simp, not_letter_of_le (by omega) s⟩, fun h => h.mark rfl⟩
  · rw [strtoul_base hbase]
    exact ⟨fun h => ⟨fun h0 => absurd h0 hbase, h.1, h.2⟩, fun h => ⟨h.prefixed, h.letters⟩⟩

/-! ## White space and signs -/

theorem unsigned_end_pos {n : Nat × Nat} (h : unsigned? s base = some n) : 0 < n.2 := by
  unfold unsigned? at h
  dsimp only at h
  split at h
  · cases h
  · rename_i hne
    have := List.length_pos_of_ne_nil hne
    cases h
    dsimp only
    omega

theorem numeral_end_pos {n : Int × Nat} (h : numeral? s base = some n) : 0 < n.2 := by
  obtain ⟨m, hm, rfl⟩ := Option.map_eq_some_iff.mp h
  have := unsigned_end_pos hm
  dsimp only
  omega

theorem no_digit {c : UInt8} (hc : alnum_value c = none) (s : List UInt8) (base : Nat) :
    unsigned? (c :: s) base = none ∧ strtoul (c :: s) base = (0, 0) := by
  have hzero : c ≠ 48 := by
    rintro rfl
    cases hc
  have hmark : hexMark (c :: s) = false := by
    rw [← Bool.not_eq_true, hexMark_iff]
    rintro ⟨x, rest, heq, _⟩
    exact hzero (List.cons.inj heq).1
  have hnum : hexNumeral (c :: s) = false := by simp [hexNumeral, hmark]
  have hhex : hex_value c = none := by
    rw [Option.eq_none_iff_forall_ne_some]
    intro v hv
    rw [(hex_value_eq_some.mp hv).1] at hc
    cases hc
  have hunsigned : unsigned? (c :: s) base = none := by
    have hbase : (baseOf (c :: s) base).2 = 0 := by
      unfold baseOf
      rw [if_neg (by simp [hnum])]
      split <;> rfl
    simp [unsigned?, hbase, digits, hc]
  refine ⟨hunsigned, ?_⟩
  have hdirect : Direct (c :: s) base := by
    refine ⟨by simp [hmark], fun _ => hnum, ?_⟩
    rintro ⟨d, v, hd, hv, _⟩
    obtain rfl : c = d := by simpa [digits, hhex] using hd
    rw [hc] at hv
    cases hv
  rw [(strtoul_direct_iff _ _).mpr hdirect, asUnsigned, hunsigned]
  rfl

theorem alnum_of_space {c : UInt8} (h : isSpace c = true) : alnum_value c = none := by
  have hle : c.toNat ≤ 32 := by
    simp only [isSpace, Bool.or_eq_true, beq_iff_eq, Bool.and_eq_true, decide_eq_true_eq,
      UInt8.le_iff_toNat_le] at h
    rcases h with rfl | ⟨_, h⟩
    · decide
    · exact Nat.le_trans h (by decide)
  unfold alnum_value
  rw [if_neg (by omega), if_neg (by omega), if_neg (by omega)]

/-- White space or a sign: the code stops there, but for a minus in `strtol`. -/
def Lead (c : UInt8) : Prop := isSpace c = true ∨ c = 43

theorem strtoul_lead {c : UInt8} (hc : Lead c ∨ c = 45) (s : List UInt8) (base : Nat) :
    strtoul (c :: s) base = (0, 0) := by
  refine (no_digit ?_ s base).2
  rcases hc with (hspace | rfl) | rfl
  · exact alnum_of_space hspace
  · rfl
  · rfl

theorem strtol_eq (h : s.head? ≠ some 45) (base : Nat) :
    strtol s base = (long (strtoul s base).1, (strtoul s base).2) := by
  unfold strtol
  split
  · simp at h
  · rfl

theorem parsed_of_plain (h : ∀ c ∈ s.head?, ¬ Lead c ∧ c ≠ 45) (base : Nat) :
    parsed s base = (((asUnsigned s base).1 : Int), (asUnsigned s base).2) := by
  have htake : s.takeWhile isSpace = [] ∧ s.dropWhile isSpace = s := by
    cases s with
    | nil => exact ⟨rfl, rfl⟩
    | cons c s =>
      have hc : isSpace c = false := by
        have := (h c rfl).1
        simpa [Lead] using fun hs => this (Or.inl hs)
      simp [hc]
  have hsigned : signed s = (false, 0, s) := by
    unfold signed
    split
    · exact absurd rfl (h 45 rfl).2
    · exact absurd (Or.inr rfl) (h 43 rfl).1
    · rfl
  unfold parsed numeral? asUnsigned
  rw [htake.1, htake.2, hsigned]
  dsimp only
  cases unsigned? s base with
  | none => rfl
  | some n => simp

/-- Where the functions give what the standard says. -/
structure Plain (s : List UInt8) (base : Nat) : Prop where
  minus : s.head? ≠ some 45
  lead : (∃ c ∈ s.head?, Lead c) → numeral? s base = none
  direct : (∀ c ∈ s.head?, ¬ Lead c) →
    Direct s base ∧ (asUnsigned s base).1 % 2 ^ 64 < 2 ^ 31

theorem not_right_minus (s : List UInt8) (base : Nat) : ¬ Right (45 :: s) base := by
  intro h
  obtain ⟨_, hul⟩ := h.strtoul
  obtain ⟨_, hl⟩ := h.strtol
  have hend : (strtol (45 :: s) base).2 = (strtoul s base).2 + 1 := rfl
  rw [strtoul_lead (Or.inr rfl)] at hul
  rw [← hul, hend] at hl
  exact absurd hl (Nat.succ_ne_zero _)

theorem right_lead_iff {c : UInt8} (hc : Lead c) (s : List UInt8) (base : Nat) :
    Right (c :: s) base ↔ numeral? (c :: s) base = none := by
  have hul := strtoul_lead (Or.inl hc) s base
  have hminus : (c :: s).head? ≠ some 45 := by
    rintro h
    obtain rfl : c = 45 := by simpa using h
    rcases hc with h | h <;> cases h
  have hl := strtol_eq hminus base
  rw [hul] at hl
  constructor
  · intro h
    cases hnum : numeral? (c :: s) base with
    | none => rfl
    | some n =>
      have hpos := numeral_end_pos hnum
      have hend := h.strtoul.2
      rw [hul, parsed, hnum] at hend
      exact absurd hend (Nat.ne_of_lt hpos)
  · intro hnone
    have hparsed : parsed (c :: s) base = (0, 0) := by rw [parsed, hnone]; rfl
    have hlong : long (0 : Nat) = 0 := Int.zero_bmod
    rw [hlong] at hl
    constructor <;> rw [hparsed]
    · rw [hul]
      exact ⟨(Int.zero_emod _).symm, rfl⟩
    · rw [hl]
      exact ⟨Int.zero_bmod.symm, rfl⟩
    · rw [strtoull, hul]
      exact ⟨(Int.zero_emod _).symm, rfl⟩
    · rw [strtoll, hl]
      exact ⟨Int.zero_bmod.symm, rfl⟩

theorem right_plain_iff (h : ∀ c ∈ s.head?, ¬ Lead c ∧ c ≠ 45) (base : Nat) :
    Right s base ↔ Direct s base ∧ (asUnsigned s base).1 % 2 ^ 64 < 2 ^ 31 := by
  have hminus : s.head? ≠ some 45 := fun hs => (h 45 hs).2 rfl
  have hparsed := parsed_of_plain h base
  have hl := strtol_eq hminus base
  rw [← strtoul_direct_iff]
  constructor
  · intro hr
    obtain ⟨hval, hend⟩ := hr.strtoul
    obtain ⟨hwide, _⟩ := hr.strtoull
    obtain ⟨hlong, _⟩ := hr.strtoll
    rw [strtoull] at hwide
    rw [strtoll, hl] at hlong
    rw [hparsed] at hval hend hwide hlong
    dsimp only [long] at hval hend hwide hlong
    refine ⟨Prod.ext ?_ hend, ?_⟩
    · dsimp only
      omega
    · rw [Int.bmod_def, Int.bmod_def] at hlong
      omega
  · rintro ⟨heq, hlt⟩
    rw [heq] at hl
    have hwide : (asUnsigned s base).1 % 2 ^ 64 = (asUnsigned s base).1 % 2 ^ 32 := by omega
    constructor <;> rw [hparsed]
    · rw [heq]
      exact ⟨by simp, rfl⟩
    · rw [hl]
      refine ⟨?_, rfl⟩
      simp only [long, Int.bmod_def]
      omega
    · rw [strtoull, heq]
      refine ⟨?_, rfl⟩
      dsimp only
      omega
    · rw [strtoll, hl]
      refine ⟨?_, rfl⟩
      simp only [long, Int.bmod_def]
      omega

/-- The functions give what the standard says exactly for a plain text: one without white space
or a sign in front of a numeral, without a prefix or letters that the code does not know, and
with a value that fits a `long`. -/
theorem right_iff_plain (s : List UInt8) (base : Nat) : Right s base ↔ Plain s base := by
  by_cases hminus : s.head? = some 45
  · obtain ⟨rest, rfl⟩ := List.head?_eq_some_iff.mp hminus
    exact iff_of_false (not_right_minus rest base) fun h => h.minus rfl
  by_cases hlead : ∃ c ∈ s.head?, Lead c
  · obtain ⟨c, hc, hlead⟩ := hlead
    obtain ⟨rest, rfl⟩ := List.head?_eq_some_iff.mp hc
    rw [right_lead_iff hlead]
    exact ⟨fun h => ⟨hminus, fun _ => h, fun hno => absurd hlead (hno c rfl)⟩,
      fun h => h.lead ⟨c, rfl, hlead⟩⟩
  · have hno : ∀ c ∈ s.head?, ¬ Lead c := fun c hc hl => hlead ⟨c, hc, hl⟩
    rw [right_plain_iff fun c hc => ⟨hno c hc, fun h45 => hminus (h45 ▸ hc)⟩]
    exact ⟨fun h => ⟨hminus, fun hl => absurd hl hlead, fun _ => h⟩, fun h => h.direct hno⟩

/-- `4294967296` is the number 0 to `strtoull`. -/
theorem wide_numeral_lost : ¬ ∀ (s : List UInt8) (base : Nat),
    base = 0 ∨ 2 ≤ base ∧ base ≤ 36 → Right s base := by
  intro h
  have hwide := (h [52, 50, 57, 52, 57, 54, 55, 50, 57, 54] 10 (by decide)).strtoull.1
  revert hwide
  decide +kernel

end vibeos.strto
