-- What lib_vsnprintf prints: the expansion of the format, cut to the buffer, with its length. It
-- goes wrong for a format that ends inside a directive, for a letter that is no conversion behind
-- an `l`, which is lost, and for a length that is no `int`. The formatter on typed arguments and the
-- formatter on words are the same function: for the words that stand for the arguments, both leave
-- the same text in the buffer.
import Vibeos.LibPrint

namespace vibeos.lib

open fs (CString cstr)
open wget (ascii)

/-! ## Characters one after the other -/

def Out.puts (o : Out) (text : List UInt8) : Out := text.foldl Out.put_char o

@[simp] theorem Out.puts_nil (o : Out) : o.puts [] = o := rfl

@[simp] theorem Out.puts_cons (o : Out) (c : UInt8) (text : List UInt8) :
    o.puts (c :: text) = (o.put_char c).puts text := rfl

theorem Out.puts_append (o : Out) (s t : List UInt8) : o.puts (s ++ t) = (o.puts s).puts t :=
  List.foldl_append

@[simp] theorem Out.puts_n (o : Out) (text : List UInt8) : (o.puts text).n = o.n := by
  induction text generalizing o with
  | nil => rfl
  | cons c text ih => exact ih _

theorem Out.puts_pos (o : Out) (text : List UInt8) :
    (o.puts text).pos = o.pos + BitVec.ofNat 32 text.length := by
  induction text generalizing o with
  | nil => simp
  | cons c text ih =>
    rw [puts_cons, ih, List.length_cons, BitVec.ofNat_add]
    show o.pos + 1 + _ = _
    rw [BitVec.add_assoc, BitVec.add_comm 1]
    rfl

/-! ## Numbers -/

theorem digit_loop_eq {base : BitVec 64} (hbase : 2 ≤ base.toNat) (uppercase : Bool) {room : Nat}
    {val : BitVec 64} (hval : val.toNat < base.toNat ^ room) :
    digit_loop base uppercase room val =
      some ((Nat.digits base.toNat val.toNat).map (digit uppercase)) := by
  induction room generalizing val with
  | zero =>
    rw [Nat.pow_zero] at hval
    have h0 : val.toNat = 0 := by omega
    rw [digit_loop, if_pos (BitVec.eq_of_toNat_eq h0), h0, Nat.digits_zero, List.map_nil]
  | succ room ih =>
    rw [digit_loop]
    split <;> rename_i h0
    · rw [h0]
      simp
    · have hpos : 0 < val.toNat := Nat.pos_of_ne_zero fun h => h0 (BitVec.eq_of_toNat_eq h)
      have hdiv : (val / base).toNat < base.toNat ^ room := by
        rw [BitVec.toNat_udiv]
        apply Nat.div_lt_of_lt_mul
        rwa [← Nat.pow_succ']
      rw [ih hdiv, Nat.digits_def' (by omega) hpos, BitVec.toNat_udiv, BitVec.toNat_umod]
      rfl

theorem Out.print_unsigned_eq (o : Out) (val : BitVec 64) {base : BitVec 64}
    (hbase : 2 ≤ base.toNat) (uppercase : Bool) :
    o.print_unsigned val base uppercase =
      some (o.puts (lib.print_unsigned val.toNat base.toNat uppercase)) := by
  unfold Out.print_unsigned lib.print_unsigned
  split <;> rename_i h0
  · rw [h0]
    rfl
  · have hne : val.toNat ≠ 0 := fun h => h0 (BitVec.eq_of_toNat_eq h)
    have hfits : val.toNat < base.toNat ^ 64 :=
      Nat.lt_of_lt_of_le val.isLt (Nat.pow_le_pow_left hbase 64)
    rw [digit_loop_eq hbase uppercase hfits, if_neg hne]
    rfl

theorem slt_zero_iff (val : BitVec 64) : val.slt 0 = true ↔ val.toInt < 0 :=
  BitVec.slt_iff_toInt_lt

theorem toNat_abs (val : BitVec 64) :
    (if val.toInt < 0 then -val else val).toNat = val.toInt.natAbs := by
  split <;> rename_i hneg
  · rw [BitVec.toNat_neg]
    rw [BitVec.toInt_eq_toNat_cond] at hneg ⊢
    split at hneg <;> omega
  · rw [BitVec.toInt_eq_toNat_cond] at hneg ⊢
    split at hneg <;> omega

theorem Out.print_signed_eq (o : Out) (val : BitVec 64) :
    o.print_signed val = some (o.puts (decimal val.toInt)) := by
  have hten : 2 ≤ (10 : BitVec 64).toNat := by decide
  have habs := toNat_abs val
  unfold Out.print_signed decimal
  simp only [slt_zero_iff]
  split <;> rename_i hneg
  · rw [if_pos hneg] at habs
    rw [print_unsigned_eq _ _ hten, habs]
    rfl
  · rw [if_neg hneg] at habs
    rw [print_unsigned_eq _ _ hten, habs]
    rfl

/-! ## One directive -/

/-- A letter that is no conversion is printed with the `%`, without the `l` between them. -/
def withoutL (_ : Nat) (c : UInt8) : List UInt8 := [37, c]

theorem va_int_nil (extend : BitVec 32 → BitVec 64) (l : Nat) : va_int extend l [] = none := by
  unfold va_int
  split <;> simp_all

theorem va_int_signed {β : Type} (f : Int → β) (l : Nat) (a : Arg) (ap : List Arg) :
    (va_int (·.signExtend 64) l (a :: ap)).map (fun r => (f r.1.toInt, r.2)) =
      (signedArg l a).map fun v => (f v, ap) := by
  have hext (v : BitVec 32) : (v.signExtend 64).toInt = v.toInt :=
    BitVec.toInt_signExtend_of_le (by decide)
  cases a <;> rcases l with _ | _ | _ | l <;> simp [va_int, signedArg, hext]

theorem va_int_unsigned {β : Type} (f : Nat → β) (l : Nat) (a : Arg) (ap : List Arg) :
    (va_int (·.setWidth 64) l (a :: ap)).map (fun r => (f r.1.toNat, r.2)) =
      (unsignedArg l a).map fun v => (f v, ap) := by
  have hext (v : BitVec 32) : (v.setWidth 64).toNat = v.toNat :=
    BitVec.toNat_setWidth_of_le (by decide)
  cases a <;> rcases l with _ | _ | _ | l <;> simp [va_int, unsignedArg, hext]

theorem Out.convert_signed (o : Out) (l : Nat) (ap : List Arg) :
    (va_int (·.signExtend 64) l ap).bind (fun r => (o.print_signed r.1).map (·, r.2)) =
      ((Piece.conv l .d).shown withoutL ap).map fun r => (o.puts r.1, r.2) := by
  cases ap with
  | nil =>
    rw [va_int_nil]
    rfl
  | cons a ap =>
    have h := va_int_signed (fun v => o.puts (decimal v)) l a ap
    simp only [print_signed_eq, Option.map_some, Piece.shown, Conv.shown, Option.map_map]
    exact Option.map_eq_bind.symm.trans h

theorem Out.convert_unsigned (o : Out) (l : Nat) (ap : List Arg) {k : Conv} {base : BitVec 64}
    {uppercase : Bool} (hbase : 2 ≤ base.toNat)
    (hk : ∀ a, k.shown l a =
      (unsignedArg l a).map (lib.print_unsigned · base.toNat uppercase)) :
    (va_int (·.setWidth 64) l ap).bind
        (fun r => (o.print_unsigned r.1 base uppercase).map (·, r.2)) =
      ((Piece.conv l k).shown withoutL ap).map fun r => (o.puts r.1, r.2) := by
  cases ap with
  | nil =>
    rw [va_int_nil]
    rfl
  | cons a ap =>
    have h := va_int_unsigned (fun v => o.puts (lib.print_unsigned v base.toNat uppercase)) l a ap
    simp only [print_unsigned_eq _ _ hbase, Option.map_some, Piece.shown, hk, Option.map_map]
    exact Option.map_eq_bind.symm.trans h

theorem Out.convert_eq (o : Out) (l : Nat) (c : UInt8) (ap : List Arg) :
    o.convert l c ap = ((directive l c).shown withoutL ap).map fun r => (o.puts r.1, r.2) := by
  unfold Out.convert directive
  split_ifs
  · exact o.convert_signed l ap
  · exact o.convert_unsigned l ap (by decide) fun _ => rfl
  · exact o.convert_unsigned l ap (by decide) fun _ => rfl
  · exact o.convert_unsigned l ap (by decide) fun _ => rfl
  · rcases ap with _ | ⟨_ | _ | _ | _, ap⟩ <;> rfl
  · rcases ap with _ | ⟨_ | _ | _ | (_ | str), ap⟩ <;> rfl
  · rfl

/-! ## The loop -/

theorem pieces_percent {fmt : List UInt8} (h37 : cur fmt ≠ 37) :
    pieces .percent fmt = match (longlongarg fmt).2 with
      | [] => [.unfinished (longlongarg fmt).1]
      | c :: rest => directive (longlongarg fmt).1 c :: pieces .text rest := by
  rcases fmt with _ | ⟨c, fmt⟩
  · rfl
  · have hc : c ≠ 37 := h37
    rw [pieces, if_neg hc]
    by_cases hl : c = 'l'.toUInt8
    · rw [if_pos hl]
      rcases fmt with _ | ⟨c', fmt⟩
      · have hnul : (0 : UInt8) ≠ 'l'.toUInt8 := by decide
        simp [longlongarg, cur, hl, hnul, pieces]
      · rw [pieces]
        by_cases hl' : c' = 'l'.toUInt8
        · rw [if_pos hl']
          rcases fmt with _ | ⟨c'', fmt⟩ <;> simp [longlongarg, cur, hl, hl', pieces]
        · rw [if_neg hl']
          simp [longlongarg, cur, hl, hl']
    · rw [if_neg hl]
      simp [longlongarg, cur, hl]

def Piece.isUnfinished : Piece → Bool
  | .unfinished _ => true
  | _ => false

theorem expand_cons {lit : Nat → UInt8 → List UInt8} {p : Piece} {ps : List Piece}
    {args : List Arg} {text : List UInt8} (h : expand lit (p :: ps) args = some text) :
    ∃ s args' t, p.shown lit args = some (s, args') ∧ expand lit ps args' = some t ∧
      text = s ++ t := by
  rw [expand, Option.bind_eq_some_iff] at h
  obtain ⟨⟨s, args'⟩, hshown, h⟩ := h
  obtain ⟨t, ht, rfl⟩ := Option.map_eq_some_iff.mp h
  exact ⟨s, args', t, hshown, ht, rfl⟩

theorem directive_finished (l : Nat) (c : UInt8) : (directive l c).isUnfinished = false := by
  unfold directive
  split_ifs <;> rfl

theorem format_loop_eq (o : Out) {ap : List Arg} {fmt text : List UInt8}
    (h : expand withoutL (pieces .text fmt) ap = some text) :
    format_loop o ap fmt =
      if (pieces .text fmt).any Piece.isUnfinished then none else some (o.puts text) := by
  -- a directive takes several characters at once
  induction hlen : fmt.length using Nat.strong_induction_on generalizing o ap fmt text with
  | _ n ih =>
    subst hlen
    rcases fmt with _ | ⟨c, fmt⟩
    · cases h
      rw [format_loop]
      rfl
    rw [pieces] at h ⊢
    by_cases hc : c = 37
    · rw [if_pos hc] at h ⊢
      by_cases h37 : cur fmt = 37
      · obtain ⟨fmt', rfl⟩ : ∃ fmt', fmt = 37 :: fmt' := by
          rcases fmt with _ | ⟨c', fmt'⟩
          · cases h37
          · exact ⟨fmt', by rw [show c' = 37 from h37]⟩
        rw [pieces, if_pos rfl] at h ⊢
        obtain ⟨s, args', t, hs, ht, rfl⟩ := expand_cons h
        cases hs
        rw [format_loop, if_neg (not_not.mpr hc), if_pos h37, List.tail_cons,
          ih _ (by simp) _ ht rfl]
        rfl
      · rw [pieces_percent h37] at h ⊢
        have hle := longlongarg_le fmt
        rw [format_loop, if_neg (not_not.mpr hc), if_neg h37, Out.convert_eq]
        rcases hrest : (longlongarg fmt).2 with _ | ⟨c', rest⟩
        · rfl
        · simp only [hrest] at h hle ⊢
          obtain ⟨s, args', t, hs, ht, rfl⟩ := expand_cons h
          simp only [cur, List.headD_cons, hs, Option.map_some, List.any_cons, directive_finished,
            Bool.false_or]
          have hlt : rest.length < (c :: fmt).length := by
            simp only [List.length_cons] at hle ⊢
            omega
          rw [ih _ hlt (o.puts s) ht rfl, Out.puts_append]
    · rw [if_neg hc] at h ⊢
      obtain ⟨s, args', t, hs, ht, rfl⟩ := expand_cons h
      cases hs
      rw [format_loop, if_pos hc, ih _ (by simp) _ ht rfl]
      rfl

/-! ## What stays in the buffer -/

/-- The buffer of `n` bytes holds what fits of the text, and the terminator behind it. -/
structure Holds (n : Nat) (text : List UInt8) (before after : Nat → UInt8) : Prop where
  outside : ∀ i, n ≤ i → after i = before i
  chars : ∀ i (h : i < text.length), i + 1 < n → after i = text[i]
  ended : 0 < n → after (min text.length (n - 1)) = 0

/-- The bytes of the buffer when these characters were put and the terminator was not. -/
def stored (n : Nat) (text : List UInt8) (before : Nat → UInt8) (i : Nat) : UInt8 :=
  if i + 1 < n then text.getD i (before i) else before i

theorem stored_concat (n : Nat) (text : List UInt8) (c : UInt8) (before : Nat → UInt8) :
    stored n (text ++ [c]) before =
      if text.length + 1 < n then Function.update (stored n text before) text.length c
      else stored n text before := by
  funext i
  by_cases hi : i = text.length
  · subst hi
    split <;> simp [stored, *]
  · have hget : (text ++ [c]).getD i (before i) = text.getD i (before i) := by
      rw [List.getD_eq_getElem?_getD, List.getD_eq_getElem?_getD]
      by_cases hlt : i < text.length
      · rw [List.getElem?_append_left hlt]
      · have hout : (text ++ [c]).length ≤ i := by
          rw [List.length_append, List.length_singleton]
          omega
        rw [List.getElem?_eq_none hout, List.getElem?_eq_none (by omega)]
    split
    · rw [Function.update_of_ne hi, stored, hget, stored]
    · rw [stored, hget, stored]

theorem Out.puts_out (before : Nat → UInt8) (n : BitVec 32) {text : List UInt8}
    (hlen : text.length < 2 ^ 32) :
    (Out.puts ⟨some before, n, 0⟩ text).out = some (stored n.toNat text before) := by
  induction text using List.reverseRecOn with
  | nil =>
    have hnone : stored n.toNat [] before = before := by
      funext i
      simp [stored]
    rw [hnone]
    rfl
  | append_singleton text c ih =>
    rw [List.length_append, List.length_singleton] at hlen
    have hpos : (Out.puts ⟨some before, n, 0⟩ text).pos.toNat = text.length := by
      simp [Out.puts_pos]
      omega
    have hnext : ((Out.puts ⟨some before, n, 0⟩ text).pos + 1).toNat = text.length + 1 := by
      rw [BitVec.toNat_add, hpos]
      exact Nat.mod_eq_of_lt hlen
    rw [Out.puts_append, puts_cons, puts_nil, Out.put_char, stored_concat]
    simp only [BitVec.lt_def, puts_n, hnext, hpos, ih (by omega), Option.map_some]
    split <;> rfl

theorem Out.terminate_eq {o : Out} {bytes : Nat → UInt8} (hout : o.out = some bytes)
    (hn : 0 < o.n.toNat) :
    o.terminate = some (Function.update bytes (min o.pos.toNat (o.n.toNat - 1)) 0) := by
  have hne : o.n ≠ 0 := by
    rintro h0
    simp [h0] at hn
  rw [Out.terminate, hout, Option.map_some]
  simp only [BitVec.lt_def, ne_eq, hne, not_false_eq_true, if_true]
  split <;> rename_i hlt
  · rw [Nat.min_eq_left (by omega)]
  · have hlast : (o.n - 1).toNat = o.n.toNat - 1 := BitVec.toNat_sub_of_le hn
    rw [hlast, Nat.min_eq_right (by omega)]

theorem Out.terminate_none {o : Out} {bytes : Nat → UInt8} (hout : o.out = some bytes)
    (hn : o.n.toNat = 0) : o.terminate = some bytes := by
  have h0 : o.n = 0 := BitVec.eq_of_toNat_eq hn
  have hlt : ¬ o.pos < o.n := by
    rw [BitVec.lt_def]
    omega
  rw [Out.terminate, hout, Option.map_some, if_neg hlt, if_neg (not_not.mpr h0)]

theorem holds_none (text : List UInt8) (before : Nat → UInt8) :
    Holds 0 text before (stored 0 text before) :=
  ⟨fun i _ => by rw [stored, if_neg (by omega)], fun i _ hi => absurd hi (by omega),
    fun hn => absurd hn (by decide)⟩

theorem holds_stored {n : Nat} (hn : 0 < n) (text : List UInt8) (before : Nat → UInt8) :
    Holds n text before
      (Function.update (stored n text before) (min text.length (n - 1)) 0) := by
  refine ⟨fun i hi => ?_, fun i h hi => ?_, fun _ => Function.update_self _ _ _⟩
  · rw [Function.update_of_ne (by omega), stored, if_neg (by omega)]
  · rw [Function.update_of_ne (by omega), stored, if_pos hi]
    simp [h]

/-! ## The whole call -/

/-- The `l` in front of letters that are no conversion. -/
def lostL : List Piece → Nat
  | .unknown l _ :: ps => l + lostL ps
  | _ :: ps => lostL ps
  | [] => 0

def asWritten (l : Nat) (c : UInt8) : List UInt8 := 37 :: (List.replicate l 'l'.toUInt8 ++ [c])

theorem shown_known {p : Piece} (hp : ∀ l c, p ≠ .unknown l c) (args : List Arg) :
    p.shown asWritten args = p.shown withoutL args := by
  cases p with
  | unknown l c => exact absurd rfl (hp l c)
  | conv l k => cases args <;> rfl
  | char c => rfl
  | unfinished l => rfl

theorem lostL_known {p : Piece} (hp : ∀ l c, p ≠ .unknown l c) (ps : List Piece) :
    lostL (p :: ps) = lostL ps := by
  cases p with
  | unknown l c => exact absurd rfl (hp l c)
  | _ => rfl

theorem expand_withoutL {ps : List Piece} {args : List Arg} {text : List UInt8}
    (h : expand asWritten ps args = some text) :
    ∃ printed, expand withoutL ps args = some printed ∧
      printed.length + lostL ps = text.length ∧ (lostL ps = 0 → printed = text) := by
  induction ps generalizing args text with
  | nil =>
    cases h
    exact ⟨[], rfl, rfl, fun _ => rfl⟩
  | cons p ps ih =>
    obtain ⟨s, args', t, hs, ht, rfl⟩ := expand_cons h
    obtain ⟨printed, hprinted, hlen, heq⟩ := ih ht
    by_cases hp : ∃ l c, p = .unknown l c
    · obtain ⟨l, c, rfl⟩ := hp
      cases hs
      refine ⟨withoutL l c ++ printed, ?_, ?_, ?_⟩
      · simp [expand, Piece.shown, hprinted]
      · simp only [withoutL, asWritten, lostL, List.length_append, List.length_cons,
          List.length_replicate, List.length_nil]
        omega
      · intro h0
        rw [lostL, Nat.add_eq_zero_iff] at h0
        rw [heq h0.2, h0.1]
        rfl
    · have hknown : ∀ l c, p ≠ .unknown l c := fun l c hp' => hp ⟨l, c, hp'⟩
      rw [shown_known hknown] at hs
      rw [lostL_known hknown]
      refine ⟨s ++ printed, ?_, ?_, fun h0 => by rw [heq h0]⟩
      · simp only [expand, hs, Option.bind_some, hprinted, Option.map_some]
      · rw [List.length_append, List.length_append, ← hlen, Nat.add_assoc]

/-- The call went right: the pointer stayed in the format, what fits of the text is in the buffer,
and the result is the length of all of it. -/
def Exact (out : Option (Nat → UInt8)) (n : BitVec 32) (text : List UInt8)
    (result : Option (Option (Nat → UInt8) × BitVec 32)) : Prop :=
  ∃ bytes ret, result = some (bytes, ret) ∧ ret.toInt = text.length ∧
    Option.Rel (Holds n.toNat text) out bytes

/-- A piece that the formatter prints as it is written. -/
def Piece.Whole : Piece → Prop
  | .unfinished _ => False
  | .unknown l _ => l = 0
  | _ => True

theorem whole_iff {ps : List Piece} :
    (∀ p ∈ ps, p.Whole) ↔ ps.any Piece.isUnfinished = false ∧ lostL ps = 0 := by
  induction ps with
  | nil => simp [lostL]
  | cons p ps ih =>
    rw [List.forall_mem_cons, ih, List.any_cons]
    cases p with
    | unknown l c =>
      simp only [Piece.Whole, Piece.isUnfinished, lostL, Bool.false_or, Nat.add_eq_zero_iff]
      exact and_left_comm
    | _ => simp [Piece.Whole, Piece.isUnfinished, lostL]

theorem toInt_count (k : Nat) :
    (BitVec.ofNat 32 k).toInt = k ∧ k < 2 ^ 31 ∨
      (BitVec.ofNat 32 k).toInt < k ∧ (BitVec.ofNat 32 k).toInt < 2 ^ 31 ∧ 2 ^ 31 ≤ k := by
  rw [BitVec.toInt_eq_toNat_cond, BitVec.toNat_ofNat]
  split <;> omega

theorem puts_length (out : Option (Nat → UInt8)) (n : BitVec 32) (text : List UInt8) :
    (Out.puts ⟨out, n, 0⟩ text).pos = BitVec.ofNat 32 text.length := by
  rw [Out.puts_pos]
  exact BitVec.zero_add _

theorem Out.puts_null (n pos : BitVec 32) (text : List UInt8) :
    (Out.puts ⟨none, n, pos⟩ text).out = none := by
  induction text generalizing pos with
  | nil => rfl
  | cons c text ih =>
    rw [puts_cons, put_char]
    simp [ih]

theorem exact_puts (out : Option (Nat → UInt8)) (n : BitVec 32) {text : List UInt8}
    (hlen : text.length < 2 ^ 31) :
    Exact out n text
      (some ((Out.puts ⟨out, n, 0⟩ text).terminate, (Out.puts ⟨out, n, 0⟩ text).pos)) := by
  refine ⟨_, _, rfl, ?_, ?_⟩
  · rw [puts_length]
    have hcount := toInt_count text.length
    omega
  · cases out with
    | none =>
      rw [Out.terminate, Out.puts_null]
      exact .none
    | some before =>
      have hout := Out.puts_out before n (show text.length < 2 ^ 32 by omega)
      have hn : (Out.puts ⟨some before, n, 0⟩ text).n = n := Out.puts_n _ _
      have hpos : (Out.puts ⟨some before, n, 0⟩ text).pos.toNat = text.length := by
        rw [puts_length, BitVec.toNat_ofNat]
        exact Nat.mod_eq_of_lt (by omega)
      rcases Nat.eq_zero_or_pos n.toNat with h0 | hroom
      · rw [Out.terminate_none hout (by rwa [hn]), h0]
        exact .some (holds_none text before)
      · rw [Out.terminate_eq hout (by rwa [hn]), hn, hpos]
        exact .some (holds_stored hroom text before)

/-- The formatter does what its comment says for every format that does not end inside a
directive and has no letter that it does not know behind an `l`, as long as the length of the
text is an `int`. -/
theorem vsnprintf_exact_iff (out : Option (Nat → UInt8)) (n : BitVec 32) (fmt : CString)
    (args : List Arg) {text : List UInt8} (h : expansion fmt args = some text) :
    Exact out n text (lib_vsnprintf out n fmt args) ↔
      (∀ p ∈ pieces .text fmt.bytes, p.Whole) ∧ text.length < 2 ^ 31 := by
  obtain ⟨printed, hprinted, hlen, heq⟩ := expand_withoutL h
  have hloop := format_loop_eq ⟨out, n, 0⟩ hprinted
  rw [whole_iff, lib_vsnprintf, hloop]
  constructor
  · rintro ⟨bytes, ret, hret, hint, -⟩
    have hfinished : (pieces .text fmt.bytes).any Piece.isUnfinished = false := by
      by_contra hcut
      rw [if_pos (by simpa using hcut)] at hret
      cases hret
    rw [hfinished] at hret
    obtain rfl : BitVec.ofNat 32 printed.length = ret := by
      rw [← puts_length out n]
      cases hret
      rfl
    have hcount := toInt_count printed.length
    exact ⟨⟨hfinished, by omega⟩, by omega⟩
  · rintro ⟨⟨hfinished, h0⟩, hsmall⟩
    rw [hfinished, heq h0]
    exact exact_puts out n hsmall

/-- A format with a sign, an address and a share. -/
def shareFormat : CString := ⟨ascii "%d %lx%%", by decide⟩

theorem vsnprintf_exact_share : Exact (some fun _ => 0) 8 (ascii "-7 1f%")
      (lib_vsnprintf (some fun _ => 0) 8 shareFormat [.int (-7), .long 31]) ↔
    (∀ p ∈ pieces .text shareFormat.bytes, p.Whole) ∧ (ascii "-7 1f%").length < 2 ^ 31 :=
  vsnprintf_exact_iff (some fun _ => 0) 8 shareFormat [.int (-7), .long 31] (by decide)

def percentEnd : CString := ⟨ascii "100%", by decide⟩

/-- The pointer goes over the terminator behind the `%`. -/
theorem percent_end_reads_past : expansion percentEnd [] = some (ascii "100%") ∧
    ¬ Exact (some fun _ => 0) 8 (ascii "100%")
      (lib_vsnprintf (some fun _ => 0) 8 percentEnd []) := by
  have hprinted : expand withoutL (pieces .text percentEnd.bytes) [] = some (ascii "100%") := by
    decide
  refine ⟨by decide, ?_⟩
  rintro ⟨bytes, ret, hret, -⟩
  rw [lib_vsnprintf, format_loop_eq _ hprinted, if_pos (by decide)] at hret
  cases hret

/-! ## Arguments and their words -/

/-- The word that stands for an argument in the list. -/
inductive Encodes (string_at : Nat → List UInt8) : Arg → Nat → Prop where
  | int (v : BitVec 32) : Encodes string_at (.int v) v.toNat
  | long (v : BitVec 32) : Encodes string_at (.long v) v.toNat
  | llong (v : BitVec 64) : Encodes string_at (.llong v) v.toNat
  | null : Encodes string_at (.str none) 0
  | str {s : CString} {a : Nat} (h0 : a ≠ 0) (h32 : a < 2 ^ 32) (hs : string_at a = s.bytes) :
    Encodes string_at (.str (some s)) a

/-- The width of an integer behind `l` many `l`. -/
def argBits (l : Nat) : Nat := if l = 2 then 64 else 32

theorem print_signed_toNat {w : Nat} (hw : 0 < w) (v : BitVec w) :
    print_signed v.toNat w = decimal v.toInt := by
  have hlt := v.isLt
  have hpow : 2 ^ w = 2 * 2 ^ (w - 1) := by
    rw [← Nat.pow_succ', Nat.succ_eq_add_one, Nat.sub_add_cancel hw]
  have hint := BitVec.toInt_eq_toNat_cond v
  rw [print_signed, decimal]
  split <;> rename_i hsmall
  · rw [if_pos (by omega)] at hint
    rw [hint, if_neg (by omega), Int.natAbs_natCast]
  · rw [if_neg (by omega)] at hint
    have habs : v.toInt.natAbs = 2 ^ w - v.toNat := by omega
    rw [habs, if_pos (by omega)]

section

variable {string_at : Nat → List UInt8} {a : Arg} {word l : Nat}

theorem Encodes.signed (h : Encodes string_at a word) {v : Int} (hv : signedArg l a = some v) :
    print_signed (word % 2 ^ argBits l) (argBits l) = decimal v := by
  cases h <;> rcases l with _ | _ | _ | l <;> cases hv
  all_goals
    rw [← print_signed_toNat (by decide)]
    exact congrArg (print_signed · _) (Nat.mod_eq_of_lt (BitVec.isLt _))

theorem Encodes.unsigned (h : Encodes string_at a word) {v : Nat}
    (hv : unsignedArg l a = some v) : word % 2 ^ argBits l = v := by
  cases h <;> rcases l with _ | _ | _ | l <;> cases hv
  all_goals exact Nat.mod_eq_of_lt (BitVec.isLt _)

variable {args rest : List Arg} {words : List Nat} {text : List UInt8}

/-! ## Directives -/

theorem shown_conv {k : Conv} {literal : Nat → UInt8 → List UInt8}
    (hargs : List.Forall₂ (Encodes string_at) args words)
    (h : (Piece.conv l k).shown literal args = some (text, rest)) :
    ∃ a word words', words = word :: words' ∧ Encodes string_at a word ∧
      k.shown l a = some text ∧ List.Forall₂ (Encodes string_at) rest words' := by
  cases hargs with
  | nil => cases h
  | cons ha hrest =>
    obtain ⟨s, hs, h⟩ := Option.map_eq_some_iff.mp h
    cases h
    exact ⟨_, _, _, rfl, ha, hs, hrest⟩

theorem Encodes.shown_unsigned (ha : Encodes string_at a word) {base : Nat} {uppercase : Bool}
    (h : (unsignedArg l a).map (print_unsigned · base uppercase) = some text) :
    print_unsigned (word % 2 ^ argBits l) base uppercase = text := by
  obtain ⟨v, hv, rfl⟩ := Option.map_eq_some_iff.mp h
  rw [ha.unsigned hv]

theorem conversion_eq (hargs : List.Forall₂ (Encodes string_at) args words) {c : UInt8}
    (h : (directive l c).shown withoutL args = some (text, rest)) :
    ∃ words', conversion string_at (argBits l) c words = (text, words') ∧
      List.Forall₂ (Encodes string_at) rest words' := by
  unfold directive at h
  unfold conversion
  dsimp only
  split_ifs at h ⊢
  · obtain ⟨a, word, words', rfl, ha, hk, hrest⟩ := shown_conv hargs h
    obtain ⟨v, hv, rfl⟩ := Option.map_eq_some_iff.mp hk
    exact ⟨words', Prod.ext (ha.signed hv) rfl, hrest⟩
  · obtain ⟨a, word, words', rfl, ha, hk, hrest⟩ := shown_conv hargs h
    exact ⟨words', Prod.ext (ha.shown_unsigned hk) rfl, hrest⟩
  · obtain ⟨a, word, words', rfl, ha, hk, hrest⟩ := shown_conv hargs h
    exact ⟨words', Prod.ext (ha.shown_unsigned hk) rfl, hrest⟩
  · obtain ⟨a, word, words', rfl, ha, hk, hrest⟩ := shown_conv hargs h
    exact ⟨words', Prod.ext (ha.shown_unsigned hk) rfl, hrest⟩
  · obtain ⟨a, word, words', rfl, ha, hk, hrest⟩ := shown_conv hargs h
    cases ha <;> cases hk
    exact ⟨words', rfl, hrest⟩
  · rename_i hnull
    obtain ⟨a, word, words', rfl, ha, hk, hrest⟩ := shown_conv hargs h
    rw [List.headD_cons] at hnull
    cases ha <;> cases hk
    · exact ⟨words', rfl, hrest⟩
    · rename_i h0 h32 _
      exact absurd ((Nat.mod_eq_of_lt h32).symm.trans hnull) h0
  · rename_i hnull
    obtain ⟨a, word, words', rfl, ha, hk, hrest⟩ := shown_conv hargs h
    rw [List.headD_cons] at hnull ⊢
    cases ha <;> cases hk
    · exact absurd rfl hnull
    · rename_i h32 hs
      rw [Nat.mod_eq_of_lt h32]
      exact ⟨words', Prod.ext hs rfl, hrest⟩
  · cases h
    exact ⟨words, rfl, hargs⟩

theorem format_eq_expand {state : FormatAt} {fmt : List UInt8}
    (hargs : List.Forall₂ (Encodes string_at) args words) (hnul : 0 ∉ fmt)
    (hwhole : (pieces state fmt).any Piece.isUnfinished = false)
    (h : expand withoutL (pieces state fmt) args = some text) :
    format string_at state (fmt ++ [0]) words = text := by
  induction fmt generalizing state args words text with
  | nil =>
    cases state with
    | text =>
      cases h
      rfl
    | percent | long | longlong => cases hwhole
  | cons c fmt ih =>
    have hc : 0 ≠ c := List.ne_of_not_mem_cons hnul
    have hnul : 0 ∉ fmt := List.not_mem_of_not_mem_cons hnul
    have hdirective : ∀ l, expand withoutL (directive l c :: pieces .text fmt) args = some text →
        (directive l c :: pieces .text fmt).any Piece.isUnfinished = false →
        (conversion string_at (argBits l) c words).1 ++
          format string_at .text (fmt ++ [0]) (conversion string_at (argBits l) c words).2 =
            text := by
      intro l h hwhole
      obtain ⟨s, args', t, hs, ht, rfl⟩ := expand_cons h
      obtain ⟨words', hconv, hrest⟩ := conversion_eq hargs hs
      rw [List.any_cons, directive_finished, Bool.false_or] at hwhole
      rw [hconv, ih hrest hnul hwhole ht]
    cases state with
    | text =>
      rw [pieces] at h hwhole
      rw [List.cons_append, format, if_neg (Ne.symm hc)]
      split_ifs at h hwhole ⊢
      · exact ih hargs hnul hwhole h
      · obtain ⟨s, args', t, hs, ht, rfl⟩ := expand_cons h
        cases hs
        rw [ih hargs hnul hwhole ht]
        rfl
    | percent =>
      rw [pieces] at h hwhole
      rw [List.cons_append, format]
      split_ifs at h hwhole ⊢
      · obtain ⟨s, args', t, hs, ht, rfl⟩ := expand_cons h
        cases hs
        rw [ih hargs hnul hwhole ht]
        rfl
      · exact ih hargs hnul hwhole h
      · exact hdirective 0 h hwhole
    | long =>
      rw [pieces] at h hwhole
      rw [List.cons_append, format]
      split_ifs at h hwhole ⊢
      · exact ih hargs hnul hwhole h
      · exact hdirective 1 h hwhole
    | longlong => exact hdirective 2 h hwhole

/-! ## The buffer -/

theorem cstr_append_cons_nul (s t : List UInt8) : cstr (s ++ 0 :: t) = cstr s := by
  induction s with
  | nil => rfl
  | cons c s ih =>
    unfold cstr at ih ⊢
    rw [List.cons_append, List.takeWhile_cons, List.takeWhile_cons, ih]

theorem Holds.cstr_eq {n : Nat} {before after : Nat → UInt8} (h : Holds n text before after)
    (hn : 0 < n) : cstr ((List.range n).map after) = cstr (text.take (n - 1)) := by
  have hk : min text.length (n - 1) < ((List.range n).map after).length := by
    rw [List.length_map, List.length_range]
    omega
  have hchars : ((List.range n).map after).take (min text.length (n - 1)) =
      text.take (n - 1) := by
    rw [← List.map_take, List.take_range]
    apply List.ext_getElem
    · simp only [List.length_map, List.length_range, List.length_take]
      omega
    · intro i hi _
      simp only [List.length_map, List.length_range] at hi
      simp only [List.getElem_map, List.getElem_range, List.getElem_take]
      exact h.chars i (by omega) (by omega)
  rw [← List.take_append_drop (min text.length (n - 1)) ((List.range n).map after), hchars,
    List.drop_eq_getElem_cons hk, List.getElem_map, List.getElem_range, h.ended hn,
    cstr_append_cons_nul]

/-- The call leaves the text that `snprintf` gives for the same arguments. -/
theorem snprintf_eq_lib_vsnprintf (before : Nat → UInt8) {n : BitVec 32} (hn : 0 < n.toNat)
    {fmt : CString} (hargs : List.Forall₂ (Encodes string_at) args words)
    (hwhole : (pieces .text fmt.bytes).any Piece.isUnfinished = false)
    (h : expand withoutL (pieces .text fmt.bytes) args = some text) (hlen : text.length < 2 ^ 31) :
    ∃ after ret, lib_vsnprintf (some before) n fmt args = some (some after, ret) ∧
      cstr ((List.range n.toNat).map after) = snprintf string_at n.toNat fmt.bytes words := by
  have hloop := format_loop_eq ⟨some before, n, 0⟩ h
  rw [hwhole] at hloop
  obtain ⟨bytes, ret, hcall, -, hbytes⟩ := exact_puts (some before) n hlen
  cases hbytes with
  | some hholds =>
    rename_i after
    refine ⟨after, ret, ?_, ?_⟩
    · rw [lib_vsnprintf, hloop]
      exact hcall
    · rw [hholds.cstr_eq hn, snprintf, format_eq_expand hargs fmt.nul_free hwhole h]

theorem snprintf_share : ∃ after ret,
    lib_vsnprintf (some fun _ => 0) 8 shareFormat [.int (-7), .long 31] = some (some after, ret) ∧
      cstr ((List.range 8).map after) =
        snprintf (fun _ => []) 8 shareFormat.bytes [4294967289, 31] :=
  snprintf_eq_lib_vsnprintf (fun _ => 0) (by decide)
    (.cons (.int (-7)) (.cons (.long 31) .nil)) (by decide)
    (show expand withoutL _ _ = some (ascii "-7 1f%") by decide) (by decide)

end

end vibeos.lib
