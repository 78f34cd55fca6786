-- The second pass of the assembler runs the statements of a program as RV32I does.
import Vibeos.AsmBuild

namespace vibeos.asm

open vibeos.fs vibeos.wget vibeos.Rv32 vibeos.Labelled

/-! ## Numbers -/

/-- The digits read so far, and one more after the other. -/
def horner (base n : Nat) (ds : List Nat) : Nat := ds.foldl (fun v d => v * base + d) n

theorem ofDigits_reverse (base : Nat) (ds : List Nat) :
    Nat.ofDigits base ds.reverse = horner base 0 ds := by
  rw [Nat.ofDigits_eq_foldr, List.foldr_reverse, horner]
  congr 1
  funext v d
  simp [Nat.add_comm, Nat.mul_comm]

theorem parse_digits_eq (base n : Nat) (s : List UInt8) :
    parse_digits base (BitVec.ofNat 32 n) s =
      (s.mapM (digit_value base)).map fun ds => BitVec.ofNat 32 (horner base n ds) := by
  induction s generalizing n with
  | nil => rfl
  | cons c s ih =>
    rw [parse_digits, List.mapM_cons]
    cases digit_value base c with
    | none => rfl
    | some d =>
      have hstep : BitVec.ofNat 32 n * BitVec.ofNat 32 base + BitVec.ofNat 32 d =
          BitVec.ofNat 32 (n * base + d) := by
        rw [BitVec.ofNat_add, BitVec.ofNat_mul]
      simp only [hstep, ih, Option.bind_eq_bind, Option.bind_some]
      cases s.mapM (digit_value base) with
      | none => rfl
      | some ds => rfl

theorem parse_digits_zero (base : Nat) {s : List UInt8} (hs : s ≠ []) :
    parse_digits base 0 s = (number base s).map (BitVec.ofNat 32) := by
  have h := parse_digits_eq base 0 s
  rw [number, if_neg hs, Option.map_map]
  refine h.trans ?_
  congr 1
  funext ds
  rw [Function.comp_apply, ofDigits_reverse]

theorem parse_unsigned_eq (s : List UInt8) :
    parse_unsigned s = (magnitude s).map (BitVec.ofNat 32) := by
  match s with
  | [] => rfl
  | [c] => exact parse_digits_zero 10 (by simp)
  | z :: x :: rest =>
    rw [parse_unsigned, magnitude]
    split
    · split
      · rename_i h
        rw [h]
        rfl
      · rename_i h
        exact parse_digits_zero 16 h
    · exact parse_digits_zero 10 (by simp)

theorem asm_parse_imm_eq (s : List UInt8) :
    asm_parse_imm s = (immValue s).map (BitVec.ofInt 32) := by
  have hneg : (fun v => -v) ∘ BitVec.ofNat 32 = BitVec.ofInt 32 ∘ Int.negOfNat := by
    funext v
    rw [Function.comp_apply, Function.comp_apply, Int.negOfNat_eq, Int.ofNat_eq_natCast,
      BitVec.ofInt_neg, BitVec.ofInt_natCast]
  cases s with
  | nil => rfl
  | cons c rest =>
    rw [asm_parse_imm, immValue]
    split
    · rw [parse_unsigned_eq, Option.map_map]
      rfl
    · split
      · rw [parse_unsigned_eq, Option.map_map, Option.map_map, hneg]
      · rw [parse_unsigned_eq, Option.map_map]
        rfl

/-! ## Registers -/

theorem digit_value_ten (c : UInt8) :
    digit_value 10 c = if is_digit c then some (c.toNat - 48) else none := by
  unfold digit_value
  split
  · rfl
  · simp

theorem parse_reg_number_eq (n : Nat) {s : List UInt8} (hs : s ≠ []) :
    parse_reg_number (BitVec.ofNat 32 n) s =
      (s.mapM (digit_value 10)).bind fun ds =>
        if h : (BitVec.ofNat 32 (horner 10 n ds)).toNat < 32 then some ⟨_, h⟩ else none := by
  induction s generalizing n with
  | nil => exact absurd rfl hs
  | cons c s ih =>
    rw [parse_reg_number, List.mapM_cons, digit_value_ten]
    by_cases hc : is_digit c = true
    · have hstep : BitVec.ofNat 32 n * 10 + BitVec.ofNat 32 (c.toNat - 48) =
          BitVec.ofNat 32 (n * 10 + (c.toNat - 48)) := by
        rw [BitVec.ofNat_add, BitVec.ofNat_mul]
        rfl
      simp only [if_pos hc, hstep, Option.bind_eq_bind, Option.bind_some]
      by_cases hrest : s = []
      · rw [if_pos hrest, hrest]
        rfl
      · rw [if_neg hrest, ih _ hrest]
        cases s.mapM (digit_value 10) with
        | none => rfl
        | some ds => rfl
    · rw [if_neg hc, if_neg hc]
      rfl

theorem regs_lookup_eq (t : List UInt8) :
    regs.lookup t =
      if t = ascii "fp" then some 8 else if h : abiNames.idxOf t < 32 then some ⟨_, h⟩ else none := by
  by_cases ht : t ∈ regs.map Prod.fst
  · obtain ⟨p, hp, rfl⟩ := List.mem_map.mp ht
    revert p
    decide +kernel
  · have hnone : regs.lookup t = none := by
      rw [List.lookup_eq_none_iff]
      intro p hp
      rw [bne_iff_ne]
      intro h
      exact ht (h ▸ List.mem_map_of_mem hp)
    have hsub : ∀ name ∈ abiNames, name ∈ regs.map Prod.fst := by decide +kernel
    have hfp : t ≠ ascii "fp" := by
      intro h
      rw [h] at ht
      exact ht (by decide)
    have habi : ¬ abiNames.idxOf t < 32 := by
      intro h
      exact ht (hsub t (List.idxOf_lt_length_iff.mp h))
    rw [hnone, if_neg hfp, dif_neg habi]

theorem parse_reg_number_zero {s : List UInt8} (hs : s ≠ [])
    (hfits : ∀ n, number 10 s = some n → n < 2147483648) :
    parse_reg_number 0 s =
      (number 10 s).bind fun n => if h : n < 32 then some ⟨n, h⟩ else none := by
  refine (parse_reg_number_eq 0 hs).trans ?_
  rw [number, if_neg hs] at hfits ⊢
  cases hds : s.mapM (digit_value 10) with
  | none => rfl
  | some ds =>
    have hlt : horner 10 0 ds < 2147483648 := by
      rw [← ofDigits_reverse]
      exact hfits _ (by rw [hds]; rfl)
    have hnat : (BitVec.ofNat 32 (horner 10 0 ds)).toNat = horner 10 0 ds := by
      rw [BitVec.toNat_ofNat]
      exact Nat.mod_eq_of_lt (by omega)
    simp only [Option.bind_some, Option.map_some, ofDigits_reverse, hnat]

theorem asm_parse_reg_eq {t : List UInt8}
    (hfits : ∀ ds n, numbered t = some ds → number 10 ds = some n → n < 2147483648) :
    asm_parse_reg t = regNumber t := by
  match t with
  | [] => exact regs_lookup_eq []
  | [c] => exact regs_lookup_eq [c]
  | c :: d :: rest =>
    rw [asm_parse_reg, regNumber]
    rw [numbered] at hfits ⊢
    by_cases h : c = chr 'x' ∧ is_digit d
    · rw [if_pos h] at hfits ⊢
      rw [if_pos h]
      exact parse_reg_number_zero (by simp) fun n => hfits _ n rfl
    · rw [if_neg h, if_neg h]
      exact regs_lookup_eq _

/-! ## Words -/

/-- What is left of a statement behind a word. -/
def behindWord : List (Sep × Token) → List UInt8
  | [] => []
  | (_, t) :: rest => t.bytes ++ argsText rest

theorem Token.dropWhile_sep (t : Token) (rest : List UInt8) :
    (t.bytes ++ rest).dropWhile asm_is_sep = t.bytes ++ rest := by
  cases ht : t.bytes with
  | nil => exact absurd ht t.nonempty
  | cons c s =>
    rw [List.cons_append, List.dropWhile_cons_of_neg]
    rw [t.not_sep c (by rw [ht]; simp)]
    exact Bool.false_ne_true

theorem head_argsText {args : List (Sep × Token)} {c : UInt8} (h : (argsText args).head? = some c) :
    asm_is_sep c = true := by
  cases args with
  | nil => cases h
  | cons a rest =>
    rw [argsText, List.flatMap_cons, List.append_assoc,
      List.head?_append_of_ne_nil _ a.1.nonempty] at h
    exact a.1.sep c (List.mem_of_head? h)

theorem dropWhile_argsText (args : List (Sep × Token)) :
    (argsText args).dropWhile asm_is_sep = behindWord args := by
  cases args with
  | nil => rfl
  | cons a rest =>
    obtain ⟨sep, t⟩ := a
    have htext : argsText ((sep, t) :: rest) = sep.bytes ++ (t.bytes ++ argsText rest) := by
      simp [argsText]
    rw [htext, List.dropWhile_append_of_pos sep.sep, t.dropWhile_sep, behindWord]

theorem asm_next_token_word {t : Token} (ht : t.bytes.length < TOKEN_LEN)
    (args : List (Sep × Token)) :
    asm_next_token TOKEN_LEN (t.bytes ++ argsText args) = (some t.bytes, behindWord args) := by
  have hword : ∀ c ∈ t.bytes, (!asm_is_sep c) = true := by
    intro c hc
    rw [t.not_sep c hc]
    rfl
  have hstop : ∀ c, (argsText args).head? = some c → ¬ (!asm_is_sep c) = true := by
    intro c hc
    rw [head_argsText hc]
    decide
  have htake : (t.bytes ++ argsText args).takeWhile (fun c => !asm_is_sep c) = t.bytes := by
    rw [List.takeWhile_append_of_pos hword]
    cases h : argsText args with
    | nil => simp
    | cons c s =>
      rw [h] at hstop
      rw [List.takeWhile_cons_of_neg (p := fun c => !asm_is_sep c) (hstop c rfl), List.append_nil]
  have hdrop : (t.bytes ++ argsText args).dropWhile (fun c => !asm_is_sep c) = argsText args := by
    rw [List.dropWhile_append_of_pos hword]
    cases h : argsText args with
    | nil => rfl
    | cons c s =>
      rw [h] at hstop
      rw [List.dropWhile_cons_of_neg (p := fun c => !asm_is_sep c) (hstop c rfl)]
  have hne : t.bytes ++ argsText args ≠ [] := List.append_ne_nil_of_left_ne_nil t.nonempty _
  unfold asm_next_token
  simp only [t.dropWhile_sep, if_neg hne, htake, hdrop, dropWhile_argsText]
  rw [List.take_of_length_le (Nat.le_sub_one_of_lt ht)]

/-- Every word of the operands fits in its buffer. -/
def ArgsFit (args : List (Sep × Token)) : Prop := ∀ a ∈ args, a.2.bytes.length < TOKEN_LEN

theorem asm_next_token_behindWord {args : List (Sep × Token)} (h : ArgsFit args) :
    asm_next_token TOKEN_LEN (behindWord args) =
      match args with
      | [] => (none, [])
      | a :: rest => (some a.2.bytes, behindWord rest) := by
  cases args with
  | nil => rfl
  | cons a rest => exact asm_next_token_word (h a (by simp)) rest

theorem two_tokens_behindWord {args : List (Sep × Token)} (h : ArgsFit args) :
    two_tokens (behindWord args) =
      match args with
      | a :: b :: rest => some (a.2.bytes, b.2.bytes, behindWord rest)
      | _ => none := by
  unfold two_tokens
  rw [asm_next_token_behindWord h]
  cases args with
  | nil => rfl
  | cons a rest =>
    simp only
    rw [asm_next_token_behindWord fun b hb => h b (by simp [hb])]
    cases rest with
    | nil => rfl
    | cons b rest => rfl

theorem three_tokens_behindWord {args : List (Sep × Token)} (h : ArgsFit args) :
    three_tokens (behindWord args) =
      match args with
      | a :: b :: c :: _ => some (a.2.bytes, b.2.bytes, c.2.bytes)
      | _ => none := by
  unfold three_tokens
  rw [two_tokens_behindWord h]
  match args with
  | [] => rfl
  | [a] => rfl
  | a :: b :: rest =>
    simp only
    rw [asm_next_token_behindWord fun c hc => h c (by simp [hc])]
    cases rest with
    | nil => rfl
    | cons c rest => rfl

/-! ## What is printed -/

/-- The first bytes of a text, as many as the output holds. -/
def shown (s : List UInt8) : List UInt8 := s.take (OUT_BUF_SIZE - 1)

theorem asm_append_text_shown (s t : List UInt8) :
    asm_append_text (shown s) t = shown (s ++ t) := by
  unfold asm_append_text shown
  rw [List.take_append, List.length_take]
  congr 2
  omega

theorem ascii_append (s t : String) : ascii (s ++ t) = ascii s ++ ascii t := by
  simp [ascii, lit]

theorem toString_negSucc (n : Nat) : toString (Int.negSucc n) = "-" ++ toString (n + 1) := rfl

theorem toInt_of_neg {v : Word} (h : v.toInt < 0) : v.toInt = Int.negSucc ((-v).toNat - 1) := by
  rw [BitVec.toInt_eq_toNat_cond] at h ⊢
  split at h
  · omega
  · rename_i hv
    rw [if_neg hv, BitVec.toNat_neg, Int.negSucc_eq]
    omega

theorem toInt_of_nonneg {v : Word} (h : ¬ v.toInt < 0) : v.toInt = v.toNat := by
  rw [BitVec.toInt_eq_toNat_cond] at h ⊢
  split
  · rfl
  · rename_i hv
    rw [if_neg hv] at h
    omega

theorem asm_append_int32_shown (s : List UInt8) (v : Word) :
    asm_append_int32 (shown s) v = shown (s ++ ascii (toString v.toInt)) := by
  unfold asm_append_int32
  by_cases hv : v.toInt < 0
  · have hpos : (-v).toNat - 1 + 1 = (-v).toNat := by
      have hle := v.isLt
      rw [BitVec.toInt_eq_toNat_cond] at hv
      rw [BitVec.toNat_neg]
      split at hv
      · omega
      · omega
    have hmag : (if v = 0x80000000#32 then asm_append_text (asm_append_text (shown s) (ascii "-"))
          (lib_itoa 0x80000000)
        else asm_append_text (asm_append_text (shown s) (ascii "-")) (lib_itoa (-v).toNat)) =
        asm_append_text (asm_append_text (shown s) (ascii "-")) (lib_itoa (-v).toNat) := by
      split
      · rename_i h
        rw [h]
        rfl
      · rfl
    rw [if_pos hv]
    refine hmag.trans ?_
    rw [asm_append_text_shown, asm_append_text_shown, toInt_of_neg hv, toString_negSucc, hpos,
      ascii_append, List.append_assoc]
    rfl
  · rw [if_neg hv, asm_append_text_shown, toInt_of_nonneg hv]
    rfl

/-! ## One statement -/

/-- The code has the registers of the machine, and what it printed, as far as it fits. -/
structure Matches (s : asm_state) (m : Machine) : Prop where
  regs : ∀ r : Fin 32, s.regs[r] = m.regs.val r
  out : s.out = shown m.printed

theorem Matches.write {s : asm_state} {m : Machine} (h : Matches s m) (rd : Reg) (v : Word) :
    Matches (s.write rd v) { m with regs := m.regs.write rd v } := by
  refine ⟨?_, ?_⟩
  · intro r
    rw [Regs.write_val]
    unfold asm_state.write
    by_cases hrd : rd = 0
    · rw [if_neg (fun hne => hne hrd), if_neg (fun hne => hne.2 hrd)]
      exact h.regs r
    · rw [if_pos hrd]
      by_cases hr : r = rd
      · rw [if_pos ⟨hr, hrd⟩, hr]
        simp
      · rw [if_neg (fun hne => hr hne.1)]
        have hval : rd.val ≠ r.val := fun hv => hr (Fin.ext hv.symm)
        simpa [Vector.getElem_set_ne, hval] using h.regs r
  · unfold asm_state.write
    split
    · exact h.out
    · exact h.out

theorem Matches.goto {s : asm_state} {m : Machine} (h : Matches s m) (pc : Nat) :
    Matches { s with pc := pc } m := ⟨h.regs, h.out⟩

theorem asm_state.write_pc (s : asm_state) (rd : Reg) (v : Word) : (s.write rd v).pc = s.pc := by
  unfold asm_state.write
  split
  · rfl
  · rfl

theorem Matches.print {s : asm_state} {m : Machine} (h : Matches s m) (t : List UInt8) :
    Matches (s.print (shown (m.printed ++ t))) (m.print t) :=
  ⟨h.regs, rfl⟩

/-- What the code does where the machine does `r`. -/
def Simulates (prog : asm_program) (s : asm_state) :
    Option (Machine × Next (List UInt8)) → asm_step → Prop
  | none, step => ∃ msg, step = .fail msg
  | some (m', .fall), step => ∃ s', step = .next s' ∧ s'.pc = s.pc ∧ Matches s' m'
  | some (m', .halt), step => ∃ s', step = .stop s' ∧ Matches s' m'
  | some (m', .branch taken l), step =>
    match asm_find_label prog l with
    | none => ∃ msg, step = .fail msg
    | some target => ∃ s', Matches s' m' ∧ s'.pc = s.pc ∧
        step = if taken then .jump s' target else .next s'

/-! ## The instructions -/

theorem Operation.exec_li (m : Machine) (rd : Reg) (imm : Int) :
    (Operation.li rd imm).exec m =
      some ({ m with regs := m.regs.write rd (BitVec.ofInt 32 imm) }, .fall) := by
  rw [Operation.exec, loadConstant_exec]

theorem Operation.exec_mv (m : Machine) (rd rs1 : Reg) :
    (Operation.mv rd rs1).exec m =
      some ({ m with regs := m.regs.write rd (m.regs.val rs1) }, .fall) := by
  rw [Operation.exec, Base.exec]
  simp

theorem Operation.exec_addi (m : Machine) (rd rs1 : Reg) (imm : Int) :
    (Operation.addi rd rs1 imm).exec m =
      some ({ m with regs := m.regs.write rd (m.regs.val rs1 + BitVec.ofInt 32 imm) }, .fall) := by
  rw [Operation.exec]
  split
  · rename_i h
    rw [Base.exec, signExtend_ofInt h.1 h.2]
  · rfl

theorem Operation.exec_lui (m : Machine) (rd : Reg) (imm : Int) :
    (Operation.lui rd imm).exec m =
      some ({ m with regs := m.regs.write rd (BitVec.ofInt 32 imm <<< 12) }, .fall) := by
  rw [Operation.exec]
  split
  · rename_i h
    rw [Base.exec, append_ofInt h.1 h.2]
  · rfl

theorem Operation.exec_nop (m : Machine) : Operation.nop.exec m = some (m, .fall) := by
  rw [Operation.exec, Base.exec, Regs.write_zero]

section

variable {prog : asm_program} {s : asm_state} {m : Machine} {args : List (Sep × Token)}

/-- The number of a register fits in an `int`. -/
def RegFits (t : List UInt8) : Prop :=
  ∀ ds n, numbered t = some ds → number 10 ds = some n → n < 2147483648

structure Operands (args : List (Sep × Token)) : Prop where
  words : ArgsFit args
  regs : ∀ a ∈ args, RegFits a.2.bytes

def words (args : List (Sep × Token)) : List (List UInt8) := args.map (·.2.bytes)

theorem Simulates.write (hm : Matches s m) (rd : Reg) (v : Word) :
    Simulates prog s (some ({ m with regs := m.regs.write rd v }, .fall)) (.next (s.write rd v)) :=
  ⟨_, rfl, s.write_pc rd v, hm.write rd v⟩

theorem exec_reg_imm_simulates (hm : Matches s m) (hargs : Operands args) (needs bad : String)
    {f : Word → Word} {op : Reg → Int → Operation}
    (hop : ∀ rd imm, (op rd imm).exec m =
      some ({ m with regs := m.regs.write rd (f (BitVec.ofInt 32 imm)) }, .fall)) :
    Simulates prog s ((regImm op (words args)).bind (Operation.exec m))
      (exec_reg_imm needs bad f s (behindWord args)) := by
  unfold exec_reg_imm
  rw [two_tokens_behindWord hargs.words]
  match args with
  | [] => exact ⟨_, rfl⟩
  | [a] => exact ⟨_, rfl⟩
  | a :: b :: rest =>
    simp only [words, List.map_cons, regImm, asm_parse_reg_eq (hargs.regs a (by simp)),
      asm_parse_imm_eq]
    cases regNumber a.2.bytes with
    | none => exact ⟨_, rfl⟩
    | some rd =>
      cases immValue b.2.bytes with
      | none => exact ⟨_, rfl⟩
      | some imm =>
        simp only [Option.bind_some, Option.map_some, hop]
        exact .write hm rd _

theorem exec_mv_simulates (hm : Matches s m) (hargs : Operands args) :
    Simulates prog s ((twoRegs .mv (words args)).bind (Operation.exec m))
      (exec_mv s (behindWord args)) := by
  unfold exec_mv
  rw [two_tokens_behindWord hargs.words]
  match args with
  | [] => exact ⟨_, rfl⟩
  | [a] => exact ⟨_, rfl⟩
  | a :: b :: rest =>
    simp only [words, List.map_cons, twoRegs, asm_parse_reg_eq (hargs.regs a (by simp)),
      asm_parse_reg_eq (hargs.regs b (by simp))]
    cases regNumber a.2.bytes with
    | none => exact ⟨_, rfl⟩
    | some rd =>
      cases regNumber b.2.bytes with
      | none => exact ⟨_, rfl⟩
      | some rs1 =>
        simp only [Option.bind_some, Option.map_some, Operation.exec_mv, hm.regs]
        exact .write hm rd _

theorem exec_addi_simulates (hm : Matches s m) (hargs : Operands args) :
    Simulates prog s ((regsImm .addi (words args)).bind (Operation.exec m))
      (exec_addi s (behindWord args)) := by
  unfold exec_addi
  rw [three_tokens_behindWord hargs.words]
  match args with
  | [] => exact ⟨_, rfl⟩
  | [a] => exact ⟨_, rfl⟩
  | [a, b] => exact ⟨_, rfl⟩
  | a :: b :: c :: rest =>
    simp only [words, List.map_cons, regsImm, asm_parse_reg_eq (hargs.regs a (by simp)),
      asm_parse_reg_eq (hargs.regs b (by simp)), asm_parse_imm_eq]
    cases regNumber a.2.bytes with
    | none => exact ⟨_, rfl⟩
    | some rd =>
      cases regNumber b.2.bytes with
      | none => exact ⟨_, rfl⟩
      | some rs1 =>
        cases immValue c.2.bytes with
        | none => exact ⟨_, rfl⟩
        | some imm =>
          simp only [Option.bind_some, Option.map_some, Operation.exec_addi, hm.regs]
          exact .write hm rd _

theorem exec_add_sub_simulates (hm : Matches s m) (hargs : Operands args) {is_add : Bool}
    {op : Reg → Reg → Reg → Operation}
    (hop : ∀ rd rs1 rs2, (op rd rs1 rs2).exec m =
      some ({ m with regs := m.regs.write rd (if is_add then m.regs.val rs1 + m.regs.val rs2
        else m.regs.val rs1 - m.regs.val rs2) }, .fall)) :
    Simulates prog s ((threeRegs op (words args)).bind (Operation.exec m))
      (exec_add_sub is_add s (behindWord args)) := by
  unfold exec_add_sub
  rw [three_tokens_behindWord hargs.words]
  match args with
  | [] => exact ⟨_, rfl⟩
  | [a] => exact ⟨_, rfl⟩
  | [a, b] => exact ⟨_, rfl⟩
  | a :: b :: c :: rest =>
    simp only [words, List.map_cons, threeRegs, asm_parse_reg_eq (hargs.regs a (by simp)),
      asm_parse_reg_eq (hargs.regs b (by simp)), asm_parse_reg_eq (hargs.regs c (by simp))]
    cases regNumber a.2.bytes with
    | none => exact ⟨_, rfl⟩
    | some rd =>
      cases regNumber b.2.bytes with
      | none => exact ⟨_, rfl⟩
      | some rs1 =>
        cases regNumber c.2.bytes with
        | none => exact ⟨_, rfl⟩
        | some rs2 =>
          simp only [Option.bind_some, Option.map_some, hop, hm.regs]
          exact .write hm rd _

theorem exec_j_simulates (hm : Matches s m) (hargs : Operands args) :
    Simulates prog s (((words args).head?.map .j).bind (Operation.exec m))
      (exec_j prog s (behindWord args)) := by
  unfold exec_j
  rw [asm_next_token_behindWord hargs.words]
  cases args with
  | nil => exact ⟨_, rfl⟩
  | cons a rest =>
    simp only [words, List.map_cons, List.head?_cons, Option.map_some, Option.bind_some,
      Operation.exec, Simulates]
    cases asm_find_label prog a.2.bytes with
    | none => exact ⟨_, rfl⟩
    | some target => exact ⟨s, hm, rfl, rfl⟩

theorem exec_beq_bne_simulates (hm : Matches s m) (hargs : Operands args) {is_beq : Bool}
    {op : Reg → Reg → List UInt8 → Operation}
    (hop : ∀ rs1 rs2 l, (op rs1 rs2 l).exec m =
      some (m, .branch (is_beq == decide (m.regs.val rs1 = m.regs.val rs2)) l)) :
    Simulates prog s ((regsLabel op (words args)).bind (Operation.exec m))
      (exec_beq_bne is_beq prog s (behindWord args)) := by
  unfold exec_beq_bne
  rw [three_tokens_behindWord hargs.words]
  match args with
  | [] => exact ⟨_, rfl⟩
  | [a] => exact ⟨_, rfl⟩
  | [a, b] => exact ⟨_, rfl⟩
  | a :: b :: c :: rest =>
    simp only [words, List.map_cons, regsLabel, asm_parse_reg_eq (hargs.regs a (by simp)),
      asm_parse_reg_eq (hargs.regs b (by simp))]
    cases regNumber a.2.bytes with
    | none => exact ⟨_, rfl⟩
    | some rs1 =>
      cases regNumber b.2.bytes with
      | none => exact ⟨_, rfl⟩
      | some rs2 =>
        simp only [Option.bind_some, Option.map_some, hop, Simulates]
        cases asm_find_label prog c.2.bytes with
        | none => exact ⟨_, rfl⟩
        | some target =>
          refine ⟨s, hm, rfl, ?_⟩
          simp only [hm.regs]
          cases is_beq with
          | true => simp
          | false => simp

theorem exec_ecall_simulates (hm : Matches s m) : Simulates prog s m.ecall (exec_ecall s) := by
  unfold exec_ecall Machine.ecall
  have hsysno : s.regs[17] = m.regs.val 17 := hm.regs 17
  have harg : s.regs[10] = m.regs.val 10 := hm.regs 10
  simp only [hsysno, harg, hm.out, asm_append_int32_shown, asm_append_text_shown,
    List.append_assoc]
  split
  · exact ⟨_, rfl, rfl, hm.print _⟩
  · split
    · exact ⟨_, rfl, rfl, hm.print _⟩
    · split
      · exact ⟨s, rfl, hm⟩
      · exact ⟨_, rfl⟩

end

structure StmtFits (st : Stmt) : Prop where
  text_lt : st.text.length < ASM_LINE_LEN
  token_lt : ∀ t ∈ st.tokens, t.length < TOKEN_LEN
  regs : ∀ t ∈ st.tokens, RegFits t

theorem asm_exec_inst_simulates {prog : asm_program} {s : asm_state} {m : Machine} {st : Stmt}
    (hm : Matches s m) (hst : StmtFits st) (line_no : Nat) :
    Simulates prog s (sem st m) (asm_exec_inst prog s st.text line_no) := by
  have hargs : Operands st.args := by
    refine ⟨?_, ?_⟩
    · intro a ha
      exact hst.token_lt _ (List.mem_cons_of_mem _ (List.mem_map_of_mem ha))
    · intro a ha
      exact hst.regs _ (List.mem_cons_of_mem _ (List.mem_map_of_mem ha))
  have hop : st.op.bytes.length < TOKEN_LEN := hst.token_lt _ List.mem_cons_self
  unfold asm_exec_inst sem
  rw [List.take_of_length_le (Nat.le_sub_one_of_lt hst.text_lt), Stmt.text,
    asm_next_token_word hop, Stmt.tokens, ← words]
  simp only [operation]
  generalize st.op.bytes = op
  by_cases hli : op = ascii "li"
  · rw [if_pos hli, if_pos hli]
    exact exec_reg_imm_simulates hm hargs _ _ (Operation.exec_li m)
  rw [if_neg hli, if_neg hli]
  by_cases hmv : op = ascii "mv"
  · rw [if_pos hmv, if_pos hmv]
    exact exec_mv_simulates hm hargs
  rw [if_neg hmv, if_neg hmv]
  by_cases haddi : op = ascii "addi"
  · rw [if_pos haddi, if_pos haddi]
    exact exec_addi_simulates hm hargs
  rw [if_neg haddi, if_neg haddi]
  by_cases hadd : op = ascii "add"
  · rw [if_pos hadd, if_pos (Or.inl hadd)]
    exact exec_add_sub_simulates hm hargs fun rd rs1 rs2 => by simp [hadd, Operation.exec, Base.exec]
  rw [if_neg hadd]
  by_cases hsub : op = ascii "sub"
  · rw [if_pos hsub, if_pos (Or.inr hsub)]
    exact exec_add_sub_simulates hm hargs fun rd rs1 rs2 => by simp [hadd, Operation.exec, Base.exec]
  rw [if_neg hsub, if_neg (not_or.mpr ⟨hadd, hsub⟩)]
  by_cases hlui : op = ascii "lui"
  · rw [if_pos hlui, if_pos hlui]
    exact exec_reg_imm_simulates hm hargs _ _ (Operation.exec_lui m)
  rw [if_neg hlui, if_neg hlui]
  by_cases hj : op = ascii "j"
  · rw [if_pos hj, if_pos hj]
    exact exec_j_simulates hm hargs
  rw [if_neg hj, if_neg hj]
  by_cases hbeq : op = ascii "beq"
  · rw [if_pos hbeq, if_pos (Or.inl hbeq)]
    exact exec_beq_bne_simulates hm hargs fun rs1 rs2 l => by simp [hbeq, Operation.exec]
  rw [if_neg hbeq]
  by_cases hbne : op = ascii "bne"
  · rw [if_pos hbne, if_pos (Or.inr hbne)]
    exact exec_beq_bne_simulates hm hargs fun rs1 rs2 l => by simp [hbeq, Operation.exec]
  rw [if_neg hbne, if_neg (not_or.mpr ⟨hbeq, hbne⟩)]
  by_cases hecall : op = ascii "ecall"
  · rw [if_pos hecall, if_pos hecall]
    exact exec_ecall_simulates hm
  rw [if_neg hecall, if_neg hecall]
  by_cases hnop : op = ascii "nop"
  · rw [if_pos hnop, if_pos hnop]
    simp only [Option.bind_some, Operation.exec_nop]
    exact ⟨s, rfl, rfl, hm⟩
  rw [if_neg hnop, if_neg hnop]
  exact ⟨_, rfl⟩

/-! ## Runs -/

/-- What the tool reports about a run: the registers at its end, and what was printed. -/
def Reports : Verdict Machine → asm_result → Prop
  | .halted m, r =>
    r.ok = true ∧ (∀ x : Fin 32, r.regs[x] = m.regs.val x) ∧
      r.out = if m.printed = [] then ascii ">> asm done" else shown m.printed
  | .stuck m, r => r.ok = false ∧ ∀ x : Fin 32, r.regs[x] = m.regs.val x
  | .running m, r =>
    r.ok = false ∧ (∀ x : Fin 32, r.regs[x] = m.regs.val x) ∧ r.out = ascii "asm: step limit reached"

theorem shown_eq_nil {s : List UInt8} : shown s = [] ↔ s = [] := by
  rw [shown, List.take_eq_nil_iff]
  exact or_iff_right (by decide)

theorem Matches.reports {s : asm_state} {m : Machine} (h : Matches s m) :
    Reports (.halted m) ⟨true, if s.out = [] then ascii ">> asm done" else s.out, s.regs⟩ := by
  refine ⟨rfl, h.regs, ?_⟩
  simp only [h.out, shown_eq_nil]

theorem asm_exec_loop_reports {prog : asm_program} {insts : List Stmt}
    (hinsts : prog.insts = insts.map Stmt.text) (hfits : ∀ st ∈ insts, StmtFits st)
    (left : Nat) {s : asm_state} {m : Machine} (hm : Matches s m) :
    Reports (runAt sem insts (asm_find_label prog) left s.pc m) (asm_exec_loop prog left s) := by
  induction left generalizing s m with
  | zero =>
    unfold asm_exec_loop runAt
    rw [hinsts, List.getElem?_map]
    cases insts[s.pc]? with
    | none => exact hm.reports
    | some st => exact ⟨rfl, hm.regs, rfl⟩
  | succ left ih =>
    unfold asm_exec_loop runAt
    rw [hinsts, List.getElem?_map]
    cases hst : insts[s.pc]? with
    | none => exact hm.reports
    | some st =>
      have hsim : Simulates prog s (sem st m)
          (asm_exec_inst prog s st.text (prog.line_nos.getD s.pc 0)) :=
        asm_exec_inst_simulates hm (hfits st (List.mem_of_getElem? hst)) _
      simp only [Option.map_some]
      cases hsem : sem st m with
      | none =>
        rw [hsem] at hsim
        obtain ⟨msg, hfail⟩ := hsim
        rw [hfail]
        exact ⟨rfl, hm.regs⟩
      | some r =>
        obtain ⟨m', next⟩ := r
        rw [hsem] at hsim
        cases next with
        | fall =>
          obtain ⟨s', hnext, hpc, hm'⟩ := hsim
          rw [hnext, ← hpc]
          exact ih (hm'.goto (s'.pc + 1))
        | halt =>
          obtain ⟨s', hstop, hm'⟩ := hsim
          rw [hstop]
          exact hm'.reports
        | branch taken l =>
          simp only [Simulates] at hsim ⊢
          cases hfind : asm_find_label prog l with
          | none =>
            rw [hfind] at hsim
            obtain ⟨msg, hfail⟩ := hsim
            rw [hfail]
            exact ⟨rfl, hm.regs⟩
          | some target =>
            rw [hfind] at hsim
            obtain ⟨s', hm', hpc, hstep⟩ := hsim
            cases taken with
            | true =>
              rw [hstep]
              exact ih (hm'.goto target)
            | false =>
              rw [hstep, ← hpc]
              exact ih (hm'.goto (s'.pc + 1))

/-! ## Programs -/

variable {src : List SourceLine}

theorem Fits.stmt (h : Fits src) {st : Stmt} (hst : st ∈ code (lines src)) : StmtFits st :=
  ⟨h.text_lt st hst, h.token_lt st hst, h.register_lt st hst⟩

theorem Fits.short (h : Fits src) : NamesShort src := by
  intro name hname
  refine ⟨h.label_lt name hname, ?_⟩
  obtain ⟨ln, hln, hmem⟩ := List.mem_flatMap.mp hname
  obtain ⟨src, _, rfl⟩ := List.mem_map.mp hln
  obtain ⟨l, _, rfl⟩ := List.mem_map.mp hmem
  intro h0
  exact absurd (l.1.ident 0 h0) (by decide)

theorem asm_find_label_program (h : Fits src) (l : List UInt8) :
    asm_find_label (program src) l = address l (symbols (lines src) 0) := by
  apply asm_find_label_entries rfl
  intro sym hsym
  apply h.short
  rw [← symbols_fst (lines src) 0]
  exact List.mem_map_of_mem hsym

theorem asm_find_label_behind (h : Fits src) (l : List UInt8) :
    (behind l (lines src) = none ∧ asm_find_label (program src) l = none) ∨
      ∃ there pc, behind l (lines src) = some there ∧
        asm_find_label (program src) l = some pc ∧
        (program src).insts[pc]? = (fetch there).map fun p => p.1.text := by
  rw [asm_find_label_program h]
  rcases address_symbols l (lines src) 0 with hnone | ⟨pre, there, hsrc, hbehind, haddress⟩
  · exact Or.inl hnone
  · refine Or.inr ⟨there, _, hbehind, haddress, ?_⟩
    rw [Nat.zero_add, program, List.getElem?_map]
    rcases getElem_code hsrc with ⟨hf, hget⟩ | ⟨i, rest, _, hf, hget, _, _⟩
    · rw [hf, hget]
      rfl
    · rw [hf, hget]
      rfl

theorem asm_exec_program_reports (h : Fits src) :
    Reports (execute src ASM_MAX_STEPS) (asm_exec_program (program src)) := by
  have hfind : asm_find_label (program src) = fun l => address l (symbols (lines src) 0) := by
    funext l
    exact asm_find_label_program h l
  have hstart : Matches ⟨0, Vector.replicate 32 0, []⟩ Machine.initial := by
    refine ⟨?_, rfl⟩
    intro r
    simp [Machine.initial, Regs.zero]
  rw [execute, run_eq_runAt sem (lines src) ASM_MAX_STEPS [] (lines src) rfl, ← hfind]
  exact asm_exec_loop_reports rfl (fun st hst => h.stmt hst) _ hstart

end vibeos.asm
