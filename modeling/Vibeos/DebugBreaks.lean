-- Temporary breakpoints of the debugger. One breakpoint always comes off cleanly. Two come
-- off cleanly exactly when the second does not save bytes that the first one changed.
import Vibeos.Debugger

namespace vibeos.jit_debug

open vibeos.Mem vibeos.Rv32

variable {s s' : JitDebug} {m : Mem} {a b : Word}

/-! ## Loads -/

theorem toNat_load16 (m : Mem) (a : Word) : (load16 m a).toNat = readLE m a.toNat 2 := by
  have hlt : readLE m a.toNat 2 < 2 ^ 16 := readLE_lt m _ 2
  rw [load16, BitVec.toNat_ofNat, Nat.mod_eq_of_lt hlt]

theorem toNat_load32 (m : Mem) (a : Word) : (load32 m a).toNat = readLE m a.toNat 4 := by
  have hlt : readLE m a.toNat 4 < 2 ^ 32 := readLE_lt m _ 4
  rw [load32, BitVec.toNat_ofNat, Nat.mod_eq_of_lt hlt]

theorem insn_len_cases (m : Mem) (a : Word) : insn_len m a = 2 ∨ insn_len m a = 4 := by
  unfold insn_len
  split
  · exact Or.inr rfl
  · exact Or.inl rfl

theorem load32_low (m : Mem) (a : Word) : (load32 m a).setWidth 16 = load16 m a := by
  apply BitVec.eq_of_toNat_eq
  rw [BitVec.toNat_setWidth, toNat_load32, toNat_load16]
  have hlt : readLE m a.toNat 2 < 2 ^ 16 := readLE_lt m _ 2
  simp only [readLE] at hlt ⊢
  omega

theorem insn_is_rv32_word_iff : insn_is_rv32_word (load32 m a) ↔ insn_len m a = 4 := by
  have hlow : (load32 m a &&& 3#32).setWidth 16 = load16 m a &&& 3#16 := by
    rw [BitVec.setWidth_and, load32_low]
    rfl
  have hlt : (load32 m a &&& 3#32).toNat ≤ 3 := by
    rw [BitVec.toNat_and]
    exact Nat.and_le_right
  have hiff : load32 m a &&& 3#32 = 3#32 ↔ load16 m a &&& 3#16 = 3#16 := by
    rw [← hlow, ← BitVec.toNat_inj, ← BitVec.toNat_inj, BitVec.toNat_setWidth,
      Nat.mod_eq_of_lt (by omega)]
    rfl
  simp only [insn_is_rv32_word, insn_len, decide_eq_true_eq, hiff]
  split <;> simp_all

/-! ## Which addresses take a breakpoint -/

/-- The address is in the text, and the debugger knows the instruction there. -/
def Armable (s : JitDebug) (a : Word) : Prop :=
  addr_stepable s a ∧ (insn_len s.mem a = 2 → c_insn_valid (load16 s.mem a))

instance (s : JitDebug) (a : Word) : Decidable (Armable s a) := by
  unfold Armable
  infer_instance

def break_word (len : Nat) : Nat := if len = 2 then C_EBREAK else EBREAK

/-- The memory with a break instruction at `a`. -/
def with_break (m : Mem) (a : Word) : Mem :=
  writeLE m a.toNat (insn_len m a) (break_word (insn_len m a))

theorem with_break_out {x : Nat} (h : x < a.toNat ∨ a.toNat + insn_len m a ≤ x) :
    with_break m a x = m x :=
  writeLE_out h

def saved (m : Mem) (a : Word) : TempBreak where
  active := true
  addr := a
  orig := if insn_len m a = 2 then (load16 m a).setWidth 32 else load32 m a
  len := insn_len m a

theorem Armable.congr (hmem : s'.mem = s.mem) (hlo : s'.code_lo = s.code_lo)
    (hhi : s'.code_hi = s.code_hi) : Armable s' a ↔ Armable s a := by
  unfold Armable addr_stepable
  rw [hmem, hlo, hhi]

theorem add_temp_break_of_not_armable (h : ¬ Armable s a) : add_temp_break s a = s := by
  unfold add_temp_break
  split
  · rfl
  rename_i hstep
  split
  · rfl
  dsimp only
  split
  · rfl
  rename_i hvalid
  exfalso
  exact h ⟨not_not.mp hstep, fun h2 => by_contra fun hv => hvalid ⟨h2, hv⟩⟩

theorem add_temp_break_of_set {i : Fin 2} (hi : (s.temp_breaks i).active)
    (ha : (s.temp_breaks i).addr = a) : add_temp_break s a = s := by
  unfold add_temp_break
  split
  · rfl
  · exact if_pos ⟨i, hi, ha⟩

theorem add_temp_break_of_armable (h : Armable s a)
    (hnew : ∀ i, (s.temp_breaks i).active → (s.temp_breaks i).addr ≠ a) :
    add_temp_break s a =
      match (List.finRange 2).find? fun i => !(s.temp_breaks i).active with
      | none => s
      | some i => { s with
          mem := with_break s.mem a
          temp_breaks := Function.update s.temp_breaks i (saved s.mem a) } := by
  obtain ⟨hstep, hvalid⟩ := h
  have hset : ¬ ∃ i, (s.temp_breaks i).active ∧ (s.temp_breaks i).addr = a := fun ⟨i, hi, ha⟩ =>
    hnew i hi ha
  unfold add_temp_break
  rw [if_neg (not_not.mpr hstep), if_neg hset]
  dsimp only
  rw [if_neg fun h => h.2 (hvalid h.1), if_neg fun h => h.2
    (insn_is_rv32_word_iff.mpr ((insn_len_cases s.mem a).resolve_left h.1))]
  unfold with_break saved break_word
  rcases insn_len_cases s.mem a with hlen | hlen
  · rw [hlen]
    rfl
  · rw [hlen]
    rfl

/-! ## Restoring -/

theorem restore_slot_inactive {i : Fin 2} (h : (s.temp_breaks i).active = false) :
    restore_slot s i = s := by
  unfold restore_slot
  simp [h]

theorem restore_slot_saved {i : Fin 2} (h : s.temp_breaks i = saved m a) :
    restore_slot s i = { s with
      mem := patch s.mem a.toNat (insn_len m a) fun k => m (a.toNat + k)
      temp_breaks := Function.update s.temp_breaks i { saved m a with active := false } } := by
  unfold restore_slot
  rw [h]
  have hactive : (saved m a).active := rfl
  rw [if_neg (not_not.mpr hactive)]
  congr 1
  unfold saved
  dsimp only
  rcases insn_len_cases m a with hlen | hlen
  · rw [hlen, if_pos rfl, if_pos rfl, BitVec.toNat_setWidth, toNat_load16,
      Nat.mod_eq_of_lt (Nat.lt_trans (readLE_lt m a.toNat 2) (by decide)), writeLE_readLE]
  · rw [hlen, if_neg (by decide), if_neg (by decide), toNat_load32, writeLE_readLE]

theorem restore_temp_breaks_eq (s : JitDebug) :
    restore_temp_breaks s = restore_slot (restore_slot s 0) 1 := rfl

theorem code_restore_slot (s : JitDebug) (i : Fin 2) :
    (restore_slot s i).code_lo = s.code_lo ∧ (restore_slot s i).code_hi = s.code_hi := by
  unfold restore_slot
  dsimp only
  split
  · exact ⟨rfl, rfl⟩
  · exact ⟨rfl, rfl⟩

theorem active_restore_slot (s : JitDebug) (i j : Fin 2) :
    ((restore_slot s i).temp_breaks j).active =
      if j = i then false else (s.temp_breaks j).active := by
  unfold restore_slot
  dsimp only
  by_cases hij : j = i
  · subst hij
    split <;> simp_all
  · split <;> simp [hij]

theorem noBreaks_restore (s : JitDebug) : NoBreaks (restore_temp_breaks s) := by
  intro i
  rw [restore_temp_breaks_eq, active_restore_slot, active_restore_slot]
  match i with
  | 0 => rfl
  | 1 => rfl

/-! ## One and two breakpoints -/

/-- The state with a break instruction at `a` in its memory. -/
def broken (s : JitDebug) (a : Word) : JitDebug := { s with mem := with_break s.mem a }

/-- The first slot is set at `a`, over the memory of `s`. -/
structure OneBreak (s : JitDebug) (a : Word) (s' : JitDebug) : Prop where
  slot0 : s'.temp_breaks 0 = saved s.mem a
  slot1 : (s'.temp_breaks 1).active = false
  mem : s'.mem = with_break s.mem a
  code_lo : s'.code_lo = s.code_lo
  code_hi : s'.code_hi = s.code_hi

/-- Then the second slot is set at `b`. -/
structure TwoBreaks (s : JitDebug) (a b : Word) (s' : JitDebug) : Prop where
  slot0 : s'.temp_breaks 0 = saved s.mem a
  slot1 : s'.temp_breaks 1 = saved (with_break s.mem a) b
  mem : s'.mem = with_break (with_break s.mem a) b
  code_lo : s'.code_lo = s.code_lo
  code_hi : s'.code_hi = s.code_hi

theorem oneBreak_add (hs : NoBreaks s) (h : Armable s a) : OneBreak s a (add_temp_break s a) := by
  have hfree : (List.finRange 2).find? (fun i => !(s.temp_breaks i).active) = some 0 := by
    simp [List.finRange, hs 0]
  rw [add_temp_break_of_armable h fun i hi => by simp [hs i] at hi, hfree]
  exact ⟨by simp, by simp [hs 1], rfl, rfl, rfl⟩

theorem OneBreak.armable (h : OneBreak s a s') : Armable s' b ↔ Armable (broken s a) b :=
  Armable.congr h.mem h.code_lo h.code_hi

theorem OneBreak.add_same (h : OneBreak s a s') (hb : b = a ∨ ¬ Armable (broken s a) b) :
    add_temp_break s' b = s' := by
  rcases hb with rfl | hb
  · exact add_temp_break_of_set (i := 0) (by rw [h.slot0]; rfl) (by rw [h.slot0]; rfl)
  · exact add_temp_break_of_not_armable fun harm => hb (h.armable.mp harm)

theorem OneBreak.add (h : OneBreak s a s') (hb : b ≠ a) (harm : Armable (broken s a) b) :
    TwoBreaks s a b (add_temp_break s' b) := by
  have h0 : (s'.temp_breaks 0).active := by
    rw [h.slot0]
    rfl
  have hfree : (List.finRange 2).find? (fun i => !(s'.temp_breaks i).active) = some 1 := by
    simp [List.finRange, h0, h.slot1]
  have hnew : ∀ i, (s'.temp_breaks i).active → (s'.temp_breaks i).addr ≠ b := by
    intro i hi
    match i with
    | 0 =>
      rw [h.slot0]
      exact hb.symm
    | 1 => simp [h.slot1] at hi
  rw [add_temp_break_of_armable (h.armable.mpr harm) hnew, hfree]
  refine ⟨?_, ?_, ?_, h.code_lo, h.code_hi⟩
  · simp [h.slot0]
  · simp [h.mem]
  · simp [h.mem]

theorem TwoBreaks.add (h : TwoBreaks s a b s') (x : Word) : add_temp_break s' x = s' := by
  have h0 : (s'.temp_breaks 0).active := by
    rw [h.slot0]
    rfl
  have h1 : (s'.temp_breaks 1).active := by
    rw [h.slot1]
    rfl
  have hfree : (List.finRange 2).find? (fun i => !(s'.temp_breaks i).active) = none := by
    simp [List.finRange, h0, h1]
  by_cases harm : Armable s' x
  · by_cases hset : ∃ i, (s'.temp_breaks i).active ∧ (s'.temp_breaks i).addr = x
    · obtain ⟨i, hi, hx⟩ := hset
      exact add_temp_break_of_set hi hx
    · rw [add_temp_break_of_armable harm fun i hi hx => hset ⟨i, hi, hx⟩, hfree]
  · exact add_temp_break_of_not_armable harm

theorem OneBreak.restore (h : OneBreak s a s') : (restore_temp_breaks s').mem = s.mem := by
  rw [restore_temp_breaks_eq, restore_slot_saved h.slot0, restore_slot_inactive]
  · dsimp only
    rw [h.mem, with_break, writeLE, patch_patch_self]
    exact patch_eq_self fun i _ => rfl
  · exact h.slot1

theorem TwoBreaks.restore (h : TwoBreaks s a b s') : (restore_temp_breaks s').mem =
    patch s.mem b.toNat (insn_len (with_break s.mem a) b)
      fun k => with_break s.mem a (b.toNat + k) := by
  have hslot : (restore_slot s' 0).temp_breaks 1 = saved (with_break s.mem a) b := by
    rw [restore_slot_saved h.slot0, ← h.slot1]
    simp
  rw [restore_temp_breaks_eq, restore_slot_saved hslot, restore_slot_saved h.slot0]
  dsimp only
  rw [h.mem]
  funext x
  by_cases hb : b.toNat ≤ x ∧ x < b.toNat + insn_len (with_break s.mem a) b
  · rw [patch_in hb.1 hb.2, patch_in hb.1 hb.2]
  · rw [patch_out (a := b.toNat) (by omega), patch_out (a := b.toNat) (by omega)]
    by_cases ha : a.toNat ≤ x ∧ x < a.toNat + insn_len s.mem a
    · rw [patch_in ha.1 ha.2]
      congr 1
      omega
    · rw [patch_out (by omega), with_break_out (by omega), with_break_out (by omega)]

/-! ## Rounds -/

/-- A round: breakpoints at all of the addresses, then all of them are restored. -/
def round (s : JitDebug) (addrs : List Word) : JitDebug :=
  restore_temp_breaks (addrs.foldl add_temp_break s)

/-- The breakpoints that a round sets: the first of the addresses that takes one, and the
first one behind it that takes one beside it. -/
def Sets (s : JitDebug) (addrs : List Word) (a b : Word) : Prop :=
  ∃ pre mid post, addrs = pre ++ a :: (mid ++ b :: post) ∧
    (∀ x ∈ pre, ¬ Armable s x) ∧ Armable s a ∧
    (∀ x ∈ mid, x = a ∨ ¬ Armable (broken s a) x) ∧ b ≠ a ∧ Armable (broken s a) b

/-- The instruction at `b` has a byte that the break instruction at `a` changes. -/
def Spoils (m : Mem) (a b : Word) : Prop :=
  ∃ k < insn_len (with_break m a) b, with_break m a (b.toNat + k) ≠ m (b.toNat + k)

/-- No second breakpoint of a round saves what the first one changed. -/
def Reversible (s : JitDebug) (addrs : List Word) : Prop :=
  ∀ a b, Sets s addrs a b → ¬ Spoils s.mem a b

theorem foldl_add_same {addrs : List Word} (h : ∀ x ∈ addrs, add_temp_break s x = s) :
    addrs.foldl add_temp_break s = s := by
  induction addrs with
  | nil => rfl
  | cons x addrs ih =>
    rw [List.foldl_cons, h x List.mem_cons_self]
    exact ih fun y hy => h y (List.mem_cons_of_mem x hy)

theorem round_of_sets (hs : NoBreaks s) {addrs : List Word} (h : Sets s addrs a b) :
    (round s addrs).mem = s.mem ↔ ¬ Spoils s.mem a b := by
  obtain ⟨pre, mid, post, rfl, hpre, ha, hmid, hne, hb⟩ := h
  have hone := oneBreak_add hs ha
  have htwo := hone.add hne hb
  unfold round
  rw [List.foldl_append, foldl_add_same fun x hx => add_temp_break_of_not_armable (hpre x hx),
    List.foldl_cons, List.foldl_append, foldl_add_same fun x hx => hone.add_same (hmid x hx),
    List.foldl_cons, foldl_add_same fun x _ => htwo.add x, htwo.restore, patch_eq_self_iff]
  simp only [Spoils, not_exists, not_and, not_not]

theorem round_mem_iff (hs : NoBreaks s) (addrs : List Word) :
    (round s addrs).mem = s.mem ↔ Reversible s addrs := by
  constructor
  · intro hmem a b hsets
    exact (round_of_sets hs hsets).mp hmem
  intro hrev
  cases hfirst : addrs.find? fun x => decide (Armable s x) with
  | none =>
    -- no address takes a breakpoint
    rw [List.find?_eq_none] at hfirst
    unfold round
    rw [foldl_add_same fun x hx => add_temp_break_of_not_armable (by simpa using hfirst x hx),
      restore_temp_breaks_eq, restore_slot_inactive (hs 0), restore_slot_inactive (hs 1)]
  | some a =>
    obtain ⟨ha, pre, rest, rfl, hpre⟩ := List.find?_eq_some_iff_append.mp hfirst
    have ha := of_decide_eq_true ha
    have hpre : ∀ x ∈ pre, ¬ Armable s x := by simpa using hpre
    have hone := oneBreak_add hs ha
    cases hsecond : rest.find? fun x => decide (x ≠ a ∧ Armable (broken s a) x) with
    | none =>
      rw [List.find?_eq_none] at hsecond
      unfold round
      rw [List.foldl_append, foldl_add_same fun x hx => add_temp_break_of_not_armable (hpre x hx),
        List.foldl_cons, foldl_add_same fun x hx => hone.add_same ?_, hone.restore]
      have hx := hsecond x hx
      simp only [decide_eq_true_eq, not_and_or, not_not] at hx
      exact hx
    | some b =>
      obtain ⟨hb, mid, post, rfl, hmid⟩ := List.find?_eq_some_iff_append.mp hsecond
      obtain ⟨hne, hb⟩ := of_decide_eq_true hb
      have hmid : ∀ x ∈ mid, x = a ∨ ¬ Armable (broken s a) x := by
        intro x hx
        have := hmid x hx
        simp only [Bool.not_eq_true', decide_eq_false_iff_not, not_and_or, not_not] at this
        exact this
      have hsets : Sets s (pre ++ a :: (mid ++ b :: post)) a b :=
        ⟨pre, mid, post, rfl, hpre, ha, hmid, hne, hb⟩
      exact (round_of_sets hs hsets).mpr (hrev a b hsets)

/-- The memory and the text are those of another state. -/
structure SameCode (s s' : JitDebug) : Prop where
  mem : s'.mem = s.mem
  code_lo : s'.code_lo = s.code_lo
  code_hi : s'.code_hi = s.code_hi

theorem SameCode.reversible (h : SameCode s s') (addrs : List Word) :
    Reversible s' addrs ↔ Reversible s addrs := by
  have harm : ∀ x, Armable s' x ↔ Armable s x := fun x => Armable.congr h.mem h.code_lo h.code_hi
  have hbroken : ∀ a x, Armable (broken s' a) x ↔ Armable (broken s a) x := fun a x =>
    Armable.congr (by rw [broken, broken, h.mem]) h.code_lo h.code_hi
  simp only [Reversible, Sets, harm, hbroken, h.mem]

theorem code_add_temp_break (s : JitDebug) (a : Word) :
    (add_temp_break s a).code_lo = s.code_lo ∧ (add_temp_break s a).code_hi = s.code_hi := by
  by_cases harm : Armable s a
  · by_cases hset : ∃ i, (s.temp_breaks i).active ∧ (s.temp_breaks i).addr = a
    · obtain ⟨i, hi, ha⟩ := hset
      rw [add_temp_break_of_set hi ha]
      exact ⟨rfl, rfl⟩
    · rw [add_temp_break_of_armable harm fun i hi ha => hset ⟨i, hi, ha⟩]
      split
      · exact ⟨rfl, rfl⟩
      · exact ⟨rfl, rfl⟩
  · rw [add_temp_break_of_not_armable harm]
    exact ⟨rfl, rfl⟩

theorem code_foldl_add (s : JitDebug) (addrs : List Word) :
    (addrs.foldl add_temp_break s).code_lo = s.code_lo ∧
      (addrs.foldl add_temp_break s).code_hi = s.code_hi := by
  induction addrs generalizing s with
  | nil => exact ⟨rfl, rfl⟩
  | cons a addrs ih =>
    obtain ⟨hlo, hhi⟩ := ih (add_temp_break s a)
    obtain ⟨hlo', hhi'⟩ := code_add_temp_break s a
    exact ⟨hlo.trans hlo', hhi.trans hhi'⟩

theorem code_restore (s : JitDebug) :
    (restore_temp_breaks s).code_lo = s.code_lo ∧ (restore_temp_breaks s).code_hi = s.code_hi := by
  obtain ⟨hlo, hhi⟩ := code_restore_slot s 0
  obtain ⟨hlo', hhi'⟩ := code_restore_slot (restore_slot s 0) 1
  exact ⟨hlo'.trans hlo, hhi'.trans hhi⟩

theorem code_round (s : JitDebug) (addrs : List Word) :
    (round s addrs).code_lo = s.code_lo ∧ (round s addrs).code_hi = s.code_hi := by
  obtain ⟨hlo, hhi⟩ := code_foldl_add s addrs
  obtain ⟨hlo', hhi'⟩ := code_restore (addrs.foldl add_temp_break s)
  exact ⟨hlo'.trans hlo, hhi'.trans hhi⟩

/-- The code is what it was after each round exactly when all rounds are reversible. -/
theorem rounds_mem_iff (hs : NoBreaks s) (rounds : List (List Word)) :
    (∀ done, done <+: rounds → (done.foldl round s).mem = s.mem) ↔
      ∀ addrs ∈ rounds, Reversible s addrs := by
  induction rounds generalizing s with
  | nil =>
    refine ⟨fun _ addrs haddrs => absurd haddrs List.not_mem_nil, fun _ done hdone => ?_⟩
    rw [List.prefix_nil.mp hdone]
    rfl
  | cons addrs rest ih =>
    have hclean : NoBreaks (round s addrs) := noBreaks_restore _
    obtain ⟨hlo, hhi⟩ := code_round s addrs
    constructor
    · intro h
      have hmem : (round s addrs).mem = s.mem :=
        h [addrs] (List.cons_prefix_cons.mpr ⟨rfl, List.nil_prefix⟩)
      have hrest := (ih hclean).mp fun done hdone =>
        (h (addrs :: done) (List.cons_prefix_cons.mpr ⟨rfl, hdone⟩)).trans hmem.symm
      intro x hx
      rcases List.mem_cons.mp hx with rfl | hx
      · exact (round_mem_iff hs x).mp hmem
      · exact (SameCode.reversible ⟨hmem, hlo, hhi⟩ x).mp (hrest x hx)
    · intro h done hdone
      have hmem := (round_mem_iff hs addrs).mpr (h addrs List.mem_cons_self)
      rcases List.prefix_cons_iff.mp hdone with rfl | ⟨t, rfl, ht⟩
      · rfl
      · have hrest := (ih hclean).mpr fun x hx =>
          (SameCode.reversible ⟨hmem, hlo, hhi⟩ x).mpr (h x (List.mem_cons_of_mem _ hx))
        exact (hrest t ht).trans hmem

/-! ## A target in the middle of the next instruction -/

/-- `beq x0, x0, 6` at 0x80000000 and `addi x10, x10, 0` behind it: the upper half of the
second instruction, where the branch goes, is a compressed instruction of its own. -/
def branchInto : JitDebug where
  mem := fun x => [0x63, 0x03, 0x00, 0x00, 0x13, 0x05, 0x05, 0x00].getD (x - 0x80000000) 0
  temp_breaks := fun _ => ⟨false, 0, 0, 0⟩
  code_lo := 0x80000000
  code_hi := 0x80000100

theorem branchInto_not_restored :
    ¬ ∀ done, done <+: [[0x80000006#32, 0x80000004#32]] →
      (done.foldl round branchInto).mem = branchInto.mem := by
  intro h
  have hmem := congrFun (h _ (List.prefix_refl _)) 0x80000006
  revert hmem
  decide

theorem rounds_mem_iff_branch : NoBreaks branchInto ∧
    ((∀ done, done <+: [[0x80000000#32], [0x80000004#32]] →
      (done.foldl round branchInto).mem = branchInto.mem) ↔
      ∀ addrs ∈ [[0x80000000#32], [0x80000004#32]], Reversible branchInto addrs) :=
  ⟨by decide, rounds_mem_iff (by decide) _⟩

end vibeos.jit_debug
