-- Programs whose lines have labels. A jump goes on with the lines from the label on; a
-- machine that has only the instructions, with a number for each label, does the same.
import Mathlib.Data.List.Basic
import Mathlib.Tactic.Common

namespace vibeos.Labelled

/-- A line: the labels in front of it, and its instruction, if it has one. -/
structure Line (L I : Type) where
  labels : List L
  inst : Option I

/-- Where the run goes on after an instruction. -/
inductive Next (L : Type) where
  | fall
  | branch (taken : Bool) (l : L)
  | halt

inductive Verdict (S : Type) where
  | halted (s : S)
  | stuck (s : S)
  | running (s : S)

variable {L I S : Type}

def code (src : List (Line L I)) : List I := src.filterMap Line.inst

def labels (src : List (Line L I)) : List L := src.flatMap Line.labels

/-- The first instruction of the lines, and the lines behind it. -/
def fetch : List (Line L I) → Option (I × List (Line L I))
  | [] => none
  | ln :: rest =>
    match ln.inst with
    | some i => some (i, rest)
    | none => fetch rest

/-- Each label with the number of the instructions in front of it, where `n` were before. -/
def symbols : List (Line L I) → Nat → List (L × Nat)
  | [], _ => []
  | ln :: rest, n => ln.labels.map (·, n) ++ symbols rest (n + ln.inst.toList.length)

variable [DecidableEq L]

/-- The number of a label in such a table. -/
def address (l : L) : List (L × Nat) → Option Nat
  | [] => none
  | (a, n) :: syms => if l = a then some n else address l syms

/-- The lines from the first one on that has the label. -/
def behind (l : L) : List (Line L I) → Option (List (Line L I))
  | [] => none
  | ln :: rest => if l ∈ ln.labels then some (ln :: rest) else behind l rest

section

variable (sem : I → S → Option (S × Next L))

/-- At most `n` instructions from the lines `here` on. A branch to a label that is not in the
program is stuck, also where it is not taken. -/
def run (src : List (Line L I)) : Nat → List (Line L I) → S → Verdict S
  | 0, here, s =>
    match fetch here with
    | none => .halted s
    | some _ => .running s
  | n + 1, here, s =>
    match fetch here with
    | none => .halted s
    | some (i, rest) =>
      match sem i s with
      | none => .stuck s
      | some (s', .fall) => run src n rest s'
      | some (s', .halt) => .halted s'
      | some (s', .branch taken l) =>
        match behind l src with
        | none => .stuck s
        | some there => run src n (if taken then there else rest) s'

/-- The same on the instructions in their order, with the numbers of the labels. -/
def runAt (insts : List I) (find : L → Option Nat) : Nat → Nat → S → Verdict S
  | 0, pc, s =>
    match insts[pc]? with
    | none => .halted s
    | some _ => .running s
  | n + 1, pc, s =>
    match insts[pc]? with
    | none => .halted s
    | some i =>
      match sem i s with
      | none => .stuck s
      | some (s', .fall) => runAt insts find n (pc + 1) s'
      | some (s', .halt) => .halted s'
      | some (s', .branch taken l) =>
        match find l with
        | none => .stuck s
        | some target => runAt insts find n (if taken then target else pc + 1) s'

end

/-! ## Lines and numbers -/

omit [DecidableEq L] in
@[simp]
theorem code_append (pre here : List (Line L I)) : code (pre ++ here) = code pre ++ code here :=
  List.filterMap_append

omit [DecidableEq L] in
theorem code_cons (ln : Line L I) (rest : List (Line L I)) :
    code (ln :: rest) = ln.inst.toList ++ code rest := by
  unfold code
  cases h : ln.inst with
  | none => rw [List.filterMap_cons_none h, Option.toList_none, List.nil_append]
  | some i => rw [List.filterMap_cons_some h, Option.toList_some, List.singleton_append]

omit [DecidableEq L] in
theorem symbols_append (pre here : List (Line L I)) (n : Nat) :
    symbols (pre ++ here) n = symbols pre n ++ symbols here (n + (code pre).length) := by
  induction pre generalizing n with
  | nil => rfl
  | cons ln pre ih =>
    rw [List.cons_append, symbols, symbols, ih, code_cons, List.length_append, List.append_assoc,
      Nat.add_assoc]

omit [DecidableEq L] in
theorem symbols_fst (src : List (Line L I)) (n : Nat) :
    (symbols src n).map Prod.fst = labels src := by
  induction src generalizing n with
  | nil => rfl
  | cons ln rest ih =>
    have hconst : (ln.labels.map (·, n)).map Prod.fst = ln.labels := by
      rw [List.map_map]
      exact List.map_id _
    rw [symbols, List.map_append, ih, hconst]
    rfl

omit [DecidableEq L] in
theorem fetch_none {here : List (Line L I)} (h : fetch here = none) : code here = [] := by
  induction here with
  | nil => rfl
  | cons ln rest ih =>
    rw [fetch] at h
    split at h
    · cases h
    · rename_i hnone
      rw [code_cons, hnone, ih h]
      rfl

omit [DecidableEq L] in
theorem fetch_some {here rest : List (Line L I)} {i : I} (h : fetch here = some (i, rest)) :
    ∃ pre, here = pre ++ rest ∧ code pre = [i] := by
  induction here with
  | nil => cases h
  | cons ln tail ih =>
    rw [fetch] at h
    split at h
    · rename_i j hj
      cases h
      refine ⟨[ln], rfl, ?_⟩
      rw [code_cons, hj]
      rfl
    · rename_i hnone
      obtain ⟨pre, hpre, hcode⟩ := ih h
      refine ⟨ln :: pre, ?_, ?_⟩
      · rw [hpre, List.cons_append]
      · rw [code_cons, hnone, hcode]
        rfl

omit [DecidableEq L] in
theorem getElem_code {src pre here : List (Line L I)} (hsrc : src = pre ++ here) :
    (fetch here = none ∧ (code src)[(code pre).length]? = none) ∨
      ∃ i rest pre', fetch here = some (i, rest) ∧ (code src)[(code pre).length]? = some i ∧
        src = pre' ++ rest ∧ (code pre').length = (code pre).length + 1 := by
  cases h : fetch here with
  | none =>
    left
    refine ⟨rfl, ?_⟩
    rw [hsrc, code_append, fetch_none h, List.append_nil]
    exact List.getElem?_eq_none (Nat.le_refl _)
  | some p =>
    obtain ⟨i, rest⟩ := p
    obtain ⟨mid, hmid, hcode⟩ := fetch_some h
    refine Or.inr ⟨i, rest, pre ++ mid, rfl, ?_, ?_, ?_⟩
    · rw [hsrc, hmid, code_append, code_append, hcode]
      simp
    · rw [hsrc, hmid, List.append_assoc]
    · rw [code_append, hcode, List.length_append, List.length_singleton]

theorem address_append (l : L) (syms rest : List (L × Nat)) :
    address l (syms ++ rest) = (address l syms).or (address l rest) := by
  induction syms with
  | nil => rfl
  | cons p syms ih =>
    rw [List.cons_append, address, address, ih]
    split
    · rfl
    · rfl

theorem address_eq_none {l : L} {syms : List (L × Nat)} :
    address l syms = none ↔ l ∉ syms.map Prod.fst := by
  induction syms with
  | nil => simp [address]
  | cons p syms ih =>
    rw [address, List.map_cons, List.mem_cons, not_or]
    split
    · rename_i h
      simp [h]
    · rename_i h
      rw [ih]
      simp [h]

theorem address_map_const (l : L) (ls : List L) (n : Nat) :
    address l (ls.map (·, n)) = if l ∈ ls then some n else none := by
  induction ls with
  | nil => rfl
  | cons a ls ih =>
    rw [List.map_cons, address, ih]
    by_cases hla : l = a
    · simp [hla]
    · simp [hla]

theorem address_symbols (l : L) (src : List (Line L I)) (n : Nat) :
    (behind l src = none ∧ address l (symbols src n) = none) ∨
      ∃ pre there, src = pre ++ there ∧ behind l src = some there ∧
        address l (symbols src n) = some (n + (code pre).length) := by
  induction src generalizing n with
  | nil => exact Or.inl ⟨rfl, rfl⟩
  | cons ln rest ih =>
    rw [behind, symbols, address_append, address_map_const]
    by_cases hl : l ∈ ln.labels
    · rw [if_pos hl, if_pos hl]
      exact Or.inr ⟨[], ln :: rest, rfl, rfl, rfl⟩
    · rw [if_neg hl, if_neg hl, Option.none_or]
      rcases ih (n + ln.inst.toList.length) with h | ⟨pre, there, hsrc, hbehind, haddress⟩
      · exact Or.inl h
      · refine Or.inr ⟨ln :: pre, there, by rw [hsrc, List.cons_append], hbehind, ?_⟩
        rw [haddress, code_cons, List.length_append, Nat.add_assoc]

/-! ## The two machines -/

theorem run_eq_runAt (sem : I → S → Option (S × Next L)) (src : List (Line L I)) (n : Nat)
    (pre here : List (Line L I)) (hsrc : src = pre ++ here) (s : S) :
    run sem src n here s =
      runAt sem (code src) (fun l => address l (symbols src 0)) n (code pre).length s := by
  induction n generalizing pre here s with
  | zero =>
    unfold run runAt
    rcases getElem_code hsrc with ⟨hf, hget⟩ | ⟨i, rest, pre', hf, hget, _, _⟩
    · rw [hf, hget]
    · rw [hf, hget]
  | succ n ih =>
    unfold run runAt
    rcases getElem_code hsrc with ⟨hf, hget⟩ | ⟨i, rest, pre', hf, hget, hsrc', hlen⟩
    · rw [hf, hget]
    · rw [hf, hget]
      simp only
      cases sem i s with
      | none => rfl
      | some r =>
        obtain ⟨s', next⟩ := r
        cases next with
        | fall =>
          simp only
          rw [ih pre' rest hsrc' s', hlen]
        | halt => rfl
        | branch taken l =>
          simp only
          rcases address_symbols l src 0 with ⟨hb, hl⟩ | ⟨pl, there, hthere, hb, hl⟩
          · rw [hb, hl]
          · rw [hb, hl]
            cases taken with
            | true => simpa using ih pl there hthere s'
            | false => simpa [hlen] using ih pre' rest hsrc' s'

end vibeos.Labelled
