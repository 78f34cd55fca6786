-- The items that go through a queue, numbered in the order in which they were put in: which came
-- out, which are waiting, and which push lost each of the others.
import Mathlib.Data.List.Basic
import Mathlib.Data.List.Induction
import Mathlib.Data.List.InsertIdx

namespace vibeos.Queue

variable {σ ω α : Type}

/-! ## The queue -/

/-- What a push takes out of the queue: nothing, the item at some place, or all of them. -/
inductive Loss where
  | none
  | place (k : Nat)
  | all
deriving DecidableEq

def Loss.from {β : Type} : Loss → List β → List β
  | .none, l => l
  | .place k, l => l.eraseIdx k
  | .all, _ => []

/-- A state machine with the items in each state. An operation brings an item in, or it lets the
first item out, or it does neither. -/
structure Machine (σ ω α : Type) where
  step : σ → ω → σ
  input : ω → Option α
  output : σ → ω → Option α
  loss : σ → ω → Loss
  items : σ → List α

variable (m : Machine σ ω α)

/-- In the states of the invariant the machine is a queue, but for the losses. -/
structure Machine.IsQueue (inv : σ → Prop) : Prop where
  step : ∀ {s}, inv s → ∀ o, inv (m.step s o)
  push : ∀ {s}, inv s → ∀ {o x}, m.input o = some x →
    m.output s o = none ∧ m.items (m.step s o) = (m.loss s o).from (m.items s) ++ [x]
  pop : ∀ {s}, inv s → ∀ {o}, m.input o = none →
    m.items s = (m.output s o).toList ++ m.items (m.step s o)

def Machine.run (s : σ) (ops : List ω) : σ := ops.foldl m.step s

def Machine.outputs : σ → List ω → List α
  | _, [] => []
  | s, o :: ops => (m.output s o).toList ++ outputs (m.step s o) ops

def Machine.inputs (ops : List ω) : List α := ops.filterMap m.input

/-- After a run the operation brings the first item that waits, if there is one. -/
def Machine.Serves (s : σ) (ops : List ω) (o : ω) : Prop :=
  m.output (m.run s ops) o = (m.items (m.run s ops)).head?

theorem Machine.run_concat (s : σ) (ops : List ω) (o : ω) :
    m.run s (ops ++ [o]) = m.step (m.run s ops) o := List.foldl_concat ..

theorem Machine.outputs_concat (s : σ) (ops : List ω) (o : ω) :
    m.outputs s (ops ++ [o]) = m.outputs s ops ++ (m.output (m.run s ops) o).toList := by
  induction ops generalizing s with
  | nil => simp [outputs, run]
  | cons p ops ih =>
    rw [List.cons_append, outputs, ih, outputs, List.append_assoc]
    rfl

/-! ## The ledger -/

/-- The numbers of the items that came out and of those that wait. They grow, so no item comes out
twice or before an older one. -/
structure Ledger (inputs outputs items : List α) (sent waiting : List Nat) : Prop where
  ordered : (sent ++ waiting).Pairwise (· < ·)
  sent : sent.map (inputs[·]?) = outputs.map some
  waiting : waiting.map (inputs[·]?) = items.map some

/-- Some push after item `i` lost an item. -/
def Machine.LostAfter (s : σ) (ops : List ω) (i : Nat) : Prop :=
  ∃ before o behind, ops = before ++ o :: behind ∧ i < (m.inputs before).length ∧
    (m.input o).isSome ∧ m.loss (m.run s before) o ≠ .none

/-- Along a run every item comes out in its turn, waits, or was lost by a push behind it. -/
def Machine.Fifo (s : σ) (ops : List ω) : Prop :=
  ∃ sent waiting, Ledger (m.inputs ops) (m.outputs s ops) (m.items (m.run s ops)) sent waiting ∧
    ∀ i < (m.inputs ops).length, i ∉ sent → i ∉ waiting → m.LostAfter s ops i

/-- A queue loses its oldest items only: those that wait are younger than the lost ones. -/
def Machine.LosesOldest (s : σ) (ops : List ω) : Prop :=
  ∃ sent waiting, Ledger (m.inputs ops) (m.outputs s ops) (m.items (m.run s ops)) sent waiting ∧
    ∀ i < (m.inputs ops).length, i ∉ sent → i ∉ waiting →
      m.LostAfter s ops i ∧ ∀ j ∈ waiting, i < j

section

variable {inputs outputs items : List α} {sent waiting : List Nat}

theorem Ledger.nil : Ledger ([] : List α) [] [] [] [] := ⟨List.Pairwise.nil, rfl, rfl⟩

theorem lt_of_numbered {l : List Nat} {l' : List α} (h : l.map (inputs[·]?) = l'.map some)
    {i : Nat} (hi : i ∈ l) : i < inputs.length := by
  have hmem : inputs[i]? ∈ l'.map some := h ▸ List.mem_map_of_mem hi
  obtain ⟨x, -, hx⟩ := List.mem_map.mp hmem
  exact (List.getElem?_eq_some_iff.mp hx.symm).1

theorem Ledger.lt (h : Ledger inputs outputs items sent waiting) {i : Nat}
    (hi : i ∈ sent ++ waiting) : i < inputs.length := by
  rcases List.mem_append.mp hi with hi | hi
  · exact lt_of_numbered h.sent hi
  · exact lt_of_numbered h.waiting hi

theorem numbered_concat {l : List Nat} {l' : List α} (h : l.map (inputs[·]?) = l'.map some)
    (x : α) : l.map ((inputs ++ [x])[·]?) = l'.map some := by
  rw [← h]
  apply List.map_congr_left
  intro i hi
  exact List.getElem?_append_left (lt_of_numbered h hi)

theorem Loss.from_sublist {β : Type} (loss : Loss) (l : List β) : (loss.from l).Sublist l := by
  cases loss with
  | none => exact List.Sublist.refl l
  | place k => exact List.eraseIdx_sublist l k
  | all => exact List.nil_sublist l

theorem Loss.map_from {β γ : Type} (f : β → γ) (loss : Loss) (l : List β) :
    (loss.from l).map f = loss.from (l.map f) := by
  cases loss with
  | place k => exact (List.eraseIdx_map f l k).symm
  | _ => rfl

theorem Ledger.push (h : Ledger inputs outputs items sent waiting) (loss : Loss) (x : α) :
    Ledger (inputs ++ [x]) outputs (loss.from items ++ [x]) sent
      (loss.from waiting ++ [inputs.length]) := by
  refine ⟨?_, numbered_concat h.sent x, ?_⟩
  · rw [← List.append_assoc, List.pairwise_append]
    have hleft : (sent ++ loss.from waiting).Sublist (sent ++ waiting) :=
      (loss.from_sublist waiting).append_left sent
    refine ⟨h.ordered.sublist hleft, List.pairwise_singleton _ _, fun i hi j hj => ?_⟩
    rw [List.mem_singleton.mp hj]
    exact h.lt (hleft.subset hi)
  · have hkept : (loss.from waiting).map (inputs[·]?) = (loss.from items).map some := by
      rw [loss.map_from, loss.map_from, h.waiting]
    rw [List.map_append, numbered_concat hkept x]
    simp

theorem Ledger.pop {y : α} (h : Ledger inputs outputs (y :: items) sent waiting) :
    ∃ i rest, waiting = i :: rest ∧ Ledger inputs (outputs ++ [y]) items (sent ++ [i]) rest := by
  have hwaiting := h.waiting
  rcases waiting with _ | ⟨i, rest⟩
  · cases hwaiting
  · rw [List.map_cons, List.map_cons, List.cons.injEq] at hwaiting
    refine ⟨i, rest, rfl, ?_, ?_, hwaiting.2⟩
    · rw [List.append_assoc]
      exact h.ordered
    · rw [List.map_append, List.map_append, h.sent]
      simpa using hwaiting.1

end

/-! ## Runs -/

variable {m}

theorem Machine.LostAfter.concat {s : σ} {ops : List ω} {i : Nat} (h : m.LostAfter s ops i)
    (o : ω) : m.LostAfter s (ops ++ [o]) i := by
  obtain ⟨before, o', behind, rfl, hlost⟩ := h
  exact ⟨before, o', behind ++ [o], by simp, hlost⟩

theorem lt_of_first_lost {inputs outputs items : List α} {sent waiting : List Nat} {i j : Nat}
    (h : Ledger inputs outputs items sent waiting) (hi : i ∈ waiting)
    (hlost : i ∉ (Loss.place 0).from waiting) (hlt : i < inputs.length)
    (hj : j ∈ (Loss.place 0).from waiting ++ [inputs.length]) : i < j := by
  rcases waiting with _ | ⟨first, rest⟩
  · cases hi
  · have hrest : (Loss.place 0).from (first :: rest) = rest := rfl
    rw [hrest] at hlost hj
    obtain rfl : i = first := (List.mem_cons.mp hi).resolve_right hlost
    rcases List.mem_append.mp hj with hj | hj
    · have hpair := (List.pairwise_append.mp h.ordered).2.1
      exact (List.pairwise_cons.mp hpair).1 j hj
    · rw [List.mem_singleton.mp hj]
      exact hlt

theorem Machine.IsQueue.ledger {inv : σ → Prop} (h : m.IsQueue inv) {s : σ} (hs : inv s)
    (hempty : m.items s = []) (ops : List ω) :
    inv (m.run s ops) ∧ ∃ sent waiting,
      Ledger (m.inputs ops) (m.outputs s ops) (m.items (m.run s ops)) sent waiting ∧
      ∀ i < (m.inputs ops).length, i ∉ sent → i ∉ waiting →
        m.LostAfter s ops i ∧
        ((∀ s o, m.loss s o = .none ∨ m.loss s o = .place 0) → ∀ j ∈ waiting, i < j) := by
  induction ops using List.reverseRecOn with
  | nil =>
    refine ⟨hs, [], [], ?_, fun i hi => absurd hi (Nat.not_lt_zero i)⟩
    rw [run, List.foldl_nil, hempty]
    exact Ledger.nil
  | append_singleton ops o ih =>
    obtain ⟨hinv, sent, waiting, hledger, hlost⟩ := ih
    rw [run_concat, outputs_concat]
    refine ⟨h.step hinv o, ?_⟩
    rcases hin : m.input o with _ | x
    · -- nothing comes in: perhaps the first item goes out
      have hinputs : m.inputs (ops ++ [o]) = m.inputs ops := by
        simp [inputs, List.filterMap_append, hin]
      have hitems := h.pop hinv hin
      rw [hinputs]
      rcases hout : m.output (m.run s ops) o with _ | y
      · rw [hout, Option.toList_none, List.nil_append] at hitems
        rw [Option.toList_none, List.append_nil, ← hitems]
        refine ⟨sent, waiting, hledger, fun i hi hsent hwait => ?_⟩
        obtain ⟨hi, hyoung⟩ := hlost i hi hsent hwait
        exact ⟨hi.concat o, hyoung⟩
      · rw [hout, Option.toList_some, List.singleton_append] at hitems
        rw [hitems] at hledger
        obtain ⟨first, rest, rfl, hpopped⟩ := hledger.pop
        refine ⟨sent ++ [first], rest, hpopped, fun i hi hsent hwait => ?_⟩
        rw [List.mem_append, List.mem_singleton, not_or] at hsent
        have hold : i ∉ first :: rest := by simp [hsent.2, hwait]
        obtain ⟨hi, hyoung⟩ := hlost i hi hsent.1 hold
        exact ⟨hi.concat o, fun hoff j hj => hyoung hoff j (List.mem_cons_of_mem _ hj)⟩
    · -- an item comes in, and others may be lost
      have hinputs : m.inputs (ops ++ [o]) = m.inputs ops ++ [x] := by
        simp [inputs, List.filterMap_append, hin]
      obtain ⟨hout, hitems⟩ := h.push hinv hin
      rw [hout, Option.toList_none, List.append_nil, hinputs, hitems]
      refine ⟨sent, _, hledger.push _ x, fun i hi hsent hwait => ?_⟩
      rw [List.mem_append, List.mem_singleton, not_or] at hwait
      rw [List.length_append, List.length_singleton] at hi
      have hlt : i < (m.inputs ops).length := by omega
      by_cases hold : i ∈ waiting
      · have hne : m.loss (m.run s ops) o ≠ .none := by
          intro hnone
          rw [hnone] at hwait
          exact hwait.1 hold
        refine ⟨⟨ops, o, [], rfl, hlt, by simp [hin], hne⟩, fun hoff j hj => ?_⟩
        rw [(hoff (m.run s ops) o).resolve_left hne] at hwait hj
        exact lt_of_first_lost hledger hold hwait.1 hlt hj
      · obtain ⟨hi, hyoung⟩ := hlost i hlt hsent hold
        refine ⟨hi.concat o, fun hoff j hj => ?_⟩
        rcases List.mem_append.mp hj with hj | hj
        · exact hyoung hoff j ((Loss.from_sublist _ _).subset hj)
        · rw [List.mem_singleton.mp hj]
          exact hlt

theorem Machine.IsQueue.fifo {inv : σ → Prop} (h : m.IsQueue inv) {s : σ} (hs : inv s)
    (hempty : m.items s = []) (ops : List ω) : m.Fifo s ops := by
  obtain ⟨-, sent, waiting, hledger, hlost⟩ := h.ledger hs hempty ops
  exact ⟨sent, waiting, hledger, fun i hi hsent hwait => (hlost i hi hsent hwait).1⟩

theorem Machine.IsQueue.losesOldest {inv : σ → Prop} (h : m.IsQueue inv) {s : σ} (hs : inv s)
    (hempty : m.items s = []) (hoff : ∀ s o, m.loss s o = .none ∨ m.loss s o = .place 0)
    (ops : List ω) : m.LosesOldest s ops := by
  obtain ⟨-, sent, waiting, hledger, hlost⟩ := h.ledger hs hempty ops
  refine ⟨sent, waiting, hledger, fun i hi hsent hwait => ?_⟩
  obtain ⟨hafter, hyoung⟩ := hlost i hi hsent hwait
  exact ⟨hafter, hyoung hoff⟩

end vibeos.Queue
