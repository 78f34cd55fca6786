-- Loops whose turn gives the next state or the value that the loop leaves with. A run of a loop is
-- finite: a loop that goes on for ever has none. Where a rank gets smaller with each step that is
-- not the goal, the goal comes within as many steps as the rank.
import Mathlib.Logic.Basic
import Mathlib.Tactic.Common
import Mathlib.Logic.Function.Iterate

namespace vibeos

section

variable {σ ρ : Type*}

/-- From `s` the loop takes a turn in each state of the list, and leaves with `r`. -/
inductive Loop (turn : σ → σ ⊕ ρ) : σ → List σ → ρ → Prop
  | leave {s : σ} {r : ρ} : turn s = .inr r → Loop turn s [] r
  | turn {s s' : σ} {l : List σ} {r : ρ} : turn s = .inl s' → Loop turn s' l r →
      Loop turn s (s :: l) r

variable {turn : σ → σ ⊕ ρ} {s s' : σ} {l l' : List σ} {r r' : ρ}

theorem Loop.det (h : Loop turn s l r) (h' : Loop turn s l' r') : l = l' ∧ r = r' := by
  induction h generalizing l' with
  | leave hr =>
    cases h' with
    | leave hr' => exact ⟨rfl, Sum.inr.inj (hr.symm.trans hr')⟩
    | turn ht _ => cases hr.symm.trans ht
  | turn ht _ ih =>
    cases h' with
    | leave hr' => cases ht.symm.trans hr'
    | turn ht' hrest =>
      cases ht.symm.trans ht'
      obtain ⟨hl, hr⟩ := ih hrest
      exact ⟨congrArg _ hl, hr⟩

theorem Loop.of_rank (rank : σ → Nat) (value : σ → ρ)
    (hturn : ∀ s s', turn s = .inl s' → rank s' < rank s ∧ value s' = value s)
    (hleave : ∀ s r, turn s = .inr r → value s = r) (s : σ) :
    ∃ l, Loop turn s l (value s) := by
  induction hr : rank s using Nat.strongRecOn generalizing s with
  | ind n ih =>
    cases ht : turn s with
    | inr r =>
      rw [hleave s r ht]
      exact ⟨[], .leave ht⟩
    | inl s' =>
      obtain ⟨hlt, hvalue⟩ := hturn s s' ht
      obtain ⟨l, hl⟩ := ih (rank s') (hr ▸ hlt) s' rfl
      rw [hvalue] at hl
      exact ⟨s :: l, .turn ht hl⟩

theorem Loop.of_states {n : Nat} (f : Nat → σ) (hturn : ∀ k < n, turn (f k) = .inl (f (k + 1)))
    (hleave : turn (f n) = .inr r) : Loop turn (f 0) ((List.range n).map f) r := by
  induction n generalizing f with
  | zero => exact .leave hleave
  | succ n ih =>
    rw [List.range_succ_eq_map, List.map_cons, List.map_map]
    refine .turn (hturn 0 (Nat.succ_pos n)) ?_
    exact ih (fun k => f (k + 1)) (fun k hk => hturn (k + 1) (Nat.succ_lt_succ hk)) hleave

theorem Loop.not_of_stays {P : σ → Prop} (hstays : ∀ s, P s → ∃ s', turn s = .inl s' ∧ P s')
    (hs : P s) : ¬ Loop turn s l r := by
  intro h
  induction h with
  | leave hr =>
    obtain ⟨s', ht, -⟩ := hstays _ hs
    cases hr.symm.trans ht
  | turn ht _ ih =>
    obtain ⟨s', ht', hs'⟩ := hstays _ hs
    cases ht.symm.trans ht'
    exact ih hs'

/-- The loop, given up after `n` turns. -/
def runFor (turn : σ → σ ⊕ ρ) : Nat → σ → Option ρ
  | 0, _ => none
  | n + 1, s =>
    match turn s with
    | .inl s' => runFor turn n s'
    | .inr r => some r

theorem Loop.of_runFor {n : Nat} (h : runFor turn n s = some r) : ∃ l, Loop turn s l r := by
  induction n generalizing s with
  | zero => cases h
  | succ n ih =>
    rw [runFor] at h
    split at h
    · rename_i s' ht
      obtain ⟨l, hl⟩ := ih h
      exact ⟨s :: l, .turn ht hl⟩
    · rename_i ht
      cases h
      exact ⟨[], .leave ht⟩

end

/-! ## A rank -/

section

variable {σ : Type*}

/-- While the goal is not there, each step of `f` makes the rank smaller. -/
structure Ranking (f : σ → σ) (Inv Goal : σ → Prop) (rank : σ → Nat) : Prop where
  keeps : ∀ {s}, Inv s → Inv (f s)
  drops : ∀ {s}, Inv s → Goal s ∨ rank (f s) < rank s

variable {f : σ → σ} {Inv Goal : σ → Prop} {rank : σ → Nat}

theorem Ranking.iterate (h : Ranking f Inv Goal rank) {s : σ} (hs : Inv s) (n : Nat) :
    Inv (f^[n] s) := by
  induction n with
  | zero => exact hs
  | succ n ih =>
    rw [Function.iterate_succ_apply']
    exact h.keeps ih

theorem Ranking.exists_goal (h : Ranking f Inv Goal rank) {s : σ} (hs : Inv s) :
    ∃ n ≤ rank s, Goal (f^[n] s) := by
  generalize hr : rank s = r
  induction r using Nat.strongRecOn generalizing s with
  | ind r ih =>
    rcases h.drops hs with hgoal | hdrop
    · exact ⟨0, Nat.zero_le r, hgoal⟩
    · obtain ⟨n, hn, hgoal⟩ := ih (rank (f s)) (hr ▸ hdrop) (h.keeps hs) rfl
      exact ⟨n + 1, by omega, hgoal⟩

end

end vibeos
