-- Chains of cells linked by a next pointer, with one value that ends a chain.
-- A chain with a finite list of cells has no cell twice, and it only depends
-- on the links of its own cells.
import Mathlib.Logic.Function.Basic
import Mathlib.Tactic.Common

namespace LinkChain

variable {α : Type*} {nil : α}

/-- The list of the cells of the chain from `b`, when the walk ends. -/
inductive Chain (nil : α) (next : α → α) : α → List α → Prop
  | stop : Chain nil next nil []
  | cell {b : α} {l : List α} : b ≠ nil → Chain nil next (next b) l → Chain nil next b (b :: l)

/-- Cell `c` is on the chain from `b`, also when the walk never ends. -/
inductive OnChain (nil : α) (next : α → α) : α → α → Prop
  | here {b : α} : b ≠ nil → OnChain nil next b b
  | later {b c : α} : b ≠ nil → OnChain nil next (next b) c → OnChain nil next b c

variable {next next' : α → α} {b c : α} {l l' : List α}

theorem Chain.det (h : Chain nil next b l) (h' : Chain nil next b l') : l = l' := by
  induction h generalizing l' with
  | stop =>
    cases h' with
    | stop => rfl
    | cell hb _ => exact absurd rfl hb
  | cell hb _ ih =>
    cases h' with
    | stop => exact absurd rfl hb
    | cell _ ht => rw [ih ht]

theorem OnChain.ne_nil (h : OnChain nil next b c) : c ≠ nil := by
  induction h with
  | here hb => exact hb
  | later _ _ ih => exact ih

theorem OnChain.start_ne_nil (h : OnChain nil next b c) : b ≠ nil := by
  cases h with
  | here hb => exact hb
  | later hb _ => exact hb

theorem Chain.onChain (h : Chain nil next b l) (hc : c ∈ l) : OnChain nil next b c := by
  induction h with
  | stop => simp at hc
  | cell hb _ ih =>
    rcases List.mem_cons.mp hc with rfl | hc
    · exact .here hb
    · exact .later hb (ih hc)

theorem Chain.mem_of_onChain (h : Chain nil next b l) (hc : OnChain nil next b c) : c ∈ l := by
  induction h with
  | stop => exact absurd rfl hc.start_ne_nil
  | cell hb _ ih =>
    cases hc with
    | here => simp
    | later _ ht => exact List.mem_cons_of_mem _ (ih ht)

theorem Chain.nodup (h : Chain nil next b l) : l.Nodup := by
  induction h with
  | stop => exact List.nodup_nil
  | @cell b l hb ht ih =>
    refine List.nodup_cons.mpr ⟨fun hm => ?_, ih⟩
    -- the chain from a cell of `l` is a proper part of the chain from `b`
    have hsuffix : ∀ {x : α} {m : List α}, Chain nil next x m → b ∈ m →
        ∃ m', Chain nil next b m' ∧ m'.length ≤ m.length := by
      intro x m hx hbm
      induction hx with
      | stop => simp at hbm
      | @cell y m hy hyt ih =>
        rcases List.mem_cons.mp hbm with rfl | hbm
        · exact ⟨_, .cell hy hyt, Nat.le_refl _⟩
        · obtain ⟨m', h1, h2⟩ := ih hbm
          exact ⟨m', h1, by simp; omega⟩
    obtain ⟨m', h1, h2⟩ := hsuffix ht hm
    have := h1.det (.cell hb ht)
    subst this
    simp only [List.length_cons] at h2
    omega

theorem OnChain.head_eq (h : OnChain nil next b c) (hn : next b = nil) : c = b := by
  cases h with
  | here => rfl
  | later _ ht => exact absurd hn ht.start_ne_nil

theorem OnChain.snoc (h : OnChain nil next b c) (hn : next c ≠ nil) :
    OnChain nil next b (next c) := by
  induction h with
  | here hb => exact .later hb (.here hn)
  | later hb _ ih => exact .later hb (ih hn)

theorem Chain.congr (h : Chain nil next b l) (hn : ∀ x ∈ l, next' x = next x) :
    Chain nil next' b l := by
  induction h with
  | stop => exact .stop
  | @cell b l hb _ ih =>
    refine .cell hb ?_
    rw [hn b (by simp)]
    exact ih fun x hx => hn x (List.mem_cons_of_mem _ hx)

theorem OnChain.congr (h : OnChain nil next b c)
    (hn : ∀ x, OnChain nil next b x → next' x = next x) : OnChain nil next' b c := by
  induction h with
  | here hb => exact .here hb
  | later hb _ ih =>
    refine .later hb ?_
    rw [hn _ (.here hb)]
    exact ih fun x hx => hn x (.later hb hx)

theorem Chain.cut (h : Chain nil next b l) (hn : ∀ x ∈ l, next' x = next x ∨ next' x = nil) :
    ∃ l', Chain nil next' b l' ∧ l' ⊆ l := by
  induction h with
  | stop => exact ⟨[], .stop, by simp⟩
  | @cell b l hb _ ih =>
    rcases hn b (by simp) with he | he
    · obtain ⟨l', h1, h2⟩ := ih fun x hx => hn x (List.mem_cons_of_mem _ hx)
      exact ⟨b :: l', .cell hb (he ▸ h1), List.cons_subset_cons _ h2⟩
    · exact ⟨[b], .cell hb (he ▸ .stop), by simp⟩

end LinkChain
