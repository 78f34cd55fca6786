-- Resources that clients take, note in a table of their own, and give back.
import Mathlib.Logic.Function.Basic

namespace vibeos

/-- `K` are the clients and `R` the resources. A resource that is taken has the name of its holder,
and whether the holder notes it. `pend` is a resource that a client is about to note or to give
back; if it is `sure`, the client holds it. -/
@[ext] structure Ledger (K R : Type) (n : Nat) where
  own : R → Option (Nat × Bool)
  name : K → Nat
  live : K → Prop
  tab : K → Fin n → Option R
  pend : K → Option (R × Bool)

namespace Ledger

variable {K R : Type} {n : Nat} {l l' : Ledger K R n} {k : K} {r : R}

/-- Resources are held by clients that live, each noted once or about to be. -/
structure Kept (l : Ledger K R n) : Prop where
  owned : ∀ r a b, l.own r = some (a, b) → ∃ k, l.live k ∧ l.name k = a ∧
    (b = true → (∃ j, l.tab k j = some r) ∨ ∃ sure, l.pend k = some (r, sure))
  noted : ∀ k j r, l.tab k j = some r → l.live k ∧ l.own r = some (l.name k, true)
  once : ∀ k i j r, l.tab k i = some r → l.tab k j = some r → i = j
  pending : ∀ k r sure, l.pend k = some (r, sure) → l.live k ∧ (∀ j, l.tab k j ≠ some r) ∧
    (l.own r = none ∨ ∃ b, l.own r = some (l.name k, b)) ∧
    (sure = true → l.own r = some (l.name k, true))
  names : ∀ k k', l.live k → l.live k' → l.name k = l.name k' → k = k'

theorem Kept.frame (h : l.Kept) (hown : l'.own = l.own)
    (hlive : ∀ k, l.live k → l'.live k ∧ l'.name k = l.name k ∧ l'.tab k = l.tab k ∧
      l'.pend k = l.pend k)
    (hdead : ∀ k, ¬ l.live k → (∀ j, l'.tab k j = none) ∧ l'.pend k = none)
    (hnames : ∀ k k', l'.live k → l'.live k' → l'.name k = l'.name k' → k = k') : l'.Kept := by
  refine ⟨?_, ?_, ?_, ?_, hnames⟩
  · intro r a b hr
    rw [hown] at hr
    obtain ⟨k, hk, hname, hplace⟩ := h.owned r a b hr
    obtain ⟨hk', hname', htab, hpend⟩ := hlive k hk
    refine ⟨k, hk', hname'.trans hname, ?_⟩
    rw [htab, hpend]
    exact hplace
  · intro k j r hj
    by_cases hk : l.live k
    · obtain ⟨hk', hname', htab, _⟩ := hlive k hk
      rw [htab] at hj
      rw [hown, hname']
      exact ⟨hk', (h.noted k j r hj).2⟩
    · rw [(hdead k hk).1] at hj
      cases hj
  · intro k i j r hi hj
    by_cases hk : l.live k
    · rw [(hlive k hk).2.2.1] at hi hj
      exact h.once k i j r hi hj
    · rw [(hdead k hk).1] at hi
      cases hi
  · intro k r sure hr
    by_cases hk : l.live k
    · obtain ⟨hk', hname', htab, hpend⟩ := hlive k hk
      rw [hpend] at hr
      rw [hown, hname', htab]
      exact ⟨hk', (h.pending k r sure hr).2⟩
    · rw [(hdead k hk).2] at hr
      cases hr

theorem Kept.not_noted (h : l.Kept) (hfree : ∀ a, l.own r ≠ some (a, true)) (k : K) (j : Fin n) :
    l.tab k j ≠ some r := fun hj => hfree _ (h.noted k j r hj).2

section

variable [DecidableEq R]

def setOwn (l : Ledger K R n) (r : R) (o : Option (Nat × Bool)) : Ledger K R n :=
  { l with own := Function.update l.own r o }

variable [DecidableEq K]

def setPend (l : Ledger K R n) (k : K) (p : Option (R × Bool)) : Ledger K R n :=
  { l with pend := Function.update l.pend k p }

def setTab (l : Ledger K R n) (k : K) (j : Fin n) (o : Option R) : Ledger K R n :=
  { l with tab := Function.update l.tab k (Function.update (l.tab k) j o) }

omit [DecidableEq R] in
theorem setPend_none (h : l.pend k = none) : l.setPend k none = l := by
  have hpend : Function.update l.pend k none = l.pend := by
    rw [← h, Function.update_eq_self]
  simp only [setPend, hpend]

omit [DecidableEq R] in
theorem setTab_none {j : Fin n} (h : l.tab k j = none) : l.setTab k j none = l := by
  have htab : Function.update l.tab k (Function.update (l.tab k) j none) = l.tab := by
    rw [← h, Function.update_eq_self, Function.update_eq_self]
  simp only [setTab, htab]

/-- The client ends, and all that it has noted goes back. -/
def stop (l : Ledger K R n) (k : K) : Ledger K R n where
  own r := if (∃ j, l.tab k j = some r) then none else l.own r
  name := l.name
  live k' := k' ≠ k ∧ l.live k'
  tab := Function.update l.tab k fun _ => none
  pend := Function.update l.pend k none

omit [DecidableEq R] in
theorem setPend_eq_some {p : Option (R × Bool)} {k' : K} {x : R × Bool} :
    (l.setPend k p).pend k' = some x ↔ k' = k ∧ p = some x ∨ k' ≠ k ∧ l.pend k' = some x := by
  simp only [setPend, Function.update_apply]
  split
  · simp [*]
  · simp [*]

omit [DecidableEq R] in
theorem setTab_eq_some {i j : Fin n} {o : Option R} {k' : K} {r' : R} :
    (l.setTab k j o).tab k' i = some r' ↔
      (k' = k ∧ i = j) ∧ o = some r' ∨ ¬ (k' = k ∧ i = j) ∧ l.tab k' i = some r' := by
  by_cases hk : k' = k
  · subst hk
    by_cases hi : i = j
    · simp [setTab, hi]
    · simp [setTab, hi]
  · simp [setTab, hk]

theorem Kept.take (h : l.Kept) (hk : l.live k) (hfree : l.own r = none)
    (hquiet : ∀ k, l.pend k = none) :
    ((l.setOwn r (some (l.name k, true))).setPend k (some (r, true))).Kept := by
  have hnot : ∀ k j, l.tab k j ≠ some r := h.not_noted (by simp [hfree])
  refine ⟨?_, ?_, h.once, ?_, h.names⟩
  · intro r' a b hr
    simp only [setOwn, setPend] at hr ⊢
    by_cases heq : r' = r
    · rw [heq, Function.update_self] at hr
      cases hr
      refine ⟨k, hk, rfl, fun _ => Or.inr ⟨true, ?_⟩⟩
      rw [heq, Function.update_self]
    · rw [Function.update_of_ne heq] at hr
      obtain ⟨k', hk', hname, hplace⟩ := h.owned r' a b hr
      refine ⟨k', hk', hname, fun hb => Or.inl ?_⟩
      rcases hplace hb with hj | ⟨sure, hp⟩
      · exact hj
      · rw [hquiet] at hp
        cases hp
  · intro k' j r' hj
    have hne : r' ≠ r := by
      rintro rfl
      exact hnot k' j hj
    simp only [setOwn, setPend, Function.update_of_ne hne]
    exact h.noted k' j r' hj
  · intro k' r' sure hp
    rcases setPend_eq_some.mp hp with ⟨rfl, heq⟩ | ⟨-, hp⟩
    · cases heq
      have hr : Function.update l.own r (some (l.name k', true)) r = some (l.name k', true) :=
        Function.update_self ..
      exact ⟨hk, hnot k', Or.inr ⟨true, hr⟩, fun _ => hr⟩
    · exact absurd ((hquiet k').symm.trans hp) (by simp)

omit [DecidableEq K] in
theorem Kept.lend (h : l.Kept) (hk : l.live k) (hfree : l.own r = none)
    (hquiet : ∀ k, l.pend k = none) : (l.setOwn r (some (l.name k, false))).Kept := by
  refine ⟨?_, ?_, h.once, ?_, h.names⟩
  · intro r' a b hr
    by_cases heq : r' = r
    · simp only [setOwn, heq, Function.update_self] at hr
      cases hr
      exact ⟨k, hk, rfl, fun hb => by cases hb⟩
    · simp only [setOwn, Function.update_of_ne heq] at hr
      exact h.owned r' a b hr
  · intro k' j r' hj
    have hne : r' ≠ r := by
      rintro rfl
      exact h.not_noted (by simp [hfree]) k' j hj
    simp only [setOwn, Function.update_of_ne hne]
    exact h.noted k' j r' hj
  · intro k' r' sure hp
    rw [setOwn, hquiet] at hp
    cases hp

omit [DecidableEq R] in
theorem Kept.note {j : Fin n} (h : l.Kept) (hp : l.pend k = some (r, true))
    (hj : l.tab k j = none) : ((l.setTab k j (some r)).setPend k none).Kept := by
  obtain ⟨hk, hnot, _, hsure⟩ := h.pending k r true hp
  refine ⟨?_, ?_, ?_, ?_, h.names⟩
  · intro r' a b hr
    obtain ⟨k', hk', hname, hplace⟩ := h.owned r' a b hr
    refine ⟨k', hk', hname, fun hb => ?_⟩
    rcases hplace hb with ⟨i, hi⟩ | ⟨sure, hp'⟩
    · refine Or.inl ⟨i, setTab_eq_some.mpr (Or.inr ⟨?_, hi⟩)⟩
      rintro ⟨rfl, rfl⟩
      rw [hj] at hi
      cases hi
    · by_cases heq : k' = k
      · rw [heq, hp] at hp'
        cases hp'
        exact Or.inl ⟨j, setTab_eq_some.mpr (Or.inl ⟨⟨heq, rfl⟩, rfl⟩)⟩
      · exact Or.inr ⟨sure, setPend_eq_some.mpr (Or.inr ⟨heq, hp'⟩)⟩
  · intro k' i r' hi
    rcases setTab_eq_some.mp hi with ⟨⟨rfl, rfl⟩, heq⟩ | ⟨-, hi'⟩
    · cases heq
      exact ⟨hk, hsure rfl⟩
    · exact h.noted k' i r' hi'
  · intro k' i i' r' hi hi'
    rcases setTab_eq_some.mp hi with ⟨⟨rfl, rfl⟩, heq⟩ | ⟨-, hsame⟩
    · cases heq
      rcases setTab_eq_some.mp hi' with ⟨⟨-, rfl⟩, -⟩ | ⟨-, hsame'⟩
      · rfl
      · exact absurd hsame' (hnot i')
    · rcases setTab_eq_some.mp hi' with ⟨⟨rfl, rfl⟩, heq⟩ | ⟨-, hsame'⟩
      · cases heq
        exact absurd hsame (hnot i)
      · exact h.once k' i i' r' hsame hsame'
  · intro k' r' sure hp'
    rcases setPend_eq_some.mp hp' with ⟨-, hnone⟩ | ⟨heq, hp'⟩
    · cases hnone
    obtain ⟨hk', hnot', hrest⟩ := h.pending k' r' sure hp'
    refine ⟨hk', fun i hi => ?_, hrest⟩
    rcases setTab_eq_some.mp hi with ⟨⟨rfl, -⟩, -⟩ | ⟨-, hi'⟩
    · exact heq rfl
    · exact hnot' i hi'

omit [DecidableEq R] in
theorem Kept.unnote {j : Fin n} (h : l.Kept) (hj : l.tab k j = some r) (hp : l.pend k = none)
    (sure : Bool) : ((l.setTab k j none).setPend k (some (r, sure))).Kept := by
  obtain ⟨hk, hown⟩ := h.noted k j r hj
  have htab : ∀ k' i r', (l.setTab k j none).tab k' i = some r' →
      ¬ (k' = k ∧ i = j) ∧ l.tab k' i = some r' := by
    intro k' i r' hi
    rcases setTab_eq_some.mp hi with ⟨-, hnone⟩ | hi
    · cases hnone
    · exact hi
  refine ⟨?_, ?_, ?_, ?_, h.names⟩
  · intro r' a b hr
    obtain ⟨k', hk', hname, hplace⟩ := h.owned r' a b hr
    refine ⟨k', hk', hname, fun hb => ?_⟩
    rcases hplace hb with ⟨i, hi⟩ | ⟨sure', hp'⟩
    · by_cases hij : k' = k ∧ i = j
      · rw [hij.1, hij.2, hj] at hi
        cases hi
        exact Or.inr ⟨sure, setPend_eq_some.mpr (Or.inl ⟨hij.1, rfl⟩)⟩
      · exact Or.inl ⟨i, setTab_eq_some.mpr (Or.inr ⟨hij, hi⟩)⟩
    · have heq : k' ≠ k := by
        rintro rfl
        rw [hp] at hp'
        cases hp'
      exact Or.inr ⟨sure', setPend_eq_some.mpr (Or.inr ⟨heq, hp'⟩)⟩
  · intro k' i r' hi
    exact h.noted k' i r' (htab k' i r' hi).2
  · intro k' i i' r' hi hi'
    exact h.once k' i i' r' (htab k' i r' hi).2 (htab k' i' r' hi').2
  · intro k' r' sure' hp'
    rcases setPend_eq_some.mp hp' with ⟨rfl, heq⟩ | ⟨-, hp'⟩
    · cases heq
      refine ⟨hk, fun i hi => ?_, Or.inr ⟨true, hown⟩, fun _ => hown⟩
      obtain ⟨hij, hi'⟩ := htab k' i r hi
      exact hij ⟨rfl, h.once k' i j r hi' hj⟩
    · obtain ⟨hk', hnot, hrest⟩ := h.pending k' r' sure' hp'
      exact ⟨hk', fun i hi => hnot i (htab k' i r' hi).2, hrest⟩

omit [DecidableEq R] in
theorem Kept.turn {p : Option (R × Bool)} (h : l.Kept)
    (hlost : ∀ r sure, l.pend k = some (r, sure) → l.own r ≠ some (l.name k, true))
    (hnew : ∀ r sure, p = some (r, sure) → l.live k ∧ (∀ j, l.tab k j ≠ some r) ∧
      (l.own r = none ∨ ∃ b, l.own r = some (l.name k, b)) ∧
      (sure = true → l.own r = some (l.name k, true))) : (l.setPend k p).Kept := by
  refine ⟨?_, h.noted, h.once, ?_, h.names⟩
  · intro r' a b hr
    obtain ⟨k', hk', hname, hplace⟩ := h.owned r' a b hr
    refine ⟨k', hk', hname, fun hb => (hplace hb).imp_right ?_⟩
    rintro ⟨sure, hp⟩
    refine ⟨sure, setPend_eq_some.mpr (Or.inr ⟨?_, hp⟩)⟩
    rintro rfl
    apply hlost r' sure hp
    rw [hname, ← hb]
    exact hr
  · intro k' r' sure hp
    rcases setPend_eq_some.mp hp with ⟨rfl, heq⟩ | ⟨-, hp⟩
    · exact hnew r' sure heq
    · exact h.pending k' r' sure hp

omit [DecidableEq R] in
theorem Kept.expect (h : l.Kept) (hk : l.live k)
    (hown : l.own r = none ∨ l.own r = some (l.name k, false)) (hp : l.pend k = none) :
    (l.setPend k (some (r, false))).Kept := by
  refine h.turn (fun r' sure hp' => ?_) fun r' sure heq => ?_
  · rw [hp] at hp'
    cases hp'
  · cases heq
    refine ⟨hk, fun j hj => ?_, hown.imp_right fun hr => ⟨false, hr⟩, fun hs => by cases hs⟩
    have hr := (h.noted k j r hj).2
    rcases hown with hown | hown
    · rw [hr] at hown
      cases hown
    · rw [hr] at hown
      cases hown

omit [DecidableEq R] in
theorem Kept.forget {sure : Bool} (h : l.Kept) (hp : l.pend k = some (r, sure))
    (hown : l.own r ≠ some (l.name k, true)) : (l.setPend k none).Kept := by
  refine h.turn (fun r' sure' hp' => ?_) fun _ _ heq => by cases heq
  rw [hp] at hp'
  cases hp'
  exact hown

theorem Kept.giveBack (h : l.Kept) (hown : ∀ a b, l.own r = some (a, b) → l.name k = a)
    (hk : l.live k) (hnot : ∀ j, l.tab k j ≠ some r) (hquiet : ∀ k', k' ≠ k → l.pend k' = none)
    (hp : ∀ r' sure, l.pend k = some (r', sure) → r' = r) :
    ((l.setOwn r none).setPend k none).Kept := by
  have hne : ∀ k' j r', l.tab k' j = some r' → r' ≠ r := by
    intro k' j r' hj
    rintro rfl
    obtain ⟨hk', hr⟩ := h.noted k' j r' hj
    have hkk := h.names k k' hk hk' (hown _ _ hr)
    exact hnot j (hkk ▸ hj)
  refine ⟨?_, ?_, h.once, ?_, h.names⟩
  · intro r' a b hr
    simp only [setOwn, setPend] at hr
    by_cases heq : r' = r
    · rw [heq, Function.update_self] at hr
      cases hr
    · rw [Function.update_of_ne heq] at hr
      obtain ⟨k', hk', hname, hplace⟩ := h.owned r' a b hr
      refine ⟨k', hk', hname, fun hb => Or.inl ?_⟩
      rcases hplace hb with hi | ⟨sure, hp'⟩
      · exact hi
      · by_cases hkk : k' = k
        · rw [hkk] at hp'
          exact absurd (hp r' sure hp') heq
        · rw [hquiet k' hkk] at hp'
          cases hp'
  · intro k' j r' hj
    simp only [setOwn, setPend, Function.update_of_ne (hne k' j r' hj)]
    exact h.noted k' j r' hj
  · intro k' r' sure hp'
    rcases setPend_eq_some.mp hp' with ⟨-, hnone⟩ | ⟨hkk, hp'⟩
    · cases hnone
    · exact absurd ((hquiet k' hkk).symm.trans hp') (by simp)

theorem Kept.handBack (h : l.Kept) (hown : ∀ a b, l.own r = some (a, b) → l.name k = a)
    (hk : l.live k) (hnot : ∀ j, l.tab k j ≠ some r) (hquiet : ∀ k', l.pend k' = none) :
    (l.setOwn r none).Kept := by
  have hgiven := h.giveBack hown hk hnot (fun k' _ => hquiet k') fun r' sure hp => by
    rw [hquiet] at hp
    cases hp
  have hpend : (l.setOwn r none).pend k = none := hquiet k
  rwa [setPend_none hpend] at hgiven

theorem Kept.stop (h : l.Kept) (hp : l.pend k = none)
    (hnoted : ∀ r, l.own r ≠ some (l.name k, false)) : (l.stop k).Kept := by
  have htab : ∀ k' j r, (l.stop k).tab k' j = some r → k' ≠ k ∧ l.tab k' j = some r := by
    intro k' j r hj
    simp only [Ledger.stop] at hj
    by_cases heq : k' = k
    · rw [heq, Function.update_self] at hj
      cases hj
    · rw [Function.update_of_ne heq] at hj
      exact ⟨heq, hj⟩
  have hown : ∀ k' r, k' ≠ k → l.live k' → l.own r = some (l.name k', true) →
      (l.stop k).own r = some (l.name k', true) := by
    intro k' r hne hk' hr
    simp only [Ledger.stop]
    rw [if_neg]
    · exact hr
    · rintro ⟨j, hj⟩
      obtain ⟨hk, hr'⟩ := h.noted k j r hj
      rw [hr] at hr'
      have hname := congrArg Prod.fst (Option.some.inj hr')
      exact hne (h.names k' k hk' hk hname)
  refine ⟨?_, ?_, ?_, ?_, fun k' k'' hk' hk'' => h.names k' k'' hk'.2 hk''.2⟩
  · intro r a b hr
    simp only [Ledger.stop] at hr
    split at hr
    · cases hr
    · rename_i hnot
      obtain ⟨k', hk', hname, hplace⟩ := h.owned r a b hr
      have hne : k' ≠ k := by
        rintro rfl
        cases b with
        | false =>
          apply hnoted r
          rw [hname]
          exact hr
        | true =>
          rcases hplace rfl with hi | ⟨sure, hp'⟩
          · exact hnot hi
          · rw [hp] at hp'
            cases hp'
      refine ⟨k', ⟨hne, hk'⟩, hname, ?_⟩
      simp only [Ledger.stop, Function.update_of_ne hne]
      exact hplace
  · intro k' j r hj
    obtain ⟨hne, hj'⟩ := htab k' j r hj
    obtain ⟨hk', hr⟩ := h.noted k' j r hj'
    exact ⟨⟨hne, hk'⟩, hown k' r hne hk' hr⟩
  · intro k' i j r hi hj
    exact h.once k' i j r (htab k' i r hi).2 (htab k' j r hj).2
  · intro k' r sure hp'
    simp only [Ledger.stop] at hp'
    by_cases heq : k' = k
    · rw [heq, Function.update_self] at hp'
      cases hp'
    · rw [Function.update_of_ne heq] at hp'
      obtain ⟨hk', hnot, hwho, hsure⟩ := h.pending k' r sure hp'
      refine ⟨⟨heq, hk'⟩, fun j hj => hnot j (htab k' j r hj).2, ?_, ?_⟩
      · simp only [Ledger.stop]
        split
        · exact Or.inl rfl
        · exact hwho
      · intro hs
        exact hown k' r heq hk' (hsure hs)

end

end Ledger

end vibeos
