-- Forests given by a parent-to-child relation in which every node has at most
-- one parent. What is below a root without a parent is a tree: it has no
-- cycle, the subtrees of two children of one node do not meet, and a subtree
-- can be hung under a node outside of it.
import Mathlib.Logic.Relation

namespace Forest

open Relation

variable {α : Type*} {R R' : α → α → Prop} {root x y z c d : α}

def UniqueParent (R : α → α → Prop) : Prop := ∀ ⦃x y z⦄, R x z → R y z → x = y

/-- The nodes of the tree below `x`, with `x` itself. -/
abbrev Below (R : α → α → Prop) (x y : α) : Prop := ReflTransGen R x y

theorem below_total (hu : UniqueParent R) (hx : Below R x z) (hy : Below R y z) :
    Below R x y ∨ Below R y x := by
  induction hx with
  | refl => exact Or.inr hy
  | @tail a b hxa hab ih =>
    rcases hy.cases_tail with rfl | ⟨a', hya', ha'b⟩
    · exact Or.inl (hxa.tail hab)
    · exact ih (hu hab ha'b ▸ hya')

theorem no_cycle (hu : UniqueParent R) (hroot : ∀ x, ¬ R x root) (hx : Below R root x) :
    ¬ TransGen R x x := by
  induction hx with
  | refl =>
    intro h
    obtain ⟨b, _, hb⟩ := TransGen.tail'_iff.mp h
    exact hroot b hb
  | @tail a b hra hab ih =>
    intro h
    obtain ⟨a', hba', ha'b⟩ := TransGen.tail'_iff.mp h
    have haa : a' = a := hu ha'b hab
    subst haa
    exact ih (TransGen.head' hab hba')

theorem children_disjoint (hu : UniqueParent R) (hroot : ∀ x, ¬ R x root)
    (hx : Below R root x) (hc : R x c) (hd : R x d) (hcd : c ≠ d)
    (hcz : Below R c z) (hdz : Below R d z) : False := by
  -- one of the children would be below the other, so `x` would be below itself
  have key : ∀ {a b : α}, R x a → R x b → a ≠ b → Below R a b → False := by
    intro a b ha hb hab h
    rcases h.cases_tail with rfl | ⟨p, hap, hpb⟩
    · exact hab rfl
    · have : p = x := hu hpb hb
      subst this
      exact no_cycle hu hroot hx (TransGen.head' ha hap)
  rcases below_total hu hcz hdz with h | h
  · exact key hc hd hcd h
  · exact key hd hc hcd.symm h

/-- Hanging `c` under `d`: the edges into `c` give way to one edge from `d`. -/
structure Rehung (R R' : α → α → Prop) (c d : α) : Prop where
  keep : ∀ {x y}, y ≠ c → (R' x y ↔ R x y)
  moved : ∀ {x}, R' x c ↔ x = d

theorem Rehung.below_of_below (h : Rehung R R' c d) (hx : Below R c x) : Below R' c x := by
  induction hx with
  | refl => exact .refl
  | @tail a b _ hab ih =>
    rcases Classical.em (b = c) with rfl | hb
    · exact .refl
    · exact ih.tail ((h.keep hb).mpr hab)

theorem Rehung.outside (h : Rehung R R' c d) (hx : Below R x y) (hn : ¬ Below R c y) :
    Below R' x y := by
  induction hx with
  | refl => exact .refl
  | @tail a b hxa hab ih =>
    have hb : b ≠ c := fun he => hn (he ▸ .refl)
    exact (ih fun ha => hn (ha.tail hab)).tail ((h.keep hb).mpr hab)

theorem Rehung.reach (h : Rehung R R' c d) (hd : Below R root d) (hcd : ¬ Below R c d)
    (hx : Below R root x) : Below R' root x := by
  have hc : Below R' root c := (h.outside hd hcd).tail (h.moved.mpr rfl)
  rcases Classical.em (Below R c x) with hcx | hcx
  · exact hc.trans (h.below_of_below hcx)
  · exact h.outside hx hcx

theorem Rehung.cut_off (h : Rehung R R' c d) (hu : UniqueParent R) (hroot : ¬ Below R c root)
    (hcd : Below R c d) (hx : Below R' root x) : ¬ Below R c x := by
  induction hx with
  | refl => exact hroot
  | @tail a b _ hab ih =>
    rcases Classical.em (b = c) with rfl | hb
    · rw [h.moved] at hab
      exact absurd (hab ▸ hcd) ih
    · rw [h.keep hb] at hab
      intro hcb
      rcases hcb.cases_tail with rfl | ⟨p, hcp, hpb⟩
      · exact hb rfl
      · exact ih (hu hpb hab ▸ hcp)

theorem Rehung.outside_root (h : Rehung R R' c d) (hc : c ≠ root) (hcr : Below R root c)
    (hu : UniqueParent R) (hroot : ∀ x, ¬ R x root) (hd : ¬ Below R root d)
    (hx : Below R' root x) : Below R root x ∧ ¬ Below R c x := by
  induction hx with
  | refl =>
    refine ⟨.refl, fun hcr' => ?_⟩
    rcases hcr'.cases_tail with he | ⟨p, _, hp⟩
    · exact hc he.symm
    · exact hroot p hp
  | @tail a b _ hab ih =>
    rcases Classical.em (b = c) with rfl | hb
    · rw [h.moved] at hab
      exact absurd (hab ▸ ih.1) hd
    · rw [h.keep hb] at hab
      refine ⟨ih.1.tail hab, fun hcb => ?_⟩
      rcases hcb.cases_tail with rfl | ⟨p, hcp, hpb⟩
      · exact hb rfl
      · exact ih.2 (hu hpb hab ▸ hcp)

end Forest
