-- Lists of events that each meet a condition in their own history, and runs over them.
import Mathlib.Data.List.Induction

namespace vibeos.Runs

variable {S E : Type}

/-- Every event of the list meets `P` with the events before it. -/
def Each (P : List E → E → Prop) (evs : List E) : Prop :=
  ∀ h ev t, evs = h ++ ev :: t → P h ev

theorem each_nil (P : List E → E → Prop) : Each P [] := fun _ _ _ h =>
  absurd h.symm (List.append_ne_nil_of_right_ne_nil _ (List.cons_ne_nil _ _))

theorem each_cons {P : List E → E → Prop} {ev : E} {evs : List E} (hfirst : P [] ev)
    (hrest : Each (fun h => P (ev :: h)) evs) : Each P (ev :: evs) := by
  intro h e t hevs
  cases h with
  | nil =>
    cases hevs
    exact hfirst
  | cons a h =>
    obtain ⟨rfl, htail⟩ := List.cons.inj hevs
    exact hrest h e t htail

theorem each_snoc {P : List E → E → Prop} {evs : List E} {ev : E} :
    Each P (evs ++ [ev]) ↔ Each P evs ∧ P evs ev := by
  constructor
  · intro hall
    exact ⟨fun h e t hevs => hall h e (t ++ [ev]) (by rw [hevs, List.append_assoc]; rfl),
      hall evs ev [] rfl⟩
  · rintro ⟨hbefore, hlast⟩ h e t hevs
    rcases List.eq_nil_or_concat t with rfl | ⟨t', last, rfl⟩
    · obtain ⟨rfl, he⟩ := List.append_inj' hevs rfl
      cases he
      exact hlast
    · rw [List.concat_eq_append, ← List.cons_append, ← List.append_assoc] at hevs
      exact hbefore h e t' (List.append_inj' hevs rfl).1

theorem exists_snoc {A : Type} {f : A → E} {P : List E → A → List E → Prop} {evs : List E}
    {ev : E} :
    (∃ h a t, evs ++ [ev] = h ++ f a :: t ∧ P h a t) ↔
      (∃ a, ev = f a ∧ P evs a []) ∨ ∃ h a t, evs = h ++ f a :: t ∧ P h a (t ++ [ev]) := by
  constructor
  · rintro ⟨h, a, t, hevs, hp⟩
    rcases List.eq_nil_or_concat t with rfl | ⟨t, last, rfl⟩
    · obtain ⟨rfl, hlast⟩ := List.append_inj' hevs rfl
      exact .inl ⟨a, (List.cons.inj hlast).1, hp⟩
    · rw [List.concat_eq_append] at hevs hp
      rw [← List.cons_append, ← List.append_assoc] at hevs
      obtain ⟨hbefore, hlast⟩ := List.append_inj' hevs rfl
      obtain rfl := (List.cons.inj hlast).1
      exact .inr ⟨h, a, t, hbefore, hp⟩
  · rintro (⟨a, rfl, hp⟩ | ⟨h, a, t, rfl, hp⟩)
    · exact ⟨evs, a, [], rfl, hp⟩
    · exact ⟨h, a, t ++ [ev], by simp, hp⟩

theorem Each.front {P : List E → E → Prop} {evs h t : List E} (hall : Each P evs)
    (hevs : evs = h ++ t) : Each P h := fun a ev b hh =>
  hall a ev (b ++ t) (by rw [hevs, hh, List.append_assoc]; rfl)

/-- The events of a run, each checked in its state. -/
def check (step : S → E → S) (good : S → E → Bool) : S → List E → Bool
  | _, [] => true
  | s, ev :: evs => good s ev && check step good (step s ev) evs

theorem each_of_check {step : S → E → S} {good : S → E → Bool} {s : S} {evs : List E}
    (h : check step good s evs = true) :
    Each (fun h ev => good (h.foldl step s) ev = true) evs := by
  induction evs generalizing s with
  | nil => exact each_nil _
  | cons ev evs ih =>
    rw [check, Bool.and_eq_true] at h
    exact each_cons h.1 (ih h.2)

theorem inv_of_each {step : S → E → S} {Inv : S → Prop} {Good : S → E → Prop} {s : S}
    (hstart : Inv s) (hstep : ∀ {s ev}, Inv s → Good s ev → Inv (step s ev)) {evs : List E}
    (hgood : Each (fun h ev => Good (h.foldl step s) ev) evs) : Inv (evs.foldl step s) := by
  induction evs using List.reverseRecOn with
  | nil => exact hstart
  | append_singleton evs ev ih =>
    obtain ⟨hbefore, hlast⟩ := each_snoc.mp hgood
    rw [List.foldl_append]
    exact hstep (ih hbefore) hlast

/-- Where the good events are those whose step has the property, from every state that an
invariant holds in, a run of good events is one in which every step has it. -/
theorem each_iff {step : S → E → S} {Inv : S → Prop} {Has Good : S → E → Prop} {s : S}
    (hstart : Inv s) (hstep : ∀ {s ev}, Inv s → (Has s ev ↔ Good s ev))
    (hkeep : ∀ {s ev}, Inv s → Good s ev → Inv (step s ev)) (evs : List E) :
    Each (fun h ev => Has (h.foldl step s) ev) evs ↔
      Each (fun h ev => Good (h.foldl step s) ev) evs := by
  induction evs using List.reverseRecOn with
  | nil => exact ⟨fun _ => each_nil _, fun _ => each_nil _⟩
  | append_singleton evs ev ih =>
    rw [each_snoc, each_snoc, ih]
    constructor
    · rintro ⟨hbefore, hlast⟩
      exact ⟨hbefore, (hstep (inv_of_each hstart hkeep hbefore)).mp hlast⟩
    · rintro ⟨hbefore, hlast⟩
      exact ⟨hbefore, (hstep (inv_of_each hstart hkeep hbefore)).mpr hlast⟩

theorem forall_states_iff {step : S → E → S} {P : S → Prop} {s : S} (evs : List E) :
    (∀ h t, evs = h ++ t → P (h.foldl step s)) ↔
      P s ∧ Each (fun h ev => P (step (h.foldl step s) ev)) evs := by
  constructor
  · intro hall
    refine ⟨hall [] evs rfl, fun h ev t hevs => ?_⟩
    have hsnoc := hall (h ++ [ev]) t (by rw [hevs, List.append_assoc]; rfl)
    rwa [List.foldl_append] at hsnoc
  · rintro ⟨hstart, hsteps⟩ h t hevs
    rcases List.eq_nil_or_concat h with rfl | ⟨h, ev, rfl⟩
    · exact hstart
    · rw [List.concat_eq_append, List.append_assoc] at hevs
      rw [List.concat_eq_append, List.foldl_append]
      exact hsteps h ev t hevs

end vibeos.Runs
