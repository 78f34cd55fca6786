-- A region cut into cells, each with a header in front of its bytes. Taking the first
-- free cell that fits, giving a cell back and joining free neighbours keep the cut.
import Mathlib.Data.List.Chain
import Mathlib.Tactic.Common

namespace vibeos.FirstFit

/-- A cell: the bytes behind its header, and whether nobody has it. -/
structure Cell where
  size : Nat
  free : Bool
deriving DecidableEq

variable (hdr slack : Nat)

def stop (a : Nat) : List Cell → Nat
  | [] => a
  | c :: cs => stop (a + hdr + c.size) cs

/-- The cells from `a` on have the cell `d` at `x`. -/
def At (a : Nat) : List Cell → Nat → Cell → Prop
  | [], _, _ => False
  | c :: cs, x, d => (x = a ∧ d = c) ∨ At (a + hdr + c.size) cs x d

/-- What becomes of a free cell that is taken for `need` bytes. -/
def cut (need : Nat) (c : Cell) : List Cell :=
  if c.size - need > hdr + slack then [⟨need, false⟩, ⟨c.size - need - hdr, true⟩]
  else [⟨c.size, false⟩]

/-- The first free cell with room for `need` bytes is taken. -/
def take (need a : Nat) : List Cell → Option (Nat × List Cell)
  | [] => none
  | c :: cs =>
    if c.free ∧ need ≤ c.size then some (a, cut hdr slack need c ++ cs)
    else (take need (a + hdr + c.size) cs).map fun r => (r.1, c :: r.2)

def release (x a : Nat) : List Cell → List Cell
  | [] => []
  | c :: cs =>
    if x = a then ⟨c.size, true⟩ :: cs else c :: release x (a + hdr + c.size) cs

/-- Free neighbours become one cell. -/
def mergeFrom (c : Cell) : List Cell → List Cell
  | [] => [c]
  | d :: cs =>
    if c.free ∧ d.free then mergeFrom ⟨c.size + hdr + d.size, true⟩ cs else c :: mergeFrom d cs

def Spaced (cs : List Cell) : Prop := cs.IsChain fun c d => ¬ (c.free = true ∧ d.free = true)

/-- A header that stands, or stood, at `y` is that of a free cell or lies in one. -/
def Buried (a : Nat) (cs : List Cell) (y : Nat) : Prop :=
  ∃ x c, At hdr a cs x c ∧ c.free = true ∧
    (y = x ∨ x + hdr ≤ y ∧ y + hdr ≤ x + hdr + c.size)

variable {hdr slack} {a x y r need n : Nat} {c d : Cell} {cs ds : List Cell}

/-! ## Cells of a cut -/

theorem take_cons : take hdr slack need a (c :: cs) =
    if c.free ∧ need ≤ c.size then some (a, cut hdr slack need c ++ cs)
    else (take hdr slack need (a + hdr + c.size) cs).map fun r => (r.1, c :: r.2) := rfl

theorem release_cons : release hdr x a (c :: cs) =
    if x = a then ⟨c.size, true⟩ :: cs else c :: release hdr x (a + hdr + c.size) cs := rfl

theorem mergeFrom_cons : mergeFrom hdr c (d :: cs) =
    if c.free ∧ d.free then mergeFrom hdr ⟨c.size + hdr + d.size, true⟩ cs
    else c :: mergeFrom hdr d cs := rfl

theorem le_stop : a ≤ stop hdr a cs := by
  induction cs generalizing a with
  | nil => exact Nat.le_refl a
  | cons c cs ih =>
    exact Nat.le_trans (by omega) (@ih (a + hdr + c.size))

theorem at_head (a : Nat) (c : Cell) (cs : List Cell) : At hdr a (c :: cs) a c := Or.inl ⟨rfl, rfl⟩

theorem At.inside (h : At hdr a cs x c) : a ≤ x ∧ x + hdr + c.size ≤ stop hdr a cs := by
  induction cs generalizing a with
  | nil => exact h.elim
  | cons d cs ih =>
    rcases h with ⟨rfl, rfl⟩ | h
    · exact ⟨Nat.le_refl x, le_stop⟩
    · obtain ⟨hle, hstop⟩ := ih h
      exact ⟨by omega, hstop⟩

theorem At.apart (hc : At hdr a cs x c) (hd : At hdr a cs y d) :
    x = y ∧ c = d ∨ x + hdr + c.size ≤ y ∨ y + hdr + d.size ≤ x := by
  induction cs generalizing a with
  | nil => exact hc.elim
  | cons e cs ih =>
    rcases hc with ⟨rfl, rfl⟩ | hc
    · rcases hd with ⟨rfl, rfl⟩ | hd
      · exact Or.inl ⟨rfl, rfl⟩
      · exact Or.inr (Or.inl hd.inside.1)
    · rcases hd with ⟨rfl, rfl⟩ | hd
      · exact Or.inr (Or.inr hc.inside.1)
      · exact ih hc hd

theorem At.eq_of_pos (hpos : 0 < hdr) (hc : At hdr a cs x c) (hd : At hdr a cs x d) : c = d := by
  rcases hc.apart hd with ⟨-, heq⟩ | hle | hle
  · exact heq
  · omega
  · omega

theorem At.mem (h : At hdr a cs x c) : c ∈ cs := by
  induction cs generalizing a with
  | nil => exact h.elim
  | cons d cs ih =>
    rcases h with ⟨-, rfl⟩ | h
    · exact List.mem_cons_self
    · exact List.mem_cons_of_mem d (ih h)

theorem length_le_stop (a : Nat) (cs : List Cell) : a + hdr * cs.length ≤ stop hdr a cs := by
  induction cs generalizing a with
  | nil => exact Nat.le_refl a
  | cons c cs ih =>
    have hrest := ih (a + hdr + c.size)
    rw [List.length_cons, Nat.mul_succ]
    exact Nat.le_trans (by omega) hrest

theorem stop_append (a : Nat) (cs ds : List Cell) :
    stop hdr a (cs ++ ds) = stop hdr (stop hdr a cs) ds := by
  induction cs generalizing a with
  | nil => rfl
  | cons c cs ih => exact ih _

theorem at_append (a : Nat) (cs ds : List Cell) (x : Nat) (d : Cell) :
    At hdr a (cs ++ ds) x d ↔ At hdr a cs x d ∨ At hdr (stop hdr a cs) ds x d := by
  induction cs generalizing a with
  | nil => simp [At, stop]
  | cons c cs ih =>
    rw [List.cons_append, At, ih, At, stop, or_assoc]

/-! ## Taking a cell -/

/-- The bytes that a free cell grants for `need` bytes. -/
def granted (hdr slack need : Nat) (c : Cell) : Nat :=
  if c.size - need > hdr + slack then need else c.size

theorem need_le_granted (h : need ≤ c.size) : need ≤ granted hdr slack need c := by
  unfold granted
  split
  · exact Nat.le_refl need
  · exact h

theorem stop_cut (a : Nat) (h : need ≤ c.size) :
    stop hdr a (cut hdr slack need c) = a + hdr + c.size := by
  unfold cut
  split
  · simp only [stop]
    omega
  · rfl

theorem at_cut_used (hd : d.free = false) :
    At hdr a (cut hdr slack need c) x d ↔ x = a ∧ d = ⟨granted hdr slack need c, false⟩ := by
  unfold cut granted
  split
  · simp only [At, or_false]
    refine or_iff_left ?_
    rintro ⟨-, rfl⟩
    exact nomatch hd
  · simp only [At, or_false]

theorem take_spec (h : take hdr slack need a cs = some (r, ds)) :
    ∃ c, At hdr a cs r c ∧ c.free = true ∧ need ≤ c.size ∧ stop hdr a ds = stop hdr a cs ∧
      ∀ x d, d.free = false → (At hdr a ds x d ↔
        x = r ∧ d = ⟨granted hdr slack need c, false⟩ ∨ At hdr a cs x d) := by
  induction cs generalizing a ds with
  | nil => exact nomatch h
  | cons e cs ih =>
    rw [take_cons] at h
    split at h
    · rename_i hfits
      obtain ⟨rfl, rfl⟩ := Prod.mk.inj (Option.some.inj h)
      refine ⟨e, at_head a e cs, hfits.1, hfits.2, ?_, fun x d hd => ?_⟩
      · rw [stop_append, stop_cut _ hfits.2]
        rfl
      · rw [at_append, at_cut_used hd, stop_cut _ hfits.2]
        refine or_congr_right ⟨Or.inr, fun hat => hat.resolve_left ?_⟩
        rintro ⟨-, rfl⟩
        rw [hfits.1] at hd
        exact nomatch hd
    · obtain ⟨⟨q, es⟩, hrest, heq⟩ := Option.map_eq_some_iff.mp h
      obtain ⟨rfl, rfl⟩ := Prod.mk.inj heq
      obtain ⟨c, hat, hfree, hneed, hstop, hused⟩ := ih hrest
      refine ⟨c, Or.inr hat, hfree, hneed, hstop, fun x d hd => ?_⟩
      simp only [At, hused x d hd]
      tauto

theorem ne_nil_of_take (h : take hdr slack need a cs = some (r, ds)) : cs ≠ [] ∧ ds ≠ [] := by
  obtain ⟨c, hat, -, -, -, hused⟩ := take_spec h
  have hnew := (hused r ⟨granted hdr slack need c, false⟩ rfl).mpr (Or.inl ⟨rfl, rfl⟩)
  exact ⟨List.ne_nil_of_mem hat.mem, List.ne_nil_of_mem hnew.mem⟩

theorem sizes_of_take {P : Nat → Prop} (hneed : P need)
    (hleft : ∀ n, P n → n - need > hdr + slack → P (n - need - hdr)) (hsizes : ∀ c ∈ cs, P c.size)
    (h : take hdr slack need a cs = some (r, ds)) : ∀ d ∈ ds, P d.size := by
  induction cs generalizing a ds with
  | nil => exact nomatch h
  | cons e cs ih =>
    have he := hsizes e List.mem_cons_self
    have hcs := fun c hc => hsizes c (List.mem_cons_of_mem e hc)
    rw [take_cons] at h
    split at h
    · obtain ⟨rfl, rfl⟩ := Prod.mk.inj (Option.some.inj h)
      intro d hd
      rcases List.mem_append.mp hd with hd | hd
      · unfold cut at hd
        split at hd
        · rename_i hcut
          simp only [List.mem_cons, List.not_mem_nil, or_false] at hd
          rcases hd with rfl | rfl
          · exact hneed
          · exact hleft _ he hcut
        · rw [List.mem_singleton.mp hd]
          exact he
      · exact hcs d hd
    · obtain ⟨⟨q, es⟩, hrest, heq⟩ := Option.map_eq_some_iff.mp h
      obtain ⟨rfl, rfl⟩ := Prod.mk.inj heq
      intro d hd
      rcases List.mem_cons.mp hd with rfl | hd
      · exact he
      · exact ih hcs hrest d hd

theorem spaced_cons : Spaced (c :: cs) ↔
    (∀ d ∈ cs.head?, ¬ (c.free = true ∧ d.free = true)) ∧ Spaced cs := List.isChain_cons

theorem spaced_of_take (hcs : Spaced cs) (h : take hdr slack need a cs = some (r, ds)) :
    Spaced ds ∧ ∀ c d, c ∈ ds.head? → d ∈ cs.head? → c.free = true → d.free = true := by
  induction cs generalizing a ds with
  | nil => exact nomatch h
  | cons e cs ih =>
    obtain ⟨hhead, hrest⟩ := spaced_cons.mp hcs
    rw [take_cons] at h
    split at h
    · rename_i hfits
      obtain ⟨-, rfl⟩ := Prod.mk.inj (Option.some.inj h)
      have hnext : ∀ d ∈ cs.head?, d.free ≠ true := fun d hd hfree => hhead d hd ⟨hfits.1, hfree⟩
      unfold cut
      split
      · refine ⟨?_, fun c d hc hd => ?_⟩
        · refine spaced_cons.mpr ⟨fun d _ hboth => (nomatch hboth.1), spaced_cons.mpr ⟨?_, hrest⟩⟩
          exact fun d hd hboth => hnext d hd hboth.2
        · cases hc
          exact fun hfree => nomatch hfree
      · refine ⟨spaced_cons.mpr ⟨fun d _ hboth => (nomatch hboth.1), hrest⟩, fun c d hc hd => ?_⟩
        cases hc
        exact fun hfree => nomatch hfree
    · obtain ⟨⟨q, es⟩, htake, heq⟩ := Option.map_eq_some_iff.mp h
      obtain ⟨rfl, rfl⟩ := Prod.mk.inj heq
      obtain ⟨hes, hfirst⟩ := ih hrest htake
      refine ⟨spaced_cons.mpr ⟨fun d hd hboth => ?_, hes⟩, fun c d hc hd => ?_⟩
      · cases cs with
        | nil => exact nomatch htake
        | cons f cs =>
          exact hhead f rfl ⟨hboth.1, hfirst d f hd rfl hboth.2⟩
      · cases hc
        cases hd
        exact id

/-! ## Giving a cell back -/

theorem stop_release (x a : Nat) (cs : List Cell) :
    stop hdr a (release hdr x a cs) = stop hdr a cs := by
  induction cs generalizing a with
  | nil => rfl
  | cons c cs ih =>
    rw [release_cons]
    split
    · rfl
    · exact ih _

theorem size_of_mem_release (h : d ∈ release hdr x a cs) : ∃ c ∈ cs, c.size = d.size := by
  induction cs generalizing a with
  | nil => exact nomatch h
  | cons c cs ih =>
    rw [release_cons] at h
    split at h
    · rcases List.mem_cons.mp h with rfl | h
      · exact ⟨c, List.mem_cons_self, rfl⟩
      · exact ⟨d, List.mem_cons_of_mem c h, rfl⟩
    · rcases List.mem_cons.mp h with rfl | h
      · exact ⟨d, List.mem_cons_self, rfl⟩
      · obtain ⟨e, he, hsize⟩ := ih h
        exact ⟨e, List.mem_cons_of_mem c he, hsize⟩

theorem at_release (hpos : 0 < hdr) (x a : Nat) (cs : List Cell) (y : Nat) (d : Cell) :
    At hdr a (release hdr x a cs) y d ↔
      y ≠ x ∧ At hdr a cs y d ∨ y = x ∧ ∃ c, At hdr a cs x c ∧ d = ⟨c.size, true⟩ := by
  induction cs generalizing a with
  | nil => simp [release, At]
  | cons c cs ih =>
    rw [release_cons]
    split
    · rename_i hxa
      subst hxa
      have hlater : ∀ {y e}, At hdr (x + hdr + c.size) cs y e → y ≠ x := by
        intro y e he
        have hlo := he.inside.1
        omega
      simp only [At]
      constructor
      · rintro (⟨rfl, rfl⟩ | hat)
        · exact Or.inr ⟨rfl, c, Or.inl ⟨trivial, rfl⟩, rfl⟩
        · exact Or.inl ⟨hlater hat, Or.inr hat⟩
      · rintro (⟨hne, ⟨rfl, -⟩ | hat⟩ | ⟨rfl, e, ⟨-, rfl⟩ | hat, rfl⟩)
        · exact absurd rfl hne
        · exact Or.inr hat
        · exact Or.inl ⟨rfl, rfl⟩
        · exact absurd rfl (hlater hat)
    · rename_i hxa
      simp only [At, ih]
      constructor
      · rintro (⟨rfl, rfl⟩ | ⟨hne, hat⟩ | ⟨rfl, e, hat, rfl⟩)
        · exact Or.inl ⟨fun h => hxa h.symm, Or.inl ⟨rfl, rfl⟩⟩
        · exact Or.inl ⟨hne, Or.inr hat⟩
        · exact Or.inr ⟨rfl, e, Or.inr hat, rfl⟩
      · rintro (⟨hne, hor | hat⟩ | ⟨rfl, e, ⟨rfl, -⟩ | hat, rfl⟩)
        · exact Or.inl hor
        · exact Or.inr (Or.inl ⟨hne, hat⟩)
        · exact absurd rfl hxa
        · exact Or.inr (Or.inr ⟨rfl, e, hat, rfl⟩)

/-! ## Joining free cells -/

theorem stop_mergeFrom (a : Nat) (c : Cell) (cs : List Cell) :
    stop hdr a (mergeFrom hdr c cs) = stop hdr a (c :: cs) := by
  induction cs generalizing a c with
  | nil => rfl
  | cons d cs ih =>
    rw [mergeFrom_cons]
    split
    · rw [ih]
      simp only [stop]
      congr 1
      omega
    · exact ih _ _

theorem sizes_of_mergeFrom {P : Nat → Prop} (hjoin : ∀ i j, P i → P j → P (i + hdr + j))
    (hsizes : ∀ d ∈ c :: cs, P d.size) : ∀ d ∈ mergeFrom hdr c cs, P d.size := by
  induction cs generalizing c with
  | nil => exact hsizes
  | cons e cs ih =>
    have hc := hsizes c List.mem_cons_self
    have he := hsizes e (List.mem_cons_of_mem c List.mem_cons_self)
    have hcs := fun d hd => hsizes d (List.mem_cons_of_mem c (List.mem_cons_of_mem e hd))
    rw [mergeFrom_cons]
    split
    · refine ih fun d hd => ?_
      rcases List.mem_cons.mp hd with rfl | hd
      · exact hjoin _ _ hc he
      · exact hcs d hd
    · intro d hd
      rcases List.mem_cons.mp hd with rfl | hd
      · exact hc
      · exact ih (fun d hd => hsizes d (List.mem_cons_of_mem c hd)) d hd

theorem mergeFrom_ne_nil (c : Cell) (cs : List Cell) : mergeFrom hdr c cs ≠ [] := by
  induction cs generalizing c with
  | nil => exact List.cons_ne_nil c []
  | cons e cs ih =>
    rw [mergeFrom_cons]
    split
    · exact ih _
    · exact List.cons_ne_nil _ _

theorem head_mergeFrom (c : Cell) (cs : List Cell) :
    ∀ d ∈ (mergeFrom hdr c cs).head?, d.free = c.free := by
  induction cs generalizing c with
  | nil =>
    intro d hd
    cases hd
    rfl
  | cons e cs ih =>
    rw [mergeFrom_cons]
    split
    · rename_i hfree
      intro d hd
      rw [ih _ d hd, hfree.1]
    · intro d hd
      cases hd
      rfl

theorem spaced_mergeFrom (c : Cell) (cs : List Cell) : Spaced (mergeFrom hdr c cs) := by
  induction cs generalizing c with
  | nil => exact List.isChain_singleton c
  | cons e cs ih =>
    rw [mergeFrom_cons]
    split
    · exact ih _
    · rename_i hnot
      refine spaced_cons.mpr ⟨fun d hd hboth => hnot ⟨hboth.1, ?_⟩, ih e⟩
      rw [← head_mergeFrom e cs d hd]
      exact hboth.2

theorem at_mergeFrom_used (hd : d.free = false) :
    At hdr a (mergeFrom hdr c cs) x d ↔ At hdr a (c :: cs) x d := by
  induction cs generalizing a c with
  | nil => rfl
  | cons e cs ih =>
    rw [mergeFrom_cons]
    split
    · rename_i hfree
      rw [ih]
      have hne : ∀ f : Cell, f.free = true → d ≠ f := by
        rintro f hf rfl
        rw [hf] at hd
        exact nomatch hd
      have hplace : a + hdr + (c.size + hdr + e.size) = a + hdr + c.size + hdr + e.size := by omega
      simp only [At, hplace]
      have h1 := hne c hfree.1
      have h2 := hne e hfree.2
      have h3 := hne ⟨c.size + hdr + e.size, true⟩ rfl
      tauto
    · exact or_congr_right ih

theorem buried_cons : Buried hdr a (c :: cs) y ↔
    (c.free = true ∧ (y = a ∨ a + hdr ≤ y ∧ y + hdr ≤ a + hdr + c.size)) ∨
      Buried hdr (a + hdr + c.size) cs y := by
  unfold Buried
  constructor
  · rintro ⟨x, d, ⟨rfl, rfl⟩ | hat, hfree, hy⟩
    · exact Or.inl ⟨hfree, hy⟩
    · exact Or.inr ⟨x, d, hat, hfree, hy⟩
  · rintro (⟨hfree, hy⟩ | ⟨x, d, hat, hfree, hy⟩)
    · exact ⟨a, c, at_head a c cs, hfree, hy⟩
    · exact ⟨x, d, Or.inr hat, hfree, hy⟩

theorem buried_mergeFrom (h : Buried hdr a (c :: cs) y) : Buried hdr a (mergeFrom hdr c cs) y := by
  induction cs generalizing a c with
  | nil => exact h
  | cons e cs ih =>
    rw [mergeFrom_cons]
    split
    · apply ih
      have hplace : a + hdr + c.size + hdr + e.size = a + hdr + (c.size + hdr + e.size) := by omega
      rw [buried_cons, buried_cons, hplace] at h
      rw [buried_cons]
      dsimp only
      rcases h with ⟨-, hy⟩ | ⟨-, hy⟩ | h
      · exact Or.inl ⟨rfl, by omega⟩
      · exact Or.inl ⟨rfl, by omega⟩
      · exact Or.inr h
    · rw [buried_cons] at h ⊢
      exact h.imp_right ih

theorem buried_release (hpos : 0 < hdr) (h : Buried hdr a cs y) :
    Buried hdr a (release hdr x a cs) y := by
  obtain ⟨z, c, hat, hfree, hy⟩ := h
  by_cases hzx : z = x
  · subst hzx
    exact ⟨z, ⟨c.size, true⟩, (at_release hpos z a cs z _).mpr (Or.inr ⟨rfl, c, hat, rfl⟩), rfl, hy⟩
  · exact ⟨z, c, (at_release hpos x a cs z c).mpr (Or.inl ⟨hzx, hat⟩), hfree, hy⟩

theorem eq_of_all_free (hcs : Spaced (c :: cs))
    (hfree : ∀ x d, At hdr a (c :: cs) x d → d.free = true) : cs = [] := by
  cases cs with
  | nil => rfl
  | cons e cs =>
    have hc := hfree a c (at_head a c _)
    have he := hfree _ e (Or.inr (at_head _ e cs))
    exact absurd ⟨hc, he⟩ ((spaced_cons.mp hcs).1 e rfl)

end vibeos.FirstFit
