-- The creation of a file keeps a FAT16 volume consistent exactly on the images that
-- `Sustains` describes.
import Vibeos.Fat16Create

namespace vibeos.fat16

open Fat (Geometry Slot geometry firstPartition)

namespace Layout

/-! ## What a creation should do -/

/-- From `card` to `card'` the root directory got the file `k`, with the cluster `c`, and
everything else is as it was. -/
structure Created (L : Layout) (card card' : Nat → Mem) (name11 data : Mem) (size k c : Nat) :
    Prop where
  live : L.LiveAt card' k
  named : SameName (L.slot card' k) name11
  sized : (L.slot card' k).size = size
  starts : L.cluster card' k = c
  holds : ∀ i < size, card' (L.clusterLba c 0) i = data i
  last : 0xFFF8 ≤ L.entry card' c
  fresh : ¬ L.LiveAt card k
  free : L.entry card c = 0
  inside : L.geo.IsCluster c
  copies : L.CopiesAlike card → L.CopiesAlike card'
  names : L.DistinctNames card'
  slots : ∀ j < L.geo.rootEntries, j ≠ k → (∀ i < 32, L.slot card' j i = L.slot card j i) ∧
    (L.LiveAt card' j ↔ L.LiveAt card j)
  chains : ∀ j ≠ k, L.LiveAt card j → ∀ x, L.Reaches card (L.cluster card j) x →
    L.Keeps card card' x
  clusters : ∀ x, L.geo.IsCluster x → x ≠ c → L.Keeps card card' x
  outside : ∀ lba, lba < L.start + L.geo.reserved ∨ L.start + L.geo.total ≤ lba →
    card' lba = card lba

/-- The images on which a creation does that: there are two copies of the FAT (of more,
only the first two are written), a cluster is free, the name is one of a file, no other
file has it, behind the end marker stands no old entry that comes back to life, and no
chain runs into a free cluster. -/
structure Sustains (L : Layout) (card : Nat → Mem) (name11 : Mem) : Prop where
  copies : L.geo.fats = 2 ∨ ¬ L.CopiesAlike card
  room : ∃ x, L.geo.IsCluster x ∧ L.entry card x = 0
  name : name11 0 ≠ 0x00 ∧ name11 0 ≠ 0xE5
  marker : ∀ e j, L.FirstPlace card e → (L.slot card e).IsEnd → e < j → j < L.geo.rootEntries →
    (∀ i, e < i → i ≤ j → ¬ (L.slot card i).IsEnd) → ¬ (L.slot card j).Live
  names : L.DistinctNames card ∧ ∀ j, L.LiveAt card j → ¬ SameName (L.slot card j) name11
  chains : ∀ j x, L.LiveAt card j → L.Reaches card (L.cluster card j) x → ¬ L.FirstCluster card x

/-! ## The new card, part by part -/

section Parts

variable {L : Layout} {card : Nat → Mem} {name11 data : Mem} {size m e : Nat}

theorem FirstCluster.unique {x : Nat} (hm : L.FirstCluster card m) (hx : L.FirstCluster card x) :
    x = m := by
  rcases Nat.lt_trichotomy x m with h | h | h
  · exact absurd hx.2.1 (hm.2.2 x hx.1.1 h)
  · exact h
  · exact absurd hm.2.1 (hx.2.2 m hm.1.1 h)

theorem FirstPlace.unique {d : Nat} (he : L.FirstPlace card e) (hd : L.FirstPlace card d) :
    d = e := by
  rcases Nat.lt_trichotomy d e with h | h | h
  · exact absurd hd.2.1 (he.2.2 d h)
  · exact h
  · exact absurd he.2.1 (hd.2.2 e h)

theorem FirstPlace.not_liveAt (he : L.FirstPlace card e) : ¬ L.LiveAt card e := by
  rintro ⟨-, hend, hlive⟩
  rcases he.2.1 with h | h
  · exact hend e (Nat.le_refl e) h
  · exact hlive.1 h

theorem FirstPlace.not_isEnd {i : Nat} (he : L.FirstPlace card e) (hi : i < e) :
    ¬ (L.slot card i).IsEnd := fun h => he.2.2 i hi (Or.inl h)

section Entry

variable (root name : Mem) (a c n : Nat)

theorem put_entry_out {x : Nat} (h : x < a ∨ a + 32 ≤ x) :
    put_entry root a name c n x = root x := by
  unfold put_entry Mem.fill
  rw [Mem.writeLE_out (by omega), Mem.writeLE_out (by omega), Mem.patch_out (by omega),
    Mem.patch_out (by omega), Mem.patch_out (by omega)]

theorem put_entry_name {i : Nat} (h : i < 11) : put_entry root a name c n (a + i) = name i := by
  unfold put_entry Mem.fill
  rw [Mem.writeLE_out (by omega), Mem.writeLE_out (by omega), Mem.patch_out (by omega),
    Mem.patch_add h]

theorem put_entry_attr : put_entry root a name c n (a + 11) = 0x20 := by
  unfold put_entry
  rw [Mem.writeLE_out (by omega), Mem.writeLE_out (by omega)]
  exact Mem.patch_in (Nat.le_refl _) (by omega)

theorem put_entry_cluster (h : c < 2 ^ 16) :
    Mem.readLE (put_entry root a name c n) (a + 26) 2 = c := by
  unfold put_entry
  rw [Mem.readLE_writeLE_out (by omega), Mem.readLE_writeLE_of_lt (by omega)]

theorem put_entry_size (h : n < 2 ^ 32) :
    Mem.readLE (put_entry root a name c n) (a + 28) 4 = n := by
  unfold put_entry
  rw [Mem.readLE_writeLE_of_lt (by omega)]

end Entry

theorem readLE_slot (k a n : Nat) : Mem.readLE (L.slot card k) a n =
    (card (L.rootLba + k / 16)).readLE (32 * (k % 16) + a) n := by
  induction n with
  | zero => rfl
  | succ n ih =>
    simp only [Mem.readLE]
    rw [ih, slot, Nat.add_assoc]

variable (hfats : 2 ≤ L.geo.fats) (hm : L.geo.IsCluster m) (he : e < L.geo.rootEntries)

include hfats hm he

theorem slot_self (i : Nat) : L.slot (written L.mounted name11 data size m e card) e i =
    put_entry (card (L.rootLba + e / 16)) (32 * (e % 16)) name11 m size (32 * (e % 16) + i) := by
  unfold slot
  rw [written_root hfats hm he]

theorem slot_other {j i : Nat} (hj : j < L.geo.rootEntries) (hne : j ≠ e) (hi : i < 32) :
    L.slot (written L.mounted name11 data size m e card) j i = L.slot card j i := by
  unfold slot
  by_cases hsame : j / 16 = e / 16
  · rw [hsame, written_root hfats hm he, put_entry_out _ _ _ _ _ (by omega)]
  · have hlt := L.rootLba_lt hj
    have hdata := L.le_clusterLba m 0
    have hdiv := cluster_div_lt hm
    rw [written_other hfats hm he (by omega) (fun c hc => ?_) (by omega)]
    have hfat := L.fatLba_lt (i := c) (by omega) hdiv
    omega

theorem entry_self : L.entry (written L.mounted name11 data size m e card) m = 0xFFFF := by
  unfold entry le16
  rw [written_fat hfats hm he (by decide), Mem.readLE_writeLE_of_lt (by decide)]

theorem keeps_other {x : Nat} (hx : L.geo.IsCluster x) (hne : x ≠ m) :
    L.Keeps card (written L.mounted name11 data size m e card) x := by
  have hroot := L.rootLba_lt he
  have hdata := L.le_clusterLba m 0
  have hdivm := cluster_div_lt hm
  have hdivx := cluster_div_lt hx
  constructor
  · unfold entry le16
    by_cases hsame : x / 256 = m / 256
    · rw [hsame, written_fat hfats hm he (by decide), Mem.readLE_writeLE_out (by omega)]
    · have hlt := L.fatLba_lt (i := 0) (by omega) hdivx
      rw [written_other hfats hm he (by omega) (fun c hc h => ?_) (by unfold rootLba at *; omega)]
      exact hsame (fatLba_inj hdivx hdivm h).2
  · intro i hi
    have hlow := L.le_clusterLba x i
    rw [written_other hfats hm he (fun h => hne (clusterLba_inj hx hm hi h)) (fun c hc => ?_)
      (by omega)]
    have hfat := L.fatLba_lt (i := c) (by omega) hdivm
    have hle : L.rootLba ≤ L.start + L.geo.dataStart := by
      unfold rootLba Geometry.dataStart
      omega
    omega

theorem outside_other {lba : Nat}
    (h : lba < L.start + L.geo.reserved ∨ L.start + L.geo.total ≤ lba) :
    written L.mounted name11 data size m e card lba = card lba := by
  have hpos : 0 < L.geo.sectorsPerCluster := Nat.pos_of_ne_zero L.sound.boots.2.2.1
  have hdata := L.clusterLba_lt hm hpos
  have hlow := L.le_clusterLba m 0
  have hroot := L.rootLba_lt he
  have hdiv := cluster_div_lt hm
  have hfits := L.sound.fits
  have hstart : L.start + L.geo.reserved ≤ L.rootLba := by
    unfold rootLba Geometry.rootStart
    omega
  rw [written_other hfats hm he (by omega) (fun c hc => ?_) (by omega)]
  have hfat := L.fatLba_lt (i := c) (by omega) hdiv
  have hfatLow : L.start + L.geo.reserved ≤ L.fatLba c + m / 256 := by
    unfold fatLba
    omega
  omega

theorem copies_of_two (h2 : L.geo.fats = 2) (halike : L.CopiesAlike card) :
    L.CopiesAlike (written L.mounted name11 data size m e card) := by
  intro i hi j hj b hb
  have hdiv := cluster_div_lt hm
  have hdata := L.le_clusterLba m 0
  have hle : L.rootLba ≤ L.start + L.geo.dataStart := by
    unfold rootLba Geometry.dataStart
    omega
  by_cases hsame : j = m / 256
  · rw [hsame, written_fat hfats hm he (by omega), written_fat hfats hm he (by decide)]
  · have hkeep {c : Nat} (hc : c < L.geo.fats) :
        written L.mounted name11 data size m e card (L.fatLba c + j) = card (L.fatLba c + j) := by
      have hlt := L.fatLba_lt hc hj
      refine written_other hfats hm he (by omega) (fun d hd h => ?_) (by omega)
      exact hsame (fatLba_inj hj hdiv h).2
    rw [hkeep hi, hkeep (by omega)]
    exact halike i hi j hj b hb

theorem not_copies_of_three (h3 : 2 < L.geo.fats) (hzero : L.entry card m = 0)
    (halike : L.CopiesAlike card) :
    ¬ L.CopiesAlike (written L.mounted name11 data size m e card) := by
  intro hafter
  have hdiv := cluster_div_lt hm
  have hdata := L.le_clusterLba m 0
  have hlt := L.fatLba_lt h3 hdiv
  have hle : L.rootLba ≤ L.start + L.geo.dataStart := by
    unfold rootLba Geometry.dataStart
    omega
  have hkeep : written L.mounted name11 data size m e card (L.fatLba 2 + m / 256) =
      card (L.fatLba 2 + m / 256) := by
    refine written_other hfats hm he (by omega) (fun d hd h => ?_) (by omega)
    have hcopy := (fatLba_inj hdiv hdiv h).1
    omega
  have hold : L.entry card m = 0xFFFF := by
    rw [← entry_self hfats hm he]
    unfold entry le16
    refine Mem.readLE_congr fun b hb => ?_
    rw [← halike 2 h3 _ hdiv _ (by omega), ← hafter 2 h3 _ hdiv _ (by omega), hkeep]
  rw [hzero] at hold
  cases hold

omit he in
theorem liveAt_self (he : L.FirstPlace card e) (hname : name11 0 ≠ 0x00 ∧ name11 0 ≠ 0xE5) :
    L.LiveAt (written L.mounted name11 data size m e card) e := by
  have hfirst : L.slot (written L.mounted name11 data size m e card) e 0 = name11 0 := by
    rw [slot_self hfats hm he.1]
    exact put_entry_name _ _ _ _ _ (by decide)
  refine ⟨he.1, fun i hi => ?_, ?_, ?_⟩
  · unfold Slot.IsEnd
    rcases Nat.lt_or_eq_of_le hi with hlt | rfl
    · rw [slot_other hfats hm he.1 (Nat.lt_trans hlt he.1) (Nat.ne_of_lt hlt) (by decide)]
      exact he.not_isEnd hlt
    · rw [hfirst]
      exact hname.1
  · rw [hfirst]
    exact hname.2
  · unfold Slot.attr
    rw [slot_self hfats hm he.1, put_entry_attr]
    decide

theorem isEnd_other {j : Nat} (hj : j < L.geo.rootEntries) (hne : j ≠ e) :
    (L.slot (written L.mounted name11 data size m e card) j).IsEnd ↔ (L.slot card j).IsEnd := by
  unfold Slot.IsEnd
  rw [slot_other hfats hm he hj hne (by decide)]

theorem live_other {j : Nat} (hj : j < L.geo.rootEntries) (hne : j ≠ e) :
    (L.slot (written L.mounted name11 data size m e card) j).Live ↔ (L.slot card j).Live := by
  unfold Slot.Live Slot.attr
  rw [slot_other hfats hm he hj hne (by decide), slot_other hfats hm he hj hne (by decide)]

omit he in
theorem liveAt_other (he : L.FirstPlace card e) (hname : name11 0 ≠ 0x00 ∧ name11 0 ≠ 0xE5)
    {j : Nat} (hj : j < L.geo.rootEntries) (hne : j ≠ e) :
    L.LiveAt (written L.mounted name11 data size m e card) j ↔ L.LiveAt card j ∨
      (L.slot card e).IsEnd ∧ e < j ∧ (∀ i, e < i → i ≤ j → ¬ (L.slot card i).IsEnd) ∧
        (L.slot card j).Live := by
  have hself : L.LiveAt (written L.mounted name11 data size m e card) e :=
    liveAt_self hfats hm he hname
  unfold LiveAt
  rw [live_other hfats hm he.1 hj hne]
  constructor
  · rintro ⟨-, hend, hlive⟩
    have hbefore (i : Nat) (hi : i ≤ j) (hie : i ≠ e) : ¬ (L.slot card i).IsEnd := by
      have hsame : (L.slot (written L.mounted name11 data size m e card) i).IsEnd ↔ _ :=
        isEnd_other hfats hm he.1 (by omega) hie
      rw [← hsame]
      exact hend i hi
    by_cases hmark : (L.slot card e).IsEnd ∧ e < j
    · exact Or.inr ⟨hmark.1, hmark.2, fun i h1 h2 => hbefore i h2 (by omega), hlive⟩
    · refine Or.inl ⟨hj, fun i hi h => ?_, hlive⟩
      by_cases hie : i = e
      · subst hie
        exact hmark ⟨h, by omega⟩
      · exact hbefore i hi hie h
  · intro h
    have hlive : (L.slot card j).Live := h.elim (fun h => h.2.2) fun h => h.2.2.2
    refine ⟨hj, fun i hi => ?_, hlive⟩
    by_cases hie : i = e
    · subst hie
      exact hself.2.1 i (Nat.le_refl i)
    · rw [isEnd_other hfats hm he.1 (by omega) hie]
      rcases h with h | ⟨-, -, hclear, -⟩
      · exact h.2.1 i hi
      · rcases Nat.lt_or_gt_of_ne hie with hlt | hgt
        · exact he.not_isEnd hlt
        · exact hclear i hgt hi

end Parts

/-! ## Exactly these images -/

section Exact

variable {L : Layout} {card : Nat → Mem} {name11 data : Mem} {size m e : Nat}
  (hfats : 2 ≤ L.geo.fats) (hm : L.FirstCluster card m) (he : L.FirstPlace card e)

include hfats hm he

theorem created_of_sustains (hsize : size ≤ 512) (h : L.Sustains card name11) :
    L.Created card (written L.mounted name11 data size m e card) name11 data size e m := by
  have hslot (i : Nat) : L.slot (written L.mounted name11 data size m e card) e i = _ :=
    slot_self hfats hm.1 he.1 i
  have hother {j : Nat} (hj : j < L.geo.rootEntries) (hne : j ≠ e) :
      L.LiveAt (written L.mounted name11 data size m e card) j ↔ L.LiveAt card j := by
    rw [liveAt_other hfats hm.1 he h.name hj hne]
    refine or_iff_left fun hback => ?_
    exact h.marker e j he hback.1 hback.2.1 hj hback.2.2.1 hback.2.2.2
  have hnamed : SameName (L.slot (written L.mounted name11 data size m e card) e) name11 := by
    intro i hi
    rw [hslot]
    exact put_entry_name _ _ _ _ _ hi
  have hsame {j : Nat} (hj : j < L.geo.rootEntries) (hne : j ≠ e) (d : Mem) :
      SameName (L.slot (written L.mounted name11 data size m e card) j) d ↔
        SameName (L.slot card j) d := by
    refine forall₂_congr fun i hi => ?_
    rw [slot_other hfats hm.1 he.1 hj hne (by omega)]
  refine
    { live := liveAt_self hfats hm.1 he h.name
      named := hnamed
      sized := ?_
      starts := ?_
      holds := ?_
      last := ?_
      fresh := he.not_liveAt
      free := hm.2.1
      inside := hm.1
      copies := ?_
      names := ?_
      slots := ?_
      chains := ?_
      clusters := fun x hx hne => keeps_other hfats hm.1 he.1 hx hne
      outside := fun lba hlba => outside_other hfats hm.1 he.1 hlba }
  · unfold Slot.size
    rw [readLE_slot, written_root hfats hm.1 he.1, put_entry_size _ _ _ _ _ (by omega)]
  · unfold cluster le16
    rw [readLE_slot, written_root hfats hm.1 he.1,
      put_entry_cluster _ _ _ _ _ (short_of_isCluster hm.1)]
  · intro i hi
    rw [written_data hfats hm.1 he.1, Mem.patch_in (Nat.zero_le _) (by omega), Nat.sub_zero]
  · rw [entry_self hfats hm.1 he.1]
    decide
  · intro halike
    rcases h.copies with h2 | hnot
    · exact copies_of_two hfats hm.1 he.1 h2 halike
    · exact absurd halike hnot
  · intro i j hi hj hij
    by_cases hie : i = e <;> by_cases hje : j = e
    · rw [hie, hje]
    · -- the new file against an old one
      have hold := (hother hj.1 hje).mp hj
      refine absurd ((hsame hj.1 hje _).mp fun b hb => ?_) (h.names.2 j hold)
      rw [← hij b hb, hie]
      exact hnamed b hb
    · have hold := (hother hi.1 hie).mp hi
      refine absurd ((hsame hi.1 hie _).mp fun b hb => ?_) (h.names.2 i hold)
      rw [hij b hb, hje]
      exact hnamed b hb
    · refine h.names.1 i j ((hother hi.1 hie).mp hi) ((hother hj.1 hje).mp hj) fun b hb => ?_
      have hb' := hij b hb
      rwa [slot_other hfats hm.1 he.1 hi.1 hie (by omega),
        slot_other hfats hm.1 he.1 hj.1 hje (by omega)] at hb'
  · intro j hj hne
    exact ⟨fun i hi => slot_other hfats hm.1 he.1 hj hne hi, hother hj hne⟩
  · intro j hne hj x hx
    have hcluster : L.geo.IsCluster x := by
      cases hx with
      | start h => exact h
      | next _ h => exact h
    refine keeps_other hfats hm.1 he.1 hcluster fun hxm => ?_
    exact h.chains j x hj hx (hxm ▸ hm)

theorem sustains_of_created {k c : Nat}
    (h : L.Created card (written L.mounted name11 data size m e card) name11 data size k c) :
    L.Sustains card name11 := by
  have hname : name11 0 ≠ 0x00 ∧ name11 0 ≠ 0xE5 := by
    rw [← h.named 0 (by decide)]
    exact ⟨h.live.2.1 k (Nat.le_refl k), h.live.2.2.1⟩
  -- the new file is the one in the first free place
  obtain rfl : e = k := by
    by_contra hne
    exact he.not_liveAt (((h.slots e he.1 hne).2).mp (liveAt_self hfats hm.1 he hname))
  have hapart {j : Nat} (hj : L.LiveAt card j) : j ≠ e := fun hje => h.fresh (hje ▸ hj)
  have hlive {j : Nat} (hj : L.LiveAt card j) :
      L.LiveAt (written L.mounted name11 data size m e card) j :=
    ((h.slots j hj.1 (hapart hj)).2).mpr hj
  have hslot {j i : Nat} (hj : L.LiveAt card j) (hi : i < 11) :
      L.slot (written L.mounted name11 data size m e card) j i = L.slot card j i :=
    (h.slots j hj.1 (hapart hj)).1 i (by omega)
  refine ⟨?_, ⟨c, h.inside, h.free⟩, hname, ?_, ⟨?_, ?_⟩, ?_⟩
  · by_cases h2 : L.geo.fats = 2
    · exact Or.inl h2
    · refine Or.inr fun halike => ?_
      exact not_copies_of_three hfats hm.1 he.1 (by omega) hm.2.1 halike (h.copies halike)
  · intro d j hd hend hlt hj hclear hback
    obtain rfl : d = e := he.unique hd
    have hne : j ≠ d := Nat.ne_of_gt hlt
    have hnew : L.LiveAt (written L.mounted name11 data size m d card) j :=
      (liveAt_other hfats hm.1 he hname hj hne).mpr (Or.inr ⟨hend, hlt, hclear, hback⟩)
    exact (((h.slots j hj hne).2).mp hnew).2.1 d (Nat.le_of_lt hlt) hend
  · intro i j hi hj hij
    refine h.names i j (hlive hi) (hlive hj) fun b hb => ?_
    rw [hslot hi hb, hslot hj hb]
    exact hij b hb
  · intro j hj hsame
    refine hapart hj (h.names j e (hlive hj) h.live fun b hb => ?_)
    rw [hslot hj hb, h.named b hb]
    exact hsame b hb
  · intro j x hj hx hfirst
    obtain rfl : x = m := hm.unique hfirst
    have hkeep := (h.chains j (hapart hj) hj x hx).1
    rw [entry_self hfats hm.1 he.1, hm.2.1] at hkeep
    cases hkeep

end Exact

/-! ## What the searches find on an image -/

section Found

variable {L : Layout} {card : Nat → Mem} {m e : Nat}

theorem entry_eq_fatWord (hfats : 2 ≤ L.geo.fats) {y : Nat} (hy : y / 256 < L.geo.fatSize) :
    L.entry card y = fatWord card L.mounted.fat0_lba y := by
  unfold entry fatWord
  rw [show (L.mounted.fat0_lba + y / 256) % 2 ^ 32 = L.fatLba 0 + y / 256 from
    fatLba_short (by omega) hy]

theorem slot_eq_firstByte {k : Nat} (hk : k < L.geo.rootEntries) :
    L.slot card k 0 = firstByte card L.mounted.root_lba k := by
  unfold slot firstByte
  rw [show (L.mounted.root_lba + k / 16) % 2 ^ 32 = L.rootLba + k / 16 from rootLba_short hk]
  rfl

theorem firstCluster_of_found (hfats : 2 ≤ L.geo.fats)
    (hroom : ∃ x, L.geo.IsCluster x ∧ L.entry card x = 0) (h2 : 2 ≤ m)
    (hzero : fatWord card L.mounted.fat0_lba m = 0)
    (hfirst : ∀ y, 2 ≤ y → y < m → y < 2 ^ 16 → fatWord card L.mounted.fat0_lba y ≠ 0) :
    L.FirstCluster card m := by
  obtain ⟨x, hx, hfree⟩ := hroom
  have hdiv := cluster_div_lt hx
  have hle : m ≤ x := by
    by_contra hlt
    rw [entry_eq_fatWord hfats hdiv] at hfree
    exact hfirst x hx.1 (by omega) (short_of_isCluster hx) hfree
  have hmono {y : Nat} (hy : y ≤ x) : y / 256 < L.geo.fatSize :=
    Nat.lt_of_le_of_lt (Nat.div_le_div_right hy) hdiv
  refine ⟨⟨h2, Nat.lt_of_le_of_lt hle hx.2⟩, ?_, fun y h2y hy => ?_⟩
  · rw [entry_eq_fatWord hfats (hmono hle)]
    exact hzero
  · rw [entry_eq_fatWord hfats (hmono (by omega))]
    exact hfirst y h2y hy (by have := short_of_isCluster hx; omega)

theorem firstPlace_of_found (he : e < 16 * L.geo.rootSectors)
    (hfree : firstByte card L.mounted.root_lba e = 0x00 ∨
      firstByte card L.mounted.root_lba e = 0xE5)
    (hfirst : ∀ y < e, ¬ (firstByte card L.mounted.root_lba y = 0x00 ∨
      firstByte card L.mounted.root_lba y = 0xE5)) : L.FirstPlace card e := by
  have hwhole := L.sound.whole
  have hlt : e < L.geo.rootEntries := by
    unfold Geometry.rootSectors at he
    omega
  refine ⟨hlt, ?_, fun i hi => ?_⟩
  · rw [slot_eq_firstByte hlt]
    exact hfree
  · rw [slot_eq_firstByte (Nat.lt_trans hi hlt)]
    exact hfirst i hi

end Found

end Layout

open Layout

variable {L : Layout}

/-- A creation that succeeds keeps the volume consistent exactly on these images, and one
that fails before its first write leaves the card as it is. -/
theorem create_exact {faults : Faults} {s s₁ s₂ : Sd} {fs : fat16_fs_t} {name11 data : Mem}
    {size : Nat} {r : Option Unit} (hgeo : geometry (s.card L.start) = L.geo)
    (hstart : L.start = firstPartition (s.card 0))
    (hmount : fat16_mount faults s = (some fs, s₁)) (hsize : size ≤ 512)
    (hcreate : fat16_create_file_83 faults fs name11 data size s₁ = (r, s₂)) :
    (r = some () → ((∃ k c, L.Created s.card s₂.card name11 data size k c) ↔
      L.Sustains s.card name11)) ∧
    (r = none → s₂.writes = s₁.writes → s₂.card = s.card) := by
  obtain ⟨hcard, hfats, rfl⟩ := mount_some hgeo hstart hmount
  constructor
  · rintro rfl
    obtain ⟨m, e, h2, -, hzero, hfirst, he, hfree, hfirst', hwritten⟩ := create_some hcreate
    rw [hcard] at hzero hfirst hfree hfirst' hwritten
    rw [hwritten]
    have hplace := firstPlace_of_found he hfree hfirst'
    constructor
    · rintro ⟨k, c, h⟩
      have hm := firstCluster_of_found hfats ⟨c, h.inside, h.free⟩ h2 hzero hfirst
      exact sustains_of_created hfats hm hplace h
    · intro h
      have hm := firstCluster_of_found hfats h.room h2 hzero hfirst
      exact ⟨e, m, created_of_sustains hfats hm hplace hsize h⟩
  · rintro rfl hwrites
    have htidy := (tidy_create faults L.mounted name11 data size s₁).2
    rw [hcreate] at htidy
    exact (htidy hwrites).trans hcard

/-! ## Two small images -/

/-- A boot sector: one reserved sector, FATs of one sector, 16 root entries, clusters of
one sector. -/
def smallBoot (fats total : UInt8) : Mem := fun i =>
  match i with
  | 12 => 2
  | 13 => 1
  | 14 => 1
  | 16 => fats
  | 17 => 16
  | 19 => total
  | 22 => 1
  | 510 => 0x55
  | 511 => 0xAA
  | _ => 0

def smallCard (fats total : UInt8) : Nat → Mem := fun lba i =>
  if lba = 0 then smallBoot fats total i
  else if lba ≤ fats.toNat ∧ i < 4 then 0xFF
  else 0

def smallSd (fats total : UInt8) : Sd := ⟨smallCard fats total, 0, 0⟩

def twoCopies : Layout where
  geo := geometry (smallBoot 2 14)
  start := 0
  sound := ⟨by decide, by decide, by decide, by decide,
    by decide⟩
  fixed := by
    unfold Geometry.FixedRoot
    decide
  reserved := by decide
  covered := by decide
  onCard := by decide

def threeCopies : Layout where
  geo := geometry (smallBoot 3 15)
  start := 0
  sound := ⟨by decide, by decide, by decide, by decide,
    by decide⟩
  fixed := by
    unfold Geometry.FixedRoot
    decide
  reserved := by decide
  covered := by decide
  onCard := by decide

def smallName : Mem := fun i => if i = 0 then 65 else 32

def noFaults : Faults := fun _ => none

def smallRun (fats total : UInt8) : Option Unit × Sd :=
  (do
    let fs ← fat16_mount noFaults
    fat16_create_file_83 noFaults fs smallName (fun _ => 90) 3 : Sdio Unit) (smallSd fats total)

theorem smallRun_split {fats total : UInt8} (h : (smallRun fats total).1 = some ()) :
    ∃ fs s₁, fat16_mount noFaults (smallSd fats total) = (some fs, s₁) ∧
      fat16_create_file_83 noFaults fs smallName (fun _ => 90) 3 s₁ =
        (some (), (smallRun fats total).2) := by
  generalize hr : smallRun fats total = r at h ⊢
  obtain ⟨o, s₂⟩ := r
  obtain rfl : o = some () := h
  unfold smallRun at hr
  exact bind_some hr

theorem two_copies_exact :
    (smallRun 2 14).1 = some () ∧
    ((∃ k c, twoCopies.Created (smallCard 2 14) (smallRun 2 14).2.card
      smallName (fun _ => 90) 3 k c) ↔ twoCopies.Sustains (smallCard 2 14) smallName) := by
  have hrun : (smallRun 2 14).1 = some () := by decide
  obtain ⟨fs, s₁, hmount, hcreate⟩ := smallRun_split hrun
  have hexact := create_exact (L := twoCopies) (s := smallSd 2 14) rfl (by decide)
    hmount (by decide) hcreate
  exact ⟨hrun, hexact.1 rfl⟩

/-- The third copy of the FAT is not written. -/
theorem third_copy_differs :
    (smallRun 3 15).1 = some () ∧
    threeCopies.CopiesAlike (smallCard 3 15) ∧
    ¬ threeCopies.CopiesAlike (smallRun 3 15).2.card ∧
    ¬ ∃ k c, threeCopies.Created (smallCard 3 15) (smallRun 3 15).2.card
      smallName (fun _ => 90) 3 k c := by
  have hbefore : threeCopies.CopiesAlike (smallCard 3 15) := by
    unfold CopiesAlike
    decide +kernel
  have hafter : ¬ threeCopies.CopiesAlike (smallRun 3 15).2.card := by
    intro h
    exact absurd (h 2 (by decide) 0 (by decide) 4 (by decide)) (by decide)
  refine ⟨by decide, hbefore, hafter, ?_⟩
  rintro ⟨k, c, h⟩
  exact hafter (h.copies hbefore)

end vibeos.fat16
