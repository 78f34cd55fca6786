-- The disk after a committed call, in the terms of the tree: which slots are in
-- use, which links and parents changed, which blocks were freed. With that, each
-- call keeps "no block is shared" and the parent links.
import Vibeos.OpSpecs

namespace vibeos.fs

open LinkChain

section

variable [BuildConfig] {st st' mid : FsState} {T T' U U' : Nat → Prop}

/-! ## A write of a directory over a directory -/

section

omit [BuildConfig]

theorem dirOf_write_dir (st : FsState) (P Q : Nat) (db : DirBlock) :
    dirOf (write_dir st P db).disk Q = if Q = P then some db.toDisk else dirOf st.disk Q := by
  split
  · rename_i h
    rw [h, write_dir_disk_same]
  · rename_i h
    rw [dirOf_congr (write_dir_disk_ne st db h)]

theorem nextOf_write_dir {P : Nat} {d : DiskDir} (hd : dirOf st.disk P = some d)
    (db : DirBlock) (b : Nat) : nextOf (write_dir st P db).disk b = nextOf st.disk b := by
  by_cases hb : b = P
  · subst hb
    rw [nextOf_of_dir hd, nextOf_of_dir (write_dir_disk_same st b db)]
  · exact nextOf_congr (write_dir_disk_ne st db hb)

theorem slotHas_write_dir {P Q : Nat} {d : DiskDir} {idx : Fin MAX_DIR_ENTRIES}
    {e f : FileEntry} {j : Fin DIR_SLOTS} (hd : dirOf st.disk P = some d) :
    SlotHas (write_dir st P ((DirBlock.ofDisk d).setEntry idx e)).disk Q j f ↔
      (Q = P ∧ j.val = idx.val ∧ f = e ∧ e.inUse = true) ∨
      (¬ (Q = P ∧ j.val = idx.val) ∧ SlotHas st.disk Q j f) := by
  by_cases hQ : Q = P
  · subst hQ
    rw [slotHas_write_same (write_dir_disk_same _ _ _)]
    simp only [true_and]
    refine or_congr_right (and_congr_right fun _ => ?_)
    simp [SlotHas, hd]
  · rw [slotHas_congr (write_dir_disk_ne _ _ hQ)]
    simp [hQ]

end

/-! ## Origins

The call that writes slot `i` of block `P` makes one new slot; the others come from
themselves. -/

section

variable {P i : Nat} {s s' o : Nat × Fin DIR_SLOTS}

omit [BuildConfig]

theorem eq_of_sameSlot (h : s.1 = P ∧ s.2.val = i) (h' : s'.1 = P ∧ s'.2.val = i) : s = s' :=
  Prod.ext (h.1.trans h'.1.symm) (Fin.ext (h.2.trans h'.2.symm))

theorem origin_eq_none (h : (if s.1 = P ∧ s.2.val = i then none else some s) = none) :
    s.1 = P ∧ s.2.val = i := by
  by_contra hn
  rw [if_neg hn] at h
  cases h

theorem origin_eq_some (h : (if s.1 = P ∧ s.2.val = i then none else some s) = some o) :
    ¬ (s.1 = P ∧ s.2.val = i) ∧ s = o := by
  split at h
  · cases h
  · rename_i hn
    exact ⟨hn, Option.some.inj h⟩

end

/-! ## Store -/

section

variable {P : Nat} {leaf data : List UInt8} {now : Nat} {d : DiskDir}
  {idx : Fin MAX_DIR_ENTRIES} {old : Option FileEntry} {first : Nat} {l lold : List Nat}
  {ws : List (Nat × Block)}

omit [BuildConfig] in
theorem store_slot_ok {db : DirBlock} (h : store_slot db leaf = .ok (idx, old)) :
    (old = some (db.entries idx) ∧ find_entry_index db leaf none = some idx ∧
      (db.entries idx).type ≠ 1) ∨
    (old = none ∧ find_entry_index db leaf none = none ∧
      find_free_entry_index db = some idx) := by
  unfold store_slot at h
  split at h
  · rename_i i hi
    split at h
    · cases h
    · rename_i ht
      cases h
      exact Or.inl ⟨rfl, hi, ht⟩
  · rename_i hn
    split at h
    · cases h
    · rename_i i hi
      cases h
      exact Or.inr ⟨rfl, hn, hi⟩

theorem Grown.not_mem_of_used {t : List Nat} (g : Grown st mid l t ws) {b : Nat}
    (hb : st.fs_block_map b = true) : b ∉ l := by
  intro h
  rw [(g.fresh b h).2.2] at hb
  cases hb

theorem Grown.nextOf_write_dir (g : Grown st mid l l ws) (hd : dirOf st.disk P = some d)
    (db : DirBlock) {b : Nat} (hb : st.fs_block_map b = true) :
    nextOf (write_dir mid P db).disk b = nextOf st.disk b := by
  by_cases hbP : b = P
  · subst hbP
    rw [nextOf_of_dir hd, nextOf_of_dir (write_dir_disk_same mid b db)]
  · exact nextOf_congr ((write_dir_disk_ne mid db hbP).trans
      (g.disk_eq (g.not_mem_of_used hb)))

theorem store_into_total (hr : st.fs_alloc_ready = true)
    (hchain : ∀ {i e}, SlotHas st.disk P i e → ∃ l, Chain 0 (nextOf st.disk) e.bno l ∧
      ∀ b ∈ l, b < 2 ^ 32 ∧ st.fs_block_map b = true) :
    ∃ r, store_into st P leaf data now = some r := by
  unfold store_into
  split
  · exact ⟨_, rfl⟩
  rename_i d hd
  dsimp only
  rcases hs : store_slot (DirBlock.ofDisk d) leaf with e | ⟨idx, old⟩
  · exact ⟨_, rfl⟩
  obtain ⟨l, ws, hg, _⟩ := store_blocks_spec data hr
  dsimp only
  rcases hb : store_blocks st data with ⟨mid, _ | first⟩
  · exact ⟨_, rfl⟩
  rw [hb] at hg
  dsimp only at hg ⊢
  split
  · rename_i hold
    rcases store_slot_ok hs with ⟨rfl, hf, _⟩ | ⟨rfl, _, _⟩
    · have hi : idx.val < DIR_SLOTS := by
        by_contra hge
        exact hold (ofDisk_entries_of_ge d idx (by omega)).1
      obtain ⟨l0, h1, h2⟩ := hchain (slotHas_of_find hd hf hi).1
      have h3 := h1.congr fun x hx => hg.nextOf_write_dir hd
        ((DirBlock.ofDisk d).setEntry idx (store_entry ((DirBlock.ofDisk d).entries idx)
          (some ((DirBlock.ofDisk d).entries idx)) leaf first data.length now)) (h2 x hx).2
      have h4 := fs_free_chain_eq h3 fun x hx => (h2 x hx).1
      simp only [Option.map_some, Option.getD_some]
      exact ⟨_, by rw [h4]; rfl⟩
    · exact absurd rfl hold
  · exact ⟨_, rfl⟩

variable (c : StoreCommit st mid st' P leaf data now d idx old first l lold ws)

include c

theorem StoreCommit.disk_eq {x : Nat} (hx : x ∉ l) (hxP : x ≠ P) : st'.disk x = st.disk x := by
  rw [c.final, freeAll_disk, write_dir_disk_ne _ _ hxP, c.grown.disk_eq hx]

theorem StoreCommit.dir_after : dirOf st'.disk P = some ((DirBlock.ofDisk d).setEntry idx
    (store_entry ((DirBlock.ofDisk d).entries idx) old leaf first data.length now)).toDisk := by
  rw [c.final, freeAll_disk, write_dir_disk_same]

theorem StoreCommit.map_after (b : Nat) : st'.fs_block_map b = true ↔
    (st.fs_block_map b = true ∨ b ∈ l) ∧ ¬ (b ∈ lold ∧ 60 ≤ b ∧ b < FS_MAX_BLOCKS) := by
  rw [c.final, freeAll_map]
  exact and_congr_left' (c.grown.map b)

theorem StoreCommit.room_le : storeNeeds data.length ≤ freeAhead st := by
  rw [c.grown.room, c.length_eq]
  omega

theorem StoreCommit.room_after : freeAhead st ≤ storeNeeds data.length + freeAhead st' := by
  rw [c.grown.room, c.length_eq, c.final]
  exact Nat.add_le_add_left (freeAhead_le_freeAll (write_dir mid P ((DirBlock.ofDisk d).setEntry
    idx (store_entry ((DirBlock.ofDisk d).entries idx) old leaf first data.length now))) lold) _

theorem StoreCommit.not_new_of_used {b : Nat} (hb : st.fs_block_map b = true) : b ∉ l :=
  c.grown.not_mem_of_used hb

theorem StoreCommit.nextOf_eq {b : Nat} (hb : st.fs_block_map b = true) :
    nextOf st'.disk b = nextOf st.disk b := by
  rw [c.final, freeAll_disk, c.grown.nextOf_write_dir c.dir _ hb]

theorem StoreCommit.new_chain : ∃ l', Chain 0 (nextOf st'.disk) first l' ∧ l' ⊆ l := by
  refine c.file.chain.cut fun x _ => ?_
  by_cases hxP : x = P
  · subst hxP
    exact Or.inr (nextOf_of_dir c.dir_after)
  · refine Or.inl (nextOf_congr ?_)
    rw [c.final, freeAll_disk, write_dir_disk_ne _ _ hxP]

theorem StoreCommit.not_new_of_dir {Q : Nat} {dq : DiskDir} (hd : dirOf st'.disk Q = some dq) :
    Q ∉ l ∨ Q = P := by
  by_contra hn
  push Not at hn
  have : dirOf st'.disk Q = dirOf mid.disk Q := by
    apply dirOf_congr
    rw [c.final, freeAll_disk, write_dir_disk_ne _ _ hn.2]
  rw [this, c.grown.dirOf_eq_none hn.1] at hd
  cases hd

theorem StoreCommit.dir_before {Q : Nat} {dq : DiskDir} (hd : dirOf st'.disk Q = some dq) :
    ∃ d0, dirOf st.disk Q = some d0 ∧ dq.parent_bno = d0.parent_bno := by
  by_cases hQP : Q = P
  · subst hQP
    rw [c.dir_after] at hd
    cases hd
    exact ⟨d, c.dir, rfl⟩
  · have hl := (c.not_new_of_dir hd).resolve_right hQP
    exact ⟨dq, by rwa [dirOf_congr (c.disk_eq hl hQP)] at hd, rfl⟩

theorem StoreCommit.slot_iff {Q : Nat} {j : Fin DIR_SLOTS} {f : FileEntry} :
    SlotHas st'.disk Q j f ↔
      (Q = P ∧ j.val = idx.val ∧ f = store_entry ((DirBlock.ofDisk d).entries idx) old leaf
        first data.length now ∧ f.inUse = true) ∨
      (¬ (Q = P ∧ j.val = idx.val) ∧ (Q ∉ l ∨ Q = P) ∧ SlotHas st.disk Q j f) := by
  by_cases hQP : Q = P
  · subst hQP
    rw [slotHas_write_same c.dir_after]
    constructor
    · rintro (⟨h1, rfl, h3⟩ | ⟨h1, h2, h3⟩)
      · exact Or.inl ⟨rfl, h1, rfl, h3⟩
      · exact Or.inr ⟨fun h => h1 h.2, Or.inr rfl, d, c.dir, h2, h3⟩
    · rintro (⟨_, h1, rfl, h3⟩ | ⟨h1, _, d', h2, h3, h4⟩)
      · exact Or.inl ⟨h1, rfl, h3⟩
      · rw [c.dir] at h2
        cases h2
        exact Or.inr ⟨fun h => h1 ⟨rfl, h⟩, h3, h4⟩
  · constructor
    · intro h
      obtain ⟨dq, hdq, _⟩ := id h
      have hl := (c.not_new_of_dir hdq).resolve_right hQP
      exact Or.inr ⟨fun h => hQP h.1, Or.inl hl, (slotHas_congr (c.disk_eq hl hQP)).mp h⟩
    · rintro (⟨h, _⟩ | ⟨_, h1, h2⟩)
      · exact absurd h hQP
      · exact (slotHas_congr (c.disk_eq (h1.resolve_right hQP) hQP)).mpr h2

variable (h : Sound T U st.disk) (hU : ∀ b, U b → st.fs_block_map b = true)
  (hP : T P)

include h hU hP

theorem StoreCommit.freed {b : Nat} (hb : b ∈ lold) :
    ∃ hi : idx.val < DIR_SLOTS, Owns st.disk P ⟨idx.val, hi⟩ b := by
  have hold := c.old_chain
  have hdisk : (write_dir mid P ((DirBlock.ofDisk d).setEntry idx (store_entry
      ((DirBlock.ofDisk d).entries idx) old leaf first data.length now))).disk = st'.disk := by
    rw [c.final, freeAll_disk]
  rw [hdisk] at hold
  rcases store_slot_ok c.slot with ⟨rfl, hf, _⟩ | ⟨rfl, _, _⟩
  · rcases Nat.lt_or_ge idx.val DIR_SLOTS with hi | hi
    · have hslot := (slotHas_of_find c.dir hf hi).1
      obtain ⟨l0, hc, hl0⟩ := h.chain hP hslot
      have hc' := hc.congr fun x hx => c.nextOf_eq (hU x (hl0 x hx))
      have : l0 = lold := hc'.det hold
      subst this
      exact ⟨hi, _, hslot, hc.onChain hb⟩
    · simp only [Option.map_some, Option.getD_some, (ofDisk_entries_of_ge d idx hi).1] at hold
      rw [hold.det .stop] at hb
      simp at hb
  · rw [hold.det .stop] at hb
    simp at hb

omit h hU in
theorem StoreCommit.slot_before (hT' : ∀ {Q}, T' Q → T Q ∨ Q ∈ l) {Q : Nat}
    {j : Fin DIR_SLOTS} {f : FileEntry} (hQ : T' Q) (hf : SlotHas st'.disk Q j f)
    (hn : ¬ (Q = P ∧ j.val = idx.val)) : T Q ∧ SlotHas st.disk Q j f := by
  rcases c.slot_iff.mp hf with ⟨h1, h2, _⟩ | ⟨_, h2, h3⟩
  · exact absurd ⟨h1, h2⟩ hn
  · refine ⟨?_, h3⟩
    rcases h2 with h2 | rfl
    · exact (hT' hQ).resolve_right h2
    · exact hP

theorem StoreCommit.sound (hT' : ∀ {Q}, T' Q → T Q ∨ Q ∈ l)
    (hU' : ∀ {b}, U b ∨ b ∈ l → b ∉ lold → U' b) : Sound T' U' st'.disk := by
  refine h.transport (fun s => if s.1 = P ∧ s.2.val = idx.val then none else some s)
    (fun b hb => c.nextOf_eq (hU b hb)) ?_ ?_ ?_ ?_
  · intro Q j f P' i hQ hf ho
    obtain ⟨hn, ho⟩ := origin_eq_some ho
    cases ho
    obtain ⟨hTQ, hslot⟩ := c.slot_before hP hT' hQ hf hn
    refine ⟨hTQ, f, hslot, rfl, fun b hb => hU' (Or.inl ?_) fun hbl => ?_⟩
    · exact h.owned hTQ ⟨f, hslot, hb⟩
    · obtain ⟨hi, ho⟩ := c.freed h hU hP hbl
      obtain ⟨rfl, rfl⟩ := h.unique hTQ hP ⟨f, hslot, hb⟩ ho
      exact hn ⟨rfl, rfl⟩
  · intro Q j f Q' j' f' o _ _ _ _ ho ho'
    exact (origin_eq_some ho).2.trans (origin_eq_some ho').2.symm
  · intro Q j f hQ hf ho
    have hn := origin_eq_none ho
    rcases c.slot_iff.mp hf with ⟨_, _, rfl, _⟩ | ⟨hn', _⟩
    · obtain ⟨l', hl', hsub⟩ := c.new_chain
      refine ⟨l', hl', fun b hb => ⟨hU' (Or.inr (hsub hb)) fun hbl => ?_, fun hUb => ?_⟩⟩
      · obtain ⟨_, ho⟩ := c.freed h hU hP hbl
        exact c.not_new_of_used (hU b (h.owned hP ho)) (hsub hb)
      · exact c.not_new_of_used (hU b hUb) (hsub hb)
    · exact absurd hn hn'
  · intro Q j f Q' j' f' _ _ _ _ ho ho'
    exact eq_of_sameSlot (origin_eq_none ho) (origin_eq_none ho')

theorem StoreCommit.parented (hp : Parented T st.disk) (hT' : ∀ {Q}, T' Q → T Q ∨ Q ∈ l) :
    Parented T' st'.disk := by
  intro Q j f hQ hf ht
  have hn : ¬ (Q = P ∧ j.val = idx.val) := by
    intro hn
    rcases c.slot_iff.mp hf with ⟨_, _, rfl, _⟩ | ⟨hn', _⟩
    · cases ht
    · exact hn' hn
  obtain ⟨hTQ, hslot⟩ := c.slot_before hP hT' hQ hf hn
  obtain ⟨g1, dc, g2, g3⟩ := hp hTQ hslot ht
  refine ⟨g1, ?_⟩
  have hused := hU _ (h.owned hTQ ⟨f, hslot, .here g1⟩)
  by_cases hbP : f.bno = P
  · rw [hbP] at g2 ⊢
    rw [c.dir] at g2
    cases g2
    exact ⟨_, c.dir_after, g3⟩
  · exact ⟨dc, by rw [dirOf_congr (c.disk_eq (c.not_new_of_used hused) hbP), g2], g3⟩

end

/-! ## Remove -/

theorem remove_entry_named_total {w : Window} {name : List UInt8}
    (hr : st.fs_alloc_ready = true)
    (hchain : ∀ {i e}, SlotHas st.disk w.cwd_bno i e → ∃ l, Chain 0 (nextOf st.disk) e.bno l ∧
      ∀ b ∈ l, b < 2 ^ 32) : ∃ r, remove_entry_named st w name = some r := by
  unfold remove_entry_named
  rw [load_current_dir_of_ready hr]
  rcases hd : dirOf st.disk w.cwd_bno with _ | d
  · exact ⟨_, rfl⟩
  simp only [Option.map_some]
  rcases hf : find_entry_index (DirBlock.ofDisk d) name none with _ | idx
  · exact ⟨_, rfl⟩
  dsimp only
  split
  · exact ⟨_, rfl⟩
  split
  · exact ⟨_, rfl⟩
  split
  · rename_i h0
    have hi : idx.val < DIR_SLOTS := by
      by_contra hge
      exact h0 (ofDisk_entries_of_ge d idx (by omega)).1
    obtain ⟨l, h1, h2⟩ := hchain (slotHas_of_find hd hf hi).1
    have h3 := h1.congr fun x _ =>
      nextOf_write_dir hd ((DirBlock.ofDisk d).setEntry idx .zero) x
    rw [fs_free_chain_eq h3 h2]
    exact ⟨_, rfl⟩
  · exact ⟨_, rfl⟩

section

variable {P : Nat} {name : List UInt8} {d : DiskDir} {idx : Fin MAX_DIR_ENTRIES} {l : List Nat}
  (c : RemoveCommit st st' P name d idx l)

include c

theorem RemoveCommit.dirOf_after (Q : Nat) : dirOf st'.disk Q =
    if Q = P then some ((DirBlock.ofDisk d).setEntry idx .zero).toDisk else dirOf st.disk Q := by
  rw [c.final, freeAll_disk, dirOf_write_dir]

theorem RemoveCommit.nextOf_eq (b : Nat) : nextOf st'.disk b = nextOf st.disk b := by
  rw [c.final, freeAll_disk, nextOf_write_dir c.dir]

theorem RemoveCommit.slot_iff {Q : Nat} {j : Fin DIR_SLOTS} {f : FileEntry} :
    SlotHas st'.disk Q j f ↔ ¬ (Q = P ∧ j.val = idx.val) ∧ SlotHas st.disk Q j f := by
  rw [c.final, freeAll_disk, slotHas_write_dir c.dir]
  simp

theorem RemoveCommit.map_after (b : Nat) : st'.fs_block_map b = true ↔
    st.fs_block_map b = true ∧ ¬ (b ∈ l ∧ 60 ≤ b ∧ b < FS_MAX_BLOCKS) := by
  rw [c.final, freeAll_map]
  rfl

theorem RemoveCommit.freed {b : Nat} (hb : b ∈ l) :
    ∃ hi : idx.val < DIR_SLOTS, Owns st.disk P ⟨idx.val, hi⟩ b := by
  have hon : OnChain 0 (nextOf st.disk) ((DirBlock.ofDisk d).entries idx).bno b := by
    by_cases ht : ((DirBlock.ofDisk d).entries idx).type = 1
    · obtain ⟨_, rfl⟩ := c.dir_blocks ht
      split at hb
      · rename_i h0
        rw [List.mem_singleton] at hb
        subst hb
        exact .here h0
      · simp at hb
    · have hc := (c.file_blocks ht).congr fun x _ => (nextOf_write_dir c.dir _ x).symm
      exact hc.onChain hb
  have hi : idx.val < DIR_SLOTS := by
    by_contra hge
    exact hon.start_ne_nil (ofDisk_entries_of_ge d idx (by omega)).1
  exact ⟨hi, _, (slotHas_of_find c.dir c.find hi).1, hon⟩

theorem RemoveCommit.sound (h : Sound T U st.disk) (hP : T P) (hT' : ∀ {Q}, T' Q → T Q)
    (hU' : ∀ {b}, U b → b ∉ l → U' b) : Sound T' U' st'.disk := by
  refine h.restrict (fun b _ => c.nextOf_eq b) fun {Q j f} hQ hf => ?_
  obtain ⟨hn, hslot⟩ := c.slot_iff.mp hf
  refine ⟨hT' hQ, f, hslot, rfl, fun b hb => hU' (h.owned (hT' hQ) ⟨f, hslot, hb⟩) fun hbl => ?_⟩
  obtain ⟨hi, ho⟩ := c.freed hbl
  obtain ⟨rfl, rfl⟩ := h.unique (hT' hQ) hP ⟨f, hslot, hb⟩ ho
  exact hn ⟨rfl, rfl⟩

theorem RemoveCommit.parented (hp : Parented T st.disk) (hT' : ∀ {Q}, T' Q → T Q) :
    Parented T' st'.disk := by
  intro Q j f hQ hf ht
  obtain ⟨g1, dc, g2, g3⟩ := hp (hT' hQ) (c.slot_iff.mp hf).2 ht
  refine ⟨g1, ?_⟩
  rw [c.dirOf_after]
  split
  · rename_i hb
    rw [hb, c.dir] at g2
    cases g2
    exact ⟨_, rfl, g3⟩
  · exact ⟨dc, g2, g3⟩

end

/-! ## Mkdir -/

section

variable {w : Window} {path : List UInt8} {now P : Nat} {leaf : List UInt8} {d : DiskDir}
  {idx : Fin MAX_DIR_ENTRIES} {nb : Nat}
  (c : MkdirCommit st mid st' w path now P leaf d idx nb)

include c

theorem MkdirCommit.disk_eq {x : Nat} (hx : x ≠ nb) (hxP : x ≠ P) :
    st'.disk x = st.disk x := by
  rw [c.final, write_dir_disk_ne _ _ hx, write_dir_disk_ne _ _ hxP, c.alloc.disk,
    Function.update_of_ne hx]

theorem MkdirCommit.dirOf_after (Q : Nat) : dirOf st'.disk Q =
    if Q = nb then some (emptyDir P).toDisk
    else if Q = P then some ((DirBlock.ofDisk d).setEntry idx (mkdirEntry leaf nb now)).toDisk
    else dirOf st.disk Q := by
  rw [c.final, dirOf_write_dir, dirOf_write_dir]
  split
  · rfl
  · rename_i hQ
    split
    · rfl
    · exact dirOf_congr (by rw [c.alloc.disk, Function.update_of_ne hQ])

theorem MkdirCommit.nextOf_eq {b : Nat} (hb : b ≠ nb) :
    nextOf st'.disk b = nextOf st.disk b := by
  by_cases hbP : b = P
  · subst hbP
    have hafter := c.dirOf_after b
    rw [if_neg hb, if_pos rfl] at hafter
    rw [nextOf_of_dir c.dir, nextOf_of_dir hafter]
  · exact nextOf_congr (c.disk_eq hb hbP)

theorem MkdirCommit.nextOf_new : nextOf st'.disk nb = 0 :=
  nextOf_of_dir (by rw [c.dirOf_after, if_pos rfl])

theorem MkdirCommit.map_after (b : Nat) :
    st'.fs_block_map b = true ↔ st.fs_block_map b = true ∨ b = nb := by
  have hmap : st'.fs_block_map = mid.fs_block_map := by rw [c.final]; rfl
  rw [hmap, c.alloc.grown.map, List.mem_singleton]

theorem MkdirCommit.ne_new_of_used {b : Nat} (hb : st.fs_block_map b = true) : b ≠ nb := by
  rintro rfl
  rw [c.alloc.clear] at hb
  cases hb

theorem MkdirCommit.slot_iff {Q : Nat} {j : Fin DIR_SLOTS} {f : FileEntry} :
    SlotHas st'.disk Q j f ↔ Q ≠ nb ∧
      ((Q = P ∧ j.val = idx.val ∧ f = mkdirEntry leaf nb now ∧ f.inUse = true) ∨
        (¬ (Q = P ∧ j.val = idx.val) ∧ SlotHas st.disk Q j f)) := by
  by_cases hQ : Q = nb
  · subst hQ
    simp only [SlotHas, c.dirOf_after, if_true, Option.some.injEq, exists_eq_left', ne_eq,
      not_true_eq_false, false_and, iff_false, not_and]
    rintro rfl
    simp [DirBlock.toDisk, emptyDir]
  by_cases hQP : Q = P
  · subst hQP
    have hafter := c.dirOf_after Q
    rw [if_neg hQ, if_pos rfl] at hafter
    rw [slotHas_write_same hafter]
    simp only [true_and, ne_eq, hQ, not_false_eq_true]
    constructor
    · rintro (⟨h1, rfl, h3⟩ | ⟨h1, h2, h3⟩)
      · exact Or.inl ⟨h1, rfl, h3⟩
      · exact Or.inr ⟨h1, d, c.dir, h2, h3⟩
    · rintro (⟨h1, rfl, h3⟩ | ⟨h1, d', h2, h3, h4⟩)
      · exact Or.inl ⟨h1, rfl, h3⟩
      · rw [c.dir] at h2
        cases h2
        exact Or.inr ⟨h1, h3, h4⟩
  · rw [slotHas_congr (c.disk_eq hQ hQP)]
    simp [hQ, hQP]

theorem MkdirCommit.sound (h : Sound T U st.disk) (hU : ∀ b, U b → st.fs_block_map b = true)
    (hT' : ∀ {Q}, T' Q → T Q ∨ Q = nb) (hU' : ∀ {b}, U b ∨ b = nb → U' b) :
    Sound T' U' st'.disk := by
  have hT : ∀ {Q}, T' Q → Q ≠ nb → T Q := fun hQ hn => (hT' hQ).resolve_right hn
  refine h.transport (fun s => if s.1 = P ∧ s.2.val = idx.val then none else some s)
    (fun b hb => c.nextOf_eq (c.ne_new_of_used (hU b hb))) ?_ ?_ ?_ ?_
  · intro Q j f P' i hQ hf ho
    obtain ⟨hn, ho⟩ := origin_eq_some ho
    cases ho
    obtain ⟨hQn, h1 | h1⟩ := c.slot_iff.mp hf
    · exact absurd ⟨h1.1, h1.2.1⟩ hn
    · exact ⟨hT hQ hQn, f, h1.2, rfl, fun b hb => hU' (Or.inl (h.owned (hT hQ hQn) ⟨f, h1.2, hb⟩))⟩
  · intro Q j f Q' j' f' o _ _ _ _ ho ho'
    exact (origin_eq_some ho).2.trans (origin_eq_some ho').2.symm
  · intro Q j f hQ hf ho
    have hn := origin_eq_none ho
    obtain ⟨hQn, ⟨_, _, rfl, _⟩ | h1⟩ := c.slot_iff.mp hf
    · refine ⟨[nb], .cell c.alloc.ne_zero (c.nextOf_new ▸ .stop), fun b hb => ?_⟩
      rw [List.mem_singleton] at hb
      exact ⟨hU' (Or.inr hb), fun hUb => c.ne_new_of_used (hU b hUb) hb⟩
    · exact absurd hn h1.1
  · intro Q j f Q' j' f' _ _ _ _ ho ho'
    exact eq_of_sameSlot (origin_eq_none ho) (origin_eq_none ho')

theorem MkdirCommit.parented (h : Sound T U st.disk) (hU : ∀ b, U b → st.fs_block_map b = true)
    (hp : Parented T st.disk) (hT' : ∀ {Q}, T' Q → T Q ∨ Q = nb) : Parented T' st'.disk := by
  intro Q j f hQ hf ht
  obtain ⟨hQn, ⟨rfl, _, rfl, _⟩ | ⟨_, hslot⟩⟩ := c.slot_iff.mp hf
  · exact ⟨c.alloc.ne_zero, (emptyDir Q).toDisk,
      by rw [c.dirOf_after]; exact if_pos rfl, rfl⟩
  · have hTQ := (hT' hQ).resolve_right hQn
    obtain ⟨g1, dc, g2, g3⟩ := hp hTQ hslot ht
    refine ⟨g1, ?_⟩
    rw [c.dirOf_after, if_neg (c.ne_new_of_used (hU _ (h.owned hTQ ⟨f, hslot, .here g1⟩)))]
    split
    · rename_i hb
      rw [hb, c.dir] at g2
      cases g2
      exact ⟨_, rfl, g3⟩
    · exact ⟨dc, g2, g3⟩

end

/-! ## Move -/

omit [BuildConfig] in
theorem toDisk_with_parent (d : DiskDir) (p : Nat) :
    ({ DirBlock.ofDisk d with parent_bno := p } : DirBlock).toDisk =
      { d with parent_bno := p } := by
  conv_rhs => rw [← toDisk_ofDisk d]
  rfl

theorem dirOf_move_relink (st : FsState) (e : FileEntry) (D Q : Nat) :
    dirOf (move_relink st e D).disk Q = (dirOf st.disk Q).map fun d =>
      if e.type = 1 ∧ e.bno ≠ 0 ∧ e.bno < FS_MAX_BLOCKS ∧ Q = e.bno
      then { d with parent_bno := D } else d := by
  have hid : ∀ {p : Prop} [Decidable p], ¬ p → dirOf st.disk Q = (dirOf st.disk Q).map
      fun d => if p then { d with parent_bno := D } else d := by
    intro p _ hn
    simp [hn]
  unfold move_relink
  split
  · rename_i h
    rcases hl : fs_load_dir_block st e.bno with _ | db
    · by_cases hQ : Q = e.bno
      · rcases hd : dirOf st.disk Q with _ | d
        · rfl
        · -- a directory that cannot be loaded lies outside of the disk
          rw [← hd]
          refine hid fun hn => ?_
          rw [hQ] at hd
          have := fs_load_dir_block_eq_some.mpr ⟨hn.2.1, hn.2.2.1, d, hd, rfl⟩
          rw [hl] at this
          cases this
      · exact hid fun hn => hQ hn.2.2.2
    · obtain ⟨h0, hlt, d, hd, rfl⟩ := fs_load_dir_block_eq_some.mp hl
      dsimp only
      rw [dirOf_write_dir, toDisk_with_parent]
      split
      · rename_i hQ
        subst hQ
        simp [hd, h.1, h0, hlt]
      · rename_i hQ
        exact hid fun hn => hQ hn.2.2.2
  · rename_i h
    exact hid fun hn => h ⟨hn.1, hn.2.1⟩

theorem slotHas_move_relink (st : FsState) (e : FileEntry) (D : Nat) {Q : Nat}
    {j : Fin DIR_SLOTS} {f : FileEntry} :
    SlotHas (move_relink st e D).disk Q j f ↔ SlotHas st.disk Q j f := by
  unfold SlotHas
  rw [dirOf_move_relink]
  rcases dirOf st.disk Q with _ | d
  · simp
  · simp only [Option.map_some, Option.some.injEq, exists_eq_left']
    split <;> rfl

theorem nextOf_move_relink (st : FsState) (e : FileEntry) (D b : Nat) :
    nextOf (move_relink st e D).disk b = nextOf st.disk b := by
  unfold move_relink
  split
  · split
    · rfl
    · rename_i hl
      obtain ⟨_, _, d, hd, _⟩ := fs_load_dir_block_eq_some.mp hl
      exact nextOf_write_dir hd _ b
  · rfl

section

variable {S D : Nat} {dS dD : DiskDir} {si di : Fin MAX_DIR_ENTRIES} {leaf : List UInt8}
  {now : Nat} {sleaf : List UInt8}

omit [BuildConfig] in
theorem dirOf_crossWrites (Q : Nat) :
    dirOf (crossWrites st S dS si D dD di leaf now).disk Q =
      if Q = D then some ((DirBlock.ofDisk dD).setEntry di
        (movedEntry ((DirBlock.ofDisk dS).entries si) leaf now)).toDisk
      else if Q = S then some ((DirBlock.ofDisk dS).setEntry si .zero).toDisk
      else dirOf st.disk Q := by
  unfold crossWrites
  rw [dirOf_write_dir, dirOf_write_dir]

variable (hS : dirOf st.disk S = some dS) (hD : dirOf st.disk D = some dD) (hSD : S ≠ D)

include hS hD

omit [BuildConfig] in
theorem crossWrites_dir {b : Nat} {dc : DiskDir} (hb : dirOf st.disk b = some dc) :
    ∃ dc', dirOf (crossWrites st S dS si D dD di leaf now).disk b = some dc' ∧
      dc'.parent_bno = dc.parent_bno := by
  rw [dirOf_crossWrites]
  split
  · rename_i hbD
    rw [hbD, hD] at hb
    cases hb
    exact ⟨_, rfl, rfl⟩
  split
  · rename_i hbS
    rw [hbS, hS] at hb
    cases hb
    exact ⟨_, rfl, rfl⟩
  · exact ⟨dc, hb, rfl⟩

omit [BuildConfig] in
theorem dir_of_crossWrites {b : Nat} {dc' : DiskDir}
    (hb : dirOf (crossWrites st S dS si D dD di leaf now).disk b = some dc') :
    ∃ dc, dirOf st.disk b = some dc ∧ dc'.parent_bno = dc.parent_bno := by
  rw [dirOf_crossWrites] at hb
  split at hb
  · rename_i hbD
    cases hb
    exact ⟨dD, hbD ▸ hD, rfl⟩
  split at hb
  · rename_i hbS
    cases hb
    exact ⟨dS, hbS ▸ hS, rfl⟩
  · exact ⟨dc', hb, rfl⟩

include hSD

omit [BuildConfig] in
theorem nextOf_crossWrites (b : Nat) :
    nextOf (crossWrites st S dS si D dD di leaf now).disk b = nextOf st.disk b := by
  unfold crossWrites
  rw [@nextOf_write_dir _ D dD, nextOf_write_dir hS]
  rw [dirOf_write_dir, if_neg hSD.symm, hD]

omit [BuildConfig] in
theorem slotHas_crossWrites {Q : Nat} {j : Fin DIR_SLOTS} {f : FileEntry} :
    SlotHas (crossWrites st S dS si D dD di leaf now).disk Q j f ↔
      (Q = D ∧ j.val = di.val ∧ f = movedEntry ((DirBlock.ofDisk dS).entries si) leaf now ∧
        f.inUse = true) ∨
      (¬ (Q = D ∧ j.val = di.val) ∧ ¬ (Q = S ∧ j.val = si.val) ∧ SlotHas st.disk Q j f) := by
  have hD1 : dirOf (write_dir st S ((DirBlock.ofDisk dS).setEntry si .zero)).disk D =
      some dD := by rw [dirOf_write_dir, if_neg hSD.symm, hD]
  unfold crossWrites
  rw [slotHas_write_dir hD1, slotHas_write_dir hS]
  simp only [FileEntry.inUse_zero, Bool.false_eq_true, and_false, false_or]
  constructor
  · rintro (⟨h1, h2, rfl, h4⟩ | h)
    · exact Or.inl ⟨h1, h2, rfl, h4⟩
    · exact Or.inr h
  · rintro (⟨h1, h2, rfl, h4⟩ | h)
    · exact Or.inl ⟨h1, h2, rfl, h4⟩
    · exact Or.inr h

variable (hfind : find_entry_index (DirBlock.ofDisk dS) sleaf none = some si)

include hfind

omit [BuildConfig] in
theorem sound_crossWrites (h : Sound T U st.disk) (hTS : T S) (hT' : ∀ {Q}, T' Q → T Q)
    (hU' : ∀ {b}, U b → U' b) :
    Sound T' U' (crossWrites st S dS si D dD di leaf now).disk := by
  refine h.transport (fun s => if s.1 = D ∧ s.2.val = di.val then
    (if hi : si.val < DIR_SLOTS then some (S, ⟨si.val, hi⟩) else none) else some s)
    (fun b _ => nextOf_crossWrites hS hD hSD b) ?_ ?_ ?_ ?_
  · intro Q j f P i hQ hf ho
    rcases (slotHas_crossWrites hS hD hSD).mp hf with ⟨h1, h2, rfl, _⟩ | ⟨h1, _, hslot⟩
    · rw [if_pos ⟨h1, h2⟩] at ho
      split at ho
      · rename_i hi
        cases ho
        have hslot := (slotHas_of_find hS hfind hi).1
        exact ⟨hTS, _, hslot, rfl, fun b hb => hU' (h.owned hTS ⟨_, hslot, hb⟩)⟩
      · cases ho
    · rw [if_neg h1] at ho
      cases ho
      exact ⟨hT' hQ, f, hslot, rfl, fun b hb => hU' (h.owned (hT' hQ) ⟨f, hslot, hb⟩)⟩
  · intro Q j f Q' j' f' o _ hf _ hf' ho ho'
    have hkey := (slotHas_crossWrites hS hD hSD).mp hf
    have hkey' := (slotHas_crossWrites hS hD hSD).mp hf'
    by_cases h1 : Q = D ∧ j.val = di.val <;> by_cases h2 : Q' = D ∧ j'.val = di.val
    · exact eq_of_sameSlot h1 h2
    · -- the slot that the entry came from is clear
      simp only [h1, and_self, if_true] at ho
      simp only [h2, if_false] at ho'
      split at ho
      · cases ho
        cases ho'
        rcases hkey' with ⟨g1, g2, _⟩ | ⟨_, g1, _⟩
        · exact absurd ⟨g1, g2⟩ h2
        · exact absurd ⟨rfl, rfl⟩ g1
      · cases ho
    · simp only [h2, and_self, if_true] at ho'
      simp only [h1, if_false] at ho
      split at ho'
      · cases ho
        cases ho'
        rcases hkey with ⟨g1, g2, _⟩ | ⟨_, g1, _⟩
        · exact absurd ⟨g1, g2⟩ h1
        · exact absurd ⟨rfl, rfl⟩ g1
      · cases ho'
    · simp only [h1, if_false] at ho
      simp only [h2, if_false] at ho'
      exact (Option.some.inj ho).trans (Option.some.inj ho').symm
  · intro Q j f _ hf ho
    rcases (slotHas_crossWrites hS hD hSD).mp hf with ⟨h1, h2, rfl, _⟩ | ⟨h1, _, _⟩
    · rw [if_pos ⟨h1, h2⟩] at ho
      split at ho
      · cases ho
      · rename_i hi
        refine ⟨[], ?_, by simp⟩
        rw [show (movedEntry ((DirBlock.ofDisk dS).entries si) leaf now).bno = 0 from
          (ofDisk_entries_of_ge dS si (by omega)).1]
        exact .stop
    · rw [if_neg h1] at ho
      cases ho
  · intro Q j f Q' j' f' _ _ _ _ ho ho'
    dsimp only at ho ho'
    split at ho
    · rename_i hn
      split at ho'
      · rename_i hn'
        exact eq_of_sameSlot hn hn'
      · cases ho'
    · cases ho

theorem parented_move_relink (h : Sound T U st.disk) (hp : Parented T st.disk) (hTS : T S)
    (hT' : ∀ {Q}, T' Q → T Q) (hlt : ∀ {b}, U b → b < FS_MAX_BLOCKS) :
    Parented T' (move_relink (crossWrites st S dS si D dD di leaf now)
      ((DirBlock.ofDisk dS).entries si) D).disk := by
  intro Q j f hQ hf ht
  rw [slotHas_move_relink, slotHas_crossWrites hS hD hSD] at hf
  rw [dirOf_move_relink]
  rcases hf with ⟨rfl, _, rfl, _⟩ | ⟨h1, h2, hslot⟩
  · have hte : ((DirBlock.ofDisk dS).entries si).type = 1 := ht
    have hi : si.val < DIR_SLOTS := lt_of_type_ne_zero (by rw [hte]; decide)
    have hslot := (slotHas_of_find hS hfind hi).1
    obtain ⟨g1, dc, g2, _⟩ := hp hTS hslot ht
    obtain ⟨dc', g4, _⟩ := crossWrites_dir hS hD g2
    refine ⟨g1, { dc' with parent_bno := Q }, ?_, rfl⟩
    have := hlt (h.owned hTS ⟨_, hslot, .here g1⟩)
    rw [show (movedEntry ((DirBlock.ofDisk dS).entries si) leaf now).bno =
      ((DirBlock.ofDisk dS).entries si).bno from rfl, g4, Option.map_some,
      if_pos ⟨ht, g1, this, rfl⟩]
  · obtain ⟨g1, dc, g2, g3⟩ := hp (hT' hQ) hslot ht
    obtain ⟨dc', g4, g5⟩ := crossWrites_dir hS hD g2
    refine ⟨g1, dc', ?_, g5.trans g3⟩
    rw [g4, Option.map_some, if_neg]
    -- the block of the moved entry belongs to no other slot
    rintro ⟨k1, _, _, k4⟩
    have hi : si.val < DIR_SLOTS := lt_of_type_ne_zero (by rw [k1]; decide)
    have hown : Owns st.disk S ⟨si.val, hi⟩ f.bno :=
      ⟨_, (slotHas_of_find hS hfind hi).1, k4 ▸ .here g1⟩
    obtain ⟨rfl, rfl⟩ := h.unique (hT' hQ) hTS ⟨f, hslot, .here g1⟩ hown
    exact h2 ⟨rfl, rfl⟩

end

end

end vibeos.fs
