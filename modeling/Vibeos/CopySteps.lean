-- The two calls of a copy that write, a mkdir and a store: each writes one name of one directory.
import Vibeos.CopyEffects

namespace vibeos.fs

open LinkChain

/-! ## Lookups of directories -/

section

variable {disk disk' : Disk} {D : Nat} {d : DiskDir} {idx : Fin MAX_DIR_ENTRIES} {e : FileEntry}

theorem stepName_congr {b : Nat} (h : disk' b = disk b) (name : List UInt8) :
    stepName disk' b name = stepName disk b name := by
  unfold stepName
  rw [dirOf_congr h]

theorem stepName_kept (hd : dirOf disk D = some d)
    (hd' : dirOf disk' D = some ((DirBlock.ofDisk d).setEntry idx e).toDisk)
    (hi : idx.val < DIR_SLOTS) (hfree : ((DirBlock.ofDisk d).entries idx).inUse = false)
    (habsent : find_entry_index (DirBlock.ofDisk d) e.nameStr none = none) {name : List UInt8}
    {c : Nat} (h : stepName disk D name = some c) : stepName disk' D name = some c := by
  unfold stepName at h ⊢
  rw [hd, Option.bind_some] at h
  rw [hd', Option.bind_some, toDisk_parent_bno, setEntry_parent_bno, ofDisk_parent_bno]
  split
  · rename_i hup
    rw [if_pos hup] at h
    exact h
  rename_i hup
  rw [if_neg hup] at h
  have hold : ¬ ((DirBlock.ofDisk d).entries idx).Matches name (some 1) := by
    rintro ⟨hused, -⟩
    rw [hfree] at hused
    cases hused
  have hnew : ¬ e.Matches name (some 1) := by
    rintro ⟨-, -, rfl⟩
    obtain ⟨i, hfind, -⟩ := Option.map_eq_some_iff.mp h
    obtain ⟨hused, -, hname⟩ := (find_entry_index_eq_some.mp hfind).1
    exact find_entry_index_eq_none.mp habsent i ⟨hused, (fun _ ht => by cases ht), hname⟩
  unfold childOf at h ⊢
  rw [ofDisk_toDisk_setEntry, FileEntry.shownAt_of_lt _ hi,
    find_setEntry_of_not_matches hold hnew]
  obtain ⟨i, hfind, hbno⟩ := Option.map_eq_some_iff.mp h
  have hne : i ≠ idx := by
    rintro rfl
    exact hold (find_entry_index_eq_some.mp hfind).1
  rw [hfind, Option.map_some]
  simpa [DirBlock.setEntry, Function.update_of_ne hne] using hbno

theorem stepName_new (hd' : dirOf disk' D = some ((DirBlock.ofDisk d).setEntry idx e).toDisk)
    (hi : idx.val < DIR_SLOTS)
    (habsent : find_entry_index (DirBlock.ofDisk d) e.nameStr none = none)
    (hused : e.inUse = true) (htype : e.type = 1) (hup : e.nameStr ≠ dotdotName) :
    stepName disk' D e.nameStr = some e.bno := by
  unfold stepName childOf
  rw [hd', Option.bind_some, if_neg hup, ofDisk_toDisk_setEntry, FileEntry.shownAt_of_lt _ hi]
  have hfind : find_entry_index ((DirBlock.ofDisk d).setEntry idx e) e.nameStr (some 1) =
      some idx := by
    rw [find_entry_index_eq_some]
    refine ⟨?_, fun j hj hm => ?_⟩
    · simp only [DirBlock.setEntry, Function.update_self]
      exact ⟨hused, fun t ht => htype.trans (Option.some.inj ht), rfl⟩
    · simp only [DirBlock.setEntry, Function.update_of_ne (Fin.ne_of_lt hj)] at hm
      exact find_entry_index_eq_none.mp habsent j ⟨hm.1, (fun _ ht => by cases ht), hm.2.2⟩
  rw [hfind, Option.map_some]
  simp [DirBlock.setEntry]

end

def OnlyPair (P : Nat) (leaf : List UInt8) (Q : Nat) (name : List UInt8) : Prop :=
  Q = P ∧ name = leaf

section

variable [BuildConfig] {st st' mid : FsState} {T : Nat → Prop} {P : Nat} {leaf : List UInt8}
  {d : DiskDir} {idx : Fin MAX_DIR_ENTRIES}

/-! ## A new file -/

section

variable {data : List UInt8} {now : Nat} {old : Option FileEntry} {first : Nat}
  {l lold : List Nat} {ws : List (Nat × Block)}
  (c : StoreCommit st mid st' P leaf data now d idx old first l lold ws)

include c

theorem StoreCommit.slot_name {j : Fin DIR_SLOTS} {e : FileEntry} (he : SlotHas st.disk P j e)
    (hj : j.val = idx.val) : e.nameStr = leaf := by
  obtain ⟨rfl, hused⟩ := slotHas_entry c.dir he hj
  rcases store_slot_ok c.slot with ⟨-, hfind, -⟩ | ⟨-, -, hfree⟩
  · exact (find_entry_index_eq_some.mp hfind).1.2.2
  · rw [(find_free_entry_index_eq_some.mp hfree).1] at hused
    cases hused

theorem StoreCommit.isDir_back {Q : Nat} (hQ : IsDir st'.disk Q) : IsDir st.disk Q := by
  refine isDir_of_kept (fun {R C} _ hC => ?_) (fun {R} hR => ?_) hQ
  · obtain ⟨j, e, he, ht, rfl⟩ := hC
    rcases c.slot_iff.mp he with ⟨-, -, rfl, -⟩ | ⟨-, -, he⟩
    · cases ht
    · exact ⟨j, e, he, ht, rfl⟩
  · obtain ⟨dq, hdq⟩ := hR.2
    obtain ⟨d0, hd0, -⟩ := c.dir_before hdq
    exact ⟨d0, hd0⟩

theorem StoreCommit.effect (h : Inv T st) (hP : IsDir st.disk P)
    (hname : (store_entry ((DirBlock.ofDisk d).entries idx) old leaf first data.length
      now).nameStr = leaf) : Effect (OnlyPair P leaf) st st' where
  inside := by
    rintro Q name ⟨rfl, -⟩
    exact hP
  dirs := c.isDir h.wellFormed
  steps := by
    intro Q name b hQ hs
    obtain ⟨dq, dq', hdq, hdq', hparent, hchild⟩ := c.sameWalk h.wellFormed hQ
    unfold stepName at hs ⊢
    rw [hdq, Option.bind_some] at hs
    rw [hdq', Option.bind_some, hparent, hchild]
    exact hs
  same := by
    intro x hx hn
    have hxP : x ≠ P := by
      rintro rfl
      exact hn (Or.inl ⟨leaf, rfl, rfl⟩)
    refine ⟨c.disk_eq (c.not_new_of_used (hx.marked h)) hxP, hx.imp_right fun hu => ?_⟩
    refine ⟨hu.1, hu.2.1, (c.map_after x).mpr ⟨Or.inl hu.2.2, fun hfreed => ?_⟩⟩
    obtain ⟨hi, e, he, hon⟩ := c.freed h.sound (fun _ hb => hb.2.2) (h.isDir_mem hP) hfreed.1
    exact hn (Or.inr ⟨P, _, e, ⟨rfl, c.slot_name he rfl⟩, he, c.type_ne_one he rfl, hon⟩)
  slots := by
    intro Q j e hQ hn
    constructor
    · intro he
      rcases c.slot_iff.mp he with ⟨rfl, -, rfl, -⟩ | ⟨-, -, he⟩
      · exact absurd ⟨rfl, hname⟩ hn
      · exact he
    · refine fun he => c.slot_iff.mpr (Or.inr ⟨?_, Or.inl ?_, he⟩)
      · rintro ⟨rfl, hj⟩
        exact hn ⟨rfl, c.slot_name he hj⟩
      · exact c.not_new_of_used ((h.occupied hQ).marked h)
  back := by
    intro Q j e x hx hn hQ he hon
    have hxl : x ∉ l := c.not_new_of_used (hx.marked h)
    rcases c.slot_iff.mp he with ⟨-, -, rfl, -⟩ | ⟨-, -, he⟩
    · obtain ⟨l', hl', hsub⟩ := c.new_chain
      exact absurd (hsub (hl'.mem_of_onChain hon)) hxl
    · have hQ' := c.isDir_back hQ
      obtain ⟨le, hle, hmem⟩ := h.chain_of_slot (h.isDir_mem hQ') he
      have hchain := hle.congr fun y hy => c.nextOf_eq (hmem y hy).2
      exact ⟨hQ', he, hle.onChain (hchain.mem_of_onChain hon)⟩

end

/-! ## A new directory -/

theorem commit_of_mkdirWrites {w : Window} {path : List UInt8} {now : Nat}
    (hr : st.fs_alloc_ready = true) (h : mkdirWrites st w path now = some st') :
    ∃ mid P leaf d idx nb, MkdirCommit st mid st' w path now P leaf d idx nb ∧
      mkdirTarget st w path = some (P, leaf) := by
  obtain ⟨P, leaf, d, idx, nb, mid, htarget, hleaf, hd, hfind, hfree, hb, hnb, heq⟩ :=
    mkdirWrites_eq_some h
  rw [ensure_ready_of_ready hr] at hb
  rcases balloc_cases hr with ⟨hb', -⟩ | ⟨nb', mid', hb', ha⟩
  · exact absurd (congrArg Prod.fst (hb.symm.trans hb')) hnb
  obtain ⟨rfl, rfl⟩ := Prod.mk.inj (hb.symm.trans hb')
  obtain ⟨⟨p_bno, cwd, leaf'⟩, hres, hleaves⟩ := Option.map_eq_some_iff.mp htarget
  obtain ⟨rfl, rfl⟩ := Prod.mk.inj hleaves
  refine ⟨mid, _, leaf', d, idx, nb, ⟨⟨p_bno, cwd, rfl, ?_⟩, hleaf, hd, hfind, hfree, ha, heq⟩,
    htarget⟩
  rw [resolve_editor_target_eq hr, hres]

section

variable {w : Window} {path : List UInt8} {now nb : Nat}
  (c : MkdirCommit st mid st' w path now P leaf d idx nb)

include c

theorem MkdirCommit.inUse (hname : (mkdirEntry leaf nb now).nameStr = leaf) :
    (mkdirEntry leaf nb now).inUse = true := by
  rw [FileEntry.inUse_iff, hname]
  exact c.leaf_ne

theorem MkdirCommit.dir_after (h : Inv T st) (hP : Occupied st P) : dirOf st'.disk P =
    some ((DirBlock.ofDisk d).setEntry idx (mkdirEntry leaf nb now)).toDisk := by
  rw [c.dirOf_after, if_neg (c.ne_new_of_used (hP.marked h)), if_pos rfl]

theorem MkdirCommit.dir_new : dirOf st'.disk nb = some (emptyDir P).toDisk := by
  rw [c.dirOf_after, if_pos rfl]

theorem MkdirCommit.slot_kept (h : Inv T st) {Q : Nat} {j : Fin DIR_SLOTS} {e : FileEntry}
    (hQ : IsDir st.disk Q) (he : SlotHas st.disk Q j e) : SlotHas st'.disk Q j e := by
  refine c.slot_iff.mpr ⟨c.ne_new_of_used ((h.occupied hQ).marked h), Or.inr ⟨?_, he⟩⟩
  rintro ⟨rfl, hj⟩
  obtain ⟨rfl, hused⟩ := slotHas_entry c.dir he hj
  rw [(find_free_entry_index_eq_some.mp c.free).1] at hused
  cases hused

theorem MkdirCommit.isDir (h : Inv T st) {Q : Nat} (hQ : IsDir st.disk Q) : IsDir st'.disk Q := by
  refine isDir_of_kept (fun {R C} hR hC => ?_) (fun {R} hR => ?_) hQ
  · obtain ⟨j, e, he, ht, rfl⟩ := hC
    exact ⟨j, e, c.slot_kept h hR he, ht, rfl⟩
  · obtain ⟨dr, hdr⟩ := hR.2
    rw [c.dirOf_after, if_neg (c.ne_new_of_used ((h.occupied hR).marked h))]
    by_cases hRP : R = P
    · rw [if_pos hRP]
      exact ⟨_, rfl⟩
    · rw [if_neg hRP]
      exact ⟨dr, hdr⟩

theorem MkdirCommit.isDir_back (h : Inv T st) {Q : Nat} (hQ : IsDir st'.disk Q) (hne : Q ≠ nb) :
    IsDir st.disk Q := by
  have hbelow : ∀ {Q}, Forest.Below (DirChild st'.disk) 1 Q → Q ≠ nb → IsDir st.disk Q := by
    intro Q hQ hne
    induction hQ with
    | refl => exact h.treeDisk.isDir_root
    | @tail a b _ hab ih =>
      obtain ⟨j, e, he, ht, rfl⟩ := hab
      obtain ⟨ha, ⟨rfl, -, rfl, -⟩ | ⟨-, he⟩⟩ := c.slot_iff.mp he
      · exact absurd rfl hne
      · exact h.treeDisk.isDir_child (ih ha) ⟨j, e, he, ht, rfl⟩
  exact hbelow hQ.1 hne

theorem MkdirCommit.effect (h : Inv T st) (hP : IsDir st.disk P) (hi : idx.val < DIR_SLOTS)
    (hname : (mkdirEntry leaf nb now).nameStr = leaf) : Effect (OnlyPair P leaf) st st' where
  inside := by
    rintro Q name ⟨rfl, -⟩
    exact hP
  dirs := c.isDir h
  steps := by
    intro Q name b hQ hs
    by_cases hQP : Q = P
    · subst hQP
      exact stepName_kept c.dir (c.dir_after h (h.occupied hQ)) hi
        (find_free_entry_index_eq_some.mp c.free).1 (hname.symm ▸ c.absent) hs
    · rw [stepName_congr (c.disk_eq (c.ne_new_of_used ((h.occupied hQ).marked h)) hQP)]
      exact hs
  same := by
    intro x hx hn
    have hxP : x ≠ P := by
      rintro rfl
      exact hn (Or.inl ⟨leaf, rfl, rfl⟩)
    refine ⟨c.disk_eq (c.ne_new_of_used (hx.marked h)) hxP, hx.imp_right fun hu => ?_⟩
    exact ⟨hu.1, hu.2.1, (c.map_after x).mpr (Or.inl hu.2.2)⟩
  slots := by
    intro Q j e hQ hn
    refine ⟨fun he => ?_, c.slot_kept h hQ⟩
    obtain ⟨-, ⟨rfl, -, rfl, -⟩ | ⟨-, he⟩⟩ := c.slot_iff.mp he
    · exact absurd ⟨rfl, hname⟩ hn
    · exact he
  back := by
    intro Q j e x hx hn hQ he hon
    have hxnb : x ≠ nb := c.ne_new_of_used (hx.marked h)
    obtain ⟨hQnb, ⟨-, -, rfl, -⟩ | ⟨-, he⟩⟩ := c.slot_iff.mp he
    · exact absurd (hon.head_eq c.nextOf_new) hxnb
    · have hQ' := c.isDir_back h hQ hQnb
      obtain ⟨le, hle, hmem⟩ := h.chain_of_slot (h.isDir_mem hQ') he
      have hchain := hle.congr fun y hy => c.nextOf_eq (c.ne_new_of_used (hmem y hy).2)
      exact ⟨hQ', he, hle.onChain (hchain.mem_of_onChain hon)⟩

theorem MkdirCommit.not_occupied (h : Inv T st) : ¬ Occupied st nb := fun ho =>
  c.ne_new_of_used (ho.marked h) rfl

end

end

end vibeos.fs
