-- A disk as a tree of blocks: every block of the tree has one owner, so the
-- blocks below two slots of one directory never meet, and a directory has one
-- depth. Every state of the system has such a disk.
import Vibeos.AllocInv

namespace vibeos.fs

open LinkChain Relation

/-- The directories and files below block 1 form a tree: chains end, no block belongs to two
entries, the blocks of entries satisfy `U`, and parent links name the directory of the entry. -/
structure TreeDisk (U : Nat → Prop) (disk : Disk) : Prop where
  root : ∃ d, dirOf disk 1 = some d ∧ orRoot d.parent_bno = 1
  root_free : ¬ U 1
  sound : Sound (IsDir disk) U disk
  parented : Parented (IsDir disk) disk

/-- Directory `P` of the tree has block `b` in one of its entries. -/
def Edge (disk : Disk) (P b : Nat) : Prop := IsDir disk P ∧ ∃ i, Owns disk P i b

section

variable {U : Nat → Prop} {disk : Disk} {P Q C b c : Nat} {i j : Fin DIR_SLOTS} {e f : FileEntry}

theorem TreeDisk.isDir_root (h : TreeDisk U disk) : IsDir disk 1 :=
  ⟨.refl, h.root.imp fun _ hd => hd.1⟩

theorem TreeDisk.isDir_child (h : TreeDisk U disk) (hP : IsDir disk P) (hC : DirChild disk P C) :
    IsDir disk C := by
  refine ⟨hP.1.tail hC, ?_⟩
  obtain ⟨i, e, he, ht, rfl⟩ := hC
  obtain ⟨_, c, hc, _⟩ := h.parented hP he ht
  exact ⟨c, hc⟩

theorem TreeDisk.child_ne_zero (h : TreeDisk U disk) (hP : IsDir disk P)
    (hC : DirChild disk P C) : C ≠ 0 := by
  obtain ⟨i, e, he, ht, rfl⟩ := hC
  exact (h.parented hP he ht).1

theorem TreeDisk.closed (h : TreeDisk U disk) : Closed (IsDir disk) disk where
  root := h.isDir_root
  parent := by
    intro P d hP hd
    rcases hP.1.cases_tail with rfl | ⟨Q, hQ, hc⟩
    · obtain ⟨d', hd', hp⟩ := h.root
      rw [hd] at hd'
      cases hd'
      rw [hp]
      exact h.isDir_root
    · -- the parent link names the directory that the path came from
      have hQd : IsDir disk Q := by
        obtain ⟨_, _, ⟨dq, hdq, _⟩, _⟩ := id hc
        exact ⟨hQ, dq, hdq⟩
      obtain ⟨i, e, he, ht, rfl⟩ := hc
      obtain ⟨_, c, hc, hpar⟩ := h.parented hQd he ht
      rw [hd] at hc
      cases hc
      rw [hpar]
      unfold orRoot
      split
      · exact h.isDir_root
      · exact hQd
  child := fun hP hC => h.isDir_child hP hC

theorem isDir_of_slotHas (hP : Forest.Below (DirChild disk) 1 P) (he : SlotHas disk P i e) :
    IsDir disk P := by
  obtain ⟨d, hd, _⟩ := he
  exact ⟨hP, d, hd⟩

theorem isDir_of_kept {disk' : Disk}
    (hchild : ∀ {P C}, IsDir disk P → DirChild disk P C → DirChild disk' P C)
    (hdir : ∀ {P}, IsDir disk P → ∃ d, dirOf disk' P = some d) (hb : IsDir disk b) :
    IsDir disk' b := by
  refine ⟨?_, hdir hb⟩
  replace hb := hb.1
  induction hb with
  | refl => exact .refl
  | tail hP hC ih =>
    obtain ⟨_, _, he, _⟩ := id hC
    exact ih.tail (hchild (isDir_of_slotHas hP he) hC)

theorem TreeDisk.onChain_dir (h : TreeDisk U disk) (hP : IsDir disk P)
    (he : SlotHas disk P i e) (ht : e.type = 1) (hb : OnChain 0 (nextOf disk) e.bno b) :
    b = e.bno := by
  obtain ⟨_, c, hc, _⟩ := h.parented hP he ht
  exact hb.head_eq (nextOf_of_dir hc)

theorem TreeDisk.mono {U' : Nat → Prop} (h : TreeDisk U disk)
    (hU : ∀ b, U b → U' b) (h1 : ¬ U' 1) : TreeDisk U' disk where
  root := h.root
  root_free := h1
  sound :=
    { chain := fun hP he => (h.sound.chain hP he).imp fun _ hl =>
        ⟨hl.1, fun b hb => hU b (hl.2 b hb)⟩
      unique := h.sound.unique }
  parented := h.parented

/-! ## Owners -/

theorem TreeDisk.unique_owner (h : TreeDisk U disk) : Forest.UniqueParent (Edge disk) := by
  rintro P Q b ⟨hP, i, hi⟩ ⟨hQ, j, hj⟩
  exact (h.sound.unique hP hQ hi hj).1

theorem TreeDisk.root_not_owned (h : TreeDisk U disk) (P : Nat) : ¬ Edge disk P 1 := by
  rintro ⟨hP, i, hi⟩
  exact h.root_free (h.sound.owned hP hi)

theorem TreeDisk.edge_of_dirChild (h : TreeDisk U disk) (hP : IsDir disk P)
    (hC : DirChild disk P C) : Edge disk P C := by
  obtain ⟨i, hi⟩ := hC.owns (h.child_ne_zero hP hC)
  exact ⟨hP, i, hi⟩

theorem TreeDisk.below_edge (h : TreeDisk U disk) (hP : IsDir disk P)
    (hC : Forest.Below (DirChild disk) P C) : Forest.Below (Edge disk) P C := by
  induction hC with
  | refl => exact .refl
  | @tail a b hPa hab ih =>
    have ha : IsDir disk a := by
      obtain ⟨_, _, ⟨d, hd, _⟩, _⟩ := id hab
      exact ⟨hP.1.trans hPa, d, hd⟩
    exact ih.tail (h.edge_of_dirChild ha hab)

theorem TreeDisk.no_cycle (h : TreeDisk U disk) (hP : IsDir disk P) :
    ¬ TransGen (Edge disk) P P :=
  Forest.no_cycle h.unique_owner h.root_not_owned (h.below_edge h.isDir_root hP.1)

theorem TreeDisk.slots_disjoint (h : TreeDisk U disk) (hP : IsDir disk P) (hij : i ≠ j)
    (hi : Owns disk P i b) (hj : Owns disk P j c) {x : Nat} (hbx : Forest.Below (Edge disk) b x)
    (hcx : Forest.Below (Edge disk) c x) : False := by
  refine Forest.children_disjoint h.unique_owner h.root_not_owned
    (h.below_edge h.isDir_root hP.1) ⟨hP, i, hi⟩ ⟨hP, j, hj⟩ ?_ hbx hcx
  rintro rfl
  exact hij (h.sound.unique hP hP hi hj).2

theorem TreeDisk.type_eq (h : TreeDisk U disk) (hP : IsDir disk P) (hQ : IsDir disk Q)
    (he : SlotHas disk P i e) (hf : SlotHas disk Q j f)
    (hb : OnChain 0 (nextOf disk) e.bno b) (hc : OnChain 0 (nextOf disk) f.bno b) :
    P = Q ∧ i = j ∧ e = f := by
  obtain ⟨rfl, rfl⟩ := h.sound.unique hP hQ ⟨e, he, hb⟩ ⟨f, hf, hc⟩
  exact ⟨rfl, rfl, he.det hf⟩

theorem TreeDisk.live_cases (h : TreeDisk U disk) (hb : Live disk b) : b = 1 ∨ U b := by
  rcases hb with hb | ⟨P, i, hP, hi⟩
  · rcases hb.1.cases_tail with rfl | ⟨Q, hQ, hc⟩
    · exact Or.inl rfl
    · obtain ⟨_, _, he, _⟩ := id hc
      have hQd := isDir_of_slotHas hQ he
      obtain ⟨i, hi⟩ := hc.owns (h.child_ne_zero hQd hc)
      exact Or.inr (h.sound.owned hQd hi)
  · exact Or.inr (h.sound.owned hP hi)

theorem TreeDisk.not_isDir_of_file (h : TreeDisk U disk) (hP : IsDir disk P)
    (he : SlotHas disk P i e) (ht : e.type ≠ 1) (hc : OnChain 0 (nextOf disk) e.bno b) :
    ¬ IsDir disk b := by
  intro hb
  rcases hb.1.cases_tail with rfl | ⟨Q, hQ, j, f, hf, htf, rfl⟩
  · exact h.root_not_owned P ⟨hP, i, e, he, hc⟩
  · obtain ⟨rfl, rfl, rfl⟩ := h.type_eq hP (isDir_of_slotHas hQ hf) he hf hc (.here hc.ne_nil)
    exact ht htf

theorem TreeDisk.isDir_ne_zero (h : TreeDisk U disk) (hP : IsDir disk P) : P ≠ 0 := by
  rcases hP.1.cases_tail with rfl | ⟨Q, hQ, hc⟩
  · decide
  · obtain ⟨_, _, he, _⟩ := id hc
    exact h.child_ne_zero (isDir_of_slotHas hQ he) hc

/-! ## Depth -/

/-- `b` is a directory `n` levels below block 1. -/
inductive DirAt (disk : Disk) : Nat → Nat → Prop
  | root : DirAt disk 0 1
  | child {n P C : Nat} : DirAt disk n P → DirChild disk P C → DirAt disk (n + 1) C

theorem below_of_dirAt {n : Nat} (h : DirAt disk n b) : Forest.Below (DirChild disk) 1 b := by
  induction h with
  | root => exact .refl
  | child _ hc ih => exact ih.tail hc

theorem TreeDisk.dirAt_isDir (h : TreeDisk U disk) {n : Nat} (hb : DirAt disk n b) :
    IsDir disk b := by
  cases hb with
  | root => exact h.isDir_root
  | child hP hc =>
    obtain ⟨_, _, he, _⟩ := id hc
    exact h.isDir_child (isDir_of_slotHas (below_of_dirAt hP) he) hc

theorem exists_dirAt (h : Forest.Below (DirChild disk) 1 b) : ∃ n, DirAt disk n b := by
  induction h with
  | refl => exact ⟨0, .root⟩
  | tail _ hc ih =>
    obtain ⟨n, hn⟩ := ih
    exact ⟨n + 1, hn.child hc⟩

theorem TreeDisk.dirAt_unique (h : TreeDisk U disk) {n m : Nat} (hn : DirAt disk n b)
    (hm : DirAt disk m b) : n = m := by
  induction hn generalizing m with
  | root =>
    cases hm with
    | root => rfl
    | child hP hc => exact absurd (h.edge_of_dirChild (h.dirAt_isDir hP) hc) (h.root_not_owned _)
  | child hP hc ih =>
    cases hm with
    | root => exact absurd (h.edge_of_dirChild (h.dirAt_isDir hP) hc) (h.root_not_owned _)
    | child hP' hc' =>
      have := h.unique_owner (h.edge_of_dirChild (h.dirAt_isDir hP) hc)
        (h.edge_of_dirChild (h.dirAt_isDir hP') hc')
      subst this
      rw [ih hP']

end

/-! ## Well-formed states -/

section

variable [BuildConfig] {st : FsState} {T : Nat → Prop}

/-- A block of the disk, not the root, whose bit is set. -/
def Marked (st : FsState) (b : Nat) : Prop :=
  b ≠ 1 ∧ b < FS_MAX_BLOCKS ∧ st.fs_block_map b = true

/-- A mounted file system whose disk is a tree that the bitmap covers. -/
structure WellFormed (st : FsState) : Prop where
  ready : st.fs_alloc_ready = true
  tree : TreeDisk (Marked st) st.disk

theorem Inv.treeDisk (h : Inv T st) : TreeDisk (Used st) st.disk where
  root := by
    obtain ⟨d, hd, hp⟩ := h.root_dir
    exact ⟨d, hd, by rw [hp]; rfl⟩
  root_free := fun hu => absurd hu.1 (by decide)
  sound :=
    { chain := fun hP he => h.sound.chain (h.isDir_mem hP) he
      unique := fun hP hQ => h.sound.unique (h.isDir_mem hP) (h.isDir_mem hQ) }
  parented := fun hP => h.parented (h.isDir_mem hP)

theorem Inv.wellFormed (h : Inv T st) : WellFormed st where
  ready := h.ready
  tree := h.treeDisk.mono
    (fun b hb => ⟨fun h1 => absurd (h1 ▸ hb.1) (by decide), hb.2⟩) fun h1 => h1.1 rfl

theorem Reached.wellFormed {s : System} (h : Reached s) : WellFormed s.st := by
  obtain ⟨T, hT⟩ := h.sysInv
  exact hT.inv.wellFormed

end

end vibeos.fs
