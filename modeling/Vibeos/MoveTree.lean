-- What a move does to the tree. A rename keeps it; a move to another directory
-- hangs one entry under a new place, and keeps the tree exactly when that place
-- is in the tree, inside of its block, and not below the entry itself.
import Vibeos.AllocInv
import Vibeos.BlockTree
import Vibeos.PathNames

namespace vibeos.fs

open LinkChain Relation

/-- Two entries for the same file or directory: all but the name and the time of the change. -/
def SameObject (e f : FileEntry) : Prop :=
  f.bno = e.bno ∧ f.size = e.size ∧ f.type = e.type ∧ f.ctime = e.ctime ∧ f.mode = e.mode

theorem SameObject.refl (e : FileEntry) : SameObject e e := ⟨rfl, rfl, rfl, rfl, rfl⟩

theorem sameObject_movedEntry (e : FileEntry) (leaf : List UInt8) (now : Nat) :
    SameObject e (movedEntry e leaf now) := ⟨rfl, rfl, rfl, rfl, rfl⟩

/-- What a move owes the tree: every directory and every file with blocks is still there, and
once; no directory is below itself; and every parent link names the directory of the entry. -/
structure TreeKept (disk disk' : Disk) : Prop where
  dirs : ∀ {b}, IsDir disk b → IsDir disk' b
  files : ∀ {P i e}, IsDir disk P → SlotHas disk P i e → e.bno ≠ 0 →
    ∃ Q j f, IsDir disk' Q ∧ SlotHas disk' Q j f ∧ SameObject e f
  once : ∀ {P i e Q j f}, IsDir disk' P → IsDir disk' Q → SlotHas disk' P i e →
    SlotHas disk' Q j f → e.bno = f.bno → e.bno ≠ 0 → P = Q ∧ i = j
  acyclic : ∀ {P}, IsDir disk' P → ¬ TransGen (DirChild disk') P P
  parents : Parented (IsDir disk') disk'

theorem TreeDisk.kept {U : Nat → Prop} {disk disk' : Disk} (h : TreeDisk U disk')
    (hdirs : ∀ {b}, IsDir disk b → IsDir disk' b)
    (hfiles : ∀ {P i e}, IsDir disk P → SlotHas disk P i e → e.bno ≠ 0 →
      ∃ Q j f, IsDir disk' Q ∧ SlotHas disk' Q j f ∧ SameObject e f) : TreeKept disk disk' where
  dirs := hdirs
  files := hfiles
  once := fun {P i e Q j f} hP hQ he hf hef h0 =>
    h.sound.unique hP hQ ⟨e, he, .here h0⟩ ⟨f, hf, hef ▸ .here h0⟩
  acyclic := by
    intro P hP hcycle
    obtain ⟨C, hPC, hCP⟩ := TransGen.head'_iff.mp hcycle
    exact h.no_cycle hP
      (TransGen.head' (h.edge_of_dirChild hP hPC) (h.below_edge (h.isDir_child hP hPC) hCP))
  parents := h.parented

theorem Sound.slot_eq {T U : Nat → Prop} {disk : Disk} (h : Sound T U disk) {S Q : Nat}
    {dS : DiskDir} {si : Fin MAX_DIR_ENTRIES} {sleaf : List UInt8} {j : Fin DIR_SLOTS}
    {f : FileEntry} (hTS : T S) (hS : dirOf disk S = some dS)
    (hfind : find_entry_index (DirBlock.ofDisk dS) sleaf none = some si)
    (h0 : ((DirBlock.ofDisk dS).entries si).bno ≠ 0) (hQ : T Q) (hf : SlotHas disk Q j f)
    (hbno : f.bno = ((DirBlock.ofDisk dS).entries si).bno) : Q = S ∧ j.val = si.val := by
  have hi : si.val < DIR_SLOTS := by
    by_contra hge
    exact h0 (ofDisk_entries_of_ge dS si (by omega)).1
  have hown : Owns disk S ⟨si.val, hi⟩ f.bno :=
    ⟨_, (slotHas_of_find hS hfind hi).1, by rw [hbno]; exact .here h0⟩
  rw [← hbno] at h0
  obtain ⟨rfl, rfl⟩ := h.unique hQ hTS ⟨f, hf, .here h0⟩ hown
  exact ⟨rfl, rfl⟩

section

variable [BuildConfig] {st : FsState} {T : Nat → Prop}

/-! ## The edges between the blocks that were handed out -/

/-- Directory `x` of `T` has an entry for directory `y`. -/
def DirEdge (T : Nat → Prop) (disk : Disk) (x y : Nat) : Prop := T x ∧ DirChild disk x y

theorem Inv.below_dirEdge (h : Inv T st) {x y : Nat} (hx : T x) :
    Forest.Below (DirEdge T st.disk) x y ↔ Forest.Below (DirChild st.disk) x y := by
  constructor
  · intro hxy
    exact ReflTransGen.mono (fun _ _ hab => hab.2) _ _ hxy
  · intro hxy
    suffices T y ∧ Forest.Below (DirEdge T st.disk) x y from this.2
    induction hxy with
    | refl => exact ⟨hx, .refl⟩
    | tail _ hab ih => exact ⟨h.closed.child ih.1 hab, ih.2.tail ⟨ih.1, hab⟩⟩

theorem Inv.uniqueParent (h : Inv T st) : Forest.UniqueParent (DirEdge T st.disk) := by
  rintro x y z ⟨hx, hxz⟩ ⟨hy, hyz⟩
  have hz : z ≠ 0 := by
    have := (h.child_used hx hxz).1
    omega
  obtain ⟨i, hi⟩ := hxz.owns hz
  obtain ⟨j, hj⟩ := hyz.owns hz
  exact (h.sound.unique hx hy hi hj).1

theorem Inv.root_no_parent (h : Inv T st) (x : Nat) : ¬ DirEdge T st.disk x 1 := by
  rintro ⟨hx, hx1⟩
  have := (h.child_used hx hx1).1
  omega

/-! ## A rename -/

omit [BuildConfig] in
theorem movedEntry_inUse (e : FileEntry) {leaf : List UInt8} (now : Nat) (hnul : 0 ∉ leaf)
    (hne : leaf ≠ []) : (movedEntry e leaf now).inUse = true := by
  rw [FileEntry.inUse_iff]
  have hname : (movedEntry e leaf now).nameStr = leaf.take 19 := cstr_copy_name20 e.name hnul
  rw [hname, Ne, List.take_eq_nil_iff, not_or]
  exact ⟨by decide, hne⟩

omit [BuildConfig] in
theorem renamed_slot {S : Nat} {dS : DiskDir} {si : Fin MAX_DIR_ENTRIES} {leaf : List UInt8}
    {now : Nat} (hd : dirOf st.disk S = some dS) (hnul : 0 ∉ leaf) (hne : leaf ≠ []) {P : Nat}
    {i : Fin DIR_SLOTS} {e : FileEntry} (he : SlotHas st.disk P i e) :
    ∃ f, SlotHas (write_dir st S ((DirBlock.ofDisk dS).setEntry si
      (movedEntry ((DirBlock.ofDisk dS).entries si) leaf now))).disk P i f ∧ SameObject e f := by
  by_cases hs : P = S ∧ i.val = si.val
  · obtain ⟨rfl, hi⟩ := hs
    refine ⟨_, (slotHas_write_dir hd).mpr (Or.inl ⟨rfl, hi, rfl, movedEntry_inUse _ _ hnul hne⟩), ?_⟩
    rw [(slotHas_entry hd he hi).1]
    exact sameObject_movedEntry _ _ _
  · exact ⟨e, (slotHas_write_dir hd).mpr (Or.inr ⟨hs, he⟩), .refl e⟩

omit [BuildConfig] in
theorem renamed_isDir {S : Nat} {dS : DiskDir} {si : Fin MAX_DIR_ENTRIES} {leaf : List UInt8}
    {now : Nat} (hd : dirOf st.disk S = some dS) (hnul : 0 ∉ leaf) (hne : leaf ≠ []) {b : Nat}
    (hb : IsDir st.disk b) : IsDir (write_dir st S ((DirBlock.ofDisk dS).setEntry si
      (movedEntry ((DirBlock.ofDisk dS).entries si) leaf now))).disk b := by
  refine isDir_of_kept (fun {P C} _ hC => ?_) (fun {P} hP => ?_) hb
  · obtain ⟨i, e, he, ht, rfl⟩ := hC
    obtain ⟨f, hf, hbno, _, htype, _⟩ := renamed_slot hd hnul hne he
    exact ⟨i, f, hf, htype.trans ht, hbno⟩
  · obtain ⟨d, hd'⟩ := hP.2
    rw [dirOf_write_dir]
    split
    · exact ⟨_, rfl⟩
    · exact ⟨d, hd'⟩

/-! ## A move to another directory -/

section

variable {S D : Nat} {dS dD : DiskDir} {si di : Fin MAX_DIR_ENTRIES} {leaf sleaf : List UInt8}
  {now : Nat} (hS : dirOf st.disk S = some dS) (hD : dirOf st.disk D = some dD) (hSD : S ≠ D)
  (hfree : find_free_entry_index (DirBlock.ofDisk dD) = some di) (hnul : 0 ∉ leaf)
  (hne : leaf ≠ [])

include hS hD

theorem crossed_dir_iff (Q : Nat) : (∃ d, dirOf (move_relink (crossWrites st S dS si D dD di
      leaf now) ((DirBlock.ofDisk dS).entries si) D).disk Q = some d) ↔
    ∃ d, dirOf st.disk Q = some d := by
  simp only [dirOf_move_relink, Option.map_eq_some_iff]
  constructor
  · rintro ⟨_, d1, h1, _⟩
    obtain ⟨d0, h0, _⟩ := dir_of_crossWrites hS hD h1
    exact ⟨d0, h0⟩
  · rintro ⟨d0, h0⟩
    obtain ⟨d1, h1, _⟩ := crossWrites_dir hS hD h0
    exact ⟨_, d1, h1, rfl⟩

include hSD hfree hnul hne

theorem crossed_slot_iff {Q : Nat} {j : Fin DIR_SLOTS} {f : FileEntry} :
    SlotHas (move_relink (crossWrites st S dS si D dD di leaf now)
      ((DirBlock.ofDisk dS).entries si) D).disk Q j f ↔
    (Q = D ∧ j.val = di.val ∧ f = movedEntry ((DirBlock.ofDisk dS).entries si) leaf now) ∨
      (¬ (Q = S ∧ j.val = si.val) ∧ SlotHas st.disk Q j f) := by
  rw [slotHas_move_relink, slotHas_crossWrites hS hD hSD]
  constructor
  · rintro (⟨h1, h2, h3, _⟩ | ⟨_, h1, h2⟩)
    · exact Or.inl ⟨h1, h2, h3⟩
    · exact Or.inr ⟨h1, h2⟩
  · rintro (⟨h1, h2, rfl⟩ | ⟨h1, h2⟩)
    · exact Or.inl ⟨h1, h2, rfl, movedEntry_inUse _ _ hnul hne⟩
    · refine Or.inr ⟨?_, h1, h2⟩
      -- the new place was free
      rintro ⟨rfl, hj⟩
      obtain ⟨rfl, hused⟩ := slotHas_entry hD h2 hj
      rw [(find_free_entry_index_eq_some.mp hfree).1] at hused
      cases hused

theorem crossed_kept_of_not_moved
    (hn : ∀ {i e}, IsDir st.disk S → SlotHas st.disk S i e → (e.type = 1 ∨ e.bno ≠ 0) →
      i.val ≠ si.val) :
    (∀ {b}, IsDir st.disk b → IsDir (move_relink (crossWrites st S dS si D dD di leaf now)
      ((DirBlock.ofDisk dS).entries si) D).disk b) ∧
    ∀ {P i e}, IsDir st.disk P → SlotHas st.disk P i e → (e.type = 1 ∨ e.bno ≠ 0) →
      SlotHas (move_relink (crossWrites st S dS si D dD di leaf now)
        ((DirBlock.ofDisk dS).entries si) D).disk P i e := by
  have hslot : ∀ {P i e}, IsDir st.disk P → SlotHas st.disk P i e → (e.type = 1 ∨ e.bno ≠ 0) →
      SlotHas (move_relink (crossWrites st S dS si D dD di leaf now)
        ((DirBlock.ofDisk dS).entries si) D).disk P i e := by
    intro P i e hP he hobj
    refine (crossed_slot_iff hS hD hSD hfree hnul hne).mpr (Or.inr ⟨?_, he⟩)
    rintro ⟨rfl, hi⟩
    exact hn hP he hobj hi
  refine ⟨fun hb => isDir_of_kept (fun hP hC => ?_) (fun hP => ?_) hb, hslot⟩
  · obtain ⟨i, e, he, ht, rfl⟩ := hC
    exact ⟨i, e, hslot hP he (Or.inl ht), ht, rfl⟩
  · exact (crossed_dir_iff hS hD _).mpr hP.2

theorem crossed_isDir_iff_of_file (ht : ((DirBlock.ofDisk dS).entries si).type ≠ 1) (b : Nat) :
    IsDir (move_relink (crossWrites st S dS si D dD di leaf now)
      ((DirBlock.ofDisk dS).entries si) D).disk b ↔ IsDir st.disk b := by
  have hchild : DirChild (move_relink (crossWrites st S dS si D dD di leaf now)
      ((DirBlock.ofDisk dS).entries si) D).disk = DirChild st.disk := by
    funext x y
    apply propext
    constructor
    · rintro ⟨j, f, hf, hft, rfl⟩
      rcases (crossed_slot_iff hS hD hSD hfree hnul hne).mp hf with ⟨_, _, rfl⟩ | ⟨_, hf⟩
      · exact absurd hft ht
      · exact ⟨j, f, hf, hft, rfl⟩
    · rintro ⟨j, f, hf, hft, rfl⟩
      refine ⟨j, f, (crossed_slot_iff hS hD hSD hfree hnul hne).mpr (Or.inr ⟨?_, hf⟩), hft, rfl⟩
      rintro ⟨rfl, hj⟩
      obtain ⟨rfl, _⟩ := slotHas_entry hS hf hj
      exact ht hft
  unfold IsDir
  rw [hchild, crossed_dir_iff hS hD]

section

variable (h : Inv T st) (hTS : T S) (hTD : T D)
  (hfind : find_entry_index (DirBlock.ofDisk dS) sleaf none = some si)

include h hTS hTD hfind

omit hTD in
theorem crossed_owner (h0 : ((DirBlock.ofDisk dS).entries si).bno ≠ 0) {Q : Nat}
    {j : Fin DIR_SLOTS} {f : FileEntry} (hQ : T Q)
    (hf : SlotHas (move_relink (crossWrites st S dS si D dD di leaf now)
      ((DirBlock.ofDisk dS).entries si) D).disk Q j f)
    (hbno : f.bno = ((DirBlock.ofDisk dS).entries si).bno) : Q = D ∧ j.val = di.val := by
  rcases (crossed_slot_iff hS hD hSD hfree hnul hne).mp hf with ⟨h1, h2, _⟩ | ⟨hn, hf⟩
  · exact ⟨h1, h2⟩
  · exact absurd (h.sound.slot_eq hTS hS hfind h0 hQ hf hbno) hn

theorem crossed_rehung (ht : ((DirBlock.ofDisk dS).entries si).type = 1)
    (hdi : di.val < DIR_SLOTS) :
    Forest.Rehung (DirEdge T st.disk) (DirEdge T (move_relink (crossWrites st S dS si D dD di
      leaf now) ((DirBlock.ofDisk dS).entries si) D).disk)
      ((DirBlock.ofDisk dS).entries si).bno D := by
  have hi : si.val < DIR_SLOTS := lt_of_type_ne_zero (by rw [ht]; decide)
  have h0 := (h.parented hTS (slotHas_of_find hS hfind hi).1 ht).1
  have hslot := @crossed_slot_iff _ st S D dS dD si di leaf now hS hD hSD hfree hnul hne
  refine ⟨fun {x y} hy => and_congr_right fun _ => ?_, fun {x} => ?_⟩
  · constructor
    · rintro ⟨j, f, hf, hft, rfl⟩
      rcases hslot.mp hf with ⟨_, _, rfl⟩ | ⟨_, hf⟩
      · exact absurd rfl hy
      · exact ⟨j, f, hf, hft, rfl⟩
    · rintro ⟨j, f, hf, hft, rfl⟩
      refine ⟨j, f, hslot.mpr (Or.inr ⟨?_, hf⟩), hft, rfl⟩
      rintro ⟨rfl, hj⟩
      exact hy (congrArg FileEntry.bno (slotHas_entry hS hf hj).1)
  · constructor
    · rintro ⟨hx, j, f, hf, _, hbno⟩
      exact (crossed_owner hS hD hSD hfree hnul hne h hTS hfind h0 hx hf hbno).1
    · rintro rfl
      exact ⟨hTD, ⟨di.val, hdi⟩, _, hslot.mpr (Or.inl ⟨rfl, rfl, rfl⟩), ht, rfl⟩

theorem crossed_isDir (ht : ((DirBlock.ofDisk dS).entries si).type = 1)
    (hdi : di.val < DIR_SLOTS) (hDT : IsDir st.disk D)
    (hout : ¬ Forest.Below (DirChild st.disk) ((DirBlock.ofDisk dS).entries si).bno D) {b : Nat}
    (hb : IsDir st.disk b) : IsDir (move_relink (crossWrites st S dS si D dD di leaf now)
      ((DirBlock.ofDisk dS).entries si) D).disk b := by
  have hi : si.val < DIR_SLOTS := lt_of_type_ne_zero (by rw [ht]; decide)
  have hTc := h.closed.child hTS ⟨_, _, (slotHas_of_find hS hfind hi).1, ht, rfl⟩
  have hinv := @Inv.crossed _ st T h S D sleaf leaf dS dD si di now hTS hTD hS hD hSD hfind
  have hre := @crossed_rehung _ st T S D dS dD si di leaf sleaf now hS hD hSD hfree hnul hne h
    hTS hTD hfind ht hdi
  refine ⟨?_, (crossed_dir_iff hS hD _).mpr hb.2⟩
  rw [← hinv.below_dirEdge h.root_mem]
  refine hre.reach ?_ ?_ ?_
  · exact (h.below_dirEdge h.root_mem).mpr hDT.1
  · rwa [h.below_dirEdge hTc]
  · exact (h.below_dirEdge h.root_mem).mpr hb.1

theorem crossed_lost (ht : ((DirBlock.ofDisk dS).entries si).type = 1)
    (hST : IsDir st.disk S) (hdi : di.val < DIR_SLOTS)
    (hkept : IsDir (move_relink (crossWrites st S dS si D dD di leaf now)
      ((DirBlock.ofDisk dS).entries si) D).disk ((DirBlock.ofDisk dS).entries si).bno) :
    IsDir st.disk D ∧
      ¬ Forest.Below (DirChild st.disk) ((DirBlock.ofDisk dS).entries si).bno D := by
  have hi : si.val < DIR_SLOTS := lt_of_type_ne_zero (by rw [ht]; decide)
  have hSc : DirChild st.disk S ((DirBlock.ofDisk dS).entries si).bno :=
    ⟨_, _, (slotHas_of_find hS hfind hi).1, ht, rfl⟩
  have hTc := h.closed.child hTS hSc
  have hinv := @Inv.crossed _ st T h S D sleaf leaf dS dD si di now hTS hTD hS hD hSD hfind
  have hre := @crossed_rehung _ st T S D dS dD si di leaf sleaf now hS hD hSD hfree hnul hne h
    hTS hTD hfind ht hdi
  have hroot : Forest.Below (DirEdge T st.disk) 1 ((DirBlock.ofDisk dS).entries si).bno :=
    (h.below_dirEdge h.root_mem).mpr (hST.1.tail hSc)
  have hroot' := (hinv.below_dirEdge h.root_mem).mpr hkept.1
  have hc1 : ((DirBlock.ofDisk dS).entries si).bno ≠ 1 := by
    intro h1
    have := (h.child_used hTS hSc).1
    omega
  constructor
  · by_contra hDT
    have hD' : ¬ Forest.Below (DirEdge T st.disk) 1 D := by
      rw [h.below_dirEdge h.root_mem]
      exact fun hb => hDT ⟨hb, dD, hD⟩
    exact (hre.outside_root hc1 hroot h.uniqueParent h.root_no_parent hD' hroot').2 .refl
  · rw [← h.below_dirEdge hTc]
    intro hcD
    refine hre.cut_off h.uniqueParent ?_ hcD hroot' .refl
    -- the root is not below the moved directory
    intro hc
    rcases hc.cases_tail with he | ⟨x, _, hx⟩
    · exact hc1 he.symm
    · exact h.root_no_parent x hx

end

end

/-! ## The moves that keep the tree -/

/-- A move that takes an entry of the tree to another directory goes to a slot inside the
block of a directory of the tree, and not below the entry. -/
def MoveSafe (st : FsState) (w : Window) (src dst : List UInt8) : Prop :=
  ∀ S sleaf dS si dest dD di, MovePlan st w src dst S sleaf dS si dest dD →
    S ≠ dest.dir_bno → dest.idx = none →
    find_free_entry_index (DirBlock.ofDisk dD) = some di →
    IsDir st.disk S → ((DirBlock.ofDisk dS).entries si).bno ≠ 0 →
    IsDir st.disk dest.dir_bno ∧ SlotInside di ∧
      (((DirBlock.ofDisk dS).entries si).type = 1 →
        ¬ Forest.Below (DirChild st.disk) ((DirBlock.ofDisk dS).entries si).bno dest.dir_bno)

theorem Inv.treeKept_of_safe (h : Inv T st) {w : Window} (hw : T w.cwd_bno) {src dst : CString}
    {now : Nat} (hsafe : MoveSafe st w src.bytes dst.bytes) :
    TreeKept st.disk (vibeos.fs.move_entry_named st w src.bytes dst.bytes now).2.disk := by
  rcases hm : vibeos.fs.move_entry_named st w src.bytes dst.bytes now with ⟨rc, st'⟩
  rcases move_cases h.ready hm with rfl | ⟨_, S, sleaf, dS, si, dest, dD, p, hwr⟩
  · exact h.treeDisk.kept id fun hP he _ => ⟨_, _, _, hP, he, .refl _⟩
  obtain ⟨hTS, hTD⟩ := h.movePlan_mem hw p
  obtain ⟨hnul, hne⟩ := p.leaf_ok
  cases hwr with
  | rename hSD hidx =>
    refine (h.renamed hTS p.src_dir p.src_find).treeDisk.kept
      (fun hb => renamed_isDir p.src_dir hnul hne hb) fun {P i e} hP he _ => ?_
    obtain ⟨f, hf, hobj⟩ := renamed_slot p.src_dir hnul hne he
    exact ⟨P, i, f, renamed_isDir p.src_dir hnul hne hP, hf, hobj⟩
  | cross di hSD hidx hfree =>
    have hinv := @Inv.crossed _ st T h S dest.dir_bno sleaf dest.leaf dS dD si di now hTS hTD
      p.src_dir p.dst_dir hSD p.src_find
    by_cases hobj : IsDir st.disk S ∧ ((DirBlock.ofDisk dS).entries si).bno ≠ 0
    · obtain ⟨hDT, hdi, hout⟩ := hsafe S sleaf dS si dest dD di p hSD hidx hfree hobj.1 hobj.2
      rw [slotInside_iff] at hdi
      have hdirs : ∀ {b}, IsDir st.disk b → IsDir (move_relink (crossWrites st S dS si
          dest.dir_bno dD di dest.leaf now) ((DirBlock.ofDisk dS).entries si)
          dest.dir_bno).disk b := by
        intro b hb
        by_cases ht : ((DirBlock.ofDisk dS).entries si).type = 1
        · exact crossed_isDir p.src_dir p.dst_dir hSD hfree hnul hne h hTS hTD p.src_find ht hdi
            hDT (hout ht) hb
        · exact (crossed_isDir_iff_of_file p.src_dir p.dst_dir hSD hfree hnul hne ht b).mpr hb
      refine hinv.treeDisk.kept hdirs fun {P i e} hP he _ => ?_
      have hslot := @crossed_slot_iff _ st S dest.dir_bno dS dD si di dest.leaf now p.src_dir
        p.dst_dir hSD hfree hnul hne
      by_cases hs : P = S ∧ i.val = si.val
      · obtain ⟨rfl, hi⟩ := hs
        refine ⟨dest.dir_bno, ⟨di.val, hdi⟩, _, hdirs hDT, hslot.mpr (Or.inl ⟨rfl, rfl, rfl⟩), ?_⟩
        rw [(slotHas_entry p.src_dir he hi).1]
        exact sameObject_movedEntry _ _ _
      · exact ⟨P, i, e, hdirs hP, hslot.mpr (Or.inr ⟨hs, he⟩), .refl e⟩
    · -- what moved was no part of the tree
      obtain ⟨hdirs, hslots⟩ := @crossed_kept_of_not_moved _ st S dest.dir_bno dS dD si di
        dest.leaf now p.src_dir p.dst_dir hSD hfree hnul hne (by
          intro i e hST he hcase hi
          obtain ⟨rfl, _⟩ := slotHas_entry p.src_dir he hi
          rcases hcase with ht | h0
          · exact hobj ⟨hST, (h.parented hTS he ht).1⟩
          · exact hobj ⟨hST, h0⟩)
      exact hinv.treeDisk.kept hdirs fun {P i e} hP he h0 =>
        ⟨P, i, e, hdirs hP, hslots hP he (Or.inr h0), .refl e⟩

theorem Inv.safe_of_treeKept (h : Inv T st) {w : Window} (hw : T w.cwd_bno) {src dst : CString}
    {now : Nat} (hk : TreeKept st.disk
      (vibeos.fs.move_entry_named st w src.bytes dst.bytes now).2.disk) :
    MoveSafe st w src.bytes dst.bytes := by
  intro S sleaf dS si dest dD di p hSD hidx hfree hST h0
  obtain ⟨hTS, hTD⟩ := h.movePlan_mem hw p
  obtain ⟨hnul, hne⟩ := p.leaf_ok
  rw [p.cross_eq hSD hidx hfree now] at hk
  have hinv := @Inv.crossed _ st T h S dest.dir_bno sleaf dest.leaf dS dD si di now hTS hTD
    p.src_dir p.dst_dir hSD p.src_find
  have hi : si.val < DIR_SLOTS := by
    by_contra hge
    exact h0 (ofDisk_entries_of_ge dS si (by omega)).1
  have hslot := (slotHas_of_find p.src_dir p.src_find hi).1
  -- the entry has a place in the new tree: the one that it was moved to
  obtain ⟨Q, j, f, hQ, hf, hbno, _⟩ := hk.files hST hslot h0
  obtain ⟨rfl, hj⟩ := crossed_owner p.src_dir p.dst_dir hSD hfree hnul hne h hTS p.src_find
    h0 (hinv.isDir_mem hQ) hf hbno
  have hdi : di.val < DIR_SLOTS := hj ▸ j.isLt
  refine (fun hgoal : _ ∧ _ => ⟨hgoal.1, (slotInside_iff _).mpr hdi, hgoal.2⟩) ?_
  by_cases ht : ((DirBlock.ofDisk dS).entries si).type = 1
  · have hlost := crossed_lost p.src_dir p.dst_dir hSD hfree hnul hne h hTS hTD p.src_find ht hST
      hdi (hk.dirs ⟨hST.1.tail ⟨_, _, hslot, ht, rfl⟩,
        (h.parented hTS hslot ht).2.imp fun _ hc => hc.1⟩)
    exact ⟨hlost.1, fun _ => hlost.2⟩
  · exact ⟨(crossed_isDir_iff_of_file p.src_dir p.dst_dir hSD hfree hnul hne ht _).mp hQ,
      fun h1 => absurd h1 ht⟩

/-- A move stays inside its buffers and keeps the tree exactly when the paths of both directories
fit and it is safe. -/
theorem move_keeps_tree_iff {s : System} (h : Reached s) (win : Nat) (src dst : CString)
    (now : Nat) : (∃ r, move_call s.st (s.wins win) src.bytes dst.bytes now = some r ∧
      TreeKept s.st.disk r.2.disk) ↔
    move_fits s.st (s.wins win) src.bytes dst.bytes = true ∧
      MoveSafe s.st (s.wins win) src.bytes dst.bytes := by
  obtain ⟨T, hT⟩ := h.sysInv
  constructor
  · rintro ⟨r, hr, hkept⟩
    obtain ⟨hfits, rfl⟩ := move_call_eq_some.mp hr
    exact ⟨hfits, hT.inv.safe_of_treeKept (hT.wins win) hkept⟩
  · rintro ⟨hfits, hsafe⟩
    exact ⟨_, move_call_eq_some.mpr ⟨hfits, rfl⟩, hT.inv.treeKept_of_safe (hT.wins win) hsafe⟩

end

section

attribute [local instance] fpgaBuild

def mkdirA : List Op := [.mkdir 0 ⟨lit ['a'], nul_free_a⟩ 1]

theorem mkdirA_move : ∃ s, run (format blankSystem) mkdirA = some s ∧ (s.wins 0).cwd_bno = 1 ∧
    move_fits s.st (s.wins 0) (lit ['a']) (lit ['b']) = true ∧ ∀ {S sleaf dS si dest dD},
      MovePlan s.st (s.wins 0) (lit ['a']) (lit ['b']) S sleaf dS si dest dD →
      S = dest.dir_bno := by
  have hrun : ((run (format blankSystem) mkdirA).bind fun s =>
      (dirOf s.st.disk 1).map fun d =>
        ((resolve_fs_target s.st (s.wins 0) (lit ['a'])).2.map Prod.fst,
        (resolve_fs_target s.st (s.wins 0) (lit ['b'])).2.map fun r => (r.1, r.2.2),
        find_entry_index (DirBlock.ofDisk d) (lit ['b']) none, (s.wins 0).cwd_bno)) =
      some (some 1, some (1, lit ['b']), none, 1) := by decide +kernel
  have hfits : (run (format blankSystem) mkdirA).map (fun s =>
      move_fits s.st (s.wins 0) (lit ['a']) (lit ['b'])) = some true := by decide +kernel
  obtain ⟨s, hs, hd⟩ := Option.bind_eq_some_iff.mp hrun
  obtain ⟨d, hd, hrun⟩ := Option.map_eq_some_iff.mp hd
  simp only [Prod.mk.injEq] at hrun
  obtain ⟨hsrc, hdst, hnone, hcwd⟩ := hrun
  rw [hs] at hfits
  refine ⟨s, hs, hcwd, Option.some.inj hfits, fun {S sleaf dS si dest dD} p => ?_⟩
  obtain ⟨scwd, hp⟩ := p.source
  obtain ⟨ddir, dcwd, dleaf, hq, _, hcase⟩ := p.target
  have hp := congrArg (fun r => r.2.map Prod.fst) hp
  have hq := congrArg (fun r => r.2.map fun r => (r.1, r.2.2)) hq
  cases hsrc.symm.trans hp
  cases hdst.symm.trans hq
  rcases hcase with ⟨he, _⟩ | ⟨dd, j, ⟨_, _, hdd⟩, hf, _⟩
  · exact he.symm
  · cases hd.symm.trans hdd
    cases hnone.symm.trans hf

/-- The rename of the directory `a` to `b` keeps the tree. -/
theorem move_keeps_tree_iff_sample : ∃ s, run (format blankSystem) mkdirA = some s ∧
    ∃ r, move_call s.st (s.wins 0) (lit ['a']) (lit ['b']) 2 = some r ∧
      TreeKept s.st.disk r.2.disk := by
  obtain ⟨s, hs, _, hfits, hrename⟩ := mkdirA_move
  refine ⟨s, hs, (move_keeps_tree_iff ⟨blankSystem, mkdirA, hs⟩ 0 ⟨lit ['a'], nul_free_a⟩
    ⟨lit ['b'], by decide⟩ 2).mpr ⟨hfits, ?_⟩⟩
  intro S sleaf dS si dest dD di p hSD _ _ _ _
  exact absurd (hrename p) hSD

/-- A move of the directory `a` to `a/b` leaves the root without an entry. -/
theorem move_into_itself_loses_tree : ∃ s, Reached s ∧
    ∃ r, move_call s.st (s.wins 0) (lit ['a']) (lit ['a', '/', 'b']) 2 = some r ∧
      ¬ TreeKept s.st.disk r.2.disk := by
  have hrun : ((run (format blankSystem) mkdirA).bind fun s =>
      (dirOf s.st.disk 1).bind fun d => (dirOf s.st.disk 60).bind fun _ =>
      (move_call s.st (s.wins 0) (lit ['a']) (lit ['a', '/', 'b']) 2).bind fun r =>
      (dirOf r.2.disk 1).map
        fun d' => ((d.slots ⟨0, by decide⟩).inUse, (d.slots ⟨0, by decide⟩).type,
          (d.slots ⟨0, by decide⟩).bno, decide (∀ i, (d'.slots i).inUse = false))) =
      some (true, 1, 60, true) := by decide +kernel
  obtain ⟨s, hs, hrun⟩ := Option.bind_eq_some_iff.mp hrun
  obtain ⟨d, hd, hrun⟩ := Option.bind_eq_some_iff.mp hrun
  obtain ⟨dc, hdc, hrun⟩ := Option.bind_eq_some_iff.mp hrun
  obtain ⟨r, hr, hrun⟩ := Option.bind_eq_some_iff.mp hrun
  obtain ⟨d', hd', hrun⟩ := Option.map_eq_some_iff.mp hrun
  simp only [Prod.mk.injEq, decide_eq_true_eq] at hrun
  obtain ⟨hused, htype, hbno, hfree⟩ := hrun
  refine ⟨s, ⟨blankSystem, mkdirA, hs⟩, r, hr, fun hk => ?_⟩
  have hdir : IsDir s.st.disk 60 :=
    ⟨.single ⟨⟨0, by decide⟩, _, ⟨d, hd, rfl, hused⟩, htype, hbno⟩, dc, hdc⟩
  -- no way leads out of the root any more
  rcases (hk.dirs hdir).1.cases_head with h1 | ⟨x, ⟨i, e, ⟨d1, hd1, rfl, he⟩, _⟩, _⟩
  · cases h1
  · cases hd'.symm.trans hd1
    rw [hfree i] at he
    cases he

end

end vibeos.fs
