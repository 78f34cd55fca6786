-- Crash safety of a move. A rename is one write. A move to another directory
-- clears the entry in the source first and writes it to the destination after
-- that, so between the two writes the object has no entry.
import Vibeos.MoveTree
import Vibeos.ReadBack

namespace vibeos.fs

open LinkChain Relation WriteLog

section

variable [BuildConfig] {st st' : FsState} {w : Window}

/-! ## What a move owes after a crash -/

/-- The object of entry `e` is in the tree of `disk'`, with its contents: the bytes of the
file, or every entry below the directory and the bytes of their files. -/
structure ObjectKept (disk disk' : Disk) (e : FileEntry) : Prop where
  entry : ∃ Q j f, IsDir disk' Q ∧ SlotHas disk' Q j f ∧ SameObject e f
  bytes : e.type ≠ 1 → load_loop disk' e.size e.bno = load_loop disk e.size e.bno
  below : e.type = 1 → ∀ {P i f}, Forest.Below (DirChild disk) e.bno P → SlotHas disk P i f →
    SlotHas disk' P i f ∧
      (f.type ≠ 1 → load_loop disk' f.size f.bno = load_loop disk f.size f.bno)

/-- A move writes past no buffer, and when it returns 0, the object that `src` names is kept after
every prefix of its writes. -/
def MoveCrashSafe (st : FsState) (w : Window) (src dst : List UInt8) (now : Nat) : Prop :=
  ∃ r, move_call st w src dst now = some r ∧ (r.1 = 0 →
    ∀ S cwd sleaf dS si,
      resolve_fs_target st w (src.dropWhile (· == ' '.toUInt8)) = (st, some (S, cwd, sleaf)) →
      dirOf st.disk S = some dS →
      find_entry_index (DirBlock.ofDisk dS) sleaf none = some si →
      ((DirBlock.ofDisk dS).entries si).bno ≠ 0 →
      ∀ k, ObjectKept st.disk (crashed st r.2 k).disk ((DirBlock.ofDisk dS).entries si))

/-- The move takes an object to another directory. -/
def CrossMove (st : FsState) (w : Window) (src dst : List UInt8) : Prop :=
  ∃ S sleaf dS si dest dD di, MovePlan st w src dst S sleaf dS si dest dD ∧
    S ≠ dest.dir_bno ∧ dest.idx = none ∧
    find_free_entry_index (DirBlock.ofDisk dD) = some di ∧
    ((DirBlock.ofDisk dS).entries si).bno ≠ 0

/-! ## A move to another directory -/

theorem move_relink_writes (st : FsState) (e : FileEntry) (D : Nat) :
    ∃ ws, (move_relink st e D).writes = st.writes ++ ws := by
  unfold move_relink
  split
  · split
    · exact ⟨[], by simp⟩
    · exact ⟨_, rfl⟩
  · exact ⟨[], by simp⟩

theorem not_objectKept_after_clear (h : WellFormed st) {S : Nat} {dS : DiskDir}
    {si : Fin MAX_DIR_ENTRIES} {sleaf : List UInt8} (hST : IsDir st.disk S)
    (hS : dirOf st.disk S = some dS)
    (hfind : find_entry_index (DirBlock.ofDisk dS) sleaf none = some si)
    (h0 : ((DirBlock.ofDisk dS).entries si).bno ≠ 0) :
    ¬ ObjectKept st.disk (write_dir st S ((DirBlock.ofDisk dS).setEntry si .zero)).disk
      ((DirBlock.ofDisk dS).entries si) := by
  intro hk
  obtain ⟨Q, j, f, hQ, hf, hbno, _⟩ := hk.entry
  have hslot : ∀ {Q j f}, SlotHas (write_dir st S ((DirBlock.ofDisk dS).setEntry si
      .zero)).disk Q j f → ¬ (Q = S ∧ j.val = si.val) ∧ SlotHas st.disk Q j f := by
    intro Q j f hf
    rcases (slotHas_write_dir hS).mp hf with ⟨_, _, rfl, hused⟩ | hf
    · cases hused
    · exact hf
  have hQ' : IsDir st.disk Q := by
    refine isDir_of_slotHas (ReflTransGen.mono (fun x y hxy => ?_) _ _ hQ.1) (hslot hf).2
    obtain ⟨i, e, he, ht, rfl⟩ := hxy
    exact ⟨i, e, (hslot he).2, ht, rfl⟩
  exact (hslot hf).1 (h.tree.sound.slot_eq hST hS hfind h0 hQ' (hslot hf).2 hbno)

theorem CrossMove.not_safe (h : WellFormed st) (hw : IsDir st.disk w.cwd_bno)
    {src dst : List UInt8} (hc : CrossMove st w src dst) (now : Nat) :
    ¬ MoveCrashSafe st w src dst now := by
  obtain ⟨S, sleaf, dS, si, dest, dD, di, p, hSD, hidx, hfree, h0⟩ := hc
  rintro ⟨r, hr, hsafe⟩
  obtain ⟨cwd, hsrc⟩ := p.source
  obtain rfl := (p.cross_eq hSD hidx hfree now).symm.trans (move_call_eq_some.mp hr).2
  have hk := hsafe rfl S cwd sleaf dS si hsrc p.src_dir p.src_find h0 1
  obtain ⟨ws, hws⟩ := move_relink_writes (crossWrites st S dS si dest.dir_bno dD di dest.leaf now)
    ((DirBlock.ofDisk dS).entries si) dest.dir_bno
  have hcross : (crossWrites st S dS si dest.dir_bno dD di dest.leaf now).writes = st.writes ++
      [(S, .dir ((DirBlock.ofDisk dS).setEntry si .zero).toDisk),
        (dest.dir_bno, .dir ((DirBlock.ofDisk dD).setEntry di
          (movedEntry ((DirBlock.ofDisk dS).entries si) dest.leaf now)).toDisk)] :=
    List.append_assoc _ _ _
  rw [hcross, List.append_assoc] at hws
  rw [crashed_disk hws] at hk
  exact not_objectKept_after_clear h (resolve_fs_target_mem h.tree.closed hw hsrc) p.src_dir
    p.src_find h0 hk

/-! ## A rename -/

omit [BuildConfig] in
theorem ObjectKept.refl {disk : Disk} {S : Nat} {j : Fin DIR_SLOTS} {e : FileEntry}
    (hS : IsDir disk S) (he : SlotHas disk S j e) : ObjectKept disk disk e :=
  ⟨⟨S, j, e, hS, he, .refl e⟩, fun _ => rfl, fun _ _ _ _ _ hf => ⟨hf, fun _ => rfl⟩⟩

theorem WellFormed.load_write_dir (h : WellFormed st) {S P : Nat} {i : Fin DIR_SLOTS}
    {f : FileEntry} (hS : IsDir st.disk S) (hP : IsDir st.disk P) (hf : SlotHas st.disk P i f)
    (ht : f.type ≠ 1) (db : DirBlock) :
    load_loop (write_dir st S db).disk f.size f.bno = load_loop st.disk f.size f.bno := by
  obtain ⟨l, hl, _⟩ := h.tree.sound.chain hP hf
  refine load_loop_congr hl (fun x hx => write_dir_disk_ne st db ?_) f.size
  rintro rfl
  exact h.tree.not_isDir_of_file hP hf ht (hl.onChain hx) hS

theorem WellFormed.objectKept_renamed (h : WellFormed st) {S : Nat} {dS : DiskDir}
    {si : Fin MAX_DIR_ENTRIES} {sleaf leaf : List UInt8} {now : Nat} (hST : IsDir st.disk S)
    (hS : dirOf st.disk S = some dS)
    (hfind : find_entry_index (DirBlock.ofDisk dS) sleaf none = some si)
    (hi : si.val < DIR_SLOTS) (hnul : 0 ∉ leaf) (hne : leaf ≠ []) :
    ObjectKept st.disk (write_dir st S ((DirBlock.ofDisk dS).setEntry si
      (movedEntry ((DirBlock.ofDisk dS).entries si) leaf now))).disk
      ((DirBlock.ofDisk dS).entries si) := by
  have hslot := (slotHas_of_find hS hfind hi).1
  refine ⟨?_, fun ht => h.load_write_dir hST hST hslot ht _, fun ht {P i f} hP hf => ?_⟩
  · obtain ⟨f, hf, hobj⟩ := @renamed_slot st S dS si leaf now hS hnul hne S _ _ hslot
    exact ⟨S, _, f, renamed_isDir hS hnul hne hST, hf, hobj⟩
  · have hchild : DirChild st.disk S ((DirBlock.ofDisk dS).entries si).bno :=
      ⟨_, _, hslot, ht, rfl⟩
    have hPdir := isDir_of_slotHas (hST.1.trans (ReflTransGen.head hchild hP)) hf
    -- the directory that is written is not below the object
    have hPS : P ≠ S := by
      rintro rfl
      exact h.tree.no_cycle hST (TransGen.head' (h.tree.edge_of_dirChild hST hchild)
        (h.tree.below_edge (h.tree.isDir_child hST hchild) hP))
    refine ⟨(slotHas_write_dir hS).mpr (Or.inr ⟨fun hs => hPS hs.1, hf⟩), fun ht' => ?_⟩
    exact h.load_write_dir hST hPdir hf ht' _

/-- A move is safe in a crash exactly when the paths of both directories fit their buffers and it
takes no object to another directory. -/
theorem move_crash_safe_iff (h : WellFormed st) (hw : IsDir st.disk w.cwd_bno)
    (src dst : CString) (now : Nat) :
    MoveCrashSafe st w src.bytes dst.bytes now ↔
      move_fits st w src.bytes dst.bytes = true ∧ ¬ CrossMove st w src.bytes dst.bytes := by
  refine ⟨fun hsafe => ⟨?_, fun hc => hc.not_safe h hw now hsafe⟩, fun ⟨hfits, hn⟩ => ?_⟩
  · obtain ⟨r, hr, _⟩ := hsafe
    exact (move_call_eq_some.mp hr).1
  refine ⟨_, move_call_eq_some.mpr ⟨hfits, rfl⟩, ?_⟩
  rcases hm : move_entry_named st w src.bytes dst.bytes now with ⟨rc, st'⟩
  rintro rfl S cwd sleaf dS si hsrc hS hfind h0 k
  have hST := resolve_fs_target_mem h.tree.closed hw hsrc
  have hi : si.val < DIR_SLOTS := by
    by_contra hge
    exact h0 (ofDisk_entries_of_ge dS si (by omega)).1
  have hSdir : IsDir st.disk S := hST
  have hslot := (slotHas_of_find hS hfind hi).1
  rcases move_cases h.ready hm with rfl | ⟨_, S1, sleaf1, dS1, si1, dest, dD, p, hwr⟩
  · have hdisk : (crashed st' st' k).disk = st'.disk := by simp [crashed]
    rw [hdisk]
    exact .refl hSdir hslot
  -- the plan is for this entry
  obtain ⟨cwd1, hsrc1⟩ := p.source
  cases hsrc.symm.trans hsrc1
  cases hS.symm.trans p.src_dir
  cases hfind.symm.trans p.src_find
  cases hwr with
  | rename hSD hidx =>
    obtain ⟨hnul, hne⟩ := p.leaf_ok
    have hlog : Logged st (write_dir st S ((DirBlock.ofDisk dS).setEntry si
        (movedEntry ((DirBlock.ofDisk dS).entries si) dest.leaf now))) _ := logged_write _ _ _
    rw [crashed_disk hlog.writes]
    rcases take_append_singleton [] _ k with hk | hk
    · rw [List.nil_append] at hk
      rw [hk]
      simpa using ObjectKept.refl hSdir hslot
    · rw [List.nil_append] at hk
      rw [hk, ← hlog.disk]
      exact h.objectKept_renamed hSdir hS hfind hi hnul hne
  | cross di hSD hidx hfree =>
    exact absurd ⟨S, sleaf, dS, si, dest, dD, di, p, hSD, hidx, hfree, h0⟩ hn

end

section

attribute [local instance] fpgaBuild

/-- The rename of the directory `a` to `b` is safe. -/
theorem move_crash_safe_iff_sample : ∃ s, run (format blankSystem) mkdirA = some s ∧
    MoveCrashSafe s.st (s.wins 0) (lit ['a']) (lit ['b']) 2 := by
  obtain ⟨s, hs, hcwd, hfits, hrename⟩ := mkdirA_move
  have hreached : Reached s := ⟨blankSystem, mkdirA, hs⟩
  refine ⟨s, hs, (move_crash_safe_iff hreached.wellFormed
    (hcwd ▸ hreached.wellFormed.tree.isDir_root) ⟨lit ['a'], nul_free_a⟩ ⟨lit ['b'], by decide⟩
    2).mpr ⟨hfits, ?_⟩⟩
  rintro ⟨S, sleaf, dS, si, dest, dD, di, p, hSD, _⟩
  exact hSD (hrename p)

/-- The run that makes the directory `a` and the file `f` beside it. -/
def fileBesideA : List Op :=
  [.mkdir 0 ⟨lit ['a'], nul_free_a⟩ 1, .store 0 ⟨lit ['f'], nul_free_f⟩ [] 2]

/-- A power loss after the first write of a move of `f` to `a/g` loses the file. -/
theorem move_crash_loses_file : ∃ (st : FsState) (w : Window) (src dst : CString),
    WellFormed st ∧ IsDir st.disk w.cwd_bno ∧
    (move_call st w src.bytes dst.bytes 3).map Prod.fst = some 0 ∧
    ¬ MoveCrashSafe st w src.bytes dst.bytes 3 := by
  have hmove : ((run (format blankSystem) fileBesideA).map fun s =>
      ((move_call s.st (s.wins 0) (lit ['f']) (lit ['a', '/', 'g']) 3).map Prod.fst,
        (move_entry_named s.st (s.wins 0) (lit ['f']) (lit ['a', '/', 'g']) 3).2.writes.length -
          s.st.writes.length)) = some (some 0, 2) := by decide +kernel
  have hrun : ((run (format blankSystem) fileBesideA).bind fun s =>
      (dirOf s.st.disk 1).map fun d =>
        ((resolve_fs_target s.st (s.wins 0) (lit ['f'])).2.map fun r => (r.1, r.2.2),
        find_entry_index (DirBlock.ofDisk d) (lit ['f']) none,
        ((DirBlock.ofDisk d).entries ⟨1, by decide⟩).bno, (s.wins 0).cwd_bno)) =
      some (some (1, lit ['f']), some ⟨1, by decide⟩, 61, 1) := by decide +kernel
  obtain ⟨s, hs, hd⟩ := Option.bind_eq_some_iff.mp hrun
  obtain ⟨d, hd, hrun⟩ := Option.map_eq_some_iff.mp hd
  rw [hs, Option.map_some] at hmove
  simp only [Prod.mk.injEq, Option.some.injEq] at hrun hmove
  obtain ⟨hsrc, hfind, hbno, hcwd⟩ := hrun
  obtain ⟨hrc, hlen⟩ := hmove
  have hreached : Reached s := ⟨blankSystem, fileBesideA, hs⟩
  have hw : IsDir s.st.disk (s.wins 0).cwd_bno := hcwd ▸ hreached.wellFormed.tree.isDir_root
  have hcross : CrossMove s.st (s.wins 0) (lit ['f']) (lit ['a', '/', 'g']) := by
    rcases hm : move_entry_named s.st (s.wins 0) (lit ['f']) (lit ['a', '/', 'g']) 3 with
      ⟨rc, st'⟩
    rw [hm] at hlen
    rcases move_cases hreached.wellFormed.ready hm with
      rfl | ⟨_, S, sleaf, dS, si, dest, dD, p, hwr⟩
    · rw [Nat.sub_self] at hlen
      cases hlen
    cases hwr with
    | rename hSD hidx =>
      -- a rename is one write
      simp [write_dir, virtio_disk_write] at hlen
    | cross di hSD hidx hfree =>
      refine ⟨S, sleaf, dS, si, dest, dD, di, p, hSD, hidx, hfree, ?_⟩
      obtain ⟨scwd, hp⟩ := p.source
      have hp := congrArg (fun r => r.2.map fun r => (r.1, r.2.2)) hp
      cases hsrc.symm.trans hp
      cases hd.symm.trans p.src_dir
      cases hfind.symm.trans p.src_find
      rw [hbno]
      decide
  exact ⟨s.st, s.wins 0, ⟨lit ['f'], nul_free_f⟩, ⟨lit ['a', '/', 'g'], by decide⟩,
    hreached.wellFormed, hw, hrc, hcross.not_safe hreached.wellFormed hw 3⟩

end

end vibeos.fs
