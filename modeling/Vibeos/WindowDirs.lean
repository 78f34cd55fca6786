-- The working directories of the windows: a window keeps a block number and a
-- path string, and no call of another window touches them. They stay valid in
-- the runs whose calls take no directory away from under a window.
import Vibeos.DirWrites
import Vibeos.MoveTree
import Vibeos.ReadBack

namespace vibeos.fs

open LinkChain Relation

/-! ## Paths of directories -/

/-- `p` is the path of directory `b`: the names of the entries from block 1 down to it, with a
slash before each. -/
inductive PathTo (disk : Disk) : Nat → List UInt8 → Prop
  | root : PathTo disk 1 rootPath
  | child {P : Nat} {p : List UInt8} {i : Fin DIR_SLOTS} {e : FileEntry} :
      PathTo disk P p → SlotHas disk P i e → e.type = 1 → PathName e.nameStr →
      PathTo disk e.bno (p ++ slash :: e.nameStr)

/-- A working directory that is valid: block `b` is a directory of the tree, with path `p`. -/
structure Standing (disk : Disk) (b : Nat) (p : List UInt8) : Prop where
  dir : IsDir disk b
  path : PathTo disk b p

section

variable {disk disk' : Disk} {b : Nat} {p name : List UInt8}

theorem PathTo.reach (h : PathTo disk b p) : Forest.Below (DirChild disk) 1 b := by
  induction h with
  | root => exact .refl
  | child _ he ht _ ih => exact ih.tail ⟨_, _, he, ht, rfl⟩

theorem PathTo.shape (h : PathTo disk b p) :
    rootPath.length ≤ p.length ∧ p.getLast? ≠ some slash := by
  induction h with
  | root => exact ⟨Nat.le_refl _, by decide⟩
  | @child P p i e _ _ _ hname ih =>
    constructor
    · rw [List.length_append]
      exact Nat.le_trans ih.1 (Nat.le_add_right _ _)
    · intro hlast
      rw [List.getLast?_append, List.getLast?_cons_of_ne_nil hname.ne_nil] at hlast
      rcases hl : e.nameStr.getLast? with _ | c
      · exact hname.ne_nil (List.getLast?_eq_none_iff.mp hl)
      · rw [hl] at hlast
        cases hlast
        exact hname.no_slash (List.mem_of_getLast? hl)

theorem PathTo.ne_nil (h : PathTo disk b p) : p ≠ [] := by
  have := h.shape.1
  rintro rfl
  exact absurd this (by decide)

theorem PathTo.kept (h : PathTo disk b p)
    (hslot : ∀ {P i e}, IsDir disk P → SlotHas disk P i e → e.type = 1 →
      Forest.Below (DirChild disk) e.bno b → SlotHas disk' P i e) : PathTo disk' b p := by
  induction h with
  | root => exact .root
  | child hP he ht hname ih =>
    have hkept := hslot (isDir_of_slotHas hP.reach he) he ht .refl
    refine .child (ih fun hQ hf htf hbelow => ?_) hkept ht hname
    exact hslot hQ hf htf (hbelow.tail ⟨_, _, he, ht, rfl⟩)

theorem Standing.kept (h : Standing disk b p)
    (hslot : ∀ {P i e}, IsDir disk P → SlotHas disk P i e → e.type = 1 →
      Forest.Below (DirChild disk) e.bno b → SlotHas disk' P i e)
    (hdir : ∃ d, dirOf disk' b = some d) : Standing disk' b p :=
  have hpath := h.path.kept hslot
  ⟨⟨hpath.reach, hdir⟩, hpath⟩

/-! ## One step of a path -/

/-- The bytes that `lib_strncat` copies. -/
def Printable (s : List UInt8) : Prop := ∀ c ∈ s, 32 ≤ c ∧ c ≤ 126

theorem path_set_child_eq (h : PathTo disk b p) (hname : PathName name) (hp : Printable name) :
    path_set_child p name = p ++ slash :: name := by
  obtain ⟨hlen, hlast⟩ := h.shape
  have h1 : 1 < p.length := Nat.lt_of_lt_of_le (by decide) hlen
  have hcopy : (name.take 19).takeWhile (fun c => 32 ≤ c && c ≤ 126) = name := by
    rw [List.take_of_length_le hname.short, List.takeWhile_eq_self_iff]
    intro c hc
    simpa using hp c hc
  simp only [path_set_child, lib_strncat, if_pos (And.intro h1 hlast), hcopy, List.append_assoc,
    List.singleton_append]

theorem path_set_parent_append {k : List UInt8} (hk : k ≠ []) (hs : slash ∉ k) :
    path_set_parent (p ++ slash :: k) = if p = [] then [slash] else p := by
  have hrev : (p ++ slash :: k).reverse = k.reverse ++ slash :: p.reverse := by simp
  have hslash : ∀ c ∈ k.reverse, c ≠ slash := by
    rintro c hc rfl
    exact hs (List.mem_reverse.mp hc)
  -- no slash is stripped, then the name is
  have hname' : (k.reverse ++ slash :: p.reverse).dropWhile (· == slash) =
      k.reverse ++ slash :: p.reverse := by
    rcases hn : k.reverse with _ | ⟨c, t⟩
    · exact absurd (List.reverse_eq_nil_iff.mp hn) hk
    · have hc : c ≠ slash := hslash c (by rw [hn]; exact List.mem_cons_self)
      simp [hc]
  have hdrop : (k.reverse ++ slash :: p.reverse).dropWhile (· != slash) =
      slash :: p.reverse := by
    rw [List.dropWhile_append_of_pos fun c hc => by simpa using hslash c hc]
    simp
  simp only [path_set_parent, hrev, hname', hdrop, List.drop_succ_cons, List.drop_zero,
    List.reverse_eq_nil_iff, List.reverse_reverse]

theorem path_set_parent_eq (hp : p ≠ []) (hname : PathName name) :
    path_set_parent (p ++ slash :: name) = p := by
  rw [path_set_parent_append hname.ne_nil hname.no_slash, if_neg hp]

section

variable {U : Nat → Prop} (h : TreeDisk U disk) {d : DiskDir}

include h

theorem Standing.enter (hs : Standing disk b p) (hd : dirOf disk b = some d)
    {i : Fin MAX_DIR_ENTRIES} (hname : PathName name)
    (hf : find_entry_index (DirBlock.ofDisk d) name (some 1) = some i) :
    ((DirBlock.ofDisk d).entries i).nameStr = name ∧
      Standing disk ((DirBlock.ofDisk d).entries i).bno (p ++ slash :: name) := by
  obtain ⟨⟨_, h2, _⟩, _⟩ := find_entry_index_eq_some.mp hf
  have ht := h2 1 rfl
  have hi : i.val < DIR_SLOTS := lt_of_type_ne_zero (by rw [ht]; decide)
  obtain ⟨hslot, rfl⟩ := slotHas_of_find hd hf hi
  exact ⟨rfl, h.isDir_child hs.dir ⟨_, _, hslot, ht, rfl⟩, .child hs.path hslot ht hname⟩

theorem Standing.child (hs : Standing disk b p) (hd : dirOf disk b = some d)
    {i : Fin MAX_DIR_ENTRIES} (hname : PathName name) (hp : Printable name)
    (hf : find_entry_index (DirBlock.ofDisk d) name (some 1) = some i) :
    Standing disk ((DirBlock.ofDisk d).entries i).bno
      (path_set_child p ((DirBlock.ofDisk d).entries i).nameStr) ∧
    (path_set_child p ((DirBlock.ofDisk d).entries i).nameStr).length =
      p.length + (name.length + 1) := by
  obtain ⟨heq, hstand⟩ := hs.enter h hd hname hf
  rw [heq, path_set_child_eq hs.path hname hp]
  refine ⟨hstand, ?_⟩
  rw [List.length_append, List.length_cons]

theorem Standing.parent (hs : Standing disk b p) (hd : dirOf disk b = some d) :
    Standing disk (orRoot d.parent_bno)
      (if orRoot d.parent_bno = 1 then rootPath else path_set_parent p) ∧
    (if orRoot d.parent_bno = 1 then rootPath else path_set_parent p).length ≤ p.length := by
  have hroot : Standing disk 1 rootPath := ⟨h.isDir_root, .root⟩
  obtain ⟨_, hpath⟩ := hs
  have hlen := hpath.shape.1
  cases hpath with
  | root =>
    obtain ⟨d1, hd1, hp1⟩ := h.root
    cases hd.symm.trans hd1
    rw [hp1, if_pos rfl]
    exact ⟨hroot, hlen⟩
  | @child P q i e hP he ht hname =>
    have hPdir := isDir_of_slotHas hP.reach he
    obtain ⟨_, dc, hdc, hpar⟩ := h.parented hPdir he ht
    cases hd.symm.trans hdc
    rw [hpar, orRoot_of_ne_zero (h.isDir_ne_zero hPdir)]
    by_cases hP1 : P = 1
    · rw [if_pos hP1, hP1]
      exact ⟨hroot, hlen⟩
    · rw [if_neg hP1, path_set_parent_eq hP.ne_nil hname]
      exact ⟨⟨hPdir, hP⟩, by rw [List.length_append]; omega⟩

end

theorem Standing.orRoot_eq {U : Nat → Prop} (h : TreeDisk U disk) (hs : Standing disk b p) :
    orRoot b = b :=
  orRoot_of_ne_zero (h.isDir_ne_zero hs.dir)

theorem Standing.orRootPath_eq (hs : Standing disk b p) : orRootPath p = p := by
  rw [orRootPath, if_neg hs.path.ne_nil]

end

/-! ## Walks -/

/-- The bytes that names take on a path, each with its slash. -/
def pathLength (segs : List (List UInt8)) : Nat := (segs.map fun s => s.length + 1).sum

theorem pathLength_pathSegments (cur p : List UInt8) :
    pathLength (pathSegments cur p) ≤ cur.length + p.length + 1 := by
  induction p generalizing cur with
  | nil =>
    unfold pathSegments
    split <;> simp [pathLength]
  | cons c cs ih =>
    have hnil := ih []
    have hcur := ih (cur ++ [c])
    simp only [List.length_append, List.length_cons, List.length_nil] at hnil hcur ⊢
    unfold pathSegments
    split
    · split
      · omega
      · simp only [pathLength, List.map_cons, List.sum_cons] at hnil ⊢
        omega
    · omega

/-- The bytes that the last name of a walk would add to the path. -/
def leafLength (leaf : Option (List UInt8)) : Nat := (leaf.map fun s => s.length + 1).getD 0

section

variable [BuildConfig] {st st' : FsState}

theorem Standing.walk {U : Nat → Prop} (h : TreeDisk U st.disk) {into : Bool} {b : Nat}
    {p : List UInt8} {segs : List (List UInt8)} {e : WalkEnd} (hs : Standing st.disk b p)
    (hsegs : ∀ s ∈ segs, s ≠ [] ∧ slash ∉ s ∧ Printable s)
    (hw : vibeos.fs.walk into st b p segs = (st', some e)) :
    Standing st.disk e.bno e.cwd ∧
      e.cwd.length + leafLength e.leaf ≤ p.length + pathLength segs := by
  induction segs generalizing st b p with
  | nil =>
    cases hw
    rw [hs.orRoot_eq h, hs.orRootPath_eq]
    exact ⟨hs, Nat.le_refl _⟩
  | cons seg rest ih =>
    have hrest := fun s hs => hsegs s (List.mem_cons_of_mem _ hs)
    have hdisk := ensure_ready_disk st
    have hlen : pathLength (seg :: rest) = seg.length + 1 + pathLength rest := rfl
    rw [hlen]
    unfold vibeos.fs.walk at hw
    rw [load_current_dir_eq] at hw
    split at hw
    · cases hw
    rename_i hshort
    split at hw
    · obtain ⟨h1, h2⟩ := ih h hs hrest hw
      exact ⟨h1, by omega⟩
    rename_i hdot
    split at hw
    · rcases hd : dirOf st.disk b with _ | d
      · rw [hd] at hw
        cases hw
      · rw [hd] at hw
        obtain ⟨h1, h2⟩ := hs.parent h hd
        rw [← hdisk] at h h1 ⊢
        obtain ⟨h3, h4⟩ := ih h h1 hrest hw
        exact ⟨h3, by omega⟩
    rename_i hdotdot
    split at hw
    · cases hw
      rw [hs.orRoot_eq h, hs.orRootPath_eq]
      refine ⟨hs, ?_⟩
      simp only [leafLength, Option.map_some, Option.getD_some]
      omega
    rcases hd : dirOf st.disk b with _ | d
    · rw [hd] at hw
      cases hw
    · rw [hd] at hw
      simp only [Option.map_some] at hw
      split at hw
      · cases hw
      · rename_i idx hf
        obtain ⟨hne, hslash, hp⟩ := hsegs seg List.mem_cons_self
        obtain ⟨h1, h2⟩ := hs.child h hd ⟨hne, by omega, hslash, hdot, hdotdot⟩ hp hf
        rw [← hdisk] at h h1 ⊢
        obtain ⟨h3, h4⟩ := ih h h1 hrest hw
        exact ⟨h3, by omega⟩

theorem Standing.walk_path {U : Nat → Prop} (h : TreeDisk U st.disk) {into : Bool} {b : Nat}
    {p q : List UInt8} {e : WalkEnd} (hs : Standing st.disk b p) (hq : Printable q)
    (hw : vibeos.fs.walk into st b p (pathSegments [] q) = (st', some e)) :
    Standing st.disk e.bno e.cwd ∧
      e.cwd.length + leafLength e.leaf ≤ p.length + q.length + 1 := by
  have hsegs : ∀ s ∈ pathSegments [] q, s ≠ [] ∧ slash ∉ s ∧ Printable s := by
    intro s hs
    obtain ⟨hne, hslash⟩ := mem_pathSegments (by simp) hs
    refine ⟨hne, hslash, fun c hc => hq c ?_⟩
    exact (mem_of_mem_pathSegments hc hs).resolve_left (by simp)
  obtain ⟨h1, h2⟩ := hs.walk h hsegs hw
  have hlen := pathLength_pathSegments [] q
  simp only [List.length_nil] at hlen
  exact ⟨h1, by omega⟩

/-- The path that `resolve_editor_target` walks for input `s`. -/
def editorPath (w : Window) (s : List UInt8) : List UInt8 :=
  terminal_expand_home_path w.home.bytes s 128

theorem Standing.resolve_editor_target {U : Nat → Prop} (h : TreeDisk U st.disk) {w : Window}
    {input cwd leaf : List UInt8} {b : Nat} (hs : Standing st.disk w.cwd_bno w.cwd)
    (hp : Printable (editorPath w input))
    (hr : vibeos.fs.resolve_editor_target st w input = (st', some (b, cwd, leaf))) :
    Standing st.disk b cwd ∧
      cwd.length + (if leaf = [] then 0 else leaf.length + 1) ≤
        w.cwd.length + (editorPath w input).length + 1 := by
  -- the walk starts at the root or at the window, over a part of the path
  have hwalk : ∃ into b0 p q e, vibeos.fs.walk into st b0 p (pathSegments [] q) =
      (st', some e) ∧ Standing st.disk b0 p ∧ p.length ≤ w.cwd.length ∧
      q.Sublist (editorPath w input) ∧ b = e.bno ∧ cwd = e.cwd ∧ leaf = e.leaf.getD [] := by
    unfold vibeos.fs.resolve_editor_target at hr
    dsimp only at hr
    split at hr
    · cases hr
    split at hr
    · cases hr
    rename_i st1 e hwalk
    cases hr
    refine ⟨_, _, _, _, e, hwalk, ?_⟩
    have hskip : (skipBlanks (editorPath w input)).Sublist (editorPath w input) :=
      List.dropWhile_sublist _
    split
    · refine ⟨⟨h.isDir_root, .root⟩, hs.path.shape.1, ?_, rfl, rfl, rfl⟩
      have hslash := (List.dropWhile_sublist (· == slash)).trans hskip
      dsimp only
      split
      · exact (List.drop_sublist _ _).trans hslash
      split
      · exact List.nil_sublist _
      · exact hslash
    · rw [hs.orRoot_eq h, hs.orRootPath_eq]
      exact ⟨hs, Nat.le_refl _, hskip, rfl, rfl, rfl⟩
  obtain ⟨into, b0, p, q, e, hwalk, hstart, hplen, hq, rfl, rfl, rfl⟩ := hwalk
  obtain ⟨h1, h2⟩ := hstart.walk_path h (fun c hc => hp c (hq.subset hc)) hwalk
  refine ⟨h1, ?_⟩
  have hqlen := hq.length_le
  rcases hl : e.leaf with _ | s
  · rw [hl] at h2
    simp only [leafLength, Option.map_none, Option.getD_none, if_true] at h2 ⊢
    omega
  · rw [hl] at h2
    have hne := (pathName_of_walk hwalk hl).1.ne_nil
    simp only [leafLength, Option.map_some, Option.getD_some, hne, if_false] at h2 ⊢
    omega

/-! ## Change of directory -/

/-- The path of a `cd` is printable, and fits the buffer behind the path of the window. -/
def CdFits (w : Window) (target : List UInt8) : Prop :=
  Printable (editorPath w (cdInput w target)) ∧
    w.cwd.length + (editorPath w (cdInput w target)).length + 1 < CWD_SIZE

/-- The working directory of window `w` is valid, and its path fits the buffer. -/
def WindowOk (disk : Disk) (w : Window) : Prop :=
  Standing disk w.cwd_bno w.cwd ∧ w.cwd.length < CWD_SIZE

omit [BuildConfig] in
theorem windowOk_root {U : Nat → Prop} (h : TreeDisk U st.disk) (w : Window) :
    WindowOk st.disk (fs_reset_window_cwd w) :=
  ⟨⟨h.isDir_root, .root⟩, (by decide : rootPath.length < CWD_SIZE)⟩

theorem WindowOk.cdWindow {U : Nat → Prop} (h : TreeDisk U st.disk) {w w' : Window}
    {target : List UInt8} (hw : WindowOk st.disk w)
    (hfits : (vibeos.fs.resolve_editor_target st w (cdInput w target)).2 ≠ none → CdFits w target)
    (hc : CdWindow st w target w') : WindowOk st.disk w' := by
  obtain ⟨hs, hlen⟩ := hw
  cases hc with
  | same => exact ⟨hs, hlen⟩
  | root => exact windowOk_root h w
  | parent hd =>
    obtain ⟨h1, h2⟩ := hs.parent h hd
    exact ⟨h1, Nat.lt_of_le_of_lt h2 hlen⟩
  | dir hres _ =>
    obtain ⟨hp, hroom⟩ := hfits (by simp [hres])
    obtain ⟨h1, h2⟩ := hs.resolve_editor_target h hp hres
    refine ⟨?_, ?_⟩
    · rwa [h1.orRoot_eq h, h1.orRootPath_eq]
    · rw [h1.orRootPath_eq]
      dsimp only
      omega
  | @child p pcwd leaf d i hres hd hf =>
    obtain ⟨hp, hroom⟩ := hfits (by simp [hres])
    obtain ⟨h1, h2⟩ := hs.resolve_editor_target h hp hres
    rw [h1.orRoot_eq h] at hd
    have hne : leaf ≠ [] := by
      obtain ⟨⟨hused, _, hname⟩, _⟩ := find_entry_index_eq_some.mp hf
      exact hname ▸ (FileEntry.inUse_iff _).mp hused
    obtain ⟨hleaf, hbytes⟩ := resolve_editor_target_leaf hres hne
    obtain ⟨h3, h4⟩ := h1.child h hd hleaf (fun c hc => hp c (hbytes c hc)) hf
    rw [h1.orRootPath_eq]
    refine ⟨h3, ?_⟩
    rw [if_neg hne] at h2
    dsimp only
    omega

/-! ## The calls that take no directory away -/

/-- No call removes a directory that a window stands in, or renames or moves one that a window
stands in or below, and the path of a `cd` that finds a directory fits. -/
def CwdsKept (s : System) : Op → Prop
  | .remove win name => ∀ d i, dirOf s.st.disk (s.wins win).cwd_bno = some d →
    find_entry_index (DirBlock.ofDisk d) name.bytes none = some i →
    ((DirBlock.ofDisk d).entries i).type = 1 →
    dir_block_is_empty s.st ((DirBlock.ofDisk d).entries i).bno = true →
    ∀ v, (s.wins v).cwd_bno ≠ ((DirBlock.ofDisk d).entries i).bno
  | .move win src dst now => ∀ S sleaf dS si dest dD st',
    MovePlan s.st (s.wins win) src.bytes dst.bytes S sleaf dS si dest dD →
    MoveWrites s.st S dS si dest dD now st' → ((DirBlock.ofDisk dS).entries si).type = 1 →
    ∀ v, ¬ Forest.Below (DirChild s.st.disk) ((DirBlock.ofDisk dS).entries si).bno
      (s.wins v).cwd_bno
  | .cd win target =>
    (resolve_editor_target s.st (s.wins win) (cdInput (s.wins win) target.bytes)).2 ≠ none →
    CdFits (s.wins win) target.bytes
  | _ => True

/-- The paths of the directories of a move fit `src_cwd` and `dst_cwd`. -/
def MovesFit (s : System) : Op → Prop
  | .move win src dst _ => move_fits s.st (s.wins win) src.bytes dst.bytes = true
  | _ => True

variable {T : Nat → Prop} {b : Nat} {p : List UInt8}

theorem Inv.isDir_used (h : Inv T st) (hb : IsDir st.disk b) : st.fs_block_map b = true := by
  rcases h.treeDisk.live_cases (Or.inl hb) with rfl | hu
  · exact h.low 1 (by decide)
  · exact hu.2.2

theorem Standing.store_into (hs : Standing st.disk b p) (h : Inv T st) {P : Nat}
    {leaf data : List UInt8} {now : Nat} {rc : Int}
    (hr : store_into st P leaf data now = some (rc, st')) : Standing st'.disk b p := by
  have hwf := h.wellFormed
  rcases store_into_cases h.ready hr with ⟨_, rfl, _⟩ | ⟨_, _, l, ws, g, _⟩ |
    ⟨_, mid, d, idx, old, first, l, lold, ws, c⟩
  · exact hs
  · have hsame : ∀ {Q}, IsDir st.disk Q → st'.disk Q = st.disk Q := fun hQ =>
      g.disk_eq (g.not_mem_of_live hwf (Or.inl hQ))
    refine hs.kept (fun hQ he _ _ => (slotHas_congr (hsame hQ)).mpr he) ?_
    rw [dirOf_congr (hsame hs.dir)]
    exact hs.dir.2
  · refine hs.kept (fun {Q j e} hQ he ht _ => ?_) (c.isDir hwf hs.dir).2
    refine c.slot_iff.mpr (Or.inr ⟨?_, Or.inl (c.grown.not_mem_of_live hwf (Or.inl hQ)), he⟩)
    rintro ⟨rfl, hj⟩
    exact c.type_ne_one he hj ht

theorem Standing.removeCommit (hs : Standing st.disk b p) {P : Nat} {name : List UInt8}
    {d : DiskDir} {idx : Fin MAX_DIR_ENTRIES} {l : List Nat}
    (c : RemoveCommit st st' P name d idx l)
    (hb : ((DirBlock.ofDisk d).entries idx).type = 1 → b ≠ ((DirBlock.ofDisk d).entries idx).bno) :
    Standing st'.disk b p := by
  refine hs.kept (fun {Q j e} hQ he ht hbelow => c.slot_iff.mpr ⟨?_, he⟩) ?_
  · rintro ⟨rfl, hj⟩
    obtain ⟨rfl, _⟩ := slotHas_entry c.dir he hj
    -- nothing is below a directory that is removed
    rcases hbelow.cases_head with hbe | ⟨x, ⟨k, f, ⟨df, hdf, rfl, hused⟩, _⟩, _⟩
    · exact hb ht hbe.symm
    · have hempty := (c.dir_blocks ht).1
      unfold dir_block_is_empty at hempty
      rw [hdf] at hempty
      have hk : k.val < MAX_DIR_ENTRIES := Nat.lt_of_lt_of_le k.isLt dir_slots_le
      have := List.all_eq_true.mp hempty ⟨k.val, hk⟩ (List.mem_finRange _)
      rw [ofDisk_entries_of_lt df ⟨k.val, hk⟩ k.isLt, hused] at this
      cases this
  · rw [c.dirOf_after]
    split
    · exact ⟨_, rfl⟩
    · exact hs.dir.2

theorem Standing.mkdirCommit (hs : Standing st.disk b p) (h : Inv T st) {mid : FsState}
    {w : Window} {path leaf : List UInt8} {now P nb : Nat} {d : DiskDir}
    {idx : Fin MAX_DIR_ENTRIES} (c : MkdirCommit st mid st' w path now P leaf d idx nb) :
    Standing st'.disk b p := by
  refine hs.kept (fun {Q j e} hQ he _ _ => ?_) ?_
  · refine c.slot_iff.mpr ⟨c.ne_new_of_used (h.isDir_used hQ), Or.inr ⟨?_, he⟩⟩
    rintro ⟨rfl, hj⟩
    obtain ⟨rfl, hused⟩ := slotHas_entry c.dir he hj
    rw [(find_free_entry_index_eq_some.mp c.free).1] at hused
    cases hused
  · rw [c.dirOf_after, if_neg (c.ne_new_of_used (h.isDir_used hs.dir))]
    split
    · exact ⟨_, rfl⟩
    · exact hs.dir.2

theorem Standing.moveWrites (hs : Standing st.disk b p) {w : Window} {src dst : CString}
    {now S : Nat} {sleaf : List UInt8} {dS dD : DiskDir} {si : Fin MAX_DIR_ENTRIES}
    {dest : MoveDest} (q : MovePlan st w src.bytes dst.bytes S sleaf dS si dest dD)
    (hw : MoveWrites st S dS si dest dD now st')
    (hb : ((DirBlock.ofDisk dS).entries si).type = 1 →
      ¬ Forest.Below (DirChild st.disk) ((DirBlock.ofDisk dS).entries si).bno b) :
    Standing st'.disk b p := by
  -- the slots along the path are not the one that moves
  have hne : ∀ {Q j e}, SlotHas st.disk Q j e → e.type = 1 →
      Forest.Below (DirChild st.disk) e.bno b → ¬ (Q = S ∧ j.val = si.val) := by
    rintro Q j e he ht hbelow ⟨rfl, hj⟩
    obtain ⟨rfl, _⟩ := slotHas_entry q.src_dir he hj
    exact hb ht hbelow
  obtain ⟨hnul, hleaf⟩ := q.leaf_ok
  cases hw with
  | rename _ _ =>
    refine hs.kept (fun _ he ht hbelow => ?_) (renamed_isDir q.src_dir hnul hleaf hs.dir).2
    exact (slotHas_write_dir q.src_dir).mpr (Or.inr ⟨hne he ht hbelow, he⟩)
  | cross di hSD _ hfree =>
    refine hs.kept (fun _ he ht hbelow => ?_) ((crossed_dir_iff q.src_dir q.dst_dir _).mpr hs.dir.2)
    exact (crossed_slot_iff q.src_dir q.dst_dir hSD hfree hnul hleaf).mpr
      (Or.inr ⟨hne he ht hbelow, he⟩)

/-! ## Runs -/

variable {s s' : System}

theorem standing_step (h : SysInv T s) {op : Op}
    (hok : (∃ win target, op = .cd win target) ∨ CwdsKept s op) (hs : step s op = some s')
    (v : Nat) :
    (∃ target, op = .cd v target ∧ s'.st = s.st ∧
      CdWindow s.st (s.wins v) target.bytes (s'.wins v)) ∨
    ((s'.wins v).cwd_bno = (s.wins v).cwd_bno ∧ (s'.wins v).cwd = (s.wins v).cwd ∧
      ∀ p, Standing s.st.disk (s.wins v).cwd_bno p →
        Standing s'.st.disk (s.wins v).cwd_bno p) := by
  have hr := h.inv.ready
  cases op with
  | store win name data now =>
    obtain ⟨⟨rc, st'⟩, h1, rfl⟩ := Option.map_eq_some_iff.mp hs
    refine Or.inr ⟨rfl, rfl, fun p hp => ?_⟩
    rw [store_file_bytes_eq hr] at h1
    rcases ht : (file_target s.st (s.wins win) name.bytes (orRoot (s.wins win).cwd_bno)).2
      with _ | ⟨P, leaf⟩
    · rw [ht] at h1
      cases h1
      exact hp
    · rw [ht] at h1
      exact hp.store_into h.inv h1
  | remove win name =>
    have hkept := hok.resolve_left (by simp)
    obtain ⟨⟨rc, st'⟩, h1, rfl⟩ := Option.map_eq_some_iff.mp hs
    refine Or.inr ⟨rfl, rfl, fun p hp => ?_⟩
    rcases remove_cases hr h1 with ⟨_, rfl⟩ | ⟨_, d, idx, l, c⟩
    · exact hp
    · exact hp.removeCommit c fun ht => hkept d idx c.dir c.find ht (c.dir_blocks ht).1 v
  | move win src dst now =>
    have hkept := hok.resolve_left (by simp)
    cases hs
    refine Or.inr ⟨rfl, rfl, fun p hp => ?_⟩
    rcases hm : move_entry_named s.st (s.wins win) src.bytes dst.bytes now with ⟨rc, st'⟩
    rcases move_cases hr hm with rfl | ⟨_, S, sleaf, dS, si, dest, dD, q, hwr⟩
    · exact hp
    · exact hp.moveWrites q hwr fun ht => hkept S sleaf dS si dest dD st' q hwr ht v
  | mkdir win path now =>
    cases hs
    refine Or.inr ⟨rfl, rfl, fun p hp => ?_⟩
    rcases hm : local_mkdir_path s.st (s.wins win) path.bytes now with ⟨rc, st'⟩
    rcases mkdir_cases hr hm with rfl | ⟨_, mid, P, leaf, d, idx, nb, c⟩
    · exact hp
    · exact hp.mkdirCommit h.inv c
  | cd win target =>
    obtain ⟨h1, h2⟩ := cd_cases hr (s.wins win) target.bytes
    rw [step_cd, Option.some.injEq] at hs
    subst hs
    by_cases hv : v = win
    · subst hv
      refine Or.inl ⟨target, rfl, h1, ?_⟩
      dsimp only
      rwa [Function.update_self]
    · refine Or.inr ?_
      dsimp only
      rw [h1, Function.update_of_ne hv]
      exact ⟨rfl, rfl, fun _ hp => hp⟩
  | setHome win value =>
    cases hs
    refine Or.inr ?_
    by_cases hv : v = win
    · subst hv
      simp
    · simp [Function.update_of_ne hv]

theorem windowsOk_step (h : SysInv T s) (hw : ∀ v, WindowOk s.st.disk (s.wins v)) {op : Op}
    (hok : CwdsKept s op) (hs : step s op = some s') : ∀ v, WindowOk s'.st.disk (s'.wins v) := by
  intro v
  rcases standing_step h (Or.inr hok) hs v with ⟨target, rfl, h1, h2⟩ | ⟨hb, hp, hkept⟩
  · rw [h1]
    exact (hw v).cdWindow h.inv.treeDisk hok h2
  · obtain ⟨hstand, hlen⟩ := hw v
    unfold WindowOk
    rw [hb, hp]
    exact ⟨hkept _ hstand, hlen⟩

theorem windowsOk_run (h : SysInv T s) (hw : ∀ v, WindowOk s.st.disk (s.wins v)) {ops : List Op}
    (hok : StepsOk CwdsKept s ops) (hr : run s ops = some s') :
    ∃ T', SysInv T' s' ∧ ∀ v, WindowOk s'.st.disk (s'.wins v) := by
  induction ops generalizing s T with
  | nil =>
    cases hr
    exact ⟨T, h, hw⟩
  | cons op ops ih =>
    obtain ⟨s1, h1, h2⟩ := Option.bind_eq_some_iff.mp hr
    obtain ⟨T1, h3, _⟩ := h.step h1
    exact ih h3 (windowsOk_step h hw hok.1 h1) (hok.2 s1 h1) h2

/-- Block `P` is a directory of the tree, its bit is set, and it belongs to no file and to no
other directory. -/
structure OwnDir (st : FsState) (P : Nat) : Prop where
  dir : IsDir st.disk P
  used : st.fs_block_map P = true
  owner : ∀ {Q i e}, IsDir st.disk Q → SlotHas st.disk Q i e →
    OnChain 0 (nextOf st.disk) e.bno P → e.type = 1 ∧ e.bno = P
  once : ∀ {Q Q' i j}, IsDir st.disk Q → IsDir st.disk Q' → Owns st.disk Q i P →
    Owns st.disk Q' j P → Q = Q' ∧ i = j

theorem Inv.ownDir (h : Inv T st) (hb : IsDir st.disk b) : OwnDir st b where
  dir := hb
  used := h.isDir_used hb
  owner := by
    intro Q i e hQ he hon
    by_cases ht : e.type = 1
    · exact ⟨ht, (h.treeDisk.onChain_dir hQ he ht hon).symm⟩
    · exact absurd hb (h.treeDisk.not_isDir_of_file hQ he ht hon)
  once := fun hQ hQ' hi hj => h.treeDisk.sound.unique hQ hQ' hi hj

/-- Every window stands in a directory of the tree under the path of that directory, and a
store through a window writes to such a directory. -/
structure WindowsValid (s : System) : Prop where
  standing : ∀ win, Standing s.st.disk (s.wins win).cwd_bno (s.wins win).cwd
  fits : ∀ win, (s.wins win).cwd.length < CWD_SIZE
  store : ∀ win (name : CString) P leaf, (file_target s.st (s.wins win) name.bytes
    (orRoot (s.wins win).cwd_bno)).2 = some (P, leaf) → OwnDir s.st P

/-- In every run whose calls take no directory away from a window and whose moves stay inside their
buffers, all windows are valid in the state that it reaches. -/
theorem windows_valid_of_steps {s0 : System} {ops : List Op}
    (hok : StepsOk (fun s op => CwdsKept s op ∧ MovesFit s op) (format s0) ops)
    (hr : run (format s0) ops = some s) : WindowsValid s := by
  have h0 := sysInv_format s0
  obtain ⟨T, h, hw⟩ := windowsOk_run h0 (fun v => windowOk_root h0.inv.treeDisk (s0.wins v))
    (hok.mono fun _ _ h => h.1) hr
  refine ⟨fun v => (hw v).1, fun v => (hw v).2, fun win name P leaf ht => ?_⟩
  have hdir := (hw win).1.dir
  have hclosed := h.inv.treeDisk.closed
  exact h.inv.ownDir (file_target_mem hclosed hdir (hclosed.orRoot hdir) ht)

end

section

attribute [local instance] fpgaBuild

/-- The run that makes the directory `a` and changes to it. -/
def enterA : List Op := mkdirA ++ [.cd 0 ⟨lit ['a'], nul_free_a⟩]

theorem windows_valid_of_steps_sample :
    ∃ s, run (format blankSystem) enterA = some s ∧ WindowsValid s := by
  obtain ⟨s, hs⟩ := (sysInv_format blankSystem).run_total enterA
  refine ⟨s, hs, @windows_valid_of_steps _ s blankSystem enterA
    ⟨⟨trivial, trivial⟩, fun s1 h1 => ⟨⟨fun _ => ?_, trivial⟩, fun _ _ => trivial⟩⟩ hs⟩
  have hrun : (run (format blankSystem) mkdirA).map (fun s =>
      (editorPath (s.wins 0) (cdInput (s.wins 0) (lit ['a'])), (s.wins 0).cwd.length)) =
      some (lit ['a'], 5) := by decide
  have hs1 : run (format blankSystem) mkdirA = some s1 := by
    simp only [mkdirA, run, h1, Option.bind_some]
  rw [hs1] at hrun
  obtain ⟨hpath, hlen⟩ := Prod.mk.inj (Option.some.inj hrun)
  refine ⟨?_, ?_⟩
  · rw [hpath]
    exact (by decide +kernel : ∀ c ∈ lit ['a'], 32 ≤ c ∧ c ≤ 126)
  · rw [hpath, hlen]
    decide

/-- Window 0 renames the directory `a` under window 1. -/
def renameUnder : List Op :=
  mkdirA ++ [.cd 1 ⟨lit ['a'], nul_free_a⟩, .move 0 ⟨lit ['a'], nul_free_a⟩ ⟨lit ['b'], by decide⟩ 2]

theorem pathTo_rootPath {disk : Disk} {b : Nat} (h : PathTo disk b rootPath) : b = 1 := by
  generalize hp : rootPath = p at h
  cases h with
  | root => rfl
  | child hP =>
    have hlen := congrArg List.length hp
    have hroot := hP.shape.1
    rw [List.length_append, List.length_cons] at hlen
    omega

/-- After that window 1 still has the path `/root/a`, and no entry `a` is left. -/
theorem windows_invalid_after_rename : ∃ s, Reached s ∧ ¬ WindowsValid s := by
  have hrun : ((run (format blankSystem) renameUnder).bind fun s =>
      (dirOf s.st.disk 1).map fun d => ((s.wins 1).cwd,
        decide (∀ i, (d.slots i).inUse = true → (d.slots i).nameStr ≠ lit ['a']))) =
      some (rootPath ++ slash :: lit ['a'], true) := by decide +kernel
  obtain ⟨s, hs, hd⟩ := Option.bind_eq_some_iff.mp hrun
  obtain ⟨d, hd, hrun⟩ := Option.map_eq_some_iff.mp hd
  obtain ⟨hcwd, hgone⟩ := Prod.mk.inj hrun
  refine ⟨s, ⟨blankSystem, renameUnder, hs⟩, fun h => ?_⟩
  have hpath := (h.standing 1).path
  generalize hp : (s.wins 1).cwd = p, (s.wins 1).cwd_bno = b at hpath
  rw [hcwd] at hp
  cases hpath with
  | root => exact absurd hp (by decide)
  | @child P q i e hP he ht hname =>
    have hlen := congrArg List.length hp
    have hroot := hP.shape.1
    have hne := List.length_pos_iff.mpr hname.ne_nil
    simp only [List.length_append, List.length_cons] at hlen
    have hone : (lit ['a']).length = 1 := rfl
    obtain ⟨rfl, htail⟩ := List.append_inj hp (by omega)
    obtain rfl := pathTo_rootPath hP
    obtain ⟨d', hd', rfl, hused⟩ := he
    obtain rfl := Option.some.inj (hd.symm.trans hd')
    exact of_decide_eq_true hgone i hused (List.cons.inj htail).2.symm

end

end vibeos.fs
