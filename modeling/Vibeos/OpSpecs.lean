-- One lemma for each of remove, mkdir and move: everything that a call can do
-- to a mounted disk. Either the state is as before, or the call reached its
-- writes, and then the records below say what it read and what it wrote.
import Vibeos.FsTree

namespace vibeos.fs

open LinkChain

section

variable [BuildConfig] {st st' : FsState}

theorem resolve_fs_target_eq (hr : st.fs_alloc_ready = true) (w : Window)
    (input : List UInt8) :
    resolve_fs_target st w input = (st, (resolve_fs_target st w input).2) :=
  Prod.ext (resolve_fs_target_state hr w input) rfl

theorem resolve_editor_target_eq (hr : st.fs_alloc_ready = true) (w : Window)
    (input : List UInt8) :
    resolve_editor_target st w input = (st, (resolve_editor_target st w input).2) :=
  Prod.ext (resolve_editor_target_state hr w input) rfl

theorem fs_load_dir_block_eq_some {b : Nat} {db : DirBlock} :
    fs_load_dir_block st b = some db ↔
      b ≠ 0 ∧ b < FS_MAX_BLOCKS ∧ ∃ d, dirOf st.disk b = some d ∧ db = DirBlock.ofDisk d := by
  unfold fs_load_dir_block
  split
  · rename_i h
    constructor
    · intro he
      cases he
    · rintro ⟨h1, h2, _⟩
      omega
  · rename_i h
    rw [Option.map_eq_some_iff]
    constructor
    · rintro ⟨d, h1, rfl⟩
      exact ⟨by omega, by omega, d, h1, rfl⟩
    · rintro ⟨_, _, d, h1, rfl⟩
      exact ⟨d, h1, rfl⟩

/-! ## Remove -/

/-- A remove that returns 0: the entry at `idx` of directory `P` is cleared and the blocks
`l` are freed. -/
structure RemoveCommit (st st' : FsState) (P : Nat) (name : List UInt8) (d : DiskDir)
    (idx : Fin MAX_DIR_ENTRIES) (l : List Nat) : Prop where
  dir : dirOf st.disk P = some d
  find : find_entry_index (DirBlock.ofDisk d) name none = some idx
  dir_blocks : ((DirBlock.ofDisk d).entries idx).type = 1 →
    dir_block_is_empty st ((DirBlock.ofDisk d).entries idx).bno = true ∧
      l = if ((DirBlock.ofDisk d).entries idx).bno ≠ 0
        then [((DirBlock.ofDisk d).entries idx).bno] else []
  file_blocks : ((DirBlock.ofDisk d).entries idx).type ≠ 1 →
    Chain 0 (nextOf (write_dir st P ((DirBlock.ofDisk d).setEntry idx .zero)).disk)
      ((DirBlock.ofDisk d).entries idx).bno l
  final : st' = freeAll (write_dir st P ((DirBlock.ofDisk d).setEntry idx .zero)) l

theorem remove_cases {w : Window} {name : List UInt8} {rc : Int}
    (hr : st.fs_alloc_ready = true) (h : remove_entry_named st w name = some (rc, st')) :
    (rc ≠ 0 ∧ st' = st) ∨
    (rc = 0 ∧ ∃ d idx l, RemoveCommit st st' w.cwd_bno name d idx l) := by
  unfold remove_entry_named at h
  rw [load_current_dir_of_ready hr] at h
  rcases hd : dirOf st.disk w.cwd_bno with _ | d
  · rw [hd] at h
    cases h
    exact Or.inl ⟨by decide, rfl⟩
  · rw [hd] at h
    simp only [Option.map_some] at h
    rcases hf : find_entry_index (DirBlock.ofDisk d) name none with _ | idx
    · rw [hf] at h
      cases h
      exact Or.inl ⟨by decide, rfl⟩
    · rw [hf] at h
      dsimp only at h
      split at h
      · cases h
        exact Or.inl ⟨by decide, rfl⟩
      · rename_i hempty
        refine Or.inr ?_
        split at h
        · rename_i ht
          have he : dir_block_is_empty st ((DirBlock.ofDisk d).entries idx).bno = true := by
            simpa [ht] using hempty
          cases h
          refine ⟨rfl, d, idx, _, hd, hf, fun _ => ⟨he, rfl⟩, fun hn => absurd ht hn, ?_⟩
          split <;> rfl
        · rename_i ht
          split at h
          · rw [Option.map_eq_some_iff] at h
            obtain ⟨st2, h1, h2⟩ := h
            cases h2
            obtain ⟨l, hc, hfin⟩ := chain_of_fs_free_chain h1
            exact ⟨rfl, d, idx, l, hd, hf, fun hn => absurd hn ht, fun _ => hc, hfin⟩
          · rename_i hz
            cases h
            refine ⟨rfl, d, idx, [], hd, hf, fun hn => absurd hn ht, fun _ => ?_, rfl⟩
            rw [not_not.mp hz]
            exact .stop

/-! ## Mkdir -/

def mkdirEntry (leaf : List UInt8) (nb now : Nat) : FileEntry :=
  { name := copy_name20 FileEntry.zero.name leaf, bno := nb, size := 0, ctime := now,
    mtime := now, mode := 7, type := 1 }

/-- A mkdir that makes a directory: block `nb` under slot `idx` of directory `P`. -/
structure MkdirCommit (st mid st' : FsState) (w : Window) (path : List UInt8) (now : Nat)
    (P : Nat) (leaf : List UInt8) (d : DiskDir) (idx : Fin MAX_DIR_ENTRIES) (nb : Nat) :
    Prop where
  target : ∃ p_bno cwd, P = orRoot p_bno ∧ resolve_editor_target st w
    (terminal_expand_home_path w.home.bytes path 128) = (st, some (p_bno, cwd, leaf))
  leaf_ne : leaf ≠ []
  dir : dirOf st.disk P = some d
  absent : find_entry_index (DirBlock.ofDisk d) leaf none = none
  free : find_free_entry_index (DirBlock.ofDisk d) = some idx
  alloc : Allocated st mid nb
  final : st' = write_dir (write_dir mid P
    ((DirBlock.ofDisk d).setEntry idx (mkdirEntry leaf nb now))) nb (emptyDir P)

theorem mkdir_cases {w : Window} {path : List UInt8} {now : Nat} {rc : Int}
    (hr : st.fs_alloc_ready = true) (h : local_mkdir_path st w path now = (rc, st')) :
    st' = st ∨
    (rc = 0 ∧ ∃ mid P leaf d idx nb, MkdirCommit st mid st' w path now P leaf d idx nb) := by
  unfold local_mkdir_path at h
  split at h
  · cases h; exact Or.inl rfl
  dsimp only at h
  split at h
  · cases h; exact Or.inl rfl
  rw [resolve_editor_target_eq hr] at h
  rcases hres : (resolve_editor_target st w
    (terminal_expand_home_path w.home.bytes path 128)).2 with _ | ⟨p_bno, cwd, leaf⟩
  · rw [hres] at h
    cases h; exact Or.inl rfl
  rw [hres] at h
  dsimp only at h
  split at h
  · cases h; exact Or.inl rfl
  rename_i hleaf
  rw [load_current_dir_of_ready hr] at h
  rcases hd : dirOf st.disk (orRoot p_bno) with _ | d
  · rw [hd] at h
    cases h; exact Or.inl rfl
  rw [hd] at h
  simp only [Option.map_some] at h
  split at h
  · cases h; exact Or.inl rfl
  rename_i hf
  rcases hfree : find_free_entry_index (DirBlock.ofDisk d) with _ | idx
  · rw [hfree] at h
    cases h; exact Or.inl rfl
  rw [hfree] at h
  dsimp only at h
  rcases balloc_cases hr with ⟨hb, _⟩ | ⟨nb, mid, hb, ha⟩
  · rw [hb] at h
    cases h; exact Or.inl rfl
  rw [hb] at h
  simp only [ha.ne_zero, if_false] at h
  cases h
  refine Or.inr ⟨rfl, mid, _, leaf, d, idx, nb, ⟨p_bno, cwd, rfl, ?_⟩, hleaf, hd,
    not_not.mp hf, hfree, ha, rfl⟩
  rw [resolve_editor_target_eq hr, hres]

/-! ## Move -/

/-- What a move that is about to write has read: entry `si` of directory `S`, found under
the name `sleaf`, and the place `dest`, a directory with disk contents `dD`. -/
structure MovePlan (st : FsState) (w : Window) (src dst : List UInt8) (S : Nat)
    (sleaf : List UInt8) (dS : DiskDir) (si : Fin MAX_DIR_ENTRIES) (dest : MoveDest)
    (dD : DiskDir) : Prop where
  source : ∃ cwd, resolve_fs_target st w (src.dropWhile (· == ' '.toUInt8)) =
    (st, some (S, cwd, sleaf))
  src_ne : S ≠ 0
  src_lt : S < FS_MAX_BLOCKS
  src_dir : dirOf st.disk S = some dS
  src_find : find_entry_index (DirBlock.ofDisk dS) sleaf none = some si
  target : ∃ ddir cwd dleaf,
    resolve_fs_target st w (dst.dropWhile (· == ' '.toUInt8)) = (st, some (ddir, cwd, dleaf)) ∧
    ¬ (S = ddir ∧ sleaf = dleaf) ∧
    ((dest.dir_bno = ddir ∧ dest.leaf = dleaf ∧ ∀ j, dest.idx = some j →
        ((DirBlock.ofDisk dD).entries j).type ≠ 1) ∨
      ∃ dd j, (ddir ≠ 0 ∧ ddir < FS_MAX_BLOCKS ∧ dirOf st.disk ddir = some dd) ∧
        find_entry_index (DirBlock.ofDisk dd) dleaf none = some j ∧
        ((DirBlock.ofDisk dd).entries j).type = 1 ∧
        dest.dir_bno = ((DirBlock.ofDisk dd).entries j).bno ∧ dest.leaf = sleaf ∧
        ¬ (((DirBlock.ofDisk dS).entries si).type = 1 ∧
          fs_dir_is_ancestor st ((DirBlock.ofDisk dS).entries si).bno dest.dir_bno = true))
  dst_ne : dest.dir_bno ≠ 0
  dst_lt : dest.dir_bno < FS_MAX_BLOCKS
  dst_dir : dirOf st.disk dest.dir_bno = some dD
  dst_db : dest.db = DirBlock.ofDisk dD
  dst_find : find_entry_index (DirBlock.ofDisk dD) dest.leaf none = dest.idx

def movedEntry (e : FileEntry) (leaf : List UInt8) (now : Nat) : FileEntry :=
  { e with name := copy_name20 e.name leaf, mtime := now }

/-- The state after the two directory writes of a move to another directory. -/
def crossWrites (st : FsState) (S : Nat) (dS : DiskDir) (si : Fin MAX_DIR_ENTRIES)
    (D : Nat) (dD : DiskDir) (di : Fin MAX_DIR_ENTRIES) (leaf : List UInt8) (now : Nat) :
    FsState :=
  write_dir (write_dir st S ((DirBlock.ofDisk dS).setEntry si .zero)) D
    ((DirBlock.ofDisk dD).setEntry di (movedEntry ((DirBlock.ofDisk dS).entries si) leaf now))

/-- The writes of a move: a rename in place, or the entry cleared in the source directory,
written to the destination, and the parent link of a directory set. -/
inductive MoveWrites (st : FsState) (S : Nat) (dS : DiskDir) (si : Fin MAX_DIR_ENTRIES)
    (dest : MoveDest) (dD : DiskDir) (now : Nat) : FsState → Prop
  | rename : S = dest.dir_bno → (dest.idx = none ∨ dest.idx = some si) →
      MoveWrites st S dS si dest dD now (write_dir st S ((DirBlock.ofDisk dS).setEntry si
        (movedEntry ((DirBlock.ofDisk dS).entries si) dest.leaf now)))
  | cross (di : Fin MAX_DIR_ENTRIES) : S ≠ dest.dir_bno → dest.idx = none →
      find_free_entry_index (DirBlock.ofDisk dD) = some di →
      MoveWrites st S dS si dest dD now
        (move_relink (crossWrites st S dS si dest.dir_bno dD di dest.leaf now)
          ((DirBlock.ofDisk dS).entries si) dest.dir_bno)

theorem move_dest_ok {e : FileEntry} {sleaf dleaf : List UInt8} {ddir : Nat} {dest : MoveDest}
    (h : move_dest st e sleaf ddir dleaf = .ok dest) :
    ∃ dD, dest.dir_bno ≠ 0 ∧ dest.dir_bno < FS_MAX_BLOCKS ∧
      dirOf st.disk dest.dir_bno = some dD ∧ dest.db = DirBlock.ofDisk dD ∧
      find_entry_index (DirBlock.ofDisk dD) dest.leaf none = dest.idx ∧
      ((dest.dir_bno = ddir ∧ dest.leaf = dleaf ∧ ∀ j, dest.idx = some j →
          ((DirBlock.ofDisk dD).entries j).type ≠ 1) ∨
        ∃ dd j, (ddir ≠ 0 ∧ ddir < FS_MAX_BLOCKS ∧ dirOf st.disk ddir = some dd) ∧
          find_entry_index (DirBlock.ofDisk dd) dleaf none = some j ∧
          ((DirBlock.ofDisk dd).entries j).type = 1 ∧
          dest.dir_bno = ((DirBlock.ofDisk dd).entries j).bno ∧ dest.leaf = sleaf ∧
          ¬ (e.type = 1 ∧ fs_dir_is_ancestor st e.bno dest.dir_bno = true)) := by
  unfold move_dest at h
  rcases hl : fs_load_dir_block st ddir with _ | db
  · rw [hl] at h
    cases h
  rw [hl] at h
  obtain ⟨h1, h2, dd, h3, rfl⟩ := fs_load_dir_block_eq_some.mp hl
  dsimp only at h
  rcases hf : find_entry_index (DirBlock.ofDisk dd) dleaf none with _ | j
  · rw [hf] at h
    cases h
    exact ⟨dd, h1, h2, h3, rfl, hf, Or.inl ⟨rfl, rfl, by simp⟩⟩
  rw [hf] at h
  dsimp only at h
  split at h
  · rename_i ht
    split at h
    · cases h
    · rename_i ha
      rcases hl2 : fs_load_dir_block st ((DirBlock.ofDisk dd).entries j).bno with _ | db2
      · rw [hl2] at h
        cases h
      · rw [hl2] at h
        obtain ⟨g1, g2, dD, g3, rfl⟩ := fs_load_dir_block_eq_some.mp hl2
        cases h
        exact ⟨dD, g1, g2, g3, rfl, rfl, Or.inr ⟨dd, j, ⟨h1, h2, h3⟩, hf, ht, rfl, rfl, ha⟩⟩
  · rename_i ht
    cases h
    refine ⟨dd, h1, h2, h3, rfl, hf, Or.inl ⟨rfl, rfl, ?_⟩⟩
    rintro k hk
    cases hk
    exact ht

theorem move_cases {w : Window} {src dst : List UInt8} {now : Nat} {rc : Int}
    (hr : st.fs_alloc_ready = true) (h : move_entry_named st w src dst now = (rc, st')) :
    st' = st ∨
    (rc = 0 ∧ ∃ S sleaf dS si dest dD, MovePlan st w src dst S sleaf dS si dest dD ∧
      MoveWrites st S dS si dest dD now st') := by
  unfold move_entry_named at h
  dsimp only at h
  split at h
  · cases h; exact Or.inl rfl
  rw [resolve_fs_target_eq hr] at h
  rcases hs : (resolve_fs_target st w (src.dropWhile (· == ' '.toUInt8))).2 with
    _ | ⟨S, scwd, sleaf⟩
  · rw [hs] at h
    cases h; exact Or.inl rfl
  rw [hs] at h
  dsimp only at h
  rw [resolve_fs_target_eq hr] at h
  rcases hd : (resolve_fs_target st w (dst.dropWhile (· == ' '.toUInt8))).2 with
    _ | ⟨ddir, dcwd, dleaf⟩
  · rw [hd] at h
    cases h; exact Or.inl rfl
  rw [hd] at h
  dsimp only at h
  split at h
  · cases h; exact Or.inl rfl
  rename_i hsame
  rcases hl : fs_load_dir_block st S with _ | sdb
  · rw [hl] at h
    cases h; exact Or.inl rfl
  rw [hl] at h
  obtain ⟨s1, s2, dS, s3, rfl⟩ := fs_load_dir_block_eq_some.mp hl
  dsimp only at h
  rcases hf : find_entry_index (DirBlock.ofDisk dS) sleaf none with _ | si
  · rw [hf] at h
    cases h; exact Or.inl rfl
  rw [hf] at h
  dsimp only at h
  rcases hm : move_dest st ((DirBlock.ofDisk dS).entries si) sleaf ddir dleaf with rc' | dest
  · rw [hm] at h
    cases h; exact Or.inl rfl
  rw [hm] at h
  dsimp only at h
  obtain ⟨dD, m1, m2, m3, m4, m5, m6⟩ := move_dest_ok hm
  have hplan : MovePlan st w src dst S sleaf dS si dest dD :=
    { source := ⟨scwd, by rw [resolve_fs_target_eq hr, hs]⟩
      src_ne := s1, src_lt := s2, src_dir := s3, src_find := hf
      target := ⟨ddir, dcwd, dleaf, by rw [resolve_fs_target_eq hr, hd], hsame, m6⟩
      dst_ne := m1, dst_lt := m2, dst_dir := m3, dst_db := m4, dst_find := m5 }
  unfold move_commit at h
  dsimp only at h
  split at h
  · rename_i hSD
    split at h
    · cases h; exact Or.inl rfl
    · rename_i hidx
      cases h
      refine Or.inr ⟨rfl, S, sleaf, dS, si, dest, dD, hplan, .rename hSD ?_⟩
      tauto
  · rename_i hSD
    split at h
    · cases h; exact Or.inl rfl
    · rename_i hidx
      rw [m4] at h
      rcases hfree : find_free_entry_index (DirBlock.ofDisk dD) with _ | di
      · rw [hfree] at h
        cases h; exact Or.inl rfl
      · rw [hfree] at h
        cases h
        exact Or.inr ⟨rfl, S, sleaf, dS, si, dest, dD, hplan,
          .cross di hSD (not_not.mp hidx) hfree⟩

theorem resolve_fs_target_nil (st : FsState) (w : Window) : resolve_fs_target st w [] = (st, none) :=
  rfl

theorem MovePlan.move_eq {w : Window} {src dst : List UInt8}
    {S : Nat} {sleaf : List UInt8} {dS : DiskDir} {si : Fin MAX_DIR_ENTRIES} {dest : MoveDest}
    {dD : DiskDir} (p : MovePlan st w src dst S sleaf dS si dest dD) (now : Nat) :
    move_entry_named st w src dst now = move_commit st S (DirBlock.ofDisk dS) si dest now := by
  obtain ⟨scwd, hs⟩ := p.source
  obtain ⟨ddir, dcwd, dleaf, hd, hsame, hcase⟩ := p.target
  have hne : ¬ (src.dropWhile (· == ' '.toUInt8) = [] ∨ dst.dropWhile (· == ' '.toUInt8) = []) := by
    rintro (h | h)
    · rw [h, resolve_fs_target_nil] at hs
      cases hs
    · rw [h, resolve_fs_target_nil] at hd
      cases hd
  have hload : ∀ {b d}, b ≠ 0 → b < FS_MAX_BLOCKS → dirOf st.disk b = some d →
      fs_load_dir_block st b = some (DirBlock.ofDisk d) :=
    fun h0 hlt h => fs_load_dir_block_eq_some.mpr ⟨h0, hlt, _, h, rfl⟩
  have hdest : move_dest st ((DirBlock.ofDisk dS).entries si) sleaf ddir dleaf = .ok dest := by
    have hfind := p.dst_find
    have hdb := p.dst_db
    have hdst := hload p.dst_ne p.dst_lt p.dst_dir
    unfold move_dest
    obtain ⟨b, db, leaf, idx⟩ := dest
    dsimp only at hfind hdb hdst hcase
    rcases hcase with ⟨rfl, rfl, htype⟩ | ⟨dd, j, ⟨h0, hlt, hdd⟩, hf, ht, rfl, rfl, hanc⟩
    · rw [hdst, hdb]
      dsimp only
      rw [hfind]
      rcases idx with _ | j
      · rfl
      · dsimp only
        rw [if_neg (htype j rfl)]
    · rw [hload h0 hlt hdd]
      dsimp only
      rw [hf]
      dsimp only
      rw [if_pos ht, if_neg hanc, hdst, hdb]
      dsimp only
      rw [hfind]
  unfold move_entry_named
  dsimp only
  rw [if_neg hne, hs]
  dsimp only
  rw [hd]
  dsimp only
  rw [if_neg hsame, hload p.src_ne p.src_lt p.src_dir]
  dsimp only
  rw [p.src_find]
  dsimp only
  rw [hdest]

theorem MovePlan.cross_eq {w : Window} {src dst : List UInt8}
    {S : Nat} {sleaf : List UInt8} {dS : DiskDir} {si di : Fin MAX_DIR_ENTRIES} {dest : MoveDest}
    {dD : DiskDir} (p : MovePlan st w src dst S sleaf dS si dest dD) (hSD : S ≠ dest.dir_bno)
    (hidx : dest.idx = none) (hfree : find_free_entry_index (DirBlock.ofDisk dD) = some di)
    (now : Nat) : move_entry_named st w src dst now =
      (0, move_relink (crossWrites st S dS si dest.dir_bno dD di dest.leaf now)
        ((DirBlock.ofDisk dS).entries si) dest.dir_bno) := by
  rw [p.move_eq]
  unfold move_commit
  dsimp only
  rw [if_neg hSD, if_neg (not_not.mpr hidx), p.dst_db, hfree]
  rfl

/-! ## Change of directory -/

/-- The argument of `cd` as the resolver gets it. -/
def cdInput (w : Window) (target : List UInt8) : List UInt8 :=
  terminal_expand_home_path w.home.bytes (target.dropWhile (· == ' '.toUInt8)) 128

/-- The window after a `cd`: as before, at the root, at the parent, at the directory of the
path, or at the entry that the path names. -/
inductive CdWindow (st : FsState) (w : Window) (target : List UInt8) : Window → Prop
  | same : CdWindow st w target w
  | root : CdWindow st w target (fs_reset_window_cwd w)
  | parent {d : DiskDir} : dirOf st.disk w.cwd_bno = some d →
      CdWindow st w target { w with
        cwd_bno := orRoot d.parent_bno
        cwd := if orRoot d.parent_bno = 1 then rootPath else path_set_parent w.cwd }
  | dir {p : Nat} {pcwd leaf : List UInt8} :
      resolve_editor_target st w (cdInput w target) = (st, some (p, pcwd, leaf)) →
      leaf = [] ∨ leaf = dotName →
      CdWindow st w target { w with cwd_bno := orRoot p, cwd := orRootPath pcwd }
  | child {p : Nat} {pcwd leaf : List UInt8} {d : DiskDir} {i : Fin MAX_DIR_ENTRIES} :
      resolve_editor_target st w (cdInput w target) = (st, some (p, pcwd, leaf)) →
      dirOf st.disk (orRoot p) = some d →
      find_entry_index (DirBlock.ofDisk d) leaf (some 1) = some i →
      CdWindow st w target { w with
        cwd_bno := ((DirBlock.ofDisk d).entries i).bno
        cwd := path_set_child (orRootPath pcwd) ((DirBlock.ofDisk d).entries i).nameStr }

theorem cd_cases (hr : st.fs_alloc_ready = true) (w : Window) (target : List UInt8) :
    (cd st w target).1 = st ∧ CdWindow st w target (cd st w target).2 := by
  unfold cd
  dsimp only
  split
  · exact ⟨rfl, .same⟩
  split
  · exact ⟨rfl, .root⟩
  split
  · rw [load_current_dir_of_ready hr]
    rcases hd : dirOf st.disk w.cwd_bno with _ | d
    · exact ⟨rfl, .same⟩
    · exact ⟨rfl, .parent hd⟩
  split
  · exact ⟨rfl, .same⟩
  have hres := resolve_editor_target_eq hr w (cdInput w target)
  unfold cdInput at hres
  rw [hres]
  rcases ho : (resolve_editor_target st w (terminal_expand_home_path w.home.bytes
    (target.dropWhile (· == ' '.toUInt8)) 128)).2 with _ | ⟨p, pcwd, leaf⟩
  · exact ⟨rfl, .same⟩
  rw [ho] at hres
  dsimp only
  split
  · rename_i hleaf
    exact ⟨rfl, .dir hres hleaf⟩
  rw [load_current_dir_of_ready hr]
  rcases hd : dirOf st.disk (orRoot p) with _ | d
  · exact ⟨rfl, .same⟩
  simp only [Option.map_some]
  split
  · exact ⟨rfl, .same⟩
  · rename_i i hf
    exact ⟨rfl, .child hres hd hf⟩

theorem step_cd (s : System) (win : Nat) (target : CString) : step s (.cd win target) =
    some { st := (cd s.st (s.wins win) target.bytes).1,
           wins := Function.update s.wins win (cd s.st (s.wins win) target.bytes).2 } := rfl

end

end vibeos.fs
