-- The strings of the working directories: what `resolve_fs_target`, `fs_path_set_child` and
-- `appfs_set_cwd` write, into which buffer, and when it fits. A string is never longer than the path
-- of the directory that it is for.
import Vibeos.WindowDirs

namespace vibeos.fs

/-! ## The strings that are written -/

inductive Caller where
  | load_file_bytes
  | load_file_bytes_alloc
  | store_file_bytes
  | move_entry_named_src
  | move_entry_named_dst
  | appfs_unlink
  | appfs_open
  | local_path_info
  | ls
deriving DecidableEq

/-- The size of the buffer that a caller passes for the path. -/
def Caller.cwd_size : Caller → Nat
  | .store_file_bytes | .local_path_info | .ls => CWD_SIZE
  | _ => CWD_BUF_SIZE

/-- The paths that a caller resolves: the loads and stores look a plain name up themselves. -/
def Caller.asks (input : List UInt8) : Caller → Bool
  | .load_file_bytes | .load_file_bytes_alloc | .store_file_bytes | .appfs_open => usesResolve input
  | _ => true

section

variable [BuildConfig]

/-- Every string fits its buffer with the zero byte: the window of the walk, the buffer of each
caller, which `appfs_open` copies to an entry of the same size, and `app_fs_cwd`. -/
structure CwdsFit (st : FsState) (w : Window) : Prop where
  walk : ∀ input, ∀ c ∈ resolve_fs_target_cwds st w input, c.length < CWD_SIZE
  out : ∀ (k : Caller) (input : List UInt8), k.asks input = true →
    ∀ r, (resolve_fs_target st w input).2 = some r → r.2.1.length < k.cwd_size
  app : (orRootPath w.cwd).length < CWD_BUF_SIZE

end

/-! ## Steps up and down on a string -/

theorem path_set_parent_ne_nil (c : List UInt8) : path_set_parent c ≠ [] := by
  unfold path_set_parent
  dsimp only
  split
  · exact List.cons_ne_nil _ _
  · rename_i h
    exact fun hnil => h (List.reverse_eq_nil_iff.mp hnil)

theorem length_path_set_parent_le {c : List UInt8} (h : c ≠ []) :
    (path_set_parent c).length ≤ c.length := by
  have hpos := List.length_pos_iff.mpr h
  unfold path_set_parent
  dsimp only
  split
  · exact hpos
  · have hsub := ((List.drop_sublist 1 _).trans (List.dropWhile_sublist (· != slash))).trans
      (List.dropWhile_sublist (l := c.reverse) (· == slash))
    have hlen := hsub.length_le
    rwa [List.length_reverse] at hlen ⊢

theorem path_set_parent_slash (c : List UInt8) :
    path_set_parent (c ++ [slash]) = path_set_parent c := by
  have hstrip : ((c ++ [slash]).reverse).dropWhile (· == slash) =
      c.reverse.dropWhile (· == slash) := by
    rw [List.reverse_append, List.reverse_singleton, List.singleton_append]
    exact List.dropWhile_cons_of_pos (beq_self_eq_true slash)
  unfold path_set_parent
  rw [hstrip]

theorem iterate_parent_ne_nil {c : List UInt8} (h : c ≠ []) (j : Nat) :
    path_set_parent^[j] c ≠ [] := by
  cases j with
  | zero => exact h
  | succ j =>
    rw [Function.iterate_succ_apply']
    exact path_set_parent_ne_nil _

theorem length_iterate_parent_succ_le {c : List UInt8} (h : c ≠ []) (j : Nat) :
    (path_set_parent^[j + 1] c).length ≤ (path_set_parent^[j] c).length := by
  rw [Function.iterate_succ_apply']
  exact length_path_set_parent_le (iterate_parent_ne_nil h j)

theorem path_set_parent_single {x : UInt8} {k : List UInt8} (hx : x ≠ slash) (hk : slash ∉ k) :
    path_set_parent (x :: k) = [slash] := by
  have hall : ∀ y ∈ (x :: k).reverse, y ≠ slash := by
    rintro y hy rfl
    rcases List.mem_cons.mp (List.mem_reverse.mp hy) with h | h
    · exact hx h.symm
    · exact hk h
  have hstay : (x :: k).reverse.dropWhile (· == slash) = (x :: k).reverse := by
    cases hr : (x :: k).reverse with
    | nil => rfl
    | cons y t =>
      exact List.dropWhile_cons_of_neg (by simpa using hall y (by rw [hr]; exact List.mem_cons_self))
  have hgone : (x :: k).reverse.dropWhile (· != slash) = [] := by
    rw [List.dropWhile_eq_nil_iff]
    intro y hy
    simpa using hall y hy
  simp only [path_set_parent, hstay, hgone, List.drop_nil, if_true]

/-- What `lib_strncat` appends of a name. -/
def shownName (name : List UInt8) : List UInt8 :=
  (name.take 19).takeWhile fun c => 32 ≤ c && c ≤ 126

theorem slash_not_mem_shownName {name : List UInt8} (h : slash ∉ name) : slash ∉ shownName name :=
  fun hm => h (List.mem_of_mem_take ((List.takeWhile_sublist _).subset hm))

theorem length_path_set_child_le (c name : List UInt8) :
    (path_set_child c name).length ≤ c.length + (name.length + 1) := by
  have hshown := ((List.takeWhile_sublist fun c : UInt8 => 32 ≤ c && c ≤ 126).trans
    (List.take_sublist 19 name)).length_le
  unfold path_set_child lib_strncat
  dsimp only
  split
  · simp only [List.length_append, List.length_singleton]
    omega
  · rw [List.length_append]
    omega

theorem length_iterate_parent_child_le {c name : List UInt8} (hc : c ≠ []) (hname : slash ∉ name)
    (j : Nat) : (path_set_parent^[j + 1] (path_set_child c name)).length ≤
      (path_set_parent^[j] c).length := by
  have hk := slash_not_mem_shownName hname
  have hchild : path_set_child c name =
      (if 1 < c.length ∧ c.getLast? ≠ some slash then c ++ [slash] else c) ++ shownName name := rfl
  rw [hchild, Function.iterate_succ_apply]
  by_cases hnil : shownName name = []
  · -- nothing of the name is shown
    have hup : path_set_parent ((if 1 < c.length ∧ c.getLast? ≠ some slash then c ++ [slash] else c) ++
        shownName name) = path_set_parent c := by
      rw [hnil, List.append_nil]
      split
      · exact path_set_parent_slash c
      · rfl
    rw [hup, ← Function.iterate_succ_apply]
    exact length_iterate_parent_succ_le hc j
  by_cases hadd : 1 < c.length ∧ c.getLast? ≠ some slash
  · rw [if_pos hadd, List.append_assoc, List.singleton_append, path_set_parent_append hnil hk,
      if_neg hc]
  rw [if_neg hadd]
  by_cases hlast : c.getLast? = some slash
  · obtain ⟨d, rfl⟩ := List.getLast?_eq_some_iff.mp hlast
    rw [List.append_assoc, List.singleton_append, path_set_parent_append hnil hk]
    by_cases hd : d = []
    · rw [if_pos hd, hd, List.nil_append]
    · rw [if_neg hd]
      cases j with
      | zero => exact (List.sublist_append_left d [slash]).length_le
      | succ j =>
        rw [Function.iterate_succ_apply, Function.iterate_succ_apply, path_set_parent_slash]
  · -- a string of one character that is no slash
    have hlen : c.length = 1 := by
      have hpos := List.length_pos_iff.mpr hc
      have hle : ¬ 1 < c.length := fun h1 => hadd ⟨h1, hlast⟩
      omega
    obtain ⟨x, rfl⟩ := List.length_eq_one_iff.mp hlen
    have hx : x ≠ slash := by simpa using hlast
    have hfix : ∀ i, path_set_parent^[i] [slash] = [slash] := fun i =>
      Function.iterate_fixed (by decide) i
    rw [List.singleton_append, path_set_parent_single hx hk, hfix]
    exact List.length_pos_iff.mpr (iterate_parent_ne_nil (List.cons_ne_nil x []) j)

/-! ## Strings under a path -/

/-- `c` and its strings up are no longer than `p` and its strings up. -/
structure Under (c p : List UInt8) : Prop where
  ne_nil : c ≠ []
  le : ∀ j, (path_set_parent^[j] c).length ≤ (path_set_parent^[j] p).length

theorem Under.refl {p : List UInt8} (h : p ≠ []) : Under p p := ⟨h, fun _ => Nat.le_refl _⟩

theorem Under.length_le {c p : List UInt8} (h : Under c p) : c.length ≤ p.length := h.le 0

theorem Under.parent {c p : List UInt8} (h : Under c p) :
    Under (path_set_parent c) (path_set_parent p) :=
  ⟨path_set_parent_ne_nil c, fun j => by
    rw [← Function.iterate_succ_apply, ← Function.iterate_succ_apply]
    exact h.le (j + 1)⟩

theorem Under.child {c p name : List UInt8} (h : Under c p) (hp : p ≠ []) (hname : PathName name) :
    Under (path_set_child c name) (p ++ slash :: name) := by
  constructor
  · intro hnil
    have hsub : c.Sublist (path_set_child c name) := by
      unfold path_set_child lib_strncat
      dsimp only
      split
      · exact (List.sublist_append_left _ _).trans (List.sublist_append_left _ _)
      · exact List.sublist_append_left _ _
    rw [hnil, List.sublist_nil] at hsub
    exact h.ne_nil hsub
  · intro j
    cases j with
    | zero =>
      have hlen := length_path_set_child_le c name
      have hle := h.length_le
      rw [Function.iterate_zero, id_eq, id_eq, List.length_append, List.length_cons]
      omega
    | succ j =>
      have hup := length_iterate_parent_child_le h.ne_nil hname.no_slash j
      rw [Function.iterate_succ_apply path_set_parent j (p ++ slash :: name),
        path_set_parent_eq hp hname]
      exact Nat.le_trans hup (h.le j)

/-- Block `b` is a directory of the tree, and string `c` is under its path. -/
def Held (disk : Disk) (b : Nat) (c : List UInt8) : Prop := ∃ p, Standing disk b p ∧ Under c p

theorem Standing.held {disk : Disk} {b : Nat} {p : List UInt8} (h : Standing disk b p) :
    Held disk b p :=
  ⟨p, h, .refl h.path.ne_nil⟩

section

variable {U : Nat → Prop} {disk : Disk} (h : TreeDisk U disk)

include h

theorem held_root : Held disk 1 rootPath := Standing.held ⟨h.isDir_root, .root⟩

variable {b : Nat} {c : List UInt8} (hb : Held disk b c)

include hb

omit h in
theorem Held.orRootPath_eq : orRootPath c = c := by
  obtain ⟨_, _, hu⟩ := hb
  exact if_neg hu.ne_nil

theorem Held.orRoot_eq : orRoot b = b := by
  obtain ⟨_, hs, _⟩ := hb
  exact hs.orRoot_eq h

theorem Held.parent {d : DiskDir} (hd : dirOf disk b = some d) :
    Held disk (orRoot d.parent_bno)
      (if orRoot d.parent_bno = 1 then rootPath else path_set_parent c) := by
  obtain ⟨p, hs, hu⟩ := hb
  refine ⟨_, (hs.parent h hd).1, ?_⟩
  split
  · exact .refl (by decide)
  · exact hu.parent

theorem Held.child {d : DiskDir} {i : Fin MAX_DIR_ENTRIES} {name : List UInt8}
    (hd : dirOf disk b = some d) (hname : PathName name)
    (hf : find_entry_index (DirBlock.ofDisk d) name (some 1) = some i) :
    Held disk ((DirBlock.ofDisk d).entries i).bno
      (path_set_child c ((DirBlock.ofDisk d).entries i).nameStr) := by
  obtain ⟨p, hs, hu⟩ := hb
  obtain ⟨heq, hstand⟩ := hs.enter h hd hname hf
  rw [heq]
  exact ⟨_, hstand, hu.child hs.path.ne_nil hname⟩

end

/-! ## Walks -/

section

variable [BuildConfig] {U : Nat → Prop} {st st' : FsState}

theorem Held.walk (h : TreeDisk U st.disk) {into : Bool} {b : Nat} {c : List UInt8}
    {segs : List (List UInt8)} {e : WalkEnd} (hb : Held st.disk b c)
    (hsegs : ∀ s ∈ segs, s ≠ [] ∧ slash ∉ s)
    (hw : vibeos.fs.walk into st b c segs = (st', some e)) : Held st.disk e.bno e.cwd := by
  induction segs generalizing st b c with
  | nil =>
    cases hw
    rw [hb.orRoot_eq h, hb.orRootPath_eq]
    exact hb
  | cons seg rest ih =>
    have hrest := fun s hs => hsegs s (List.mem_cons_of_mem _ hs)
    have hdisk := ensure_ready_disk st
    unfold vibeos.fs.walk at hw
    rw [load_current_dir_eq] at hw
    split at hw
    · cases hw
    rename_i hshort
    split at hw
    · exact ih h hb hrest hw
    rename_i hdot
    split at hw
    · rcases hd : dirOf st.disk b with _ | d
      · rw [hd] at hw
        cases hw
      · rw [hd] at hw
        have hup := hb.parent h hd
        rw [← hdisk] at h hup ⊢
        exact ih h hup hrest hw
    rename_i hdotdot
    split at hw
    · cases hw
      rw [hb.orRoot_eq h, hb.orRootPath_eq]
      exact hb
    rcases hd : dirOf st.disk b with _ | d
    · rw [hd] at hw
      cases hw
    · rw [hd] at hw
      simp only [Option.map_some] at hw
      split at hw
      · cases hw
      · rename_i idx hf
        obtain ⟨hne, hslash⟩ := hsegs seg List.mem_cons_self
        have hdown := hb.child h hd ⟨hne, by omega, hslash, hdot, hdotdot⟩ hf
        rw [← hdisk] at h hdown ⊢
        exact ih h hdown hrest hw

theorem Held.walk_cwds (h : TreeDisk U st.disk) {b : Nat} {c : List UInt8}
    {segs : List (List UInt8)} (hb : Held st.disk b c) (hsegs : ∀ s ∈ segs, s ≠ [] ∧ slash ∉ s) :
    ∀ c' ∈ vibeos.fs.walk_cwds st b c segs, ∃ b', Held st.disk b' c' := by
  induction segs generalizing st b c with
  | nil =>
    intro c' hc'
    rw [List.mem_singleton.mp hc']
    exact ⟨b, hb⟩
  | cons seg rest ih =>
    have hrest := fun s hs => hsegs s (List.mem_cons_of_mem _ hs)
    have hdisk := ensure_ready_disk st
    intro c' hc'
    unfold vibeos.fs.walk_cwds at hc'
    rcases List.mem_cons.mp hc' with rfl | hc'
    · exact ⟨b, hb⟩
    rw [load_current_dir_eq] at hc'
    split at hc'
    · cases hc'
    rename_i hshort
    split at hc'
    · exact ih h hb hrest c' hc'
    rename_i hdot
    split at hc'
    · rcases hd : dirOf st.disk b with _ | d
      · rw [hd] at hc'
        cases hc'
      · rw [hd] at hc'
        have hup := hb.parent h hd
        rw [← hdisk] at h hup ⊢
        exact ih h hup hrest c' hc'
    rename_i hdotdot
    split at hc'
    · cases hc'
    rcases hd : dirOf st.disk b with _ | d
    · rw [hd] at hc'
      cases hc'
    · rw [hd] at hc'
      simp only [Option.map_some] at hc'
      split at hc'
      · cases hc'
      · rename_i idx hf
        obtain ⟨hne, hslash⟩ := hsegs seg List.mem_cons_self
        have hdown := hb.child h hd ⟨hne, by omega, hslash, hdot, hdotdot⟩ hf
        rw [← hdisk] at h hdown ⊢
        exact ih h hdown hrest c' hc'

omit [BuildConfig] in
theorem pathSegments_names {p : List UInt8} : ∀ s ∈ pathSegments [] p, s ≠ [] ∧ slash ∉ s :=
  fun _ hs => mem_pathSegments (by simp) hs

omit [BuildConfig] in
theorem Held.start (h : TreeDisk U st.disk) {w : Window} (hw : Held st.disk w.cwd_bno w.cwd)
    (p : List UInt8) {start : Nat × List UInt8 × List UInt8}
    (hs : (match if p.head? = some slash then (1, rootPath, skipSlashes p)
          else (orRoot w.cwd_bno, orRootPath w.cwd, p) with
        | (bno, cwd, p) =>
          if lit ['r', 'o', 'o', 't', '/'] <+: p then (1, rootPath, p.drop 5)
          else if p = lit ['r', 'o', 'o', 't'] then (1, rootPath, [])
          else (bno, cwd, p)) = start) : Held st.disk start.1 start.2.1 := by
  have hroot := held_root h
  have hwin : Held st.disk (orRoot w.cwd_bno) (orRootPath w.cwd) := by
    rw [hw.orRoot_eq h, hw.orRootPath_eq]
    exact hw
  rw [← hs]
  split
  rename_i bno cwd q hq
  have hheld : Held st.disk bno cwd := by
    split at hq
    · cases hq
      exact hroot
    · cases hq
      exact hwin
  split
  · exact hroot
  split
  · exact hroot
  · exact hheld

theorem Held.resolve_fs_target (h : TreeDisk U st.disk) {w : Window}
    (hw : Held st.disk w.cwd_bno w.cwd) {input : List UInt8} {r : Nat × List UInt8 × List UInt8}
    (hr : (vibeos.fs.resolve_fs_target st w input).2 = some r) : Held st.disk r.1 r.2.1 := by
  unfold vibeos.fs.resolve_fs_target at hr
  dsimp only at hr
  split at hr
  · cases hr
  split at hr
  · cases hr
  rename_i st1 e hwalk
  cases hr
  exact (hw.start h _ rfl).walk h pathSegments_names hwalk

theorem Held.resolve_fs_target_cwds (h : TreeDisk U st.disk) {w : Window}
    (hw : Held st.disk w.cwd_bno w.cwd) (input : List UInt8) :
    ∀ c ∈ vibeos.fs.resolve_fs_target_cwds st w input, ∃ b, Held st.disk b c := by
  intro c hc
  unfold vibeos.fs.resolve_fs_target_cwds at hc
  dsimp only at hc
  rcases List.mem_cons.mp hc with rfl | hc
  · rw [hw.orRootPath_eq]
    exact ⟨_, hw⟩
  split at hc
  · cases hc
  · exact (hw.start h _ rfl).walk_cwds h pathSegments_names c hc

theorem Held.resolve_editor_target (h : TreeDisk U st.disk) {w : Window}
    (hw : Held st.disk w.cwd_bno w.cwd) {input cwd leaf : List UInt8} {b : Nat}
    (hr : vibeos.fs.resolve_editor_target st w input = (st', some (b, cwd, leaf))) :
    Held st.disk b cwd := by
  unfold vibeos.fs.resolve_editor_target at hr
  dsimp only at hr
  split at hr
  · cases hr
  split at hr
  · cases hr
  rename_i st1 e hwalk
  cases hr
  refine Held.walk h ?_ pathSegments_names hwalk
  split
  · exact held_root h
  · dsimp only
    rw [hw.orRoot_eq h, hw.orRootPath_eq]
    exact hw

theorem Held.cdWindow (h : TreeDisk U st.disk) {w w' : Window} {target : List UInt8}
    (hw : Held st.disk w.cwd_bno w.cwd) (hc : CdWindow st w target w') :
    Held st.disk w'.cwd_bno w'.cwd := by
  cases hc with
  | same => exact hw
  | root => exact held_root h
  | parent hd => exact hw.parent h hd
  | dir hres _ =>
    have hdir := hw.resolve_editor_target h hres
    dsimp only
    rwa [hdir.orRoot_eq h, hdir.orRootPath_eq]
  | @child p pcwd leaf d i hres hd hf =>
    have hdir := hw.resolve_editor_target h hres
    rw [hdir.orRoot_eq h] at hd
    have hne : leaf ≠ [] := by
      obtain ⟨⟨hused, _, hname⟩, _⟩ := find_entry_index_eq_some.mp hf
      exact hname ▸ (FileEntry.inUse_iff _).mp hused
    dsimp only
    rw [hdir.orRootPath_eq]
    exact hdir.child h hd (resolve_editor_target_leaf hres hne).1 hf

/-! ## Short paths -/

/-- Every directory has a path of at most 31 bytes. -/
def ShortPaths (disk : Disk) : Prop := ∀ b p, PathTo disk b p → p.length < CWD_BUF_SIZE

omit [BuildConfig] in
theorem Held.length_lt {disk : Disk} (h : ShortPaths disk) {b : Nat} {c : List UInt8}
    (hb : Held disk b c) : c.length < CWD_BUF_SIZE := by
  obtain ⟨p, hs, hu⟩ := hb
  exact Nat.lt_of_le_of_lt hu.length_le (h b p hs.path)

/-- A window that stands in a directory, and whose string fits the window. -/
def WindowHeld (disk : Disk) (w : Window) : Prop :=
  Held disk w.cwd_bno w.cwd ∧ w.cwd.length < CWD_SIZE

theorem cwdsFit_of_short (h : TreeDisk U st.disk) (hs : ShortPaths st.disk) {w : Window}
    (hw : Held st.disk w.cwd_bno w.cwd) : CwdsFit st w where
  walk := by
    intro input c hc
    obtain ⟨b, hb⟩ := hw.resolve_fs_target_cwds h input c hc
    exact Nat.lt_of_lt_of_le (hb.length_lt hs) (by decide)
  out := by
    intro k input _ r hr
    have hsize : CWD_BUF_SIZE ≤ k.cwd_size := by cases k <;> decide
    exact Nat.lt_of_lt_of_le ((hw.resolve_fs_target h hr).length_lt hs) hsize
  app := by
    rw [hw.orRootPath_eq]
    exact hw.length_lt hs

omit [BuildConfig] in
theorem long_path_between {disk : Disk} (h : TreeDisk U disk) {b : Nat} {p : List UInt8}
    (hp : PathTo disk b p) (hlong : CWD_BUF_SIZE ≤ p.length) :
    ∃ b' p', Standing disk b' p' ∧ CWD_BUF_SIZE ≤ p'.length ∧ p'.length < CWD_SIZE := by
  have hdir : ∀ {b p}, PathTo disk b p → IsDir disk b := by
    intro b p hp
    induction hp with
    | root => exact h.isDir_root
    | child _ he ht _ ih => exact h.isDir_child ih ⟨_, _, he, ht, rfl⟩
  induction hp with
  | root => exact absurd hlong (by decide)
  | @child P q i e hP he ht hname ih =>
    by_cases hq : CWD_BUF_SIZE ≤ q.length
    · exact ih hq
    · have hchild := PathTo.child hP he ht hname
      refine ⟨e.bno, q ++ slash :: e.nameStr, ⟨hdir hchild, hchild⟩, hlong, ?_⟩
      have hshort := hname.short
      rw [List.length_append, List.length_cons]
      simp only [CWD_BUF_SIZE, CWD_SIZE] at *
      omega

/-- The path of a file in the working directory. -/
def dotSlashF : List UInt8 := lit ['.', '/', 'f']

theorem resolve_dotSlashF (h : TreeDisk U st.disk) {w : Window}
    (hw : Held st.disk w.cwd_bno w.cwd) :
    resolve_fs_target st w dotSlashF = (st, some (w.cwd_bno, w.cwd, lit ['f'])) := by
  have hb := hw.orRoot_eq h
  have hc := hw.orRootPath_eq
  have hexp : terminal_expand_home_path w.home.bytes dotSlashF 64 = dotSlashF := rfl
  have hp : skipBlanks dotSlashF = dotSlashF := rfl
  have hsegs : pathSegments [] dotSlashF = [dotName, lit ['f']] := rfl
  have hnil : ¬ dotSlashF = [] := by decide
  have hhead : ¬ dotSlashF.head? = some slash := by decide
  have hpre : ¬ lit ['r', 'o', 'o', 't', '/'] <+: dotSlashF := by decide
  have hroot : ¬ dotSlashF = lit ['r', 'o', 'o', 't'] := by decide
  unfold resolve_fs_target
  rw [hexp]
  simp only [hp, if_neg hnil, if_neg hhead, if_neg hpre, if_neg hroot, hsegs, hb, hc, walk]
  rw [if_neg (by decide), if_pos trivial, if_neg (by decide), if_neg (by decide),
    if_neg (by decide), if_pos ⟨trivial, trivial⟩]
  rfl

theorem cwdsFit_iff_short (h : TreeDisk U st.disk) :
    (∀ w, WindowHeld st.disk w → CwdsFit st w) ↔ ShortPaths st.disk := by
  constructor
  · intro hfit b p hp
    by_contra hlong
    obtain ⟨b', p', hs, hge, hlt⟩ := long_path_between h hp (Nat.not_lt.mp hlong)
    have hw : WindowHeld st.disk ⟨b', p', ⟨[], by simp⟩⟩ := ⟨hs.held, hlt⟩
    have hout := (hfit _ hw).out .load_file_bytes dotSlashF (by decide) _
      (congrArg Prod.snd (resolve_dotSlashF h hw.1))
    exact absurd hout (Nat.not_lt.mpr hge)
  · exact fun hs w hw => cwdsFit_of_short h hs hw.1

/-! ## Runs -/

variable {T : Nat → Prop} {s s' : System}

/-- No call removes a directory that a window stands in, or moves one that a window stands in or
below, and no call leaves a directory with a long path. -/
def CwdsSafe (s : System) (op : Op) : Prop :=
  (match op with
    | .cd _ _ => True
    | op => CwdsKept s op) ∧
  ∀ s', step s op = some s' → ShortPaths s'.st.disk

omit [BuildConfig] in
theorem Held.of_standing {disk disk' : Disk} {b : Nat} {c : List UInt8} (hb : Held disk b c)
    (hkept : ∀ p, Standing disk b p → Standing disk' b p) : Held disk' b c := by
  obtain ⟨p, hs, hu⟩ := hb
  exact ⟨p, hkept p hs, hu⟩

theorem windowsHeld_step (h : SysInv T s) (hw : ∀ v, Held s.st.disk (s.wins v).cwd_bno (s.wins v).cwd)
    {op : Op} (hok : CwdsSafe s op) (hs : step s op = some s') :
    ∀ v, Held s'.st.disk (s'.wins v).cwd_bno (s'.wins v).cwd := by
  intro v
  have hkept : (∃ win target, op = .cd win target) ∨ CwdsKept s op := by
    cases op with
    | cd win target => exact Or.inl ⟨win, target, rfl⟩
    | store | remove | move | mkdir | setHome => exact Or.inr hok.1
  rcases standing_step h hkept hs v with ⟨target, rfl, h1, h2⟩ | ⟨hb, hp, hstand⟩
  · rw [h1]
    exact (hw v).cdWindow h.inv.treeDisk h2
  · rw [hb, hp]
    exact (hw v).of_standing hstand

theorem windowsHeld_run (h : SysInv T s) (hshort : ShortPaths s.st.disk)
    (hw : ∀ v, Held s.st.disk (s.wins v).cwd_bno (s.wins v).cwd) {ops : List Op}
    (hok : StepsOk CwdsSafe s ops) (hr : run s ops = some s') :
    ShortPaths s'.st.disk ∧ ∀ v, Held s'.st.disk (s'.wins v).cwd_bno (s'.wins v).cwd := by
  induction ops generalizing s T with
  | nil =>
    cases hr
    exact ⟨hshort, hw⟩
  | cons op ops ih =>
    obtain ⟨s1, h1, h2⟩ := Option.bind_eq_some_iff.mp hr
    obtain ⟨T1, h3, _⟩ := h.step h1
    exact ih h3 (hok.1.2 s1 h1) (windowsHeld_step h hw hok.1 h1) (hok.2 s1 h1) h2

omit [BuildConfig] in
theorem shortPaths_format (s : System) : ShortPaths (format s).st.disk := by
  have hempty : ∀ i e, ¬ SlotHas (format s).st.disk 1 i e := by
    rintro i e ⟨d, hd, rfl, hused⟩
    have hroot : dirOf (format s).st.disk 1 = some (emptyDir 1).toDisk := by
      rw [dirOf_eq_some]
      change Function.update s.st.disk 1 (.dir (emptyDir 1).toDisk) 1 = _
      rw [Function.update_self]
    rw [hroot] at hd
    cases hd
    have hzero : FileEntry.zero.inUse = true := hused
    exact absurd hzero (by decide)
  have hone : ∀ b p, PathTo (format s).st.disk b p → b = 1 ∧ p = rootPath := by
    intro b p hp
    induction hp with
    | root => exact ⟨rfl, rfl⟩
    | child _ he _ _ ih =>
      rw [ih.1] at he
      exact absurd he (hempty _ _)
  intro b p hp
  rw [(hone b p hp).2]
  decide

/-- In every state of every run the strings fit for all windows iff all directories have short
paths, and in a run whose calls leave no long path they fit for the windows of the run. -/
theorem cwd_strings_fit {s0 : System} {ops : List Op} (hr : run (format s0) ops = some s) :
    ((∀ w, WindowHeld s.st.disk w → CwdsFit s.st w) ↔ ShortPaths s.st.disk) ∧
    (StepsOk CwdsSafe (format s0) ops → ∀ v, CwdsFit s.st (s.wins v)) := by
  have h0 := sysInv_format s0
  obtain ⟨T, h⟩ := Reached.sysInv ⟨s0, ops, hr⟩
  refine ⟨cwdsFit_iff_short h.inv.treeDisk, fun hok v => ?_⟩
  obtain ⟨hshort, hheld⟩ := windowsHeld_run h0 (shortPaths_format s0)
    (fun _ => held_root h0.inv.treeDisk) hok hr
  exact cwdsFit_of_short h.inv.treeDisk hshort (hheld v)

end

section

attribute [local instance] fpgaBuild

def nameA : List UInt8 := List.replicate 19 'a'.toUInt8
def nameB : List UInt8 := List.replicate 19 'b'.toUInt8

def deepDirs : List Op :=
  [.mkdir 0 ⟨nameA, by decide⟩ 1, .mkdir 0 ⟨nameA ++ slash :: nameB, by decide⟩ 2]

theorem cwd_strings_fit_deepDirs :
    (∃ s, run (format blankSystem) deepDirs = some s ∧
      ((∀ w, WindowHeld s.st.disk w → CwdsFit s.st w) ↔ ShortPaths s.st.disk)) ∧
    CwdsFit (format blankSystem).st ((format blankSystem).wins 0) := by
  obtain ⟨s, hs⟩ := (sysInv_format blankSystem).run_total deepDirs
  exact ⟨⟨s, hs, (cwd_strings_fit hs).1⟩,
    (@cwd_strings_fit fpgaBuild _ blankSystem [] rfl).2 trivial 0⟩

/-- A load of a file in the lower one puts 45 bytes into `cwd_buf`. -/
theorem deep_dir_overflows : ∃ s, Reached s ∧ ¬ ∀ v, CwdsFit s.st (s.wins v) := by
  have hrun : (run (format blankSystem) deepDirs).map (fun s =>
      (resolve_fs_target s.st (s.wins 0) (nameA ++ slash :: nameB ++ lit ['/', 'f'])).2.map
        fun r => r.2.1.length) = some (some 45) := by decide +kernel
  obtain ⟨s, hs, hout⟩ := Option.map_eq_some_iff.mp hrun
  obtain ⟨r, hr, hlen⟩ := Option.map_eq_some_iff.mp hout
  refine ⟨s, ⟨blankSystem, deepDirs, hs⟩, fun h => ?_⟩
  have hlt := (h 0).out .load_file_bytes _ (by decide) r hr
  rw [hlen] at hlt
  exact absurd hlt (by decide)

end

end vibeos.fs
