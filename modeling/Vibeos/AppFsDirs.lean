-- The working directory of the applications. appfs_unlink resolves a path against the directory
-- that appfs_set_cwd set, appfs_open against the window that the calls before it left behind.
import Vibeos.AppFsRuns
import Vibeos.PathPlans

namespace vibeos.fs

section

variable [BuildConfig]

/-! ## The calls -/

def noHome : CString := ⟨[], CString.nil⟩

def appfs_set_cwd (s : AppFs) (cwd_bno : Nat) (cwd : CString) : AppFs :=
  { s with fds := fun _ => none, app_fs_cwd_bno := orRoot cwd_bno
           app_fs_cwd := orRootPath cwd.bytes }

/-- The window that `appfs_unlink` resolves its path in. -/
def AppFs.cwdWindow (s : AppFs) : Window :=
  ⟨orRoot s.app_fs_cwd_bno, orRootPath s.app_fs_cwd, noHome⟩

/-- The directory, its path and the name that `appfs_unlink` removes. -/
def unlink_target (s : AppFs) (path : List UInt8) :
    FsState × Option (Nat × List UInt8 × List UInt8) :=
  match resolve_fs_target s.st s.cwdWindow path with
  | (st, none) => (st, none)
  | (st, some (dir_bno, cwd, leaf)) =>
    if leaf = [] ∨ leaf = dotName ∨ leaf = dotdotName then (st, none)
    else (st, some (orRoot dir_bno, orRootPath cwd, leaf))

def appfs_unlink (s : AppFs) (path : CString) : Outcome AppFs :=
  if path.bytes = [] then .returns (-1) s
  else
    match unlink_target s path.bytes with
    | (st, none) => .returns (-1) { s with st := st, app_fs_window := s.cwdWindow }
    | (st, some (dir_bno, cwd, leaf)) =>
      let w : Window := ⟨dir_bno, cwd, noHome⟩
      match remove_entry_named st w leaf with
      | none => .diverges
      | some (rc, st) => .returns rc { s with st := st, app_fs_window := w }

/-! ## Histories -/

inductive DirCall where
  | set_cwd (cwd_bno : Nat) (cwd : CString)
  | open (h : Heap) (path : CString) (flags : BitVec 32)
  | close (fd_no : Int) (now : Nat)
  | unlink (path : CString)

def Outcome.state {α : Type} : Outcome α → Option α
  | .returns _ a => some a
  | _ => none

def dir_call (s : AppFs) : DirCall → Option AppFs
  | .set_cwd cwd_bno cwd => some (appfs_set_cwd s cwd_bno cwd)
  | .open h path flags => (appfs_open h s path flags).state
  | .close fd_no now => (appfs_close s fd_no now).state
  | .unlink path => (appfs_unlink s path).state

def cwdAfter (dir : Nat) : DirCall → Nat
  | .set_cwd cwd_bno _ => orRoot cwd_bno
  | _ => dir

def leadsTo (disk : Disk) (dir : Nat) (path : List UInt8) : Option (Nat × List UInt8) :=
  (fsPlan [] path).bind fun P => P.find disk dir

/-- A path that names a file: a bare name is not read as a blank and a name, as the root or as a
directory itself. -/
def NamesFile (path : List UInt8) : Prop :=
  usesResolve path = true ∨
    (skipBlanks path = path ∧ path ≠ rootName ∧ path ≠ dotName ∧ path ≠ dotdotName)

/-- The file is opened empty, without a look at its directory. -/
def opensNew (flags : BitVec 32) : Bool :=
  hasFlag flags APP_O_WRITE && hasFlag flags (APP_O_CREAT ||| APP_O_TRUNC)

/-- A call that works in the directory that was set last; a call that sets it finds the window
there already. -/
def CallAtHome (s : AppFs) : DirCall → Prop
  | .set_cwd cwd_bno _ => orRoot cwd_bno = orRoot s.app_fs_window.cwd_bno
  | .open _ path flags => usesResolve path.bytes = true → opensNew flags = false →
      ∀ t, leadsTo s.st.disk s.app_fs_cwd_bno path.bytes = some t → t.1 = s.app_fs_cwd_bno
  | .close fd_no _ => ∀ i fd, app_fd s fd_no = some (i, fd) →
      (hasFlag fd.flags APP_O_WRITE || hasFlag fd.flags APP_O_CREAT ||
        hasFlag fd.flags APP_O_TRUNC) = true → orRoot fd.cwd_bno = s.app_fs_cwd_bno
  | .unlink path =>
      ∀ t, leadsTo s.st.disk s.app_fs_cwd_bno path.bytes = some t → t.1 = s.app_fs_cwd_bno

/-- Every call of the list is one at home, in the state that the calls before it reach. -/
def CallsAtHome : AppFs → List DirCall → Prop
  | _, [] => True
  | s, call :: calls => CallAtHome s call ∧ ∀ s', dir_call s call = some s' → CallsAtHome s' calls

/-! ## What a path leads to -/

theorem resolve_leadsTo (st : FsState) (w : Window) (path : List UInt8) (hhome : w.home = noHome) :
    (resolve_fs_target st w path).2.map (fun t => (t.1, t.2.2)) =
      leadsTo st.disk w.cwd_bno path := by
  rw [resolve_fs_target_plan, hhome]
  rfl

omit [BuildConfig] in
theorem leadsTo_orRoot (disk : Disk) (dir : Nat) (path : List UInt8) :
    leadsTo disk (orRoot dir) path = leadsTo disk dir path := by
  unfold leadsTo PathPlan.find
  rw [orRoot_of_ne_zero (orRoot_ne_zero dir)]

omit [BuildConfig] in
theorem leadsTo_ne_zero {disk : Disk} {dir : Nat} {path : List UInt8} {t : Nat × List UInt8}
    (h : leadsTo disk dir path = some t) : t.1 ≠ 0 := by
  obtain ⟨P, -, hP⟩ := Option.bind_eq_some_iff.mp h
  obtain ⟨b, -, rfl⟩ := Option.map_eq_some_iff.mp hP
  exact orRoot_ne_zero b

omit [BuildConfig] in
theorem fsPlan_bare {path : List UInt8} (hplain : usesResolve path = false)
    (hblank : skipBlanks path = path) (hroot : path ≠ rootName) (hdot : path ≠ dotName)
    (hup : path ≠ dotdotName) :
    fsPlan [] path = if path = [] ∨ 19 < path.length then none else some ⟨false, [], path⟩ := by
  obtain ⟨hslash, htilde⟩ := Bool.or_eq_false_iff.mp hplain
  have hno : slash ∉ path := fun h => by simp [h] at hslash
  cases path with
  | nil => rfl
  | cons c rest =>
    have hc : c ≠ '~'.toUInt8 := fun h => by simp [h] at htilde
    have hexpand : terminal_expand_home_path [] (c :: rest) 64 = (c :: rest).take 63 :=
      if_pos (Or.inl hc)
    have hhead : ¬ (c == ' '.toUInt8 || c == '\t'.toUInt8) = true :=
      List.dropWhile_eq_self_iff.mp hblank (Nat.succ_pos _)
    have hskip : skipBlanks ((c :: rest).take 63) = (c :: rest).take 63 :=
      List.dropWhile_eq_self_iff.mpr fun _ => hhead
    have hno' : slash ∉ (c :: rest).take 63 := fun h => hno (List.mem_of_mem_take h)
    have hne : (c :: rest).take 63 ≠ [] := by simp
    have hlen : ((c :: rest).take 63).length = min 63 (c :: rest).length := List.length_take
    have hwhole : (c :: rest).length ≤ 63 → (c :: rest).take 63 = c :: rest :=
      List.take_of_length_le
    -- the four bytes of `root` would not be cut
    have hroot' : (c :: rest).take 63 ≠ rootName := by
      intro h
      have h4 : min 63 (c :: rest).length = 4 := by rw [← hlen, h]; rfl
      rw [hwhole (by omega)] at h
      exact hroot h
    have hsegs : pathSegments [] ((c :: rest).take 63) = [(c :: rest).take 63] := by
      have hall : ∀ x ∈ (c :: rest).take 63, (x != slash) = true := fun x hx => by
        rw [bne_iff_ne]
        rintro rfl
        exact hno' hx
      rw [pathSegments_eq, List.nil_append, List.takeWhile_eq_self_iff.mpr hall,
        List.dropWhile_eq_nil_iff.mpr hall, if_neg hne]
      rfl
    have hslash' : ((c :: rest).take 63).head? ≠ some slash := fun h =>
      hno' (List.mem_of_head? h)
    unfold fsPlan
    dsimp only
    rw [hexpand, hskip, if_neg hne, hsegs, dropRoot, if_neg hroot']
    by_cases hlong : 19 < (c :: rest).length
    · rw [readNames, if_pos (by omega), if_pos (Or.inr hlong)]
      rfl
    · rw [hwhole (by omega)] at hslash' hroot' ⊢
      rw [readNames, if_neg hlong, if_neg hdot, if_neg hup, if_pos ⟨rfl, rfl⟩,
        if_neg (not_or.mpr ⟨List.cons_ne_nil c rest, hlong⟩)]
      have hstart : ¬ ((c :: rest).head? = some slash ∨ [c :: rest].head? = some rootName) :=
        not_or.mpr ⟨hslash', fun h => hroot' (Option.some.inj h)⟩
      rw [Option.map_some, decide_eq_false hstart]
      rfl

omit [BuildConfig] in
theorem readNames_last {segs : List (List UInt8)} {s : List UInt8}
    {r : List (List UInt8) × Option (List UInt8)} (h : readNames false segs = some r)
    (hs : r.2 = some s) : s ∈ segs ∧ s ≠ dotName ∧ s ≠ dotdotName := by
  induction segs generalizing r with
  | nil =>
    cases h
    cases hs
  | cons seg rest ih =>
    unfold readNames at h
    split at h
    · cases h
    split at h
    · obtain ⟨hmem, hne⟩ := ih h hs
      exact ⟨List.mem_cons_of_mem seg hmem, hne⟩
    rename_i hdot
    split at h
    · obtain ⟨r', hr', rfl⟩ := Option.map_eq_some_iff.mp h
      obtain ⟨hmem, hne⟩ := ih hr' hs
      exact ⟨List.mem_cons_of_mem seg hmem, hne⟩
    rename_i hup
    split at h
    · cases h
      cases hs
      exact ⟨List.mem_cons_self, hdot, hup⟩
    · obtain ⟨r', hr', rfl⟩ := Option.map_eq_some_iff.mp h
      obtain ⟨hmem, hne⟩ := ih hr' hs
      exact ⟨List.mem_cons_of_mem seg hmem, hne⟩

omit [BuildConfig] in
theorem usesResolve_of_expand {path name : List UInt8} (hres : usesResolve path = true)
    (hlen : name.length < 19) (hhead : name.head? ≠ some slash)
    (hname : usesResolve name = false) : (terminal_expand_home_path [] path 64).take 19 ≠ name := by
  intro h
  rw [terminal_expand_home_path_eq, List.take_take] at h
  have hwhole : wholePath [] path = name := by
    have hshort : (wholePath [] path).length < 19 := by
      have hl := congrArg List.length h
      rw [List.length_take] at hl
      omega
    rwa [List.take_of_length_le (by omega)] at h
  unfold wholePath at hwhole
  split at hwhole
  · cases hres
  split at hwhole
  · rw [hwhole, hname] at hres
    cases hres
  · rw [← hwhole] at hhead
    exact hhead rfl

omit [BuildConfig] in
theorem fsPlan_leaf {path : List UInt8} (hres : usesResolve path = true) {P : PathPlan}
    (h : fsPlan [] path = some P) : P.leaf ≠ [] ∧ P.leaf ≠ dotName ∧ P.leaf ≠ dotdotName := by
  have hdot := @usesResolve_of_expand path dotName hres (by decide) (by decide) (by decide)
  have hup := @usesResolve_of_expand path dotdotName hres (by decide) (by decide) (by decide)
  unfold fsPlan at h
  dsimp only at h
  generalize terminal_expand_home_path [] path 64 = e at h hdot hup
  split at h
  · cases h
  rename_i hne
  have he : e ≠ [] := by
    rintro rfl
    exact hne rfl
  obtain ⟨r, hr, rfl⟩ := Option.map_eq_some_iff.mp h
  dsimp only
  cases hs : r.2 with
  | none => exact ⟨by simp [he], hdot, hup⟩
  | some s =>
    obtain ⟨hmem, hnames⟩ := readNames_last hr hs
    exact ⟨(mem_pathSegments (by simp) (mem_of_mem_dropRoot hmem)).1, hnames⟩

omit [BuildConfig] in
theorem leadsTo_leaf {disk : Disk} {dir : Nat} {path : List UInt8} (hpath : NamesFile path)
    {t : Nat × List UInt8} (h : leadsTo disk dir path = some t) :
    t.2 ≠ [] ∧ t.2 ≠ dotName ∧ t.2 ≠ dotdotName := by
  obtain ⟨P, hP, hfind⟩ := Option.bind_eq_some_iff.mp h
  obtain ⟨b, -, rfl⟩ := Option.map_eq_some_iff.mp hfind
  dsimp only
  cases hres : usesResolve path with
  | true => exact fsPlan_leaf hres hP
  | false =>
    obtain ⟨hblank, hroot, hdot, hup⟩ := hpath.resolve_left (by rw [hres]; decide)
    rw [fsPlan_bare hres hblank hroot hdot hup] at hP
    split at hP
    · cases hP
    · rename_i hfits
      cases hP
      exact ⟨fun hnil => hfits (Or.inl hnil), hdot, hup⟩

/-! ## The scratch window -/

/-- The applications work in directory `dir`, and the scratch window is there. -/
structure AtHome (s : AppFs) (dir : Nat) : Prop where
  cwd_bno : s.app_fs_cwd_bno = dir
  ne_zero : dir ≠ 0
  window_bno : orRoot s.app_fs_window.cwd_bno = dir
  window_home : s.app_fs_window.home = noHome

theorem resolved (st : FsState) {w : Window} {dir : Nat} (path : List UInt8)
    (hw : orRoot w.cwd_bno = dir) (hhome : w.home = noHome) :
    (resolve_fs_target st w path).2.map (fun t => (t.1, t.2.2)) = leadsTo st.disk dir path := by
  rw [resolve_leadsTo st w path hhome, ← hw, leadsTo_orRoot]

theorem AtHome.opens_resolved {s : AppFs} {dir : Nat} {path : List UInt8} (h : AtHome s dir)
    (hres : usesResolve path = true) :
    (open_target s path).2.map (fun t => (t.1, t.2.2)) = leadsTo s.st.disk dir path := by
  have hlead := resolved s.st path h.window_bno h.window_home
  unfold open_target
  rw [if_pos hres]
  rcases ht : resolve_fs_target s.st s.app_fs_window path with ⟨st, _ | ⟨d, cwd, name⟩⟩
  · rw [ht] at hlead
    exact hlead
  · rw [ht] at hlead
    have hlead := hlead.symm
    have hleaf := leadsTo_leaf (Or.inl hres) hlead
    have hne := leadsTo_ne_zero hlead
    dsimp only at hleaf hne ⊢
    rw [if_neg hleaf.1, hlead]
    simp [orRoot_of_ne_zero hne]

/-- The window is where it was, or in directory `dir`. -/
structure WindowMoves (s s' : AppFs) (dir : Nat → Prop) : Prop where
  cwd_bno : s'.app_fs_cwd_bno = s.app_fs_cwd_bno
  window : s'.app_fs_window = s.app_fs_window ∨
    s'.app_fs_window.home = noHome ∧ ∃ d, dir d ∧ orRoot s'.app_fs_window.cwd_bno = d

omit [BuildConfig] in
theorem AtHome.moved {s s' : AppFs} {dir : Nat} {D : Nat → Prop} (h : AtHome s dir)
    (hmoves : WindowMoves s s' D) (hdir : ∀ d, D d → d = dir) : AtHome s' dir := by
  refine ⟨hmoves.cwd_bno.trans h.cwd_bno, h.ne_zero, ?_, ?_⟩
  · rcases hmoves.window with hw | ⟨-, d, hd, hw⟩
    · rw [hw]
      exact h.window_bno
    · rw [hw]
      exact hdir d hd
  · rcases hmoves.window with hw | ⟨hw, -⟩
    · rw [hw]
      exact h.window_home
    · exact hw

theorem open_moves {heap : Heap} {s s' : AppFs} {path : CString} {flags : BitVec 32}
    (h : (appfs_open heap s path flags).state = some s') :
    WindowMoves s s' fun d => opensNew flags = false ∧
      ∃ t, (open_target s path.bytes).2 = some t ∧ t.1 = d := by
  unfold appfs_open at h
  split at h
  · cases h
    exact ⟨rfl, Or.inl rfl⟩
  split at h
  · cases h
    exact ⟨rfl, Or.inl rfl⟩
  rename_i st cwd_bno cwd name htarget
  have htarget : (open_target s path.bytes).2 = some (cwd_bno, cwd, name) := by rw [htarget]
  dsimp only at h
  split at h
  · cases h
    exact ⟨rfl, Or.inl rfl⟩
  rename_i hnew
  -- the window of the load stays, whatever becomes of the descriptor
  have hmoved : ∀ (t : AppFs) (fds : Fin APP_MAX_FDS → Option app_fd_entry) (st : FsState),
      t = { s with st := st, fds := fds, app_fs_window := (s.window
        ⟨flags, 0, 0, [], cwd_bno, name.take 19, cwd⟩) } →
      WindowMoves s t fun d => opensNew flags = false ∧
        ∃ t, (open_target s path.bytes).2 = some t ∧ t.1 = d := by
    rintro t fds st rfl
    have hne := open_target_ne_zero htarget
    refine ⟨rfl, Or.inr ⟨rfl, cwd_bno, ⟨Bool.eq_false_iff.mpr hnew, _, htarget, rfl⟩, ?_⟩⟩
    simp [AppFs.window, hne]
  split at h
  · cases h
  · cases h
  -- every way back is either no return or one with this window
  repeat' split at h
  all_goals cases h
  all_goals exact hmoved _ _ _ rfl

theorem close_moves {s s' : AppFs} {fd_no : Int} {now : Nat}
    (h : (appfs_close s fd_no now).state = some s') :
    WindowMoves s s' fun d => ∃ i fd, app_fd s fd_no = some (i, fd) ∧
      (hasFlag fd.flags APP_O_WRITE || hasFlag fd.flags APP_O_CREAT ||
        hasFlag fd.flags APP_O_TRUNC) = true ∧
      d = orRoot (if fd.cwd_bno = 0 then s.app_fs_cwd_bno else fd.cwd_bno) := by
  unfold appfs_close at h
  split at h
  · cases h
    exact ⟨rfl, Or.inl rfl⟩
  rename_i i fd hfd
  split at h
  · rename_i hstores
    dsimp only at h
    split at h
    · cases h
    split at h
    · cases h
    split at h
    · cases h
      exact ⟨rfl, Or.inr ⟨rfl, _, ⟨i, fd, hfd, hstores, rfl⟩, rfl⟩⟩
    · cases h
      exact ⟨rfl, Or.inr ⟨rfl, _, ⟨i, fd, hfd, hstores, rfl⟩, rfl⟩⟩
  · cases h
    exact ⟨rfl, Or.inl rfl⟩

theorem unlink_moves {s s' : AppFs} {path : CString}
    (h : (appfs_unlink s path).state = some s') :
    WindowMoves s s' fun d => d = orRoot s.app_fs_cwd_bno ∨
      ∃ t, (unlink_target s path.bytes).2 = some t ∧ orRoot t.1 = d := by
  unfold appfs_unlink at h
  split at h
  · cases h
    exact ⟨rfl, Or.inl rfl⟩
  split at h
  · cases h
    exact ⟨rfl, Or.inr ⟨rfl, _, Or.inl rfl, orRoot_of_ne_zero (orRoot_ne_zero _)⟩⟩
  · rename_i st d cwd leaf htarget
    dsimp only at h
    split at h
    · cases h
    · cases h
      exact ⟨rfl, Or.inr ⟨rfl, _, Or.inr ⟨_, by rw [htarget], rfl⟩, rfl⟩⟩

/-! ## Runs -/

theorem AtHome.step {s s' : AppFs} {dir : Nat} {call : DirCall} (h : AtHome s dir)
    (hcall : CallAtHome s call) (hstep : dir_call s call = some s') :
    AtHome s' (cwdAfter dir call) := by
  have hdir := h.cwd_bno
  cases call with
  | set_cwd cwd_bno cwd =>
    cases hstep
    exact ⟨rfl, orRoot_ne_zero _, hcall.symm, h.window_home⟩
  | «open» heap path flags =>
    refine h.moved (open_moves hstep) ?_
    rintro d ⟨hnew, t, ht, rfl⟩
    cases hres : usesResolve path.bytes with
    | true =>
      have hlead := h.opens_resolved hres
      rw [ht] at hlead
      rw [← hdir] at hlead ⊢
      exact hcall hres hnew _ hlead.symm
    | false =>
      unfold open_target at ht
      rw [if_neg (by rw [hres]; decide)] at ht
      split at ht
      · cases ht
      · cases ht
        rw [hdir, orRoot_of_ne_zero h.ne_zero]
  | close fd_no now =>
    refine h.moved (close_moves hstep) ?_
    rintro d ⟨i, fd, hfd, hstores, rfl⟩
    by_cases hzero : fd.cwd_bno = 0
    · rw [if_pos hzero, hdir, orRoot_of_ne_zero h.ne_zero]
    · rw [if_neg hzero, hcall i fd hfd hstores, hdir]
  | unlink path =>
    refine h.moved (unlink_moves hstep) ?_
    rintro d (rfl | ⟨t, ht, rfl⟩)
    · rw [hdir, orRoot_of_ne_zero h.ne_zero]
    · have hwindow : orRoot s.cwdWindow.cwd_bno = dir := by
        simp [AppFs.cwdWindow, hdir, orRoot_of_ne_zero h.ne_zero]
      have hlead := resolved s.st path.bytes hwindow rfl
      unfold unlink_target at ht
      rcases hr : resolve_fs_target s.st s.cwdWindow path.bytes with ⟨st, _ | ⟨b, cwd, name⟩⟩
      · rw [hr] at ht
        cases ht
      · rw [hr] at ht hlead
        dsimp only at ht
        split at ht
        · cases ht
        · cases ht
          have hat := hcall (b, name) (by rw [hdir]; exact hlead.symm)
          have hne := leadsTo_ne_zero hlead.symm
          dsimp only at hat hne ⊢
          rw [orRoot_of_ne_zero (orRoot_ne_zero b), orRoot_of_ne_zero hne, hat, hdir]

theorem AtHome.run {s s' : AppFs} {dir : Nat} {calls : List DirCall} (h : AtHome s dir)
    (hcalls : CallsAtHome s calls) (hrun : calls.foldlM dir_call s = some s') :
    AtHome s' (calls.foldl cwdAfter dir) := by
  induction calls generalizing s dir with
  | nil =>
    cases hrun
    exact h
  | cons call calls ih =>
    rw [List.foldlM_cons] at hrun
    obtain ⟨s1, hstep, hrest⟩ := Option.bind_eq_some_iff.mp hrun
    exact ih (h.step hcalls.1 hstep) (hcalls.2 s1 hstep) hrest

end

section

attribute [local instance] fpgaBuild

end

end vibeos.fs
