-- What the path walkers and the loaders read: the disk only, and of it only the
-- directories on the way and the chain of the file. Two disks that agree there
-- load the same bytes.
import Vibeos.BlockTree

namespace vibeos.fs

open LinkChain

section

variable [BuildConfig] {st st' : FsState}

/-! ## Walks read the disk only -/

theorem walk_disk (into : Bool) (st : FsState) (b : Nat) (cwd : List UInt8)
    (segs : List (List UInt8)) : (walk into st b cwd segs).1.disk = st.disk := by
  induction segs generalizing st b cwd with
  | nil => rfl
  | cons seg rest ih =>
    unfold walk
    rw [load_current_dir_eq]
    split
    · rfl
    split
    · exact ih _ _ _
    split
    · rcases dirOf st.disk b with _ | d
      · simp
      · simp [ih]
    split
    · rfl
    rcases dirOf st.disk b with _ | d
    · simp
    · simp only [Option.map_some]
      split
      · simp
      · simp [ih]

theorem resolve_fs_target_disk (st : FsState) (w : Window) (input : List UInt8) :
    (resolve_fs_target st w input).1.disk = st.disk := by
  unfold resolve_fs_target
  dsimp only
  split
  · rfl
  split
  · rename_i h
    exact (congrArg (fun r => r.1.disk) h).symm.trans (walk_disk _ _ _ _ _)
  · rename_i h
    exact (congrArg (fun r => r.1.disk) h).symm.trans (walk_disk _ _ _ _ _)

theorem resolve_editor_target_disk (st : FsState) (w : Window) (input : List UInt8) :
    (resolve_editor_target st w input).1.disk = st.disk := by
  unfold resolve_editor_target
  dsimp only
  split
  · rfl
  split
  · rename_i h
    exact (congrArg (fun r => r.1.disk) h).symm.trans (walk_disk _ _ _ _ _)
  · rename_i h
    exact (congrArg (fun r => r.1.disk) h).symm.trans (walk_disk _ _ _ _ _)

theorem walk_same_disk {st st' : FsState} (h : st'.disk = st.disk) (into : Bool) (b : Nat)
    (cwd : List UInt8) (segs : List (List UInt8)) :
    (walk into st' b cwd segs).2 = (walk into st b cwd segs).2 := by
  induction segs generalizing st st' b cwd with
  | nil => rfl
  | cons seg rest ih =>
    have hready : (ensure_ready st').disk = (ensure_ready st).disk := by
      rw [ensure_ready_disk, ensure_ready_disk, h]
    unfold walk
    rw [load_current_dir_eq, load_current_dir_eq, h]
    split
    · rfl
    split
    · exact ih h _ _
    split
    · rcases dirOf st.disk b with _ | d
      · rfl
      · exact ih hready _ _
    split
    · rfl
    rcases dirOf st.disk b with _ | d
    · rfl
    · simp only [Option.map_some]
      split
      · rfl
      · exact ih hready _ _

theorem resolve_editor_target_congr {st st' : FsState} (h : st'.disk = st.disk) (w : Window)
    (input : List UInt8) :
    (resolve_editor_target st' w input).2 = (resolve_editor_target st w input).2 := by
  unfold resolve_editor_target
  dsimp only
  split
  · rfl
  · split <;> rename_i h1 <;> split <;> rename_i h2 <;>
      have heq := (congrArg Prod.snd h1).symm.trans
        ((walk_same_disk h _ _ _ _).trans (congrArg Prod.snd h2)) <;>
      cases heq <;> rfl

theorem file_target_disk (st : FsState) (w : Window) (name : List UInt8) (b : Nat) :
    (file_target st w name b).1.disk = st.disk := by
  unfold file_target
  split
  · have := resolve_fs_target_disk st w name
    split <;> rename_i h <;> rw [h] at this <;> exact this
  · rfl

/-- The subdirectory of a directory under a name. -/
def childOf (d : DiskDir) (name : List UInt8) : Option Nat :=
  (find_entry_index (DirBlock.ofDisk d) name (some 1)).map fun i =>
    ((DirBlock.ofDisk d).entries i).bno

/-- A walk through directory `Q` reads the same on both disks. -/
def SameWalk (disk disk' : Disk) (Q : Nat) : Prop :=
  ∃ d d', dirOf disk Q = some d ∧ dirOf disk' Q = some d' ∧ d'.parent_bno = d.parent_bno ∧
    ∀ name, childOf d' name = childOf d name

theorem walk_congr {D : Nat → Prop} (hD : Closed D st.disk)
    (hsame : ∀ {Q}, D Q → SameWalk st.disk st'.disk Q) {into : Bool} {b : Nat}
    {cwd : List UInt8} {segs : List (List UInt8)} (hb : D b) :
    (walk into st' b cwd segs).2 = (walk into st b cwd segs).2 := by
  induction segs generalizing st st' b cwd with
  | nil => rfl
  | cons seg rest ih =>
    obtain ⟨d, d', hd, hd', hpar, hchild⟩ := hsame hb
    have hD' : Closed D (ensure_ready st).disk := by rwa [ensure_ready_disk]
    have hsame' : ∀ {Q}, D Q → SameWalk (ensure_ready st).disk (ensure_ready st').disk Q := by
      intro Q hQ
      rw [ensure_ready_disk, ensure_ready_disk]
      exact hsame hQ
    unfold walk
    rw [load_current_dir_eq, load_current_dir_eq, hd, hd']
    simp only [Option.map_some, ofDisk_parent_bno, hpar]
    split
    · rfl
    split
    · exact ih hD hsame hb
    split
    · exact ih hD' hsame' (hD.parent hb hd)
    split
    · rfl
    have hc := hchild seg
    unfold childOf at hc
    rcases hf : find_entry_index (DirBlock.ofDisk d) seg (some 1) with _ | i
    · rw [hf, Option.map_none, Option.map_eq_none_iff] at hc
      rw [hc]
    · rw [hf, Option.map_some, Option.map_eq_some_iff] at hc
      obtain ⟨i', hf', hbno⟩ := hc
      have hname := (find_entry_index_eq_some.mp hf).1.2.2
      have hname' := (find_entry_index_eq_some.mp hf').1.2.2
      rw [hf']
      simp only [hbno, hname, hname']
      exact ih hD' hsame' (hD.child hb (dirChild_of_find hd hf))

theorem resolve_fs_target_congr {D : Nat → Prop} (hD : Closed D st.disk)
    (hsame : ∀ {Q}, D Q → SameWalk st.disk st'.disk Q) {w : Window} (hw : D (orRoot w.cwd_bno))
    (input : List UInt8) :
    (resolve_fs_target st' w input).2 = (resolve_fs_target st w input).2 := by
  unfold resolve_fs_target
  dsimp only
  split
  · rfl
  generalize hstart : (if lit ['r', 'o', 'o', 't', '/'] <+: _ then _ else _ :
    Nat × List UInt8 × List UInt8) = start
  have hb : D start.1 := by
    rw [← hstart]
    split
    · split
      · exact hD.root
      split <;> exact hD.root
    · split
      · exact hD.root
      split
      · exact hD.root
      · exact hw
  have h := @walk_congr _ st st' D hD hsame false start.1 start.2.1
    (pathSegments [] start.2.2) hb
  rcases hr : walk false st start.1 start.2.1 (pathSegments [] start.2.2) with ⟨s1, _ | e1⟩ <;>
    rcases hr' : walk false st' start.1 start.2.1 (pathSegments [] start.2.2) with ⟨s2, _ | e2⟩ <;>
    rw [hr, hr'] at h
  · cases h
  · cases h
  · cases h
    rfl

theorem file_target_of_resolve {w : Window} {name : List UInt8}
    (h : (resolve_fs_target st' w name).2 = (resolve_fs_target st w name).2) (b : Nat) :
    (file_target st' w name b).2 = (file_target st w name b).2 := by
  unfold file_target
  split
  · rcases hr : resolve_fs_target st w name with ⟨s1, _ | ⟨b1, c1, l1⟩⟩ <;>
      rcases hr' : resolve_fs_target st' w name with ⟨s2, _ | ⟨b2, c2, l2⟩⟩ <;>
      rw [hr, hr'] at h
    · cases h
    · cases h
    · cases h
      rfl
  · rfl

theorem file_target_congr {D : Nat → Prop} (hD : Closed D st.disk)
    (hsame : ∀ {Q}, D Q → SameWalk st.disk st'.disk Q) {w : Window} (hw : D (orRoot w.cwd_bno))
    (name : List UInt8) (b : Nat) :
    (file_target st' w name b).2 = (file_target st w name b).2 :=
  file_target_of_resolve (resolve_fs_target_congr hD hsame hw name) b

/-! ## Loads -/

/-- The file entry of directory `P` under a name, or the error code of a load. -/
def fileAt (disk : Disk) (P : Nat) (leaf : List UInt8) : Except Int FileEntry :=
  match dirOf disk P with
  | none => .error (-1)
  | some d =>
    match find_entry_index (DirBlock.ofDisk d) leaf (some 0) with
    | none => .error (-2)
    | some i => .ok ((DirBlock.ofDisk d).entries i)

/-- What `load_file_bytes` gives for a name in directory `P`. -/
def loadAt (disk : Disk) (P : Nat) (leaf : List UInt8) (max_size : Nat) : Int × List UInt8 :=
  match fileAt disk P leaf with
  | .error rc => (rc, [])
  | .ok e => if max_size < e.size then (-3, []) else (0, load_loop disk e.size e.bno)

/-- What `load_file_bytes_alloc` gives for a name in directory `P`. -/
def loadAllocAt (malloc : Nat → Bool) (disk : Disk) (P : Nat) (leaf : List UInt8) :
    Int × List UInt8 :=
  match fileAt disk P leaf with
  | .error rc => (rc, [])
  | .ok e =>
    if malloc (if e.size = 0 then 1 else e.size) = false then (-4, [])
    else if e.bno = 0 then (0, [])
    else if (load_loop disk e.size e.bno).length ≠ e.size then (-5, [])
    else (0, load_loop disk e.size e.bno)

theorem load_entry_eq (st : FsState) (w : Window) (name : List UInt8) :
    (load_entry st w name).1.disk = st.disk ∧ (load_entry st w name).2 =
      match (file_target st w name w.cwd_bno).2 with
      | none => .error (-1)
      | some (P, leaf) => fileAt st.disk P leaf := by
  have hdisk := file_target_disk st w name w.cwd_bno
  unfold load_entry
  rcases ht : file_target st w name w.cwd_bno with ⟨s1, _ | ⟨P, leaf⟩⟩ <;> rw [ht] at hdisk
  · exact ⟨hdisk, rfl⟩
  · dsimp only at hdisk ⊢
    rw [load_current_dir_eq, hdisk]
    unfold fileAt
    rcases dirOf st.disk P with _ | d
    · exact ⟨by simpa using hdisk, rfl⟩
    · simp only [Option.map_some]
      rcases find_entry_index (DirBlock.ofDisk d) leaf (some 0) with _ | i
      · exact ⟨by simpa using hdisk, rfl⟩
      · exact ⟨by simpa using hdisk, rfl⟩

theorem load_file_bytes_eq (st : FsState) (w : Window) (name : List UInt8) (max_size : Nat) :
    load_file_bytes st w name max_size =
      match (file_target st w name w.cwd_bno).2 with
      | none => (-1, [])
      | some (P, leaf) => loadAt st.disk P leaf max_size := by
  obtain ⟨h1, h2⟩ := load_entry_eq st w name
  unfold load_file_bytes
  rcases hl : load_entry st w name with ⟨s1, r⟩
  rw [hl] at h1 h2
  dsimp only at h1 h2
  subst h2
  rcases (file_target st w name w.cwd_bno).2 with _ | ⟨P, leaf⟩
  · rfl
  · unfold loadAt
    dsimp only
    rcases fileAt st.disk P leaf with rc | e
    · rfl
    · dsimp only
      rw [h1]

theorem load_file_bytes_alloc_eq (malloc : Nat → Bool) (st : FsState) (w : Window)
    (name : List UInt8) :
    load_file_bytes_alloc malloc st w name =
      match (file_target st w name w.cwd_bno).2 with
      | none => (-1, [])
      | some (P, leaf) => loadAllocAt malloc st.disk P leaf := by
  obtain ⟨h1, h2⟩ := load_entry_eq st w name
  unfold load_file_bytes_alloc
  rcases hl : load_entry st w name with ⟨s1, r⟩
  rw [hl] at h1 h2
  dsimp only at h1 h2
  subst h2
  rcases (file_target st w name w.cwd_bno).2 with _ | ⟨P, leaf⟩
  · rfl
  · unfold loadAllocAt
    dsimp only
    rcases fileAt st.disk P leaf with rc | e
    · rfl
    · dsimp only
      rw [h1]

omit [BuildConfig] in
theorem loadAt_congr {disk disk' : Disk} {P : Nat} {leaf : List UInt8}
    (hfile : fileAt disk' P leaf = fileAt disk P leaf)
    (hload : ∀ e, fileAt disk P leaf = .ok e →
      load_loop disk' e.size e.bno = load_loop disk e.size e.bno) :
    (∀ n, loadAt disk' P leaf n = loadAt disk P leaf n) ∧
      ∀ malloc, loadAllocAt malloc disk' P leaf = loadAllocAt malloc disk P leaf := by
  unfold loadAt loadAllocAt
  rw [hfile]
  rcases hf : fileAt disk P leaf with rc | e
  · exact ⟨fun _ => rfl, fun _ => rfl⟩
  · simp only [hload e hf, implies_true, and_self]

end

end vibeos.fs
