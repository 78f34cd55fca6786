-- The `mkdir` command of user_cmd.c and `local_mkdir_path` of user_fs_shell.c: what each of them
-- does to the disk and the bitmap, what it reports, and when the two do the same.
import Vibeos.PathPlans
import Vibeos.DirNames
import Vibeos.StoreErrors

namespace vibeos.fs

/-! ## The command -/

inductive MkdirReport where
  | usage
  | listed
  | invalidPath
  | runFormat
  | alreadyExists
  | created
  | dirFull
deriving DecidableEq

def MkdirReport.isError : MkdirReport → Bool
  | .invalidPath | .runFormat | .alreadyExists | .dirFull => true
  | _ => false

section

variable [BuildConfig]

/-- `check_dir_and_list`: whether the path is a directory, which is listed then. `none` when
`find_entry_index` reads through a null pointer. -/
def check_dir_and_list (st : FsState) (w : Window) (path : List UInt8) : Option (FsState × Bool) :=
  if path = [] then some (st, false)
  else
    match resolve_editor_target st w (terminal_expand_home_path w.home.bytes path 128) with
    | (st, none) => some (st, false)
    | (st, some (p_bno, _, leaf)) =>
      if leaf = [] ∨ leaf = dotName then
        if p_bno ≠ 0 then some ((load_current_dir st p_bno).1, true) else some (st, false)
      else
        match load_current_dir st p_bno with
        | (_, none) => none
        | (st, some db) =>
          match find_entry_index db leaf none with
          | none => some (st, false)
          | some idx =>
            if (db.entries idx).type = 1 ∧ (db.entries idx).bno ≠ 0 then
              some ((load_current_dir st (db.entries idx).bno).1, true)
            else some (st, false)

/-- The `mkdir` command from its argument on. The block that `balloc` gives is not looked at. -/
def mkdir_command (st : FsState) (w : Window) (path : List UInt8) (now : Nat) :
    Option (MkdirReport × FsState) :=
  let path := path.dropWhile (· == ' '.toUInt8)
  if path = lit ['h'] then some (.usage, st)
  else
    match check_dir_and_list st w path with
    | none => none
    | some (st, true) => some (.listed, st)
    | some (st, false) =>
      match resolve_editor_target st w (terminal_expand_home_path w.home.bytes path 128) with
      | (st, none) => some (.invalidPath, st)
      | (st, some (p_bno, _, leaf)) =>
        if leaf = [] then some (.invalidPath, st)
        else
          match load_current_dir st p_bno with
          | (st, none) => some (.runFormat, st)
          | (st, some db) =>
            if find_entry_index db leaf none ≠ none then some (.alreadyExists, st)
            else
              match find_free_entry_index db with
              | none => some (.dirFull, st)
              | some idx =>
                match balloc st with
                | (nb, st) =>
                  let st := write_dir st p_bno (db.setEntry idx (mkdirEntry leaf nb now))
                  some (.created, write_dir st nb (emptyDir p_bno))

/-! ## Outcomes -/

/-- The strings of the command fit `fs_tmp_window.cwd` and `p_cwd`. -/
def mkdir_fits (st : FsState) (w : Window) (path : List UInt8) : Bool :=
  let path := path.dropWhile (· == ' '.toUInt8)
  path = lit ['h'] || editor_fits st w (terminal_expand_home_path w.home.bytes path 128)

/-- The command; `none` also when it writes past a buffer. -/
def mkdir_call (st : FsState) (w : Window) (path : List UInt8) (now : Nat) :
    Option (MkdirReport × FsState) :=
  if mkdir_fits st w path then mkdir_command st w path now else none

/-- The directory and the last name of the path of a mkdir. -/
def mkdirTarget (st : FsState) (w : Window) (path : List UInt8) : Option (Nat × List UInt8) :=
  (resolve_editor_target st w (terminal_expand_home_path w.home.bytes path 128)).2.map
    fun r => (orRoot r.1, r.2.2)

omit [BuildConfig] in
theorem find_entry_index_nil (db : DirBlock) (f : Option Nat) :
    find_entry_index db [] f = none := by
  refine find_entry_index_eq_none.mpr fun i h => ?_
  exact (FileEntry.inUse_iff _).mp h.1 h.2.2

/-- The name is in the directory already. -/
def NameThere (st : FsState) (P : Nat) (leaf : List UInt8) : Prop :=
  ∃ d, dirOf st.disk P = some d ∧ find_entry_index (DirBlock.ofDisk d) leaf none ≠ none

/-- One new directory: a free slot of directory `P` gets an entry of type directory under the name,
and its block was free and becomes an empty directory with parent `P`. Nothing else changes. -/
def MkdirMade (st st' : FsState) (P : Nat) (leaf : List UInt8) (now : Nat) : Prop :=
  ∃ d i nb, dirOf st.disk P = some d ∧ (d.slots i).inUse = false ∧
    nb ≠ P ∧ 60 ≤ nb ∧ nb < FS_MAX_BLOCKS ∧ st.fs_block_map nb = false ∧
    (mkdirEntry leaf nb now).nameStr = leaf ∧
    st'.disk = Function.update
      (Function.update st.disk P (.dir (d.setSlot i (mkdirEntry leaf nb now))))
      nb (.dir (emptyDir P).toDisk) ∧
    st'.fs_block_map = Function.update st.fs_block_map nb true

/-- Neither the disk nor the bitmap changes; a bitmap that was not ready is built from the disk. -/
def DiskKept (st st' : FsState) : Prop := st' = st ∨ st' = ensure_ready st

/-- The first free entry of directory `P` lies inside its block, and the block that `balloc` gives
is not `P` itself. -/
def RoomInside (st : FsState) (P : Nat) (d : DiskDir) : Prop :=
  ∀ i nb, find_free_entry_index (DirBlock.ofDisk d) = some i →
    firstClear (ensure_ready st) = some nb → i.val < DIR_SLOTS ∧ nb ≠ P

/-! ## The walk and the bitmap -/

theorem DiskKept.refl (st : FsState) : DiskKept st st := Or.inl rfl

theorem DiskKept.ready {st st' : FsState} (h : DiskKept st st') :
    ensure_ready st' = ensure_ready st := by
  rcases h with rfl | rfl
  · rfl
  · exact ensure_ready_ensure_ready st

theorem DiskKept.disk {st st' : FsState} (h : DiskKept st st') : st'.disk = st.disk := by
  rcases h with rfl | rfl
  · rfl
  · exact ensure_ready_disk st

theorem DiskKept.ensure {st st' : FsState} (h : DiskKept st st') :
    DiskKept st (ensure_ready st') :=
  Or.inr h.ready

theorem DiskKept.trans {st mid st' : FsState} (h : DiskKept st mid) (h' : DiskKept mid st') :
    DiskKept st st' := by
  rcases h' with rfl | rfl
  · exact h
  · exact h.ensure

theorem walk_kept (into : Bool) (st : FsState) (b : Nat) (cwd : List UInt8)
    (segs : List (List UInt8)) : DiskKept st (walk into st b cwd segs).1 := by
  have hready : ∀ (b : Nat) (cwd : List UInt8) (segs : List (List UInt8)),
      (walk into (ensure_ready st) b cwd segs).1 = ensure_ready st :=
    fun b cwd segs => walk_state (ready_ensure_ready st) into b cwd segs
  induction segs generalizing b cwd with
  | nil => exact .refl st
  | cons seg rest ih =>
    unfold walk
    rw [load_current_dir_eq]
    split
    · exact .refl st
    split
    · exact ih b cwd
    split
    · rcases dirOf st.disk b with _ | d
      · exact Or.inr rfl
      · exact Or.inr (hready _ _ _)
    split
    · exact .refl st
    rcases dirOf st.disk b with _ | d
    · exact Or.inr rfl
    · simp only [Option.map_some]
      split
      · exact Or.inr rfl
      · exact Or.inr (hready _ _ _)

theorem resolve_editor_target_kept (st : FsState) (w : Window) (input : List UInt8) :
    DiskKept st (resolve_editor_target st w input).1 := by
  unfold resolve_editor_target
  dsimp only
  split
  · exact .refl st
  split
  · rename_i h
    rw [← congrArg Prod.fst h]
    exact walk_kept _ _ _ _ _
  · rename_i h
    rw [← congrArg Prod.fst h]
    exact walk_kept _ _ _ _ _

theorem resolve_editor_target_cases (st : FsState) (w : Window) (path : List UInt8) :
    ∃ st1, DiskKept st st1 ∧
      ((mkdirTarget st w path = none ∧ resolve_editor_target st w
          (terminal_expand_home_path w.home.bytes path 128) = (st1, none)) ∨
        ∃ P cwd leaf, P ≠ 0 ∧ mkdirTarget st w path = some (P, leaf) ∧ resolve_editor_target st w
          (terminal_expand_home_path w.home.bytes path 128) = (st1, some (P, cwd, leaf))) := by
  have hun := resolve_editor_target_kept st w (terminal_expand_home_path w.home.bytes path 128)
  have hplan := resolve_editor_target_plan st w (terminal_expand_home_path w.home.bytes path 128)
  unfold mkdirTarget
  rcases hres : resolve_editor_target st w (terminal_expand_home_path w.home.bytes path 128)
    with ⟨st1, _ | ⟨P, cwd, leaf⟩⟩
  · rw [hres] at hun
    exact ⟨st1, hun, Or.inl ⟨rfl, rfl⟩⟩
  · rw [hres] at hun hplan
    have hP : P ≠ 0 := by
      obtain ⟨Q, -, hfind⟩ := Option.bind_eq_some_iff.mp hplan.symm
      obtain ⟨b, -, heq⟩ := Option.map_eq_some_iff.mp hfind
      have hb : orRoot b = P := (Prod.mk.inj heq).1
      rw [← hb]
      exact orRoot_ne_zero b
    refine ⟨st1, hun, Or.inr ⟨P, cwd, leaf, hP, ?_, rfl⟩⟩
    rw [Option.map_some, orRoot_of_ne_zero hP]

/-! ## The new directory -/

theorem mkdir_made {st mid : FsState} {P nb now : Nat} {leaf : List UInt8} {d : DiskDir}
    {i : Fin MAX_DIR_ENTRIES} (hd : dirOf st.disk P = some d)
    (hfree : find_free_entry_index (DirBlock.ofDisk d) = some i) (hi : i.val < DIR_SLOTS)
    (ha : Allocated st mid nb) (hne : nb ≠ P) (hname : (mkdirEntry leaf nb now).nameStr = leaf) :
    MkdirMade st (write_dir (write_dir mid P
      ((DirBlock.ofDisk d).setEntry i (mkdirEntry leaf nb now))) nb (emptyDir P)) P leaf now := by
  have hslot := (find_free_entry_index_eq_some.mp hfree).1
  rw [ofDisk_entries_of_lt d i hi] at hslot
  refine ⟨d, ⟨i.val, hi⟩, nb, hd, hslot, hne, ha.ge_sixty, ha.lt, ha.clear, hname, ?_, ?_⟩
  · unfold write_dir virtio_disk_write
    dsimp only
    rw [ha.disk, toDisk_setEntry_of_lt d i _ hi, Function.update_comm hne, Function.update_idem]
  · exact ha.map

theorem mkdirTarget_name {st : FsState} {w : Window} {path leaf : List UInt8} {P : Nat}
    (hnul : 0 ∉ path) (h : mkdirTarget st w path = some (P, leaf)) (hne : leaf ≠ []) :
    PathName leaf ∧ 0 ∉ leaf := by
  obtain ⟨⟨b, cwd, leaf'⟩, hres, heq⟩ := Option.map_eq_some_iff.mp h
  obtain rfl : leaf' = leaf := (Prod.mk.inj heq).2
  have hfull : resolve_editor_target st w (terminal_expand_home_path w.home.bytes path 128) =
      (_, some (b, cwd, leaf')) := Prod.ext rfl hres
  obtain ⟨hname, hbytes⟩ := resolve_editor_target_leaf hfull hne
  refine ⟨hname, fun h0 => ?_⟩
  exact nul_not_mem_expand 128 w.home.nul_free
    (nul_not_mem_expand 128 w.home.nul_free hnul) (hbytes 0 h0)

theorem Allocated.firstClear_eq {st mid : FsState} {nb : Nat} (h : Allocated st mid nb) :
    firstClear st = some nb :=
  firstClear_eq_some.mpr ⟨h.ge, h.lt, h.clear, h.first⟩

theorem balloc_of_firstClear {st : FsState} {nb : Nat} (hr : st.fs_alloc_ready = true)
    (h : firstClear st = some nb) : ∃ mid, balloc st = (nb, mid) ∧ Allocated st mid nb := by
  rcases balloc_cases hr with ⟨-, hfull⟩ | ⟨nb', mid, hb, ha⟩
  · rw [firstClear_eq_none.mpr hfull] at h
    cases h
  · obtain rfl := Option.some.inj (ha.firstClear_eq.symm.trans h)
    exact ⟨mid, hb, ha⟩

theorem balloc_of_full {st : FsState} (hr : st.fs_alloc_ready = true)
    (h : firstClear st = none) : balloc st = (0, st) := by
  rcases balloc_cases hr with ⟨hb, -⟩ | ⟨nb, mid, -, ha⟩
  · exact hb
  · rw [ha.firstClear_eq] at h
    cases h

/-- A path that `local_mkdir_path` takes for the working directory. -/
def isHere (w : Window) (path : List UInt8) : Prop :=
  terminal_expand_home_path w.home.bytes path 128 = dotName ∨
    terminal_expand_home_path w.home.bytes path 128 = lit ['.', '/']

/-- The call made the directory of the path. -/
def Makes (st st' : FsState) (w : Window) (path : List UInt8) (now : Nat) : Prop :=
  ∃ P leaf, mkdirTarget st w path = some (P, leaf) ∧ leaf ≠ [] ∧ ¬ NameThere st P leaf ∧
    MkdirMade (ensure_ready st) st' P leaf now

/-- The path names an entry that is there already. -/
def TargetThere (st : FsState) (w : Window) (path : List UInt8) : Prop :=
  ∃ P leaf, mkdirTarget st w path = some (P, leaf) ∧ NameThere st P leaf

/-! ## The steps of a mkdir -/

/-- The state after a mkdir that makes its directory: every step from the path to the write of the
new block goes through. -/
def mkdirWrites (st : FsState) (w : Window) (path : List UInt8) (now : Nat) : Option FsState :=
  (mkdirTarget st w path).bind fun (P, leaf) =>
    if leaf = [] then none
    else
      (dirOf st.disk P).bind fun d =>
        if find_entry_index (DirBlock.ofDisk d) leaf none ≠ none then none
        else
          (find_free_entry_index (DirBlock.ofDisk d)).bind fun i =>
            match balloc (ensure_ready st) with
            | (nb, st) =>
              if nb = 0 then none
              else
                some (write_dir (write_dir st P
                  ((DirBlock.ofDisk d).setEntry i (mkdirEntry leaf nb now))) nb (emptyDir P))

theorem mkdirTarget_eq (st : FsState) (w : Window) (path : List UInt8) : mkdirTarget st w path =
    (((editorPlan w.home.bytes (terminal_expand_home_path w.home.bytes path 128)).bind fun P =>
      P.find st.disk w.cwd_bno).map fun r => (orRoot r.1, r.2)) := by
  rw [← resolve_editor_target_plan, Option.map_map]
  rfl

theorem mkdirTarget_kept {st st' : FsState} (h : DiskKept st st') (w : Window)
    (path : List UInt8) : mkdirTarget st' w path = mkdirTarget st w path := by
  rw [mkdirTarget_eq, mkdirTarget_eq, h.disk]

theorem mkdirTarget_nil (st : FsState) (w : Window) : mkdirTarget st w [] = none := by
  unfold mkdirTarget resolve_editor_target
  rfl

theorem mkdirTarget_here {st : FsState} {w : Window} {path : List UInt8} (h : isHere w path) :
    ∃ P, mkdirTarget st w path = some (P, []) := by
  have hplan : editorPlan w.home.bytes (terminal_expand_home_path w.home.bytes path 128) =
      some ⟨false, [], []⟩ := by
    rcases h with h | h <;> rw [h] <;> rfl
  have hres := resolve_editor_target_plan st w (terminal_expand_home_path w.home.bytes path 128)
  rw [hplan] at hres
  obtain ⟨r, hr, heq⟩ := Option.map_eq_some_iff.mp hres
  refine ⟨orRoot r.1, ?_⟩
  unfold mkdirTarget
  rw [hr, Option.map_some, (Prod.mk.inj heq).2]

theorem mkdirWrites_nil {st : FsState} {w : Window} {path : List UInt8} {P : Nat}
    (h : mkdirTarget st w path = some (P, [])) (now : Nat) : mkdirWrites st w path now = none := by
  unfold mkdirWrites
  rw [h]
  rfl

theorem mkdirWrites_none {st : FsState} {w : Window} {path : List UInt8}
    (h : mkdirTarget st w path = none) (now : Nat) : mkdirWrites st w path now = none := by
  unfold mkdirWrites
  rw [h]
  rfl

theorem mkdirWrites_eq_some {st st' : FsState} {w : Window} {path : List UInt8} {now : Nat}
    (h : mkdirWrites st w path now = some st') : ∃ P leaf d i nb mid,
      mkdirTarget st w path = some (P, leaf) ∧ leaf ≠ [] ∧ dirOf st.disk P = some d ∧
      find_entry_index (DirBlock.ofDisk d) leaf none = none ∧
      find_free_entry_index (DirBlock.ofDisk d) = some i ∧
      balloc (ensure_ready st) = (nb, mid) ∧ nb ≠ 0 ∧
      st' = write_dir (write_dir mid P ((DirBlock.ofDisk d).setEntry i (mkdirEntry leaf nb now)))
        nb (emptyDir P) := by
  unfold mkdirWrites at h
  obtain ⟨⟨P, leaf⟩, htarget, h⟩ := Option.bind_eq_some_iff.mp h
  dsimp only at h
  by_cases hleaf : leaf = []
  · rw [if_pos hleaf] at h
    cases h
  rw [if_neg hleaf] at h
  obtain ⟨d, hd, h⟩ := Option.bind_eq_some_iff.mp h
  by_cases hfind : find_entry_index (DirBlock.ofDisk d) leaf none ≠ none
  · rw [if_pos hfind] at h
    cases h
  rw [if_neg hfind] at h
  obtain ⟨i, hfree, h⟩ := Option.bind_eq_some_iff.mp h
  rcases hb : balloc (ensure_ready st) with ⟨nb, mid⟩
  rw [hb] at h
  dsimp only at h
  by_cases hnb : nb = 0
  · rw [if_pos hnb] at h
    cases h
  rw [if_neg hnb] at h
  exact ⟨P, leaf, d, i, nb, mid, htarget, hleaf, hd, not_not.mp hfind, hfree, rfl, hnb,
    (Option.some.inj h).symm⟩

theorem mkdirWrites_eq {st : FsState} {w : Window} {path leaf : List UInt8} {P : Nat}
    {d : DiskDir} (htarget : mkdirTarget st w path = some (P, leaf)) (hleaf : leaf ≠ [])
    (hd : dirOf st.disk P = some d)
    (hfind : find_entry_index (DirBlock.ofDisk d) leaf none = none) (now : Nat) :
    mkdirWrites st w path now = (find_free_entry_index (DirBlock.ofDisk d)).bind fun i =>
      if (balloc (ensure_ready st)).1 = 0 then none
      else some (write_dir (write_dir (balloc (ensure_ready st)).2 P ((DirBlock.ofDisk d).setEntry i
        (mkdirEntry leaf (balloc (ensure_ready st)).1 now))) (balloc (ensure_ready st)).1
        (emptyDir P)) := by
  unfold mkdirWrites
  rw [htarget, Option.bind_some]
  dsimp only
  rw [if_neg hleaf, hd, Option.bind_some, if_neg (not_not.mpr hfind)]

/-- The slot of the new entry tells the write behind the block, and the one over its own parent,
from the making of a directory. -/
theorem MkdirMade.shows {st st' : FsState} {P now : Nat} {leaf : List UInt8} {d : DiskDir}
    (h : MkdirMade st st' P leaf now) (hd : dirOf st.disk P = some d) (hleaf : leaf ≠ []) :
    ∃ d' i, st'.disk P = .dir d' ∧ (d'.slots i).inUse = true ∧ (d.slots i).inUse = false := by
  obtain ⟨d0, i, nb, hd0, hfree, hne, -, -, -, hname, hdisk, -⟩ := h
  obtain rfl : d = d0 := Option.some.inj (hd.symm.trans hd0)
  refine ⟨d.setSlot i (mkdirEntry leaf nb now), i, ?_, ?_, hfree⟩
  · rw [hdisk, Function.update_of_ne hne.symm, Function.update_self]
  · have hslot : (d.setSlot i (mkdirEntry leaf nb now)).slots i = mkdirEntry leaf nb now :=
      Function.update_self ..
    rw [hslot, FileEntry.inUse_iff, hname]
    exact hleaf

/-- The writes of a mkdir make its directory exactly when the slot lies inside the block and the new
block is not the directory itself. -/
theorem makes_iff {st mid : FsState} {w : Window} {path leaf : List UInt8} {P nb now : Nat}
    {d : DiskDir} {i : Fin MAX_DIR_ENTRIES} (hnul : 0 ∉ path)
    (htarget : mkdirTarget st w path = some (P, leaf)) (hleaf : leaf ≠ [])
    (hd : dirOf st.disk P = some d)
    (hfind : find_entry_index (DirBlock.ofDisk d) leaf none = none)
    (hfree : find_free_entry_index (DirBlock.ofDisk d) = some i)
    (ha : Allocated (ensure_ready st) mid nb) :
    Makes st (write_dir (write_dir mid P ((DirBlock.ofDisk d).setEntry i (mkdirEntry leaf nb now)))
      nb (emptyDir P)) w path now ↔ i.val < DIR_SLOTS ∧ nb ≠ P := by
  have hd' : dirOf (ensure_ready st).disk P = some d := by rwa [ensure_ready_disk]
  constructor
  · rintro ⟨P', leaf', htarget', -, -, hmade⟩
    cases htarget.symm.trans htarget'
    obtain ⟨d', j, hafter, hused, hslot⟩ := hmade.shows hd' hleaf
    have hP : nb ≠ P := by
      rintro rfl
      unfold write_dir virtio_disk_write at hafter
      dsimp only at hafter
      rw [Function.update_self] at hafter
      cases hafter
      cases hused
    refine ⟨?_, hP⟩
    by_contra hge
    unfold write_dir virtio_disk_write at hafter
    dsimp only at hafter
    rw [Function.update_of_ne hP.symm, Function.update_self] at hafter
    cases hafter
    rw [toDisk_setEntry_of_ge d i _ (Nat.not_lt.mp hge), hslot] at hused
    cases hused
  · rintro ⟨hi, hne⟩
    obtain ⟨hname, h0⟩ := mkdirTarget_name hnul htarget hleaf
    refine ⟨P, leaf, htarget, hleaf, ?_, mkdir_made hd' hfree hi ha hne (cstr_pathName hname h0)⟩
    rintro ⟨d', hthere, hfound⟩
    obtain rfl : d = d' := Option.some.inj (hd.symm.trans hthere)
    exact hfound hfind

/-! ## The two functions -/

theorem local_mkdir_path_steps (st : FsState) (w : Window) (path : List UInt8) (now : Nat) :
    ((local_mkdir_path st w path now).1 = 0 ∧
      mkdirWrites st w path now = some (local_mkdir_path st w path now).2) ∨
    (mkdirWrites st w path now = none ∧ DiskKept st (local_mkdir_path st w path now).2 ∧
      ((local_mkdir_path st w path now).1 = -1 ∨
        (local_mkdir_path st w path now).1 = 0 ∧ (isHere w path ∨ TargetThere st w path))) := by
  unfold local_mkdir_path
  by_cases hnil : path = []
  · subst hnil
    exact Or.inr ⟨mkdirWrites_none (mkdirTarget_nil st w) now, .refl st, Or.inl rfl⟩
  rw [if_neg hnil]
  dsimp only
  by_cases hhere : terminal_expand_home_path w.home.bytes path 128 = dotName ∨
      terminal_expand_home_path w.home.bytes path 128 = lit ['.', '/']
  · obtain ⟨P, hP⟩ := @mkdirTarget_here _ st w path hhere
    rw [if_pos hhere]
    exact Or.inr ⟨mkdirWrites_nil hP now, .refl st, Or.inr ⟨rfl, Or.inl hhere⟩⟩
  rw [if_neg hhere]
  obtain ⟨st1, hun, ⟨htarget, hres⟩ | ⟨P, cwd, leaf, hP, htarget, hres⟩⟩ :=
    resolve_editor_target_cases st w path
  · rw [hres]
    exact Or.inr ⟨mkdirWrites_none htarget now, hun, Or.inl rfl⟩
  rw [hres]
  dsimp only
  by_cases hleaf : leaf = []
  · subst hleaf
    exact Or.inr ⟨mkdirWrites_nil htarget now, hun, Or.inl rfl⟩
  rw [if_neg hleaf, orRoot_of_ne_zero hP, load_current_dir_eq, hun.ready, hun.disk]
  unfold mkdirWrites
  rw [htarget, Option.bind_some]
  dsimp only
  rw [if_neg hleaf]
  rcases hd : dirOf st.disk P with _ | d
  · exact Or.inr ⟨rfl, Or.inr rfl, Or.inl rfl⟩
  rw [Option.map_some, Option.bind_some]
  dsimp only
  by_cases hfind : find_entry_index (DirBlock.ofDisk d) leaf none ≠ none
  · rw [if_pos hfind, if_pos hfind]
    exact Or.inr ⟨rfl, Or.inr rfl, Or.inr ⟨rfl, Or.inr ⟨P, leaf, htarget, d, hd, hfind⟩⟩⟩
  rw [if_neg hfind, if_neg hfind]
  rcases hfree : find_free_entry_index (DirBlock.ofDisk d) with _ | i
  · exact Or.inr ⟨rfl, Or.inr rfl, Or.inl rfl⟩
  rw [Option.bind_some]
  dsimp only
  rcases balloc_cases (ready_ensure_ready st) with ⟨hb, -⟩ | ⟨nb, mid, hb, ha⟩
  · rw [hb]
    exact Or.inr ⟨rfl, Or.inr rfl, Or.inl rfl⟩
  · rw [hb]
    dsimp only
    rw [if_neg ha.ne_zero, if_neg ha.ne_zero]
    exact Or.inl ⟨rfl, rfl⟩

theorem local_mkdir_path_zero {st : FsState} {w : Window} {path : List UInt8}
    (h : isHere w path ∨ ∃ P leaf, mkdirTarget st w path = some (P, leaf) ∧ leaf ≠ [] ∧
      NameThere st P leaf) (now : Nat) : (local_mkdir_path st w path now).1 = 0 := by
  unfold local_mkdir_path
  have hnil : path ≠ [] := by
    rintro rfl
    rcases h with h | ⟨P, leaf, h, -⟩
    · rcases h with h | h <;> cases h
    · rw [mkdirTarget_nil] at h
      cases h
  rw [if_neg hnil]
  dsimp only
  by_cases hhere : terminal_expand_home_path w.home.bytes path 128 = dotName ∨
      terminal_expand_home_path w.home.bytes path 128 = lit ['.', '/']
  · rw [if_pos hhere]
  obtain ⟨P, leaf, htarget, hleaf, d, hd, hfind⟩ := h.resolve_left hhere
  rw [if_neg hhere]
  obtain ⟨st1, hun, ⟨hnone, -⟩ | ⟨P', cwd, leaf', hP, htarget', hres⟩⟩ :=
    resolve_editor_target_cases st w path
  · rw [hnone] at htarget
    cases htarget
  cases htarget.symm.trans htarget'
  rw [hres]
  dsimp only
  rw [if_neg hleaf, orRoot_of_ne_zero hP, load_current_dir_eq, hun.ready, hun.disk, hd,
    Option.map_some]
  dsimp only
  rw [if_pos hfind]

/-! ## The command -/

/-- The argument of the command without the spaces before it. -/
def mkdirPath (arg : List UInt8) : List UInt8 := arg.dropWhile (· == ' '.toUInt8)

section

variable {st : FsState} {w : Window} {arg : List UInt8}

theorem check_dir_and_list_new {path : List UInt8} (hnul : 0 ∉ path)
    (hnew : ∀ P leaf, mkdirTarget st w path = some (P, leaf) → leaf ≠ [] ∧ ∃ d,
      dirOf st.disk P = some d ∧ find_entry_index (DirBlock.ofDisk d) leaf none = none) :
    ∃ st1, DiskKept st st1 ∧ check_dir_and_list st w path = some (st1, false) := by
  unfold check_dir_and_list
  by_cases hnil : path = []
  · rw [if_pos hnil]
    exact ⟨st, .refl st, rfl⟩
  rw [if_neg hnil]
  obtain ⟨st1, hun, ⟨htarget, hres⟩ | ⟨P, cwd, leaf, hP, htarget, hres⟩⟩ :=
    resolve_editor_target_cases st w path
  · rw [hres]
    exact ⟨st1, hun, rfl⟩
  obtain ⟨hleaf, d, hd, hfind⟩ := hnew P leaf htarget
  have hdot : leaf ≠ dotName := (mkdirTarget_name hnul htarget hleaf).1.ne_dot
  rw [hres]
  dsimp only
  rw [if_neg (not_or.mpr ⟨hleaf, hdot⟩), load_current_dir_eq, hun.disk, hd, Option.map_some]
  dsimp only
  rw [hfind]
  exact ⟨_, hun.ensure, rfl⟩

variable (hh : mkdirPath arg ≠ lit ['h'])

include hh

theorem mkdir_command_invalid (hnul : 0 ∉ mkdirPath arg)
    (htarget : mkdirTarget st w (mkdirPath arg) = none) (now : Nat) :
    ∃ st', mkdir_command st w arg now = some (.invalidPath, st') ∧ DiskKept st st' := by
  obtain ⟨st1, hun, hcheck⟩ := @check_dir_and_list_new _ st w _ hnul fun P leaf h => by
    rw [htarget] at h
    cases h
  rw [← mkdirTarget_kept hun] at htarget
  obtain ⟨st2, hun2, ⟨-, hres⟩ | ⟨P, cwd, leaf, -, hsome, -⟩⟩ :=
    resolve_editor_target_cases st1 w (mkdirPath arg)
  · refine ⟨st2, ?_, hun.trans hun2⟩
    unfold mkdir_command mkdirPath at *
    dsimp only
    rw [if_neg hh, hcheck]
    dsimp only
    rw [hres]
  · rw [htarget] at hsome
    cases hsome

theorem mkdir_command_here {P : Nat} (htarget : mkdirTarget st w (mkdirPath arg) = some (P, []))
    (now : Nat) : (mkdir_command st w arg now).map Prod.fst = some .listed := by
  have hcheck : ∃ st1, check_dir_and_list st w (mkdirPath arg) = some (st1, true) := by
    have hnil : mkdirPath arg ≠ [] := by
      intro h
      rw [h, mkdirTarget_nil] at htarget
      cases htarget
    obtain ⟨st1, -, ⟨hnone, -⟩ | ⟨P', cwd, leaf, hP, htarget', hres⟩⟩ :=
      resolve_editor_target_cases st w (mkdirPath arg)
    · rw [hnone] at htarget
      cases htarget
    cases htarget.symm.trans htarget'
    unfold check_dir_and_list
    rw [if_neg hnil, hres]
    dsimp only
    rw [if_pos (Or.inl rfl), if_pos hP]
    exact ⟨_, rfl⟩
  obtain ⟨st1, hcheck⟩ := hcheck
  unfold mkdir_command mkdirPath at *
  dsimp only
  rw [if_neg hh, hcheck]
  rfl

variable {P : Nat} {leaf : List UInt8} (hnul : 0 ∉ mkdirPath arg)
  (htarget : mkdirTarget st w (mkdirPath arg) = some (P, leaf)) (hleaf : leaf ≠ [])

include hnul htarget hleaf

theorem mkdir_command_null (hd : dirOf st.disk P = none) (now : Nat) :
    mkdir_command st w arg now = none := by
  have hcheck : check_dir_and_list st w (mkdirPath arg) = none := by
    have hnil : mkdirPath arg ≠ [] := by
      intro h
      rw [h, mkdirTarget_nil] at htarget
      cases htarget
    obtain ⟨st1, hun, ⟨hnone, -⟩ | ⟨P', cwd, leaf', hP, htarget', hres⟩⟩ :=
      resolve_editor_target_cases st w (mkdirPath arg)
    · rw [hnone] at htarget
      cases htarget
    cases htarget.symm.trans htarget'
    have hdot : leaf ≠ dotName := (mkdirTarget_name hnul htarget hleaf).1.ne_dot
    unfold check_dir_and_list
    rw [if_neg hnil, hres]
    dsimp only
    rw [if_neg (not_or.mpr ⟨hleaf, hdot⟩), load_current_dir_eq, hun.disk, hd]
    rfl
  unfold mkdir_command mkdirPath at *
  dsimp only
  rw [if_neg hh, hcheck]

theorem mkdir_command_new {d : DiskDir} (hd : dirOf st.disk P = some d)
    (hfind : find_entry_index (DirBlock.ofDisk d) leaf none = none) (now : Nat) :
    mkdir_command st w arg now = some (match find_free_entry_index (DirBlock.ofDisk d) with
      | none => (.dirFull, ensure_ready st)
      | some i => (.created, write_dir (write_dir (balloc (ensure_ready st)).2 P
          ((DirBlock.ofDisk d).setEntry i (mkdirEntry leaf (balloc (ensure_ready st)).1 now)))
          (balloc (ensure_ready st)).1 (emptyDir P))) := by
  obtain ⟨st1, hun, hcheck⟩ := @check_dir_and_list_new _ st w _ hnul fun P' leaf' h => by
    cases htarget.symm.trans h
    exact ⟨hleaf, d, hd, hfind⟩
  obtain ⟨st2, hun2, ⟨hnone, -⟩ | ⟨P', cwd, leaf', hP, htarget', hres⟩⟩ :=
    resolve_editor_target_cases st1 w (mkdirPath arg)
  · rw [mkdirTarget_kept hun, htarget] at hnone
    cases hnone
  rw [mkdirTarget_kept hun] at htarget'
  cases htarget.symm.trans htarget'
  unfold mkdir_command mkdirPath at *
  dsimp only
  rw [if_neg hh, hcheck]
  dsimp only
  rw [hres]
  dsimp only
  rw [if_neg hleaf, load_current_dir_eq, (hun.trans hun2).ready, (hun.trans hun2).disk, hd,
    Option.map_some]
  dsimp only
  rw [if_neg (not_not.mpr hfind)]
  rcases find_free_entry_index (DirBlock.ofDisk d) with _ | i
  · rfl
  · rfl

end

/-! ## When both do what they promise -/

/-- What is asked of `local_mkdir_path`: 0 with the new directory, or a failure with nothing
changed. -/
def LocalRight (st : FsState) (w : Window) (path : List UInt8) (now : Nat) (r : Int × FsState) :
    Prop :=
  (r.1 = 0 ∧ Makes st r.2 w path now) ∨ r.1 ≠ 0 ∧ DiskKept st r.2

/-- What is asked of the command: it makes the new directory, as `local_mkdir_path` does, or reports
an error with nothing changed, where `local_mkdir_path` fails too. -/
def CommandRight (st : FsState) (w : Window) (arg : List UInt8) (now : Nat)
    (r : MkdirReport × FsState) (l : Int × FsState) : Prop :=
  (r.1 = .created ∧ Makes st r.2 w (mkdirPath arg) now ∧ l = (0, r.2)) ∨
    r.1.isError = true ∧ DiskKept st r.2 ∧ l.1 ≠ 0 ∧ DiskKept st l.2

/-- The path is not the working directory, and in a directory its last name is new and has room. -/
def LocalCond (st : FsState) (w : Window) (path : List UInt8) : Prop :=
  ¬ isHere w path ∧ ∀ P leaf d, mkdirTarget st w path = some (P, leaf) → leaf ≠ [] →
    dirOf st.disk P = some d →
    find_entry_index (DirBlock.ofDisk d) leaf none = none ∧ RoomInside st P d

/-- The path is not `h`, and where it leads it has a last name, which is new in a directory that has
room or no free entry, and then there is a free block. -/
def CommandCond (st : FsState) (w : Window) (path : List UInt8) : Prop :=
  path ≠ lit ['h'] ∧ ∀ P leaf, mkdirTarget st w path = some (P, leaf) → leaf ≠ [] ∧ ∃ d,
    dirOf st.disk P = some d ∧ find_entry_index (DirBlock.ofDisk d) leaf none = none ∧
    RoomInside st P d ∧ (find_free_entry_index (DirBlock.ofDisk d) ≠ none →
      firstClear (ensure_ready st) ≠ none)

theorem makes_of_mkdirWrites {st st' : FsState} {w : Window} {path : List UInt8} {now : Nat}
    (hnul : 0 ∉ path)
    (hroom : ∀ P leaf d, mkdirTarget st w path = some (P, leaf) → leaf ≠ [] →
      dirOf st.disk P = some d → RoomInside st P d)
    (h : mkdirWrites st w path now = some st') : Makes st st' w path now := by
  obtain ⟨P, leaf, d, i, nb, mid, htarget, hleaf, hd, hfind, hfree, hb, hnb, rfl⟩ :=
    mkdirWrites_eq_some h
  rcases balloc_cases (ready_ensure_ready st) with ⟨hzero, -⟩ | ⟨nb', mid', hb', ha⟩
  · exact absurd (congrArg Prod.fst (hb.symm.trans hzero)) hnb
  · obtain ⟨rfl, rfl⟩ := Prod.mk.inj (hb.symm.trans hb')
    exact (makes_iff hnul htarget hleaf hd hfind hfree ha).mpr
      (hroom P leaf d htarget hleaf hd i nb hfree ha.firstClear_eq)

theorem local_mkdir_path_fails {st : FsState} {w : Window} {path : List UInt8} {now : Nat}
    (hnone : mkdirWrites st w path now = none) (hhere : ¬ isHere w path)
    (hthere : ¬ TargetThere st w path) :
    (local_mkdir_path st w path now).1 ≠ 0 ∧ DiskKept st (local_mkdir_path st w path now).2 := by
  rcases local_mkdir_path_steps st w path now with ⟨-, hw⟩ | ⟨-, hkept, hrc | ⟨-, h | h⟩⟩
  · rw [hnone] at hw
    cases hw
  · rw [hrc]
    exact ⟨by decide, hkept⟩
  · exact absurd h hhere
  · exact absurd h hthere

theorem local_mkdir_path_no_room {st : FsState} {w : Window} {path leaf : List UInt8} {P now : Nat}
    {d : DiskDir} (htarget : mkdirTarget st w path = some (P, leaf)) (hleaf : leaf ≠ [])
    (hd : dirOf st.disk P = some d)
    (hfind : find_entry_index (DirBlock.ofDisk d) leaf none = none)
    (hnone : mkdirWrites st w path now = none) :
    (local_mkdir_path st w path now).1 ≠ 0 ∧
      DiskKept st (local_mkdir_path st w path now).2 := by
  refine local_mkdir_path_fails hnone (fun hhere => ?_) ?_
  · obtain ⟨P', hP⟩ := @mkdirTarget_here _ st w _ hhere
    cases htarget.symm.trans hP
    exact hleaf rfl
  · rintro ⟨P', leaf', ht, d', hd', hfound⟩
    cases htarget.symm.trans ht
    cases hd.symm.trans hd'
    exact hfound hfind

theorem local_right_iff {st : FsState} {w : Window} {path : List UInt8} (hnul : 0 ∉ path)
    (now : Nat) :
    LocalRight st w path now (local_mkdir_path st w path now) ↔ LocalCond st w path := by
  constructor
  · intro h
    refine ⟨fun hhere => ?_, fun P leaf d htarget hleaf hd => ?_⟩
    · have hzero := @local_mkdir_path_zero _ st w path (Or.inl hhere) now
      obtain ⟨P, hP⟩ := @mkdirTarget_here _ st w path hhere
      rcases h with ⟨-, P', leaf, ht, hne, -⟩ | ⟨hrc, -⟩
      · cases hP.symm.trans ht
        exact hne rfl
      · exact hrc hzero
    have hfind : find_entry_index (DirBlock.ofDisk d) leaf none = none := by
      by_contra hfound
      have hthere : NameThere st P leaf := ⟨d, hd, hfound⟩
      rcases h with ⟨-, P', leaf', ht, -, hno, -⟩ | ⟨hrc, -⟩
      · cases htarget.symm.trans ht
        exact hno hthere
      · exact hrc (local_mkdir_path_zero (Or.inr ⟨P, leaf, htarget, hleaf, hthere⟩) now)
    refine ⟨hfind, fun i nb hfree hclear => ?_⟩
    obtain ⟨mid, hb, ha⟩ := balloc_of_firstClear (ready_ensure_ready st) hclear
    have hw := mkdirWrites_eq htarget hleaf hd hfind now
    rw [hfree, hb, Option.bind_some, if_neg ha.ne_zero] at hw
    rcases local_mkdir_path_steps st w path now with ⟨hrc, hw'⟩ | ⟨hnone, -⟩
    · rcases h with ⟨-, hmakes⟩ | ⟨hne, -⟩
      · rw [← Option.some.inj (hw.symm.trans hw')] at hmakes
        exact (makes_iff hnul htarget hleaf hd hfind hfree ha).mp hmakes
      · exact absurd hrc hne
    · rw [hw] at hnone
      cases hnone
  · rintro ⟨hhere, hcond⟩
    rcases local_mkdir_path_steps st w path now with ⟨hrc, hw⟩ | ⟨hnone, -⟩
    · exact Or.inl ⟨hrc, makes_of_mkdirWrites hnul
        (fun P leaf d ht hne hd => (hcond P leaf d ht hne hd).2) hw⟩
    · refine Or.inr (local_mkdir_path_fails hnone hhere ?_)
      rintro ⟨P, leaf, htarget, d, hd, hfound⟩
      refine hfound (hcond P leaf d htarget ?_ hd).1
      rintro rfl
      exact hfound (find_entry_index_nil _ _)

theorem command_right_of_new {st : FsState} {w : Window} {arg leaf : List UInt8} {P : Nat}
    {d : DiskDir} (hh : mkdirPath arg ≠ lit ['h']) (hnul : 0 ∉ mkdirPath arg)
    (htarget : mkdirTarget st w (mkdirPath arg) = some (P, leaf)) (hleaf : leaf ≠ [])
    (hd : dirOf st.disk P = some d)
    (hfind : find_entry_index (DirBlock.ofDisk d) leaf none = none) (now : Nat) :
    (∃ r, mkdir_command st w arg now = some r ∧
      CommandRight st w arg now r (local_mkdir_path st w (mkdirPath arg) now)) ↔
    RoomInside st P d ∧ (find_free_entry_index (DirBlock.ofDisk d) ≠ none →
      firstClear (ensure_ready st) ≠ none) := by
  have hcmd := mkdir_command_new hh hnul htarget hleaf hd hfind now
  have hwrites := mkdirWrites_eq htarget hleaf hd hfind now
  rcases hfree : find_free_entry_index (DirBlock.ofDisk d) with _ | i
  · -- no entry is free: both fail
    rw [hfree] at hcmd hwrites
    refine ⟨fun _ => ⟨fun i nb hi => ?_, fun h => absurd rfl h⟩, fun _ => ⟨_, hcmd, Or.inr
      ⟨rfl, Or.inr rfl, local_mkdir_path_no_room htarget hleaf hd hfind hwrites⟩⟩⟩
    rw [hfree] at hi
    cases hi
  rw [hfree] at hcmd hwrites
  rcases hclear : firstClear (ensure_ready st) with _ | nb
  · -- the disk is full: only `local_mkdir_path` looks at the block
    rw [balloc_of_full (ready_ensure_ready st) hclear, Option.bind_some, if_pos rfl] at hwrites
    refine ⟨?_, fun h => absurd rfl (h.2 (Option.some_ne_none i))⟩
    rintro ⟨r, hcmd', hright⟩
    cases hcmd.symm.trans hcmd'
    rcases hright with ⟨-, -, hlocal⟩ | ⟨h, -⟩
    · exact absurd (congrArg Prod.fst hlocal) (local_mkdir_path_no_room htarget hleaf hd hfind hwrites).1
    · cases h
  obtain ⟨mid, hb, ha⟩ := balloc_of_firstClear (ready_ensure_ready st) hclear
  rw [hb, Option.bind_some, if_neg ha.ne_zero] at hwrites
  rw [hb] at hcmd
  have hmakes : Makes st _ w (mkdirPath arg) now ↔ _ :=
    makes_iff hnul htarget hleaf hd hfind hfree ha
  have hroom : RoomInside st P d ↔ i.val < DIR_SLOTS ∧ nb ≠ P := by
    refine ⟨fun h => h i nb hfree hclear, fun h i' nb' hi' hnb' => ?_⟩
    cases hfree.symm.trans hi'
    cases hclear.symm.trans hnb'
    exact h
  rw [hroom, ← hmakes]
  constructor
  · rintro ⟨r, hcmd', hright⟩
    cases hcmd.symm.trans hcmd'
    rcases hright with ⟨-, h, -⟩ | ⟨h, -⟩
    · exact ⟨h, fun _ => Option.some_ne_none nb⟩
    · cases h
  · rintro ⟨h, -⟩
    refine ⟨_, hcmd, Or.inl ⟨rfl, h, ?_⟩⟩
    rcases local_mkdir_path_steps st w (mkdirPath arg) now with ⟨hrc, hw⟩ | ⟨hnone, -⟩
    · exact Prod.ext hrc (Option.some.inj (hwrites.symm.trans hw)).symm
    · rw [hwrites] at hnone
      cases hnone

theorem command_right_iff {st : FsState} {w : Window} {arg : List UInt8}
    (hnul : 0 ∉ mkdirPath arg) (now : Nat) :
    (∃ r, mkdir_command st w arg now = some r ∧
      CommandRight st w arg now r (local_mkdir_path st w (mkdirPath arg) now)) ↔
    CommandCond st w (mkdirPath arg) := by
  by_cases hh : mkdirPath arg = lit ['h']
  · refine ⟨?_, fun h => absurd hh h.1⟩
    rintro ⟨r, hcmd, hright⟩
    unfold mkdir_command at hcmd
    change (if mkdirPath arg = lit ['h'] then _ else _) = _ at hcmd
    rw [if_pos hh] at hcmd
    cases hcmd
    rcases hright with ⟨h, -⟩ | ⟨h, -⟩ <;> cases h
  rcases htarget : mkdirTarget st w (mkdirPath arg) with _ | ⟨P, leaf⟩
  · obtain ⟨st', hcmd, hkept⟩ := mkdir_command_invalid hh hnul htarget now
    have hfails := @local_mkdir_path_fails _ st w (mkdirPath arg) now (mkdirWrites_none htarget now)
      (fun hhere => by
        obtain ⟨P, hP⟩ := @mkdirTarget_here _ st w _ hhere
        rw [htarget] at hP
        cases hP)
      (fun ⟨P, leaf, hP, _⟩ => by
        rw [htarget] at hP
        cases hP)
    exact ⟨fun _ => ⟨hh, fun P leaf h => by cases htarget.symm.trans h⟩,
      fun _ => ⟨_, hcmd, Or.inr ⟨rfl, hkept, hfails⟩⟩⟩
  by_cases hleaf : leaf = []
  · subst hleaf
    refine ⟨?_, fun h => absurd rfl (h.2 P [] htarget).1⟩
    rintro ⟨r, hcmd, hright⟩
    have hlist := mkdir_command_here hh htarget now
    obtain ⟨rep, st'⟩ := r
    rw [hcmd] at hlist
    cases hlist
    rcases hright with ⟨h, -⟩ | ⟨h, -⟩ <;> cases h
  rcases hd : dirOf st.disk P with _ | d
  · constructor
    · rintro ⟨r, hcmd, -⟩
      rw [mkdir_command_null hh hnul htarget hleaf hd] at hcmd
      cases hcmd
    · rintro ⟨-, h⟩
      obtain ⟨-, d, hd', -⟩ := h P leaf htarget
      cases hd.symm.trans hd'
  by_cases hfind : find_entry_index (DirBlock.ofDisk d) leaf none = none
  swap
  · -- `local_mkdir_path` reports success for a name that is there
    have hthere : NameThere st P leaf := ⟨d, hd, hfind⟩
    have hzero := local_mkdir_path_zero (Or.inr ⟨P, leaf, htarget, hleaf, hthere⟩) now
    constructor
    · rintro ⟨r, -, ⟨-, ⟨P', leaf', ht, -, hno, -⟩, -⟩ | ⟨-, -, hrc, -⟩⟩
      · cases htarget.symm.trans ht
        exact absurd hthere hno
      · exact absurd hzero hrc
    · rintro ⟨-, h⟩
      obtain ⟨-, d', hd', hfind', -⟩ := h P leaf htarget
      cases hd.symm.trans hd'
      exact absurd hfind' hfind
  rw [command_right_of_new hh hnul htarget hleaf hd hfind now]
  constructor
  · intro hroom
    refine ⟨hh, fun P' leaf' ht => ?_⟩
    cases htarget.symm.trans ht
    exact ⟨hleaf, d, hd, hfind, hroom⟩
  · rintro ⟨-, h⟩
    obtain ⟨-, d', hd', -, hroom⟩ := h P leaf htarget
    cases hd.symm.trans hd'
    exact hroom

/-- On which states and paths the two functions do what they promise. -/
theorem mkdir_right_iff (st : FsState) (w : Window) (arg : CString) (now : Nat) :
    ((∃ r, local_mkdir_call st w arg.bytes now = some r ∧ LocalRight st w arg.bytes now r) ↔
      local_mkdir_fits st w arg.bytes = true ∧ LocalCond st w arg.bytes) ∧
    ((∃ r l, mkdir_call st w arg.bytes now = some r ∧
        local_mkdir_call st w (mkdirPath arg.bytes) now = some l ∧
        CommandRight st w arg.bytes now r l) ↔
      mkdir_fits st w arg.bytes = true ∧ CommandCond st w (mkdirPath arg.bytes)) := by
  have hlocal := @local_right_iff _ st w arg.bytes arg.nul_free now
  have hcommand := @command_right_iff _ st w arg.bytes
    (fun h => arg.nul_free ((List.dropWhile_suffix _).subset h)) now
  unfold local_mkdir_call mkdir_call
  refine ⟨⟨?_, ?_⟩, ?_, ?_⟩
  · rintro ⟨r, hcall, hright⟩
    obtain ⟨hfits, heq⟩ := Option.ite_none_right_eq_some.mp hcall
    cases heq
    exact ⟨hfits, hlocal.mp hright⟩
  · rintro ⟨hfits, hcond⟩
    exact ⟨_, if_pos hfits, hlocal.mpr hcond⟩
  · rintro ⟨r, l, hcall, hl, hright⟩
    obtain ⟨hfits, hcmd⟩ := Option.ite_none_right_eq_some.mp hcall
    obtain ⟨-, heq⟩ := Option.ite_none_right_eq_some.mp hl
    cases heq
    exact ⟨hfits, hcommand.mp ⟨r, hcmd, hright⟩⟩
  · rintro ⟨hfits, hcond⟩
    obtain ⟨r, hcmd, hright⟩ := hcommand.mpr hcond
    have hlocal : local_mkdir_fits st w (mkdirPath arg.bytes) = true := by
      unfold mkdir_fits at hfits
      unfold local_mkdir_fits
      rcases Bool.or_eq_true_iff.mp hfits with hh | hfits
      · exact absurd (of_decide_eq_true hh) hcond.1
      · exact Bool.or_eq_true_iff.mpr (Or.inr hfits)
    exact ⟨r, _, (if_pos hfits).trans hcmd, if_pos hlocal, hright⟩

end

/-! ## On a full disk -/

section

attribute [local instance] fpgaBuild

def dirA : CString := ⟨lit ['a'], nul_free_a⟩

theorem full_disk : ∃ s, Reached s ∧ s.wins = (format blankSystem).wins ∧
    s.st.fs_alloc_ready = true ∧ firstClear s.st = none ∧
    dirOf s.st.disk 1 = some (emptyDir 1).toDisk := by
  obtain ⟨s, hs⟩ := (sysInv_format blankSystem).run_total
    [.store 0 ⟨lit ['f'], nul_free_f⟩ (List.replicate (452 * FS_DATA_PAYLOAD + 1) 7) 1]
  obtain ⟨s1, hstep, hnil⟩ := Option.bind_eq_some_iff.mp hs
  cases hnil
  obtain ⟨⟨rc, st'⟩, hstore, rfl⟩ := Option.map_eq_some_iff.mp hstep
  rw [store_file_bytes_eq rfl] at hstore
  refine ⟨_, ⟨blankSystem, _, hs⟩, rfl, ?_⟩
  rcases store_into_cases rfl hstore with ⟨-, -, href⟩ | ⟨-, -, l, ws, g, -, hfull⟩ |
    ⟨-, mid, d, idx, old, first, l, lold, ws, c⟩
  · exact absurd href blank_slot
  · have hroot : 1 ∉ l := by
      intro hl
      exact absurd (g.fresh 1 hl).1 (by decide)
    refine ⟨g.ready, firstClear_eq_none.mpr (freeAhead_eq_zero.mp hfull), ?_⟩
    rw [dirOf_congr (g.disk_eq hroot)]
    exact write_dir_disk_same _ _ _
  · exact absurd c.room_le (Nat.not_le.mpr blank_room)

/-- On a full disk the command writes an entry with block 0, writes over block 0 and reports the
directory; `local_mkdir_path` fails. -/
theorem mkdir_on_full_disk : ∃ s, Reached s ∧
    (∃ st', mkdir_call s.st (s.wins 0) dirA.bytes 0 = some (.created, st') ∧
      st'.disk 0 = .dir (emptyDir 1).toDisk) ∧
    (∃ l, local_mkdir_call s.st (s.wins 0) dirA.bytes 0 = some l ∧ l.1 ≠ 0) ∧
    ¬ ∃ r l, mkdir_call s.st (s.wins 0) dirA.bytes 0 = some r ∧
      local_mkdir_call s.st (s.wins 0) (mkdirPath dirA.bytes) 0 = some l ∧
      CommandRight s.st (s.wins 0) dirA.bytes 0 r l := by
  obtain ⟨s, hs, hwins, hready, hfull, hd⟩ := full_disk
  have htarget : mkdirTarget s.st (s.wins 0) (mkdirPath dirA.bytes) = some (1, lit ['a']) := by
    have hplan : editorPlan ((format blankSystem).wins 0).home.bytes
        (terminal_expand_home_path ((format blankSystem).wins 0).home.bytes
          (mkdirPath dirA.bytes) 128) = some ⟨false, [], lit ['a']⟩ := by decide
    rw [mkdirTarget_eq, hwins, hplan]
    rfl
  have hfind : find_entry_index (DirBlock.ofDisk (emptyDir 1).toDisk) (lit ['a']) none = none := by
    decide +kernel
  have hfree : find_free_entry_index (DirBlock.ofDisk (emptyDir 1).toDisk) =
      some ⟨0, by decide⟩ := by decide +kernel
  have hpath : mkdirPath dirA.bytes = dirA.bytes := by decide
  have hcmd := mkdir_command_new (by decide) (by decide) htarget (by decide) hd hfind 0
  have hwrites := mkdirWrites_eq htarget (by decide) hd hfind 0
  have hright := command_right_of_new (by decide) (by decide) htarget (by decide) hd hfind 0
  rw [hfree, ensure_ready_of_ready hready, balloc_of_full hready hfull] at hcmd hwrites
  rw [hfree, ensure_ready_of_ready hready] at hright
  have hfits : mkdir_fits s.st (s.wins 0) dirA.bytes = true := by
    rw [hwins]
    rfl
  have hlocal : local_mkdir_fits s.st (s.wins 0) dirA.bytes = true := by
    rw [hwins]
    rfl
  refine ⟨s, hs, ⟨_, (if_pos hfits).trans hcmd, ?_⟩, ⟨_, if_pos hlocal, ?_⟩, ?_⟩
  · exact dirOf_eq_some.mp (write_dir_disk_same _ _ _)
  · rw [← hpath]
    exact (local_mkdir_path_no_room htarget (by decide) hd hfind hwrites).1
  · rintro ⟨r, l, hcall, hl, h⟩
    obtain ⟨-, hmade⟩ := Option.ite_none_right_eq_some.mp hcall
    obtain ⟨-, heq⟩ := Option.ite_none_right_eq_some.mp hl
    cases heq
    exact (hright.mp ⟨r, hmade, h⟩).2 (Option.some_ne_none _) hfull

end

end vibeos.fs
