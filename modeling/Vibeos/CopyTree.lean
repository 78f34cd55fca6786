-- `copy_local_dir_recursive` of user_fs_shell.c, and what it is for: a tree that has the names, the
-- file contents and the subdirectories of another one.
import Vibeos.MkdirCommand
import Vibeos.ReadBack

namespace vibeos.fs

/-! ## The copy -/

/-- What a copy finds outside of the file system, by the path that it is about to write: the time,
the answers of `malloc`, and the entries that the stack shows behind the block of the source. -/
structure CopyWorld where
  now : List UInt8 → Nat
  malloc : List UInt8 → Nat → Bool
  behind : List UInt8 → Fin MAX_DIR_ENTRIES → FileEntry

/-- The entries of the source directory as the loop of the copy reads them: the block, and the stack
behind it. -/
def copyEntries (world : CopyWorld) (dst_path : List UInt8) (d : DiskDir)
    (i : Fin MAX_DIR_ENTRIES) : FileEntry :=
  if h : i.val < DIR_SLOTS then d.slots ⟨i.val, h⟩
  else if i.val = DIR_SLOTS then
    { world.behind dst_path i with
      name := ⟨d.edge.val ++ (world.behind dst_path i).name.val.drop EDGE_BYTES, by
        rw [List.length_append, List.length_drop, d.edge.property,
          (world.behind dst_path i).name.property]
        decide⟩ }
  else world.behind dst_path i

/-- The path of an entry below the destination. -/
def childPath (dst_path name : List UInt8) : List UInt8 :=
  (if dst_path ≠ [] ∧ dst_path.getLast? ≠ some slash then dst_path ++ [slash] else dst_path) ++ name

/-- `fs_tmp_window`, set up at the source directory, as the load of `name` reads it. When the name is
a path, `resolve_fs_target` clears the window first, and takes the directory from it after that. -/
def copyWindow (src_bno : Nat) (name : List UInt8) : Window :=
  ⟨if usesResolve name then 1 else src_bno, rootPath, ⟨[], CString.nil⟩⟩

section

variable [BuildConfig]

/-- One entry of the loop. `none` when a path does not fit its buffer, or a call does not return. -/
def copy_entry (world : CopyWorld) (w : Window) (src_bno : Nat) (dst_path : List UInt8)
    (copy : FsState → Nat → List UInt8 → Option (Int × FsState)) (e : FileEntry) (st : FsState) :
    Option (Int × FsState) :=
  let child_dst := childPath dst_path e.nameStr
  if 128 ≤ child_dst.length then none
  else if e.type = 1 then copy st e.bno child_dst
  else
    let tmp := copyWindow src_bno e.nameStr
    let (rc, buf) := load_file_bytes_alloc (world.malloc child_dst) st tmp e.nameStr
    let st := (load_entry st tmp e.nameStr).1
    if rc ≠ 0 then some (rc, st)
    else if store_fits st w child_dst = false then none
    else store_file_bytes st w child_dst buf (world.now child_dst)

/-- The loop over the entries of the source. -/
def copy_loop (world : CopyWorld) (w : Window) (src_bno : Nat) (dst_path : List UInt8)
    (copy : FsState → Nat → List UInt8 → Option (Int × FsState)) :
    List FileEntry → FsState → Option (Int × FsState)
  | [], st => some (0, st)
  | e :: rest, st =>
    if e.inUse = false then copy_loop world w src_bno dst_path copy rest st
    else
      match copy_entry world w src_bno dst_path copy e st with
      | none => none
      | some (rc, st) =>
        if rc ≠ 0 then some (-1, st) else copy_loop world w src_bno dst_path copy rest st

/-- `copy_local_dir_recursive`, up to a depth of recursion. `none` when the depth does not do, when a
path does not fit its buffer, or when a call does not return. -/
def copy_local_dir_recursive (world : CopyWorld) (w : Window) :
    Nat → FsState → Nat → List UInt8 → Option (Int × FsState)
  | 0, _, _, _ => none
  | depth + 1, st, src_bno, dst_path =>
    match local_mkdir_call st w dst_path (world.now dst_path) with
    | none => none
    | some (rc, st) =>
      if rc ≠ 0 then some (-1, st)
      else
        match dirOf st.disk src_bno with
        | none => some (-1, st)
        | some d =>
          copy_loop world w src_bno dst_path (copy_local_dir_recursive world w depth)
            ((List.finRange MAX_DIR_ENTRIES).map (copyEntries world dst_path d)) st

/-! ## More depth changes no result -/

theorem copy_entry_deeper {world : CopyWorld} {w : Window} {src_bno : Nat} {dst_path : List UInt8}
    {copy copy' : FsState → Nat → List UInt8 → Option (Int × FsState)}
    (h : ∀ {st b q r}, copy st b q = some r → copy' st b q = some r) {e : FileEntry} {st : FsState}
    {r : Int × FsState} (hr : copy_entry world w src_bno dst_path copy e st = some r) :
    copy_entry world w src_bno dst_path copy' e st = some r := by
  unfold copy_entry at hr ⊢
  dsimp only at hr ⊢
  split at hr
  · cases hr
  rename_i hlen
  rw [if_neg hlen]
  split at hr
  · rename_i htype
    rw [if_pos htype]
    exact h hr
  · rename_i htype
    rw [if_neg htype]
    exact hr

theorem copy_loop_deeper {world : CopyWorld} {w : Window} {src_bno : Nat} {dst_path : List UInt8}
    {copy copy' : FsState → Nat → List UInt8 → Option (Int × FsState)}
    (h : ∀ {st b q r}, copy st b q = some r → copy' st b q = some r) {entries : List FileEntry}
    {st : FsState} {r : Int × FsState}
    (hr : copy_loop world w src_bno dst_path copy entries st = some r) :
    copy_loop world w src_bno dst_path copy' entries st = some r := by
  induction entries generalizing st with
  | nil => exact hr
  | cons e rest ih =>
    unfold copy_loop at hr ⊢
    split at hr
    · rename_i hfree
      rw [if_pos hfree]
      exact ih hr
    · rename_i hused
      rw [if_neg hused]
      rcases hentry : copy_entry world w src_bno dst_path copy e st with _ | ⟨rc, st1⟩
      · rw [hentry] at hr
        cases hr
      · rw [hentry] at hr
        rw [copy_entry_deeper h hentry]
        dsimp only at hr ⊢
        split at hr
        · rename_i hrc
          rw [if_pos hrc]
          exact hr
        · rename_i hrc
          rw [if_neg hrc]
          exact ih hr

theorem copy_deeper {world : CopyWorld} {w : Window} {depth : Nat} {st : FsState} {src_bno : Nat}
    {dst_path : List UInt8} {r : Int × FsState}
    (h : copy_local_dir_recursive world w depth st src_bno dst_path = some r) :
    copy_local_dir_recursive world w (depth + 1) st src_bno dst_path = some r := by
  induction depth generalizing st src_bno dst_path r with
  | zero => cases h
  | succ depth ih =>
    unfold copy_local_dir_recursive at h ⊢
    generalize local_mkdir_call st w dst_path (world.now dst_path) = made at h ⊢
    rcases made with _ | ⟨rc, st1⟩
    · cases h
    dsimp only at h ⊢
    split at h
    · rename_i hrc
      rw [if_pos hrc]
      exact h
    rename_i hrc
    rw [if_neg hrc]
    generalize dirOf st1.disk src_bno = found at h ⊢
    cases found with
    | none => exact h
    | some d => exact copy_loop_deeper (fun hr => ih hr) h

theorem copy_deeper_le {world : CopyWorld} {w : Window} {depth depth' : Nat} {st : FsState}
    {src_bno : Nat} {dst_path : List UInt8} {r : Int × FsState} (hle : depth ≤ depth')
    (h : copy_local_dir_recursive world w depth st src_bno dst_path = some r) :
    copy_local_dir_recursive world w depth' st src_bno dst_path = some r := by
  induction hle with
  | refl => exact h
  | step _ ih => exact copy_deeper ih

end

/-! ## Copies -/

/-- The entries of a directory that are in use, in their order. -/
def dirEntries (d : DiskDir) : List FileEntry :=
  ((List.finRange MAX_DIR_ENTRIES).map (DirBlock.ofDisk d).entries).filter (·.inUse)

/-- Two entries have the same name and kind, and the same bytes, or directories that are `same`. -/
def SameEntry (disk disk' : Disk) (same : Nat → Nat → Prop) (e e' : FileEntry) : Prop :=
  e'.nameStr = e.nameStr ∧ (e'.type = 1 ↔ e.type = 1) ∧
    if e.type = 1 then same e.bno e'.bno
    else load_loop disk' e'.size e'.bno = load_loop disk e.size e.bno

/-- Directory `b'` of the second disk has a copy of everything in directory `b` of the first one: the
names, the file contents and the subdirectories, down to a depth. -/
def HasCopy (disk disk' : Disk) : Nat → Nat → Nat → Prop
  | 0, _, _ => True
  | depth + 1, b, b' => ∃ d d', dirOf disk b = some d ∧ dirOf disk' b' = some d' ∧
      ∀ e ∈ dirEntries d, ∃ e' ∈ dirEntries d',
        SameEntry disk disk' (HasCopy disk disk' depth) e e'

theorem mem_dirEntries {d : DiskDir} {e : FileEntry} :
    e ∈ dirEntries d ↔ ∃ i, (DirBlock.ofDisk d).entries i = e ∧ e.inUse = true := by
  unfold dirEntries
  simp only [List.mem_filter, List.mem_map, List.mem_finRange, true_and]
  constructor
  · rintro ⟨⟨i, hi⟩, he⟩
    exact ⟨i, hi, he⟩
  · rintro ⟨i, hi, he⟩
    exact ⟨⟨i, hi⟩, he⟩

theorem SlotHas.mem_dirEntries {disk : Disk} {b : Nat} {d : DiskDir} {i : Fin DIR_SLOTS}
    {e : FileEntry} (h : SlotHas disk b i e) (hd : dirOf disk b = some d) : e ∈ dirEntries d := by
  obtain ⟨d', hd', hslot, hused⟩ := h
  obtain rfl : d = d' := Option.some.inj (hd.symm.trans hd')
  refine vibeos.fs.mem_dirEntries.mpr ⟨⟨i.val, i.isLt.trans_le dir_slots_le⟩, ?_, hused⟩
  rw [ofDisk_entries_of_lt d _ i.isLt]
  exact hslot

end vibeos.fs
