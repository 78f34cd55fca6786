-- The operations on files and directories: `fs_format_root`,
-- `remove_entry_named`, `move_entry_named`, `store_file_bytes`, the two loaders
-- of fs.c, `local_mkdir_path` of user_fs_shell.c and the `cd` command of
-- user_cmd.c. An operation gives its return code and the state after it.
import Vibeos.FsPath

namespace vibeos.fs

section

variable [BuildConfig]

/-- `virtio_disk_rw(b, 1)` of a buffer that holds a directory. -/
def write_dir (st : FsState) (bno : Nat) (db : DirBlock) : FsState :=
  virtio_disk_write st bno (.dir db.toDisk)

/-- The directory after `memset`: no entry, and the parent link. -/
def emptyDir (parent_bno : Nat) : DirBlock := ⟨parent_bno, fun _ => .zero⟩

/-! ## Format and remove -/

/-- `fs_format_root` on the state of the file system; the reset of the windows is part
of `format`. -/
def fs_format_root (st : FsState) : FsState :=
  let st := write_dir st 1 (emptyDir 1)
  { st with
    fs_block_map := reservedMap, next_free_block := 60, fs_alloc_ready := true
    hint_ge := hint_start }

def dir_block_is_empty (st : FsState) (bno : Nat) : Bool :=
  match dirOf st.disk bno with
  | none => false
  | some d =>
    (List.finRange MAX_DIR_ENTRIES).all fun i => !((DirBlock.ofDisk d).entries i).inUse

/-- `remove_entry_named`; `none` when `fs_free_chain` never ends. -/
def remove_entry_named (st : FsState) (w : Window) (name : List UInt8) :
    Option (Int × FsState) :=
  match load_current_dir st w.cwd_bno with
  | (st, none) => some (-1, st)
  | (st, some db) =>
    match find_entry_index db name none with
    | none => some (-2, st)
    | some idx =>
      let old := db.entries idx
      if old.type = 1 ∧ dir_block_is_empty st old.bno = false then some (-3, st)
      else
        let st := write_dir st w.cwd_bno (db.setEntry idx .zero)
        if old.type = 1 then
          some (0, if old.bno ≠ 0 then bfree st old.bno else st)
        else if old.bno ≠ 0 then
          (fs_free_chain st old.bno).map fun st => (0, st)
        else some (0, st)

/-! ## Move -/

/-- `fs_dir_is_ancestor`, with the turns that are left of its guard of 64. -/
def fs_dir_is_ancestor_loop (st : FsState) (ancestor_bno : Nat) : Nat → Nat → Bool
  | 0, _ => false
  | guard + 1, child_bno =>
    if child_bno = 0 then false
    else if child_bno = ancestor_bno then true
    else if child_bno = 1 then false
    else
      match fs_load_dir_block st child_bno with
      | none => false
      | some db => fs_dir_is_ancestor_loop st ancestor_bno guard (orRoot db.parent_bno)

def fs_dir_is_ancestor (st : FsState) (ancestor_bno child_bno : Nat) : Bool :=
  fs_dir_is_ancestor_loop st ancestor_bno 64 child_bno

/-- The place that a move writes to: a directory, its buffer, the name, and the entry
that has this name already. -/
structure MoveDest where
  dir_bno : Nat
  db : DirBlock
  leaf : List UInt8
  idx : Option (Fin MAX_DIR_ENTRIES)

/-- The part of `move_entry_named` that looks at the destination: an existing directory
takes the object under its old name. -/
def move_dest (st : FsState) (src_entry : FileEntry) (src_leaf : List UInt8)
    (dst_dir_bno : Nat) (dst_leaf : List UInt8) : Except Int MoveDest :=
  match fs_load_dir_block st dst_dir_bno with
  | none => .error (-2)
  | some dst_db =>
    match find_entry_index dst_db dst_leaf none with
    | none => .ok ⟨dst_dir_bno, dst_db, dst_leaf, none⟩
    | some dst_idx =>
      if (dst_db.entries dst_idx).type = 1 then
        let existing_dir_bno := (dst_db.entries dst_idx).bno
        if src_entry.type = 1 ∧ fs_dir_is_ancestor st src_entry.bno existing_dir_bno then
          .error (-6)
        else
          match fs_load_dir_block st existing_dir_bno with
          | none => .error (-2)
          | some db => .ok ⟨existing_dir_bno, db, src_leaf, find_entry_index db src_leaf none⟩
      else .ok ⟨dst_dir_bno, dst_db, dst_leaf, some dst_idx⟩

/-- The parent link of a directory that moved. -/
def move_relink (st : FsState) (src_entry : FileEntry) (dst_dir_bno : Nat) : FsState :=
  if src_entry.type = 1 ∧ src_entry.bno ≠ 0 then
    match fs_load_dir_block st src_entry.bno with
    | none => st
    | some child_db => write_dir st src_entry.bno { child_db with parent_bno := dst_dir_bno }
  else st

/-- The part of `move_entry_named` that writes: a new name in the same directory, or the
entry cleared in the source, then written to the destination. -/
def move_commit (st : FsState) (src_dir_bno : Nat) (src_db : DirBlock)
    (src_idx : Fin MAX_DIR_ENTRIES) (dst : MoveDest) (now : Nat) : Int × FsState :=
  let src_entry := src_db.entries src_idx
  if src_dir_bno = dst.dir_bno then
    if dst.idx ≠ none ∧ dst.idx ≠ some src_idx then (-4, st)
    else
      (0, write_dir st src_dir_bno (src_db.setEntry src_idx
        { src_entry with name := copy_name20 src_entry.name dst.leaf, mtime := now }))
  else if dst.idx ≠ none then (-4, st)
  else
    match find_free_entry_index dst.db with
    | none => (-5, st)
    | some dst_idx =>
      let dst_db := dst.db.setEntry dst_idx
        { src_entry with name := copy_name20 src_entry.name dst.leaf, mtime := now }
      let st := write_dir st src_dir_bno (src_db.setEntry src_idx .zero)
      let st := write_dir st dst.dir_bno dst_db
      (0, move_relink st src_entry dst.dir_bno)

/-- `move_entry_named`, up to the sizes of `src_cwd` and `dst_cwd`, which `move_fits` tells. -/
def move_entry_named (st : FsState) (w : Window) (src_input dst_input : List UInt8)
    (now : Nat) : Int × FsState :=
  let src_input := src_input.dropWhile (· == ' '.toUInt8)
  let dst_input := dst_input.dropWhile (· == ' '.toUInt8)
  if src_input = [] ∨ dst_input = [] then (-1, st)
  else
    match resolve_fs_target st w src_input with
    | (st, none) => (-1, st)
    | (st, some (src_dir_bno, _, src_leaf)) =>
      match resolve_fs_target st w dst_input with
      | (st, none) => (-1, st)
      | (st, some (dst_dir_bno, _, dst_leaf)) =>
        if src_dir_bno = dst_dir_bno ∧ src_leaf = dst_leaf then (0, st)
        else
          match fs_load_dir_block st src_dir_bno with
          | none => (-2, st)
          | some src_db =>
            match find_entry_index src_db src_leaf none with
            | none => (-3, st)
            | some src_idx =>
              match move_dest st (src_db.entries src_idx) src_leaf dst_dir_bno dst_leaf with
              | .error rc => (rc, st)
              | .ok dst => move_commit st src_dir_bno src_db src_idx dst now

/-- The paths of both directories fit `src_cwd` and `dst_cwd`, and the ones on the way to them
fit `fs_tmp_window`. -/
def move_fits (st : FsState) (w : Window) (src_input dst_input : List UInt8) : Bool :=
  let src_input := src_input.dropWhile (· == ' '.toUInt8)
  let dst_input := dst_input.dropWhile (· == ' '.toUInt8)
  if src_input = [] ∨ dst_input = [] then true
  else
    resolve_fits st w src_input CWD_BUF_SIZE &&
      match resolve_fs_target st w src_input with
      | (_, none) => true
      | (st, some _) => resolve_fits st w dst_input CWD_BUF_SIZE

/-- A call of `move_entry_named`; `none` when it writes past `src_cwd` or `dst_cwd`. -/
def move_call (st : FsState) (w : Window) (src_input dst_input : List UInt8) (now : Nat) :
    Option (Int × FsState) :=
  if move_fits st w src_input dst_input then some (move_entry_named st w src_input dst_input now)
  else none

theorem move_call_eq_some {st : FsState} {w : Window} {src dst : List UInt8} {now : Nat}
    {r : Int × FsState} : move_call st w src dst now = some r ↔
      move_fits st w src dst = true ∧ move_entry_named st w src dst now = r := by
  unfold move_call
  split <;> simp [*]

/-! ## Store -/

/-- The loop of `store_file_bytes` over the chunks of the data: allocate, write, and link
the block to the one before it. Gives the first block, or `none` when the disk is full. -/
def store_loop (st : FsState) (first_bno prev_bno : Nat) (data : List UInt8) :
    FsState × Option Nat :=
  if _h : data = [] then (st, some first_bno)
  else
    match balloc st with
    | (this_bno, st) =>
      if this_bno = 0 then (st, none)
      else
        let st := virtio_disk_write st this_bno
          (.data ⟨0, fillPayload (data.take FS_DATA_PAYLOAD)⟩)
        if prev_bno ≠ 0 then
          let st := virtio_disk_write st prev_bno ((st.disk prev_bno).setLink this_bno)
          store_loop st first_bno this_bno (data.drop FS_DATA_PAYLOAD)
        else store_loop st this_bno this_bno (data.drop FS_DATA_PAYLOAD)
termination_by data.length
decreasing_by
  all_goals
    simp only [List.length_drop, FS_DATA_PAYLOAD, BSIZE]
    have := List.length_pos_iff.mpr _h
    omega

/-- The blocks of the new contents: one block without bytes for an empty file. -/
def store_blocks (st : FsState) (data : List UInt8) : FsState × Option Nat :=
  if data = [] then
    match balloc st with
    | (first_bno, st) =>
      if first_bno = 0 then (st, none)
      else (virtio_disk_write st first_bno (.data ⟨0, fillPayload []⟩), some first_bno)
  else store_loop st 0 0 data

/-- The slot for the entry and the entry that it replaces, or the error code. -/
def store_slot (db : DirBlock) (leaf : List UInt8) :
    Except Int (Fin MAX_DIR_ENTRIES × Option FileEntry) :=
  match find_entry_index db leaf none with
  | some idx =>
    if (db.entries idx).type = 1 then .error (-3) else .ok (idx, some (db.entries idx))
  | none =>
    match find_free_entry_index db with
    | none => .error (-2)
    | some idx => .ok (idx, none)

/-- The entry that a store commits, over what the slot `e` held. -/
def store_entry (e : FileEntry) (old : Option FileEntry) (leaf : List UInt8)
    (first_bno size now : Nat) : FileEntry where
  name := copy_name20 e.name leaf
  bno := first_bno
  size := size
  ctime := (old.map FileEntry.ctime).getD now
  mtime := now
  mode := 7
  type := 0

/-- `store_file_bytes` from the read of the target directory on. -/
def store_into (st : FsState) (target_dir_bno : Nat) (leaf data : List UInt8) (now : Nat) :
    Option (Int × FsState) :=
  match dirOf st.disk target_dir_bno with
  | none => some (-1, st)
  | some d =>
    let db := DirBlock.ofDisk d
    match store_slot db leaf with
    | .error rc => some (rc, st)
    | .ok (idx, old) =>
      match store_blocks st data with
      | (st, none) => some (-4, st)
      | (st, some first_bno) =>
        let e := store_entry (db.entries idx) old leaf first_bno data.length now
        let st := write_dir st target_dir_bno (db.setEntry idx e)
        let old_bno := (old.map FileEntry.bno).getD 0
        if old_bno ≠ 0 then (fs_free_chain st old_bno).map fun st => (0, st)
        else some (0, st)

/-- A name is a path when it has a slash or starts with `~`. -/
def usesResolve (name : List UInt8) : Bool :=
  name.contains slash || name.head? == some '~'.toUInt8

/-- The directory and the name that a store or a load works on. -/
def file_target (st : FsState) (w : Window) (name : List UInt8) (cwd_bno : Nat) :
    FsState × Option (Nat × List UInt8) :=
  if usesResolve name then
    match resolve_fs_target st w name with
    | (st, none) => (st, none)
    | (st, some (dir_bno, _, leaf)) => (st, some (orRoot dir_bno, leaf))
  else (st, some (cwd_bno, name))

/-- `store_file_bytes` with `size` the length of the data. -/
def store_file_bytes (st : FsState) (w : Window) (name data : List UInt8) (now : Nat) :
    Option (Int × FsState) :=
  match file_target st w name (orRoot w.cwd_bno) with
  | (st, none) => some (-1, st)
  | (st, some (target_dir_bno, leaf)) => store_into st target_dir_bno leaf data now

/-! ## Load -/

/-- The bytes that the copy loop of the loaders collects from `bno` on. -/
def load_loop (disk : Disk) (remaining bno : Nat) : List UInt8 :=
  if _h : remaining = 0 ∨ bno = 0 then []
  else
    match disk bno with
    | .data d =>
      d.data.val.take (min remaining FS_DATA_PAYLOAD) ++
        load_loop disk (remaining - min remaining FS_DATA_PAYLOAD) d.next_bno
    | b => b.bytes.take (min remaining BSIZE)
termination_by remaining
decreasing_by
  simp only [FS_DATA_PAYLOAD, BSIZE]
  omega

omit [BuildConfig] in
theorem load_loop_nil (disk : Disk) (remaining : Nat) : load_loop disk remaining 0 = [] := by
  rw [load_loop, dif_pos (Or.inr rfl)]

omit [BuildConfig] in
theorem length_load_loop_le (disk : Disk) (remaining bno : Nat) :
    (load_loop disk remaining bno).length ≤ remaining := by
  induction remaining using Nat.strongRecOn generalizing bno with
  | ind remaining ih =>
    rw [load_loop]
    split
    · exact Nat.zero_le _
    · split
      · rename_i d _
        have hpayload : 0 < FS_DATA_PAYLOAD := by decide
        have hrest := ih (remaining - min remaining FS_DATA_PAYLOAD) (by omega) d.next_bno
        rw [List.length_append, List.length_take]
        omega
      · rw [List.length_take]
        omega

/-- The entry that a load reads, or the error code. -/
def load_entry (st : FsState) (w : Window) (name : List UInt8) :
    FsState × Except Int FileEntry :=
  match file_target st w name w.cwd_bno with
  | (st, none) => (st, .error (-1))
  | (st, some (dir_bno, leaf)) =>
    match load_current_dir st dir_bno with
    | (st, none) => (st, .error (-1))
    | (st, some db) =>
      match find_entry_index db leaf (some 0) with
      | none => (st, .error (-2))
      | some idx => (st, .ok (db.entries idx))

/-- `load_file_bytes`: the return code and the bytes copied. -/
def load_file_bytes (st : FsState) (w : Window) (name : List UInt8) (max_size : Nat) :
    Int × List UInt8 :=
  match load_entry st w name with
  | (_, .error rc) => (rc, [])
  | (st, .ok e) =>
    if max_size < e.size then (-3, [])
    else (0, load_loop st.disk e.size e.bno)

/-- `load_file_bytes_alloc`; `malloc n` says whether the heap gives `n` bytes. -/
def load_file_bytes_alloc (malloc : Nat → Bool) (st : FsState) (w : Window)
    (name : List UInt8) : Int × List UInt8 :=
  match load_entry st w name with
  | (_, .error rc) => (rc, [])
  | (st, .ok e) =>
    if malloc (if e.size = 0 then 1 else e.size) = false then (-4, [])
    else if e.bno = 0 then (0, [])
    else
      let copied := load_loop st.disk e.size e.bno
      if copied.length ≠ e.size then (-5, []) else (0, copied)

/-- The strings of a store fit `fs_tmp_window.cwd`, and so `cwd_buf`, which gets the last one. -/
def store_fits (st : FsState) (w : Window) (name : List UInt8) : Bool :=
  !usesResolve name || (resolve_fs_target_cwds st w name).all fun c => c.length < CWD_SIZE

/-! ## Directories -/

def local_mkdir_path (st : FsState) (w : Window) (path : List UInt8) (now : Nat) :
    Int × FsState :=
  if path = [] then (-1, st)
  else
    let expanded := terminal_expand_home_path w.home.bytes path 128
    if expanded = dotName ∨ expanded = lit ['.', '/'] then (0, st)
    else
      match resolve_editor_target st w expanded with
      | (st, none) => (-1, st)
      | (st, some (p_bno, _, leaf)) =>
        if leaf = [] then (-1, st)
        else
          match load_current_dir st (orRoot p_bno) with
          | (st, none) => (-1, st)
          | (st, some db) =>
            if find_entry_index db leaf none ≠ none then (0, st)
            else
              match find_free_entry_index db with
              | none => (-1, st)
              | some idx =>
                match balloc st with
                | (nb, st) =>
                  if nb = 0 then (-1, st)
                  else
                    let e : FileEntry :=
                      { name := copy_name20 FileEntry.zero.name leaf, bno := nb, size := 0,
                        ctime := now, mtime := now, mode := 7, type := 1 }
                    let st := write_dir st (orRoot p_bno) (db.setEntry idx e)
                    (0, write_dir st nb (emptyDir (orRoot p_bno)))

/-- The strings of `local_mkdir_path` fit `fs_tmp_window.cwd` and `p_cwd`. -/
def local_mkdir_fits (st : FsState) (w : Window) (path : List UInt8) : Bool :=
  let expanded := terminal_expand_home_path w.home.bytes path 128
  path = [] || expanded = dotName || expanded = lit ['.', '/'] || editor_fits st w expanded

/-- A call of `local_mkdir_path`; `none` when it writes past a buffer. -/
def local_mkdir_call (st : FsState) (w : Window) (path : List UInt8) (now : Nat) :
    Option (Int × FsState) :=
  if local_mkdir_fits st w path then some (local_mkdir_path st w path now) else none

/-- The `cd` command of the shell, from its argument on: the window after it. -/
def cd (st : FsState) (w : Window) (target : List UInt8) : FsState × Window :=
  let target := target.dropWhile (· == ' '.toUInt8)
  if target.head? = some 'h'.toUInt8 ∧
      (target.length = 1 ∨ target[1]? = some ' '.toUInt8) then (st, w)
  else if target = [] ∨ target = rootPath ∨ target = [slash] then
    (st, fs_reset_window_cwd w)
  else if target = dotdotName then
    match load_current_dir st w.cwd_bno with
    | (st, none) => (st, w)
    | (st, some db) =>
      let parent := orRoot db.parent_bno
      (st, { w with
        cwd_bno := parent
        cwd := if parent = 1 then rootPath else path_set_parent w.cwd })
  else
    let expanded := terminal_expand_home_path w.home.bytes target 128
    if expanded = [] then (st, w)
    else
      match resolve_editor_target st w expanded with
      | (st, none) => (st, w)
      | (st, some (parent_bno, parent_cwd, leaf)) =>
        if leaf = [] ∨ leaf = dotName then
          (st, { w with cwd_bno := orRoot parent_bno, cwd := orRootPath parent_cwd })
        else
          match load_current_dir st (orRoot parent_bno) with
          | (st, none) => (st, w)
          | (st, some db) =>
            match find_entry_index db leaf (some 1) with
            | none => (st, w)
            | some idx =>
              (st, { w with
                cwd_bno := (db.entries idx).bno
                cwd := path_set_child (orRootPath parent_cwd) (db.entries idx).nameStr })

/-! ## The system -/

/-- The file system and the terminal windows that work on it. -/
structure System where
  st : FsState
  wins : Nat → Window

/-- One call by the window `win`, or a new value of HOME in its environment. -/
inductive Op where
  | store (win : Nat) (name : CString) (data : List UInt8) (now : Nat)
  | remove (win : Nat) (name : CString)
  | move (win : Nat) (src dst : CString) (now : Nat)
  | mkdir (win : Nat) (path : CString) (now : Nat)
  | cd (win : Nat) (target : CString)
  | setHome (win : Nat) (value : CString)

/-- The state after the call; `none` when the call never returns. -/
def step (s : System) : Op → Option System
  | .store win name data now =>
    (store_file_bytes s.st (s.wins win) name.bytes data now).map fun r => { s with st := r.2 }
  | .remove win name =>
    (remove_entry_named s.st (s.wins win) name.bytes).map fun r => { s with st := r.2 }
  | .move win src dst now =>
    some { s with st := (move_entry_named s.st (s.wins win) src.bytes dst.bytes now).2 }
  | .mkdir win path now =>
    some { s with st := (local_mkdir_path s.st (s.wins win) path.bytes now).2 }
  | .cd win target =>
    let (st, w) := cd s.st (s.wins win) target.bytes
    some { st := st, wins := Function.update s.wins win w }
  | .setHome win value =>
    some { s with wins := Function.update s.wins win { s.wins win with home := value } }

def run (s : System) : List Op → Option System
  | [] => some s
  | op :: ops => (step s op).bind fun s => run s ops

/-- `fs_format_root`, with the reset of every window. -/
def format (s : System) : System where
  st := fs_format_root s.st
  wins := fun i => fs_reset_window_cwd (s.wins i)

/-- A state that a run from a format reaches. -/
def Reached (s : System) : Prop := ∃ s0 ops, run (format s0) ops = some s

end

end vibeos.fs
