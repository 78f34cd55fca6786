-- Paths: the windows that hold a working directory, the expansion of `~`, and
-- the two path walkers, `resolve_fs_target` of fs.c and `resolve_editor_target`
-- of user_fs_shell.c.
import Vibeos.FsDisk

namespace vibeos.fs

/-- What the file system reads of a `struct Window`: the working directory as a block
number and as a string, and the value of HOME, empty when it is not set. A `cwd` string that
is too long for its buffer is kept whole here; `resolve_fs_target_cwds` lists the strings. -/
structure Window where
  cwd_bno : Nat
  cwd : List UInt8
  home : CString

/-- The size of the `cwd` buffer of a window. -/
def CWD_SIZE : Nat := 128

/-- The size of `cwd_buf`, `src_cwd`, `dst_cwd`, `app_fd_entry.cwd` and `app_fs_cwd`. -/
def CWD_BUF_SIZE : Nat := 32

def fs_reset_window_cwd (w : Window) : Window := { w with cwd_bno := 1, cwd := rootPath }

/-- `x ? x : 1` on a block number. -/
def orRoot (b : Nat) : Nat := if b = 0 then 1 else b

@[simp]
theorem orRoot_of_ne_zero {b : Nat} (h : b ≠ 0) : orRoot b = b := by simp [orRoot, h]

theorem orRoot_ne_zero (b : Nat) : orRoot b ≠ 0 := by
  unfold orRoot
  split
  · decide
  · assumption

/-- `x[0] ? x : "/root"` on a string. -/
def orRootPath (s : List UInt8) : List UInt8 := if s = [] then rootPath else s

/-! ## Strings -/

/-- `lib_strncat`: at most `n` bytes, and only up to the first one that is not printable. -/
def lib_strncat (dst src : List UInt8) (n : Nat) : List UInt8 :=
  dst ++ (src.take n).takeWhile fun c => 32 ≤ c && c ≤ 126

/-- `path_set_child`, and `fs_path_set_child`, which is the same text. -/
def path_set_child (cwd name : List UInt8) : List UInt8 :=
  let cwd := if 1 < cwd.length ∧ cwd.getLast? ≠ some slash then cwd ++ [slash] else cwd
  lib_strncat cwd name 19

/-- `path_set_parent`, and `fs_path_set_parent`, which is the same text. -/
def path_set_parent (cwd : List UInt8) : List UInt8 :=
  -- strip the slashes at the end, then the last name, then the slash before it
  let cwd := (cwd.reverse.dropWhile (· == slash)).dropWhile (· != slash)
  let cwd := cwd.drop 1
  if cwd = [] then [slash] else cwd.reverse

/-- `terminal_expand_home_path` into a buffer of `dst_size` bytes. -/
def terminal_expand_home_path (home src : List UInt8) (dst_size : Nat) : List UInt8 :=
  let room := dst_size - 1
  let home := orRootPath home
  match src with
  | [] => []
  | c :: rest =>
    if c ≠ '~'.toUInt8 ∨ (rest ≠ [] ∧ rest.head? ≠ some slash) then src.take room
    else
      let dst := home.take room
      let rest := if rest.head? = some slash then rest.tail else rest
      let fits := dst ≠ [] ∧ dst.length < room
      let rest :=
        if fits ∧ dst.getLast? = some slash ∧ rest.head? = some slash then rest.tail else rest
      let dst := if fits ∧ dst.getLast? ≠ some slash then dst ++ [slash] else dst
      dst ++ rest.take (room - dst.length)

/-- The names between the slashes of a path; `cur` is the name that is being read. -/
def pathSegments (cur : List UInt8) : List UInt8 → List (List UInt8)
  | [] => if cur = [] then [] else [cur]
  | c :: cs =>
    if c = slash then
      if cur = [] then pathSegments [] cs else cur :: pathSegments [] cs
    else pathSegments (cur ++ [c]) cs

theorem mem_pathSegments {cur p s : List UInt8} (hcur : slash ∉ cur)
    (h : s ∈ pathSegments cur p) : s ≠ [] ∧ slash ∉ s := by
  induction p generalizing cur with
  | nil =>
    unfold pathSegments at h
    split at h
    · simp at h
    · rw [List.mem_singleton] at h
      subst h
      exact ⟨‹_›, hcur⟩
  | cons c cs ih =>
    unfold pathSegments at h
    split at h
    · split at h
      · exact ih (by simp) h
      · rcases List.mem_cons.mp h with rfl | h
        · exact ⟨‹_›, hcur⟩
        · exact ih (by simp) h
    · rename_i hc
      exact ih (by simp [hcur, Ne.symm hc]) h

theorem mem_of_mem_pathSegments {cur p s : List UInt8} {c : UInt8} (hc : c ∈ s)
    (h : s ∈ pathSegments cur p) : c ∈ cur ∨ c ∈ p := by
  induction p generalizing cur with
  | nil =>
    unfold pathSegments at h
    split at h
    · simp at h
    · rw [List.mem_singleton] at h
      exact Or.inl (h ▸ hc)
  | cons x cs ih =>
    unfold pathSegments at h
    split at h
    · split at h
      · rcases ih h with h | h
        · simp at h
        · exact Or.inr (List.mem_cons_of_mem _ h)
      · rcases List.mem_cons.mp h with rfl | h
        · exact Or.inl hc
        · rcases ih h with h | h
          · simp at h
          · exact Or.inr (List.mem_cons_of_mem _ h)
    · rcases ih h with h | h
      · rcases List.mem_append.mp h with h | h
        · exact Or.inl h
        · rw [List.mem_singleton] at h
          exact Or.inr (h ▸ List.mem_cons_self)
      · exact Or.inr (List.mem_cons_of_mem _ h)

def skipBlanks (p : List UInt8) : List UInt8 :=
  p.dropWhile fun c => c == ' '.toUInt8 || c == '\t'.toUInt8

def skipSlashes (p : List UInt8) : List UInt8 := p.dropWhile (· == slash)

/-! ## The walkers -/

section

variable [BuildConfig]

/-- `load_current_dir` at block `bno`: rebuilds the bitmap when it is not ready yet. -/
def load_current_dir (st : FsState) (bno : Nat) : FsState × Option DirBlock :=
  let st := ensure_ready st
  (st, (dirOf st.disk bno).map DirBlock.ofDisk)

def fs_load_dir_block (st : FsState) (bno : Nat) : Option DirBlock :=
  if bno = 0 ∨ FS_MAX_BLOCKS ≤ bno then none else (dirOf st.disk bno).map DirBlock.ofDisk

/-- Where a walk stopped: the directory, its path, and the last name when there is one. -/
structure WalkEnd where
  bno : Nat
  cwd : List UInt8
  leaf : Option (List UInt8)

/-- The loop over the names of a path that both walkers run, from directory `bno` with
path `cwd`. With `into` the last name is entered too. -/
def walk (into : Bool) (st : FsState) (bno : Nat) (cwd : List UInt8) :
    List (List UInt8) → FsState × Option WalkEnd
  | [] => (st, some ⟨orRoot bno, orRootPath cwd, none⟩)
  | seg :: rest =>
    if 19 < seg.length then (st, none)
    else if seg = dotName then walk into st bno cwd rest
    else if seg = dotdotName then
      match load_current_dir st bno with
      | (st, none) => (st, none)
      | (st, some db) =>
        let parent := orRoot db.parent_bno
        walk into st parent (if parent = 1 then rootPath else path_set_parent cwd) rest
    else if rest = [] ∧ into = false then (st, some ⟨orRoot bno, orRootPath cwd, some seg⟩)
    else
      match load_current_dir st bno with
      | (st, none) => (st, none)
      | (st, some db) =>
        match find_entry_index db seg (some 1) with
        | none => (st, none)
        | some idx =>
          let child := (db.entries idx).bno
          walk into st child (path_set_child cwd (db.entries idx).nameStr) rest

/-- `resolve_fs_target`: the directory, its path, and the last name of `input`. Without a
last name the whole expanded input, cut at 19 bytes, stands in for it. -/
def resolve_fs_target (st : FsState) (term : Window) (input : List UInt8) :
    FsState × Option (Nat × List UInt8 × List UInt8) :=
  let input := terminal_expand_home_path term.home.bytes input 64
  let p := skipBlanks input
  if p = [] then (st, none)
  else
    let (bno, cwd, p) :=
      if p.head? = some slash then (1, rootPath, skipSlashes p)
      else (orRoot term.cwd_bno, orRootPath term.cwd, p)
    -- a first name `root` is the root again
    let (bno, cwd, p) :=
      if lit ['r', 'o', 'o', 't', '/'] <+: p then (1, rootPath, p.drop 5)
      else if p = lit ['r', 'o', 'o', 't'] then (1, rootPath, [])
      else (bno, cwd, p)
    match walk false st bno cwd (pathSegments [] p) with
    | (st, none) => (st, none)
    | (st, some e) => (st, some (e.bno, e.cwd, e.leaf.getD (input.take 19)))

/-- The strings that the walk of `resolve_fs_target` leaves in `fs_tmp_window.cwd`. -/
def walk_cwds (st : FsState) (bno : Nat) (cwd : List UInt8) : List (List UInt8) → List (List UInt8)
  | [] => [cwd]
  | seg :: rest =>
    cwd :: if 19 < seg.length then []
      else if seg = dotName then walk_cwds st bno cwd rest
      else if seg = dotdotName then
        match load_current_dir st bno with
        | (_, none) => []
        | (st, some db) =>
          let parent := orRoot db.parent_bno
          walk_cwds st parent (if parent = 1 then rootPath else path_set_parent cwd) rest
      else if rest = [] then []
      else
        match load_current_dir st bno with
        | (_, none) => []
        | (st, some db) =>
          match find_entry_index db seg (some 1) with
          | none => []
          | some idx =>
            walk_cwds st (db.entries idx).bno (path_set_child cwd (db.entries idx).nameStr) rest

/-- All strings that `resolve_fs_target` writes to `fs_tmp_window.cwd`: the path of the window comes
first, whatever the input is. -/
def resolve_fs_target_cwds (st : FsState) (term : Window) (input : List UInt8) :
    List (List UInt8) :=
  let input := terminal_expand_home_path term.home.bytes input 64
  let p := skipBlanks input
  orRootPath term.cwd ::
    if p = [] then []
    else
      let (bno, cwd, p) :=
        if p.head? = some slash then (1, rootPath, skipSlashes p)
        else (orRoot term.cwd_bno, orRootPath term.cwd, p)
      let (bno, cwd, p) :=
        if lit ['r', 'o', 'o', 't', '/'] <+: p then (1, rootPath, p.drop 5)
        else if p = lit ['r', 'o', 'o', 't'] then (1, rootPath, [])
        else (bno, cwd, p)
      walk_cwds st bno cwd (pathSegments [] p)

/-- `resolve_fs_target` into a buffer of `size` bytes for the path runs over no buffer. -/
def resolve_fits (st : FsState) (term : Window) (input : List UInt8) (size : Nat) : Bool :=
  (resolve_fs_target_cwds st term input).all (fun c => c.length < CWD_SIZE) &&
    (resolve_fs_target st term input).2.all fun r => r.2.1.length < size

/-- `resolve_editor_target`: as above, but without a last name the leaf is empty, and a
path that ends with a slash enters its last name. -/
def resolve_editor_target (st : FsState) (term : Window) (input : List UInt8) :
    FsState × Option (Nat × List UInt8 × List UInt8) :=
  let expanded := terminal_expand_home_path term.home.bytes input 128
  let p := skipBlanks expanded
  if p = [] then (st, none)
  else
    let ends_with_slash := (skipBlanks expanded.reverse).head? == some slash
    let (bno, cwd, p) :=
      if p.head? = some slash then
        let p := skipSlashes p
        let p :=
          if lit ['r', 'o', 'o', 't', '/'] <+: p then p.drop 5
          else if p = lit ['r', 'o', 'o', 't'] then []
          else p
        (1, rootPath, p)
      else (orRoot term.cwd_bno, orRootPath term.cwd, p)
    match walk ends_with_slash st bno cwd (pathSegments [] p) with
    | (st, none) => (st, none)
    | (st, some e) => (st, some (e.bno, e.cwd, e.leaf.getD []))

/-- All strings that `resolve_editor_target` writes to `fs_tmp_window.cwd`. -/
def resolve_editor_target_cwds (st : FsState) (term : Window) (input : List UInt8) :
    List (List UInt8) :=
  let expanded := terminal_expand_home_path term.home.bytes input 128
  let p := skipBlanks expanded
  if p = [] then []
  else
    let (bno, cwd, p) :=
      if p.head? = some slash then
        let p := skipSlashes p
        let p :=
          if lit ['r', 'o', 'o', 't', '/'] <+: p then p.drop 5
          else if p = lit ['r', 'o', 'o', 't'] then []
          else p
        (1, rootPath, p)
      else (orRoot term.cwd_bno, orRootPath term.cwd, p)
    -- a name behind the last one has the walk enter that
    let behind := if (skipBlanks expanded.reverse).head? = some slash then [dotName] else []
    orRootPath term.cwd :: walk_cwds st bno cwd (pathSegments [] p ++ behind)

/-- `resolve_editor_target` into a buffer of the size of `cwd` runs over no buffer. -/
def editor_fits (st : FsState) (term : Window) (input : List UInt8) : Bool :=
  (resolve_editor_target_cwds st term input).all fun c => c.length < CWD_SIZE

end

end vibeos.fs
