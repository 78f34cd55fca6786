-- The open files of the applications in fs.c: a table of descriptors, each with the
-- file in a buffer that grows, and the commit of the buffer when the file is closed.
import Vibeos.FsOps
import Vibeos.ByteFile

namespace vibeos.fs

def APP_MAX_FDS : Nat := 16
def APP_O_READ : BitVec 32 := 0x01
def APP_O_WRITE : BitVec 32 := 0x02
def APP_O_CREAT : BitVec 32 := 0x100
def APP_O_TRUNC : BitVec 32 := 0x200

def hasFlag (flags bit : BitVec 32) : Bool := flags &&& bit != 0

/-- An entry in use. The buffer is empty while there is none, and its length is `cap`. -/
structure app_fd_entry where
  flags : BitVec 32
  pos : Nat
  size : Nat
  buf : List UInt8
  cwd_bno : Nat
  name : List UInt8
  cwd : List UInt8

def app_fd_entry.cap (fd : app_fd_entry) : Nat := fd.buf.length

/-- The file system, the table, and the working directory of the applications. -/
structure AppFs where
  st : FsState
  fds : Fin APP_MAX_FDS → Option app_fd_entry
  app_fs_cwd_bno : Nat
  app_fs_cwd : List UInt8
  app_fs_window : Window

/-- What `malloc` gives during a call: a block with its old bytes, or none. There are fewer than
`2 ^ 31` bytes of memory. -/
structure Heap where
  malloc : Nat → Option (List UInt8)
  length_eq : ∀ {n l}, malloc n = some l → l.length = n
  lt : ∀ {n l}, malloc n = some l → n < 2147483648

/-- A call returns, or goes on for ever, or touches bytes outside a buffer. -/
inductive Outcome (α : Type) where
  | returns (rc : Int) (a : α)
  | diverges
  | overruns

def Outcome.map {α β : Type} (f : α → β) : Outcome α → Outcome β
  | .returns rc a => .returns rc (f a)
  | .diverges => .diverges
  | .overruns => .overruns

def blit (buf : List UInt8) (i : Nat) (d : List UInt8) : Option (List UInt8) :=
  if i + d.length ≤ buf.length then some (overwrite buf i d) else none

def toInt32 (x : Int) : Int := (BitVec.ofInt 32 x).toInt

/-! ## The buffer -/

inductive NewCap where
  | cap (n : Nat)
  | refused
  | diverges

/-- The loop that doubles `new_cap`. After 32 rounds a word is 0 and stays 0. -/
def double_cap (cap need : Nat) : Nat → Nat → NewCap
  | 0, _ => .diverges
  | rounds + 1, new_cap =>
    if new_cap < need then
      let new_cap := new_cap * 2 % 4294967296
      if new_cap < cap then .refused else double_cap cap need rounds new_cap
    else .cap new_cap

def appfs_reserve (h : Heap) (fd : app_fd_entry) (need : Nat) : Outcome app_fd_entry :=
  if need ≤ fd.cap then .returns 0 fd
  else
    match double_cap fd.cap need 33 (if fd.cap = 0 then 256 else fd.cap) with
    | .refused => .returns (-1) fd
    | .diverges => .diverges
    | .cap new_cap =>
      match h.malloc new_cap with
      | none => .returns (-1) fd
      | some nbuf =>
        if fd.cap ≠ 0 ∧ fd.cap < fd.size then .overruns
        else
          match blit nbuf 0 (fd.buf.take fd.size) with
          | none => .overruns
          | some nbuf => .returns 0 { fd with buf := nbuf }

/-! ## Files -/

theorem fd_index_lt {fd : Int} (h : 3 ≤ fd ∧ fd < 3 + APP_MAX_FDS) :
    (fd - 3).toNat < APP_MAX_FDS := by
  omega

section

variable [BuildConfig]

def AppFs.window (s : AppFs) (fd : app_fd_entry) : Window where
  cwd_bno := if fd.cwd_bno = 0 then s.app_fs_cwd_bno else fd.cwd_bno
  cwd := if fd.cwd = [] then s.app_fs_cwd else fd.cwd
  home := ⟨[], CString.nil⟩

/-- The buffer of an entry of `size` bytes, with the bytes of the file. -/
def load_buffer (h : Heap) (st : FsState) (w : Window) (fd : app_fd_entry) (name : List UInt8)
    (size : Nat) : Outcome app_fd_entry :=
  let fd := { fd with size := size, buf := [] }
  if size = 0 then
    match appfs_reserve h fd 1 with
    | .returns rc fd =>
      if rc ≠ 0 then .returns (-3) fd
      else
        match blit fd.buf 0 [0] with
        | none => .overruns
        | some buf => .returns 0 { fd with size := 0, buf := buf }
    | .diverges => .diverges
    | .overruns => .overruns
  else
    match appfs_reserve h fd size with
    | .returns rc fd =>
      if rc ≠ 0 then .returns (-3) fd
      else
        match load_file_bytes st w name fd.cap with
        | (rc, bytes) =>
          if rc ≠ 0 then .returns (-4) fd
          else
            match blit fd.buf 0 bytes with
            | none => .overruns
            | some buf => .returns 0 { fd with size := bytes.length, buf := buf }
    | .diverges => .diverges
    | .overruns => .overruns

/-- The file system and the entry after the load. -/
def appfs_load_file (h : Heap) (st : FsState) (w : Window) (fd : app_fd_entry)
    (name : List UInt8) (flags : BitVec 32) : FsState × Outcome app_fd_entry :=
  match load_current_dir st w.cwd_bno with
  | (st, none) => (st, .returns (-1) fd)
  | (st, some db) =>
    match find_entry_index db name (some 0) with
    | none =>
      if hasFlag flags APP_O_CREAT then (st, .returns 0 { fd with size := 0, buf := [] })
      else (st, .returns (-2) fd)
    | some idx => (st, load_buffer h st w fd name (db.entries idx).size)

/-- The name of a file in the working directory. -/
def appfs_path_to_name (path : List UInt8) : Option (List UInt8) :=
  let path := skipSlashes path
  let name := path.takeWhile (· ≠ slash)
  if path = [] then none
  else if 19 < name.length then none
  else if name.length ≠ path.length then none
  else some name

def appfs_find_fd (s : AppFs) : Option (Fin APP_MAX_FDS) :=
  Fin.find? fun i => (s.fds i).isNone

/-- The directory, its path and the name that `appfs_open` opens. -/
def open_target (s : AppFs) (path : List UInt8) :
    FsState × Option (Nat × List UInt8 × List UInt8) :=
  if usesResolve path then
    match resolve_fs_target s.st s.app_fs_window path with
    | (st, none) => (st, none)
    | (st, some (dir_bno, cwd, name)) =>
      if name = [] then (st, none) else (st, some (orRoot dir_bno, orRootPath cwd, name))
  else
    match appfs_path_to_name path with
    | none => (s.st, none)
    | some name => (s.st, some (orRoot s.app_fs_cwd_bno, orRootPath s.app_fs_cwd, name))

def AppFs.install (s : AppFs) (i : Fin APP_MAX_FDS) (fd : app_fd_entry) : AppFs :=
  { s with fds := Function.update s.fds i (some fd) }

/-- The descriptor of a file that is opened for writing and created or truncated, or that is
loaded first. -/
def appfs_open (h : Heap) (s : AppFs) (path : CString) (flags : BitVec 32) : Outcome AppFs :=
  match appfs_find_fd s with
  | none => .returns (-2) s
  | some i =>
    match open_target s path.bytes with
    | (st, none) => .returns (-1) { s with st := st }
    | (st, some (cwd_bno, cwd, name)) =>
      let fd : app_fd_entry := ⟨flags, 0, 0, [], cwd_bno, name.take 19, cwd⟩
      if hasFlag flags APP_O_WRITE && hasFlag flags (APP_O_CREAT ||| APP_O_TRUNC) then
        .returns (i + 3) ({ s with st := st }.install i fd)
      else
        let w := s.window fd
        match appfs_load_file h st w fd name flags with
        | (_, .diverges) => .diverges
        | (_, .overruns) => .overruns
        | (st, .returns rc loaded) =>
          let s := { s with st := st, app_fs_window := w }
          if rc ≠ 0 ∧ (hasFlag flags APP_O_READ ∨ ¬ hasFlag flags APP_O_CREAT) then .returns (-3) s
          else
            let loaded := if rc ≠ 0 then { loaded with size := 0, buf := [] } else loaded
            if hasFlag flags APP_O_TRUNC then
              let loaded := { loaded with size := 0 }
              if loaded.cap = 0 then
                match appfs_reserve h loaded 1 with
                | .returns rc loaded =>
                  if rc ≠ 0 then .returns (-4) s else .returns (i + 3) (s.install i loaded)
                | .diverges => .diverges
                | .overruns => .overruns
              else .returns (i + 3) (s.install i loaded)
            else .returns (i + 3) (s.install i loaded)

/-! ## Calls on a descriptor -/

/-- The entry of a descriptor that is in use. -/
def app_fd (s : AppFs) (fd_no : Int) : Option (Fin APP_MAX_FDS × app_fd_entry) :=
  if h : 3 ≤ fd_no ∧ fd_no < 3 + APP_MAX_FDS then
    let i : Fin APP_MAX_FDS := ⟨(fd_no - 3).toNat, fd_index_lt h⟩
    (s.fds i).map fun fd => (i, fd)
  else none

/-- `appfs_read` of `size` bytes; with it the bytes that it gives. -/
def appfs_read (s : AppFs) (fd_no : Int) (size : Nat) : Outcome (AppFs × List UInt8) :=
  match app_fd s fd_no with
  | none => .returns (-1) (s, [])
  | some (i, fd) =>
    if ¬ hasFlag fd.flags APP_O_READ then .returns (-1) (s, [])
    else if fd.pos ≥ fd.size then .returns 0 (s, [])
    else
      let remain := fd.size - fd.pos
      let chunk := if remain < size then remain else size
      if fd.pos + chunk ≤ fd.cap then
        .returns (toInt32 chunk)
          (s.install i { fd with pos := fd.pos + chunk }, (fd.buf.drop fd.pos).take chunk)
      else .overruns

def appfs_write (h : Heap) (s : AppFs) (fd_no : Int) (data : List UInt8) : Outcome AppFs :=
  match app_fd s fd_no with
  | none => .returns (-1) s
  | some (i, fd) =>
    if ¬ hasFlag fd.flags APP_O_WRITE then .returns (-1) s
    else
      let need := (fd.pos + data.length) % 4294967296
      match (if need > fd.cap then appfs_reserve h fd need else .returns 0 fd) with
      | .diverges => .diverges
      | .overruns => .overruns
      | .returns rc fd =>
        if rc ≠ 0 then .returns (-1) s
        else
          match blit fd.buf fd.pos data with
          | none => .overruns
          | some buf =>
            let pos := (fd.pos + data.length) % 4294967296
            .returns (toInt32 data.length)
              (s.install i { fd with buf := buf, pos := pos, size := max fd.size pos })

def appfs_seek (h : Heap) (s : AppFs) (fd_no offset whence : Int) : Outcome AppFs :=
  match app_fd s fd_no with
  | none => .returns (-1) s
  | some (i, fd) =>
    if whence ≠ 0 ∧ whence ≠ 1 ∧ whence ≠ 2 then .returns (-1) s
    else
      let base :=
        if whence = 0 then 0 else if whence = 1 then toInt32 fd.pos else toInt32 fd.size
      let next := toInt32 (base + offset)
      if next < 0 then .returns (-1) s
      else if fd.size < next.toNat then
        if ¬ hasFlag fd.flags APP_O_WRITE then .returns (-1) s
        else
          match (if next.toNat > fd.cap then appfs_reserve h fd next.toNat else .returns 0 fd) with
          | .diverges => .diverges
          | .overruns => .overruns
          | .returns rc fd =>
            if rc ≠ 0 then .returns (-1) s
            else
              match blit fd.buf fd.size (List.replicate (next.toNat - fd.size) 0) with
              | none => .overruns
              | some buf =>
                .returns next
                  (s.install i { fd with buf := buf, size := next.toNat, pos := next.toNat })
      else .returns next (s.install i { fd with pos := next.toNat })

def appfs_tell (s : AppFs) (fd_no : Int) : Int :=
  match app_fd s fd_no with
  | none => -1
  | some (_, fd) => toInt32 fd.pos

/-- `appfs_close`: the buffer is stored if the file may have changed. A store that fails leaves
the descriptor open. -/
def appfs_close (s : AppFs) (fd_no : Int) (now : Nat) : Outcome AppFs :=
  match app_fd s fd_no with
  | none => .returns (-1) s
  | some (i, fd) =>
    if hasFlag fd.flags APP_O_WRITE || hasFlag fd.flags APP_O_CREAT ||
        hasFlag fd.flags APP_O_TRUNC then
      let w := s.window fd
      if fd.cap < fd.size then .overruns
      else
        match store_file_bytes s.st w fd.name (fd.buf.take fd.size) now with
        | none => .diverges
        | some (rc, st) =>
          let s := { s with st := st, app_fs_window := w }
          if rc ≠ 0 then .returns (-1) s
          else .returns 0 { s with fds := Function.update s.fds i none }
    else .returns 0 { s with fds := Function.update s.fds i none }

end

end vibeos.fs
