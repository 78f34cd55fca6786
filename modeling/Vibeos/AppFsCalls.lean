-- The open files of the applications behave as independent byte files, each with a cursor
-- and permissions, in every run whose calls fit.
import Vibeos.AppFsSpecs

namespace vibeos.fs

/-! ## Open files -/

/-- A file that is open, with its directory and its name. -/
structure OpenFile where
  dir : Nat
  name : List UInt8
  file : ByteFile UInt8
  readable : Bool
  writable : Bool

abbrev OpenFiles := Fin APP_MAX_FDS → Option OpenFile

def openAt (v : OpenFiles) (fd_no : Int) : Option (Fin APP_MAX_FDS × OpenFile) :=
  if h : 3 ≤ fd_no ∧ fd_no < 3 + APP_MAX_FDS then
    let i : Fin APP_MAX_FDS := ⟨(fd_no - 3).toNat, fd_index_lt h⟩
    (v i).map fun f => (i, f)
  else none

/-- The buffer holds the bytes of the file, and `pos` is its cursor. -/
structure Shows (fd : app_fd_entry) (f : OpenFile) : Prop where
  dir : f.dir = fd.cwd_bno
  name : f.name = fd.name
  buffered : Buffered fd f.file.bytes
  pos : fd.pos = f.file.cursor
  readable : f.readable = hasFlag fd.flags APP_O_READ
  writable : f.writable = hasFlag fd.flags APP_O_WRITE

def ShowsAll (fds : Fin APP_MAX_FDS → Option app_fd_entry) (v : OpenFiles) : Prop :=
  ∀ i, Option.Rel Shows (fds i) (v i)

theorem ShowsAll.update {fds : Fin APP_MAX_FDS → Option app_fd_entry} {v : OpenFiles}
    (h : ShowsAll fds v) (i : Fin APP_MAX_FDS) {fd : Option app_fd_entry} {f : Option OpenFile}
    (hfd : Option.Rel Shows fd f) : ShowsAll (Function.update fds i fd) (Function.update v i f) := by
  intro j
  by_cases hj : j = i
  · rw [hj, Function.update_self, Function.update_self]
    exact hfd
  · rw [Function.update_of_ne hj, Function.update_of_ne hj]
    exact h j

theorem ShowsAll.app_fd {s : AppFs} {v : OpenFiles} (h : ShowsAll s.fds v) (fd_no : Int) :
    (app_fd s fd_no = none ∧ openAt v fd_no = none) ∨
      ∃ i fd f, app_fd s fd_no = some (i, fd) ∧ openAt v fd_no = some (i, f) ∧ Shows fd f := by
  unfold vibeos.fs.app_fd openAt
  split
  · rename_i hfd
    have hrel := h ⟨(fd_no - 3).toNat, by omega⟩
    cases hs : s.fds ⟨(fd_no - 3).toNat, by omega⟩ with
    | none =>
      cases hv : v ⟨(fd_no - 3).toNat, by omega⟩ with
      | none =>
        left
        simp only [hs, hv, Option.map_none, and_self]
      | some f =>
        rw [hs, hv] at hrel
        cases hrel
    | some fd =>
      cases hv : v ⟨(fd_no - 3).toNat, by omega⟩ with
      | none =>
        rw [hs, hv] at hrel
        cases hrel
      | some f =>
        rw [hs, hv] at hrel
        cases hrel with
        | some hshows =>
          right
          refine ⟨⟨(fd_no - 3).toNat, by omega⟩, fd, f, ?_, ?_, hshows⟩
          · simp only [hs, Option.map_some]
          · simp only [hv, Option.map_some]
  · exact Or.inl ⟨rfl, rfl⟩

/-! ## Calls -/

/-- A call by an application, with what `malloc` gives during it, or a change of the file system
by the rest of the system. -/
inductive AppCall where
  | open (h : Heap) (path : CString) (flags : BitVec 32)
  | read (fd_no : Int) (size : Nat)
  | write (h : Heap) (fd_no : Int) (data : List UInt8)
  | seek (h : Heap) (fd_no : Int) (offset : BitVec 32) (whence : Int)
  | tell (fd_no : Int)
  | close (fd_no : Int) (now : Nat)
  | elsewhere (st : FsState)

section

variable [BuildConfig]

def app_call (s : AppFs) : AppCall → Outcome (AppFs × List UInt8)
  | .open h path flags => (appfs_open h s path flags).map fun s => (s, [])
  | .read fd_no size => appfs_read s fd_no size
  | .write h fd_no data => (appfs_write h s fd_no data).map fun s => (s, [])
  | .seek h fd_no offset whence => (appfs_seek h s fd_no offset.toInt whence).map fun s => (s, [])
  | .tell fd_no => .returns (appfs_tell s fd_no) (s, [])
  | .close fd_no now => (appfs_close s fd_no now).map fun s => (s, [])
  | .elsewhere st => .returns 0 ({ s with st := st }, [])

/-- What a call on a file that is opened starts with. -/
structure NewFile (s : AppFs) (path : List UInt8) (flags : BitVec 32) (f : OpenFile) : Prop where
  cursor : f.file.cursor = 0
  readable : f.readable = hasFlag flags APP_O_READ
  writable : f.writable = hasFlag flags APP_O_WRITE
  target : ∃ cwd, (open_target s path).2 = some (f.dir, cwd, f.name)
  bytes : f.file.bytes = if hasFlag flags APP_O_TRUNC then []
    else (contentsAt s.st.disk f.dir f.name).getD []

def seekTarget (f : ByteFile UInt8) (offset whence : Int) : Int :=
  (if whence = 0 then 0 else if whence = 1 then (f.cursor : Int) else f.bytes.length) + offset

/-- There is no memory for a file of `n` bytes. -/
def NoMemory (h : Heap) (n : Nat) : Prop := ∃ m, n ≤ m ∧ h.malloc m = none

/-- The model of a call: the open files `v` become `v'`, with the return code and the bytes. -/
def Behaves (s : AppFs) (v : OpenFiles) (rc : Int) (out : List UInt8) (s' : AppFs)
    (v' : OpenFiles) : AppCall → Prop
  | .open _ path flags =>
    (rc < 0 ∧ v' = v) ∨ ∃ (i : Fin APP_MAX_FDS) (f : OpenFile), rc = i.val + 3 ∧ v i = none ∧
      v' = Function.update v i (some f) ∧ NewFile s path.bytes flags f
  | .read fd_no size =>
    match openAt v fd_no with
    | none => rc = -1 ∧ out = [] ∧ v' = v
    | some (i, f) =>
      if f.readable then rc = out.length ∧ out = f.file.next size ∧
        v' = Function.update v i (some { f with file := f.file.read size })
      else rc = -1 ∧ out = [] ∧ v' = v
  | .write h fd_no data =>
    match openAt v fd_no with
    | none => rc = -1 ∧ v' = v
    | some (i, f) =>
      if f.writable then
        (rc = data.length ∧
          v' = Function.update v i (some { f with file := f.file.write data })) ∨
        (rc = -1 ∧ v' = v ∧ NoMemory h (f.file.cursor + data.length))
      else rc = -1 ∧ v' = v
  | .seek h fd_no offset whence =>
    match openAt v fd_no with
    | none => rc = -1 ∧ v' = v
    | some (i, f) =>
      let target := seekTarget f.file offset.toInt whence
      if (whence = 0 ∨ whence = 1 ∨ whence = 2) ∧ 0 ≤ target ∧ target < 2147483648 ∧
          (target ≤ f.file.bytes.length ∨ f.writable) then
        (rc = target ∧
          v' = Function.update v i (some { f with file := f.file.seek 0 target.toNat })) ∨
        (rc = -1 ∧ v' = v ∧ NoMemory h target.toNat)
      else rc = -1 ∧ v' = v
  | .tell fd_no =>
    v' = v ∧ rc = match openAt v fd_no with
      | none => -1
      | some (_, f) => (f.file.cursor : Int)
  | .close fd_no _ =>
    match openAt v fd_no with
    | none => rc = -1 ∧ v' = v
    | some (i, f) =>
      (rc = -1 ∧ v' = v) ∨ (rc = 0 ∧ v' = Function.update v i none ∧
        (f.writable = true → HasBytes s'.st f.dir f.name f.file.bytes))
  | .elsewhere st => v' = v ∧ s'.st = st

/-- The call fits: the position behind a write is a 32-bit number, and at most `2 ^ 31` while the
file has no buffer; a file that is opened for writing and is created if it is missing is
truncated or has no bytes, and `APP_O_CREAT` does not stand alone; the names that are opened and
the directories that are written are as the file system asks. -/
def CallFits (s : AppFs) : AppCall → Prop
  | .open _ path flags =>
    OpenFits s path.bytes flags ∧
    (hasFlag flags APP_O_CREAT = true → hasFlag flags APP_O_WRITE = false →
      hasFlag flags APP_O_READ = true) ∧
    (hasFlag flags APP_O_WRITE = true → hasFlag flags APP_O_CREAT = true →
      hasFlag flags APP_O_TRUNC = false → ∀ P cwd name,
        (open_target s path.bytes).2 = some (P, cwd, name) →
        (contentsAt s.st.disk P name).getD [] = [])
  | .write _ fd_no data => ∀ i fd, app_fd s fd_no = some (i, fd) →
    fd.pos + data.length < 4294967296 ∧ (fd.cap = 0 → fd.pos + data.length ≤ 2147483648)
  | .close fd_no _ => ∀ i fd, app_fd s fd_no = some (i, fd) → Stores fd.flags = true →
    CloseFits s.st fd
  | _ => True

/-- The call returns and behaves as the model says, and the table still has the open files. -/
def Follows (s : AppFs) (v : OpenFiles) (call : AppCall) (s' : AppFs) (v' : OpenFiles) : Prop :=
  ∃ rc out, app_call s call = .returns rc (s', out) ∧ Behaves s v rc out s' v' call ∧
    ShowsAll s'.fds v'

variable {s : AppFs} {v : OpenFiles}

omit [BuildConfig] in
theorem app_fd_eq {fd_no : Int} {i : Fin APP_MAX_FDS} {fd : app_fd_entry}
    (h : app_fd s fd_no = some (i, fd)) : s.fds i = some fd := by
  unfold app_fd at h
  split at h
  · obtain ⟨fd', hfd', heq⟩ := Option.map_eq_some_iff.mp h
    cases heq
    exact hfd'
  · cases h

omit [BuildConfig] in
theorem ShowsAll.install (h : ShowsAll s.fds v) (i : Fin APP_MAX_FDS) {fd : app_fd_entry}
    {f : OpenFile} (hfd : Shows fd f) :
    ShowsAll (s.install i fd).fds (Function.update v i (some f)) :=
  h.update i (.some hfd)

omit [BuildConfig] in
theorem ShowsAll.touch (h : ShowsAll s.fds v) {i : Fin APP_MAX_FDS} {fd : app_fd_entry}
    (hfd : s.fds i = some fd) {f : OpenFile} (hs : Shows fd f) :
    ShowsAll s.fds (Function.update v i (some f)) := by
  have hsame : Function.update s.fds i (some fd) = s.fds := by
    rw [← hfd, Function.update_eq_self]
  rw [← hsame]
  exact h.update i (.some hs)

end

end vibeos.fs
