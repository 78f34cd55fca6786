-- Runs of calls on the open files: every call that fits is followed by the model, whatever
-- the calls before it were.
import Vibeos.AppFsCalls
import Vibeos.AllocInv

namespace vibeos.fs

section

variable [BuildConfig] {s : AppFs} {v : OpenFiles}

/-! ## Opening and closing -/

/-- All calls of the list fit, each in the state that the calls before it reach. -/
def CallsFit : AppFs → List AppCall → Prop
  | _, [] => True
  | s, call :: calls =>
    CallFits s call ∧ ∀ rc s' out, app_call s call = .returns rc (s', out) → CallsFit s' calls

theorem CallsFit.cons {s' : AppFs} {call : AppCall} {calls : List AppCall} {rc : Int}
    {out : List UInt8} (hcall : app_call s call = .returns rc (s', out)) (h : CallFits s call)
    (htail : CallsFit s' calls) : CallsFit s (call :: calls) := by
  refine ⟨h, ?_⟩
  intro rc' t out' ht
  rw [hcall] at ht
  cases ht
  exact htail

end

/-! ## A run of one file -/

section

attribute [local instance] fpgaBuild

def zeroHeap : Heap where
  malloc n := if n < 2147483648 then some (List.replicate n 0) else none
  length_eq h := by
    split at h
    · cases h
      exact List.length_replicate
    · cases h
  lt h := by
    split at h
    · assumption
    · cases h

/-- No file is open, on a disk that is formatted. -/
def freshFs : AppFs where
  st := (format blankSystem).st
  fds := fun _ => none
  app_fs_cwd_bno := 1
  app_fs_cwd := rootPath
  app_fs_window := ⟨1, rootPath, ⟨[], CString.nil⟩⟩

/-- The descriptor of the sample with `n` bytes written. -/
def sampleEntry (pos size : Nat) (buf : List UInt8) : app_fd_entry :=
  ⟨0x303, pos, size, buf, 1, lit ['f'], rootPath⟩

def firstSlot : Fin APP_MAX_FDS := ⟨0, by decide⟩

def openedFs : AppFs := freshFs.install firstSlot (sampleEntry 0 0 [])

/-- The sample with the cursor at `pos`, when its two bytes are written. -/
def writtenFs (pos : Nat) : AppFs :=
  openedFs.install firstSlot (sampleEntry pos 2 (lit ['h', 'i'] ++ List.replicate 254 0))

end

end vibeos.fs
