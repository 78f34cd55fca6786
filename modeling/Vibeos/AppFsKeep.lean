-- What a file has when it was opened for writing and closed again, and when bytes were
-- appended to it.
import Vibeos.AppFsRuns

namespace vibeos.fs

/-! ## Modes -/

/-- `jit_stdio_mode_to_flags`: the flags of `fopen`. -/
def jit_stdio_mode_to_flags (mode : List UInt8) : Option (BitVec 32) :=
  let plus := mode.contains '+'.toUInt8
  match mode.head? with
  | none => none
  | some base =>
    if base = 'r'.toUInt8 then some (if plus then 0x01 ||| 0x02 else 0x01)
    else if base = 'w'.toUInt8 then
      some (if plus then 0x01 ||| 0x02 ||| 0x100 ||| 0x200 else 0x02 ||| 0x100 ||| 0x200)
    else if base = 'a'.toUInt8 then some (if plus then 0x01 ||| 0x02 ||| 0x100 else 0x02 ||| 0x100)
    else none

/-- The call succeeded, with a return code that is no error. -/
def Outcome.success {α : Type} : Outcome α → Option (Int × α)
  | .returns rc a => if rc < 0 then none else some (rc, a)
  | _ => none

section

variable [BuildConfig]

variable {s : AppFs} {path : CString} {P : Nat} {name c : List UInt8}

omit [BuildConfig] in
theorem fileAt_error_ne_zero {disk : Disk} : fileAt disk P name ≠ .error 0 := by
  unfold fileAt
  split
  · decide
  · split
    · decide
    · intro h
      cases h

theorem HasBytes.fileAt {st : FsState} (h : HasBytes st P name c) (hname : PlainName name) :
    ∃ e, vibeos.fs.fileAt st.disk P name = .ok e ∧ load_loop st.disk e.size e.bno = c ∧
      e.size ≤ c.length := by
  have hload := h ⟨P, [], ⟨[], by simp⟩⟩ rfl c.length (Nat.le_refl _)
  rw [load_file_bytes_eq, hname.target] at hload
  simp only [loadAt] at hload
  cases he : vibeos.fs.fileAt st.disk P name with
  | error rc =>
    rw [he] at hload
    cases hload
    exact absurd he fileAt_error_ne_zero
  | ok e =>
    rw [he] at hload
    simp only at hload
    split at hload
    · cases hload
    · exact ⟨e, rfl, congrArg Prod.snd hload, by omega⟩

end

section

attribute [local instance] fpgaBuild

end

end vibeos.fs
