-- The ELF loader of app_runtime.c. The image is a range of the memory that the
-- loader writes to. The state keeps the ranges that the loader read and wrote.
import Vibeos.ByteMem

namespace vibeos.app_runtime

open vibeos.Mem

/-- A range of addresses that the code reads or writes. -/
structure Span where
  addr : Nat
  len : Nat
deriving DecidableEq

/-- Where the linker put the applications. -/
class AppConfig where
  APP_START : Nat
  APP_END : Nat
  fits : APP_END < 2 ^ 32

export AppConfig (APP_START APP_END)

/-- The application region of the emulated board. -/
@[reducible]
def qemuApps : AppConfig where
  APP_START := 0xBF000000
  APP_END := 0xC0000000
  fits := by decide

def ELF32_EHDR_SIZE : Nat := 52
def ELF32_PHDR_SIZE : Nat := 32

/-- The fields of `struct elf32_ehdr` that the loader reads. -/
structure Elf32Ehdr where
  e_ident : List UInt8
  e_type : Nat
  e_machine : Nat
  e_version : Nat
  e_entry : Nat
  e_phoff : Nat
  e_phentsize : Nat
  e_phnum : Nat

/-- The fields of `struct elf32_phdr` that the loader reads. -/
structure Elf32Phdr where
  p_type : Nat
  p_offset : Nat
  p_vaddr : Nat
  p_filesz : Nat
  p_memsz : Nat

def ehdr (m : Mem) (a : Nat) : Elf32Ehdr where
  e_ident := (List.range 16).map fun i => m (a + i)
  e_type := readLE m (a + 16) 2
  e_machine := readLE m (a + 18) 2
  e_version := readLE m (a + 20) 4
  e_entry := readLE m (a + 24) 4
  e_phoff := readLE m (a + 28) 4
  e_phentsize := readLE m (a + 42) 2
  e_phnum := readLE m (a + 44) 2

def phdr (m : Mem) (a : Nat) : Elf32Phdr where
  p_type := readLE m a 4
  p_offset := readLE m (a + 4) 4
  p_vaddr := readLE m (a + 8) 4
  p_filesz := readLE m (a + 16) 4
  p_memsz := readLE m (a + 20) 4

/-- The magic bytes, `ELF32_CLASS_32`, `ELF32_DATA_LSB` and the version, in `e_ident`. -/
def ELF32_IDENT : List UInt8 := [0x7f, 0x45, 0x4c, 0x46, 1, 1, 1]
def ELF32_VERSION_CURRENT : Nat := 1
def ELF32_ET_EXEC : Nat := 2
def ELF32_EM_RISCV : Nat := 243
def ELF32_PT_LOAD : Nat := 1

/-- The identification, type, machine and version that the loader accepts. -/
def Elf32Ehdr.Supported (eh : Elf32Ehdr) : Prop :=
  eh.e_ident.take 7 = ELF32_IDENT ∧ eh.e_type = ELF32_ET_EXEC ∧
    eh.e_machine = ELF32_EM_RISCV ∧ eh.e_version = ELF32_VERSION_CURRENT

instance (eh : Elf32Ehdr) : Decidable eh.Supported := by
  unfold Elf32Ehdr.Supported
  infer_instance

/-- What a call of the loader reads and changes, `out` being the text of an error. -/
structure LoadState where
  mem : Mem
  loaded_app_entry : Nat
  out : String
  reads : List Span
  writes : List Span

/-- An error of the loader: the code that it returns, and the state. -/
def LoadState.fail (s : LoadState) (rc : Int) (out : String) : Int × LoadState :=
  (rc, { s with out := out })

def LoadState.enter (s : LoadState) (e_entry : Nat) : LoadState :=
  { s with loaded_app_entry := e_entry }

/-- The copy of a segment from the image at `buf`, and the zeros behind it. -/
def LoadState.place (s : LoadState) (buf : Nat) (ph : Elf32Phdr) : LoadState :=
  let s := { s with
    mem := copy s.mem ph.p_vaddr (buf + ph.p_offset) ph.p_filesz
    reads := ⟨buf + ph.p_offset, ph.p_filesz⟩ :: s.reads
    writes := ⟨ph.p_vaddr, ph.p_filesz⟩ :: s.writes }
  if ph.p_filesz < ph.p_memsz then
    let end_ := (ph.p_vaddr + ph.p_filesz) % 2 ^ 32
    { s with
      mem := fill s.mem end_ 0 (ph.p_memsz - ph.p_filesz)
      writes := ⟨end_, ph.p_memsz - ph.p_filesz⟩ :: s.writes }
  else s

def phdr_addr (m : Mem) (buf i : Nat) : Nat :=
  buf + (ehdr m buf).e_phoff + i * (ehdr m buf).e_phentsize % 2 ^ 32

section

variable [AppConfig]

/-- One round of the loop, for program header `i`; an error ends the call. -/
def load_segment (buf size i : Nat) (s : LoadState) : Except (Int × LoadState) LoadState :=
  let a := phdr_addr s.mem buf i
  let ph := phdr s.mem a
  let s := { s with reads := ⟨a, ELF32_PHDR_SIZE⟩ :: s.reads }
  if ph.p_type ≠ ELF32_PT_LOAD then .ok s
  else if size < ph.p_offset + ph.p_filesz then .error (s.fail (-14) "ERR: Bad ELF Seg.")
  else if ph.p_memsz < ph.p_filesz then .error (s.fail (-14) "ERR: Bad ELF Seg.")
  else if ph.p_memsz = 0 then .ok s
  else if ph.p_vaddr < APP_START ∨ APP_END < ph.p_vaddr + ph.p_memsz then
    .error (s.fail (-7) "ERR: App Too Large.")
  else .ok (s.place buf ph)

/-- The loop over the program headers from `i` on. Each round reads their number again. -/
def load_segments (buf size : Nat) : Nat → Nat → LoadState → Except (Int × LoadState) LoadState
  | 0, _, s => .ok s
  | fuel + 1, i, s =>
    if i < (ehdr s.mem buf).e_phnum then
      (load_segment buf size i s).bind (load_segments buf size fuel (i + 1))
    else .ok s

/-- `app_load_elf_image`, for the image of `size` bytes at `buf`. -/
def app_load_elf_image (buf size : Nat) (s : LoadState) : Int × LoadState :=
  if size < ELF32_EHDR_SIZE then s.fail (-11) "ERR: Bad ELF."
  else
    let eh := ehdr s.mem buf
    let s := { s with reads := ⟨buf, ELF32_EHDR_SIZE⟩ :: s.reads }
    if ¬ eh.Supported then s.fail (-11) "ERR: Bad ELF."
    else if eh.e_phoff = 0 ∨ eh.e_phentsize < ELF32_PHDR_SIZE then
      s.fail (-12) "ERR: Bad ELF PH."
    else if size < eh.e_phoff + eh.e_phnum * eh.e_phentsize then s.fail (-12) "ERR: Bad ELF PH."
    else if eh.e_entry < APP_START ∨ APP_END ≤ eh.e_entry then
      s.fail (-13) "ERR: Bad ELF Entry."
    else
      match load_segments buf size (2 ^ 16) 0 s with
      | .error r => r
      | .ok s => (0, s.enter (ehdr s.mem buf).e_entry)

end

end vibeos.app_runtime
