-- Address translation of RISC-V with the page tables of Sv32, for the accesses of user mode.
import Vibeos.ByteMem

namespace vibeos.Sv32

open Mem

/-! ## Entries -/

section

variable (pte : Nat)

def isValid : Bool := pte.testBit 0
def isReadable : Bool := pte.testBit 1
def isWritable : Bool := pte.testBit 2
def isExecutable : Bool := pte.testBit 3
def isUser : Bool := pte.testBit 4
def isAccessed : Bool := pte.testBit 6
def isDirty : Bool := pte.testBit 7

/-- The number of the page that the entry is about. -/
def ppn : Nat := pte / 1024

end

inductive Access where
  | read
  | write
  | execute
deriving DecidableEq

def permits (pte : Nat) : Access → Bool
  | .read => isReadable pte
  | .write => isWritable pte
  | .execute => isExecutable pte

/-! ## The walk -/

/-- The part of a virtual address that selects an entry of a table of this level. -/
def vpn (va level : Nat) : Nat := va / 4096 / 1024 ^ level % 1024

/-- The entry for `va` of the table in the page `table`. -/
def entry (m : Mem) (va level table : Nat) : Nat := readLE m (table * 4096 + 4 * vpn va level) 4

/-- The level and the entry of the leaf for `va`, from the table in the page `table` down. -/
def walk (m : Mem) (va : Nat) (level table : Nat) : Option (Nat × Nat) :=
  let pte := entry m va level table
  if isValid pte = false ∨ isReadable pte = false ∧ isWritable pte = true then none
  else if isReadable pte ∨ isExecutable pte then some (level, pte)
  else
    match level with
    | 0 => none
    | level + 1 => walk m va level (ppn pte)

/-- The physical address of an access in user mode, and `none` for a fault. The bit MXR of
`mstatus` is clear, and the bits A and D are not set by the hardware. -/
def translate (m : Mem) (satp va : Nat) (access : Access) : Option Nat :=
  if satp.testBit 31 = false then some va
  else
    match walk m va 1 (satp % 2 ^ 22) with
    | none => none
    | some (level, pte) =>
      if isUser pte = true ∧ permits pte access = true ∧ ppn pte % 1024 ^ level = 0 ∧
          isAccessed pte = true ∧ (access = .write → isDirty pte = true) then
        some (ppn pte * 4096 + va % (4096 * 1024 ^ level))
      else none

/-! ## Entries that software makes -/

/-- A valid entry for the page `page` with these bits. -/
def entryOf (page bits : Nat) : Nat := page * 1024 + bits

variable {m : Mem} {va level table page bits satp pte : Nat}

theorem ppn_entryOf (h : bits < 1024) : ppn (entryOf page bits) = page := by
  unfold ppn entryOf
  omega

theorem testBit_entryOf (h : bits < 1024) {i : Nat} (hi : i < 10) :
    (entryOf page bits).testBit i = bits.testBit i := by
  have hmul : entryOf page bits = 2 ^ 10 * page + bits := by
    rw [entryOf, Nat.mul_comm page]
    rfl
  rw [hmul, Nat.testBit_two_pow_mul_add _ h, if_pos hi]

/-- An entry with V alone points to the table of the next level. -/
def pointer (page : Nat) : Nat := entryOf page 1

/-- An entry with all of V, R, W, X, U, A and D. -/
def userLeaf (page : Nat) : Nat := entryOf page 0xDF

theorem walk_of_zero (h : entry m va level table = 0) : walk m va level table = none := by
  rw [walk.eq_def, h]
  rfl

theorem walk_of_pointer (h : entry m va (level + 1) table = pointer page) :
    walk m va (level + 1) table = walk m va level page := by
  have hbits : ∀ i < 10, (pointer page).testBit i = Nat.testBit 1 i := fun i hi =>
    testBit_entryOf (by decide) hi
  rw [walk.eq_def, h]
  simp only [isValid, isReadable, isWritable, isExecutable, hbits 0 (by decide),
    hbits 1 (by decide), hbits 2 (by decide), hbits 3 (by decide)]
  exact congrArg (walk m va level) (ppn_entryOf (by decide))

theorem walk_of_userLeaf (h : entry m va level table = userLeaf page) :
    walk m va level table = some (level, userLeaf page) := by
  have hbits : ∀ i < 10, (userLeaf page).testBit i = Nat.testBit 0xDF i := fun i hi =>
    testBit_entryOf (by decide) hi
  rw [walk.eq_def, h]
  simp only [isValid, isReadable, isExecutable, hbits 0 (by decide), hbits 1 (by decide),
    hbits 3 (by decide)]
  rfl

/-! ## Translation through such entries -/

theorem translate_of_walk_none (hmode : satp.testBit 31 = true)
    (h : walk m va 1 (satp % 2 ^ 22) = none) (access : Access) :
    translate m satp va access = none := by
  rw [translate, if_neg (by simp [hmode]), h]

theorem translate_of_userLeaf (hmode : satp.testBit 31 = true)
    (h : walk m va 1 (satp % 2 ^ 22) = some (0, userLeaf page)) (access : Access) :
    translate m satp va access = some (page * 4096 + va % 4096) := by
  have hbits : ∀ i < 10, (userLeaf page).testBit i = Nat.testBit 0xDF i := fun i hi =>
    testBit_entryOf (by decide) hi
  have hpermits : permits (userLeaf page) access = true := by
    cases access <;>
      simp only [permits, isReadable, isWritable, isExecutable, hbits 1 (by decide),
        hbits 2 (by decide), hbits 3 (by decide)] <;> rfl
  have huser : isUser (userLeaf page) = true := hbits 4 (by decide)
  have haccessed : isAccessed (userLeaf page) = true := hbits 6 (by decide)
  have hdirty : isDirty (userLeaf page) = true := hbits 7 (by decide)
  rw [translate, if_neg (by simp [hmode]), h]
  dsimp only
  rw [if_pos ⟨huser, hpermits, by rw [Nat.pow_zero, Nat.mod_one], haccessed, fun _ => hdirty⟩,
    userLeaf, ppn_entryOf (by decide), Nat.pow_zero, Nat.mul_one]

end vibeos.Sv32
