-- The block layout of the file system: `struct file_entry`, `struct dir_block`
-- and `struct data_block` of user.h, the 4096 bytes that one `virtio_disk_rw`
-- moves, and the byte strings that names and paths are.
import Mathlib.Logic.Function.Basic
import Mathlib.Algebra.Group.Nat.Defs
import Mathlib.Data.Fin.Basic
import Mathlib.Data.List.TakeWhile
import Mathlib.Tactic.Common
import Mathlib.Data.Fintype.Basic

namespace vibeos.fs

/-! ## Byte strings -/

abbrev Bytes (n : Nat) := { l : List UInt8 // l.length = n }

def Bytes.zero (n : Nat) : Bytes n := ⟨List.replicate n 0, List.length_replicate⟩

/-- The C string in an array: the bytes before the first NUL. -/
def cstr (l : List UInt8) : List UInt8 := l.takeWhile (· != 0)

def lit (s : List Char) : List UInt8 := s.map Char.toUInt8

def slash : UInt8 := '/'.toUInt8

def dotName : List UInt8 := lit ['.']
def dotdotName : List UInt8 := lit ['.', '.']

/-- `"/root"`, the path that every window starts with. -/
def rootPath : List UInt8 := lit ['/', 'r', 'o', 'o', 't']

/-- A C string that a caller passes: its bytes before the NUL. -/
structure CString where
  bytes : List UInt8
  nul_free : 0 ∉ bytes
deriving DecidableEq

theorem CString.nil : 0 ∉ ([] : List UInt8) := List.not_mem_nil

/-- `copy_name20`: at most 19 bytes of `src`, a NUL, and what `dst` holds behind it. -/
def copy_name20 (dst : Bytes 20) (src : List UInt8) : Bytes 20 :=
  ⟨src.take 19 ++ 0 :: dst.val.drop (min 19 src.length + 1), by
    have := dst.property
    simp only [List.length_append, List.length_take, List.length_cons, List.length_drop]
    omega⟩

theorem cstr_append_nul {s t : List UInt8} (h : 0 ∉ s) : cstr (s ++ 0 :: t) = s := by
  unfold cstr
  rw [List.takeWhile_append_of_pos]
  · simp
  · intro a ha
    simp only [bne_iff_ne, ne_eq]
    rintro rfl
    exact h ha

theorem cstr_eq_self {s : List UInt8} (h : 0 ∉ s) : cstr s = s :=
  List.takeWhile_eq_self_iff.mpr fun a ha => by
    simp only [bne_iff_ne]
    exact fun h0 => h (h0 ▸ ha)

theorem nul_not_mem_take {s : List UInt8} (n : Nat) (h : 0 ∉ s) : 0 ∉ s.take n :=
  fun hm => h (List.mem_of_mem_take hm)

theorem cstr_copy_name20 (dst : Bytes 20) {src : List UInt8} (h : 0 ∉ src) :
    cstr (copy_name20 dst src).val = src.take 19 :=
  cstr_append_nul (nul_not_mem_take 19 h)

theorem cstr_take_append_zeros (l : List UInt8) (n m : Nat) :
    cstr (l.take n ++ List.replicate m 0) = (cstr l).take n := by
  induction l generalizing n with
  | nil => cases m <;> simp [cstr, List.replicate_succ]
  | cons c l ih =>
    cases n with
    | zero => cases m <;> simp [cstr, List.replicate_succ]
    | succ n =>
      by_cases hc : c = 0
      · simp [cstr, hc]
      · have := ih n
        simp only [cstr] at this
        simp [cstr, hc, this]

theorem nul_not_mem_cstr (l : List UInt8) : 0 ∉ cstr l := by
  intro h
  have := List.mem_takeWhile_imp h
  simp at this

/-! ## Directory entries -/

def BSIZE : Nat := 4096
def FS_DATA_PAYLOAD : Nat := BSIZE - 8
def MAX_DIR_ENTRIES : Nat := 120
def FS_MAGIC : Nat := 0x58504653
def FS_DATA_MAGIC : Nat := 0x31415444

/-- `struct file_entry`. The numbers are 32-bit words, `mode` and `type` 16-bit ones. -/
structure FileEntry where
  name : Bytes 20
  bno : Nat
  size : Nat
  ctime : Nat
  mtime : Nat
  mode : Nat
  type : Nat
deriving DecidableEq

/-- `sizeof(struct file_entry)`: 20 bytes of name, four words and two halfwords. -/
def sizeofFileEntry : Nat := 20 + 4 * 4 + 2 * 2

def FileEntry.zero : FileEntry := ⟨Bytes.zero 20, 0, 0, 0, 0, 0, 0⟩

def FileEntry.inUse (e : FileEntry) : Bool := e.name.val.headD 0 != 0

def FileEntry.nameStr (e : FileEntry) : List UInt8 := cstr e.name.val

theorem FileEntry.inUse_iff (e : FileEntry) : e.inUse = true ↔ e.nameStr ≠ [] := by
  unfold inUse nameStr cstr
  obtain ⟨l, hl⟩ := e.name
  cases l with
  | nil => simp at hl
  | cons c l => by_cases hc : c = 0 <;> simp [hc]

@[simp]
theorem FileEntry.inUse_zero : FileEntry.zero.inUse = false := rfl

/-- `struct dir_block`, as a buffer in memory holds it. -/
structure DirBlock where
  parent_bno : Nat
  entries : Fin MAX_DIR_ENTRIES → FileEntry

/-- Where entry `i` of a `struct dir_block` starts. -/
def entryOffset (i : Nat) : Nat := 8 + sizeofFileEntry * i

/-- Slot `i` lies wholly inside the bytes that `virtio_disk_rw` moves. -/
def SlotInside (i : Nat) : Prop := entryOffset i + sizeofFileEntry ≤ BSIZE

instance (i : Nat) : Decidable (SlotInside i) := inferInstanceAs (Decidable (_ ≤ _))

/-- The slots that lie inside the block. -/
def DIR_SLOTS : Nat := (BSIZE - 8) / sizeofFileEntry

theorem slotInside_iff (i : Nat) : SlotInside i ↔ i < DIR_SLOTS := by
  simp only [SlotInside, entryOffset, sizeofFileEntry, BSIZE, DIR_SLOTS]
  omega

theorem dir_slots_le : DIR_SLOTS ≤ MAX_DIR_ENTRIES := by decide

/-- The bytes of the first slot that does not fit that are still inside the block:
the head of its name. -/
def EDGE_BYTES : Nat := BSIZE - entryOffset DIR_SLOTS

/-- The 4096 bytes of a directory block on the disk. -/
structure DiskDir where
  parent_bno : Nat
  slots : Fin DIR_SLOTS → FileEntry
  edge : Bytes EDGE_BYTES

/-- What a read shows in the buffer. The memory behind the block is taken as zero, as
it is in `fs_tmp_window`: of the slot at the edge only the head of the name comes from
the disk, and the slots after it are empty. -/
def DirBlock.ofDisk (d : DiskDir) : DirBlock where
  parent_bno := d.parent_bno
  entries i :=
    if h : i.val < DIR_SLOTS then d.slots ⟨i.val, h⟩
    else if i.val = DIR_SLOTS then
      { FileEntry.zero with name := ⟨d.edge.val ++ List.replicate 12 0, by
          rw [List.length_append, d.edge.property]; rfl⟩ }
    else FileEntry.zero

/-- What a write leaves on the disk: the bytes past the block are not moved. -/
def DirBlock.toDisk (d : DirBlock) : DiskDir where
  parent_bno := d.parent_bno
  slots i := d.entries ⟨i.val, Nat.lt_of_lt_of_le i.isLt dir_slots_le⟩
  edge := ⟨(d.entries ⟨DIR_SLOTS, by decide⟩).name.val.take EDGE_BYTES, by
    rw [List.length_take, (d.entries _).name.property]; rfl⟩

def DirBlock.setEntry (d : DirBlock) (i : Fin MAX_DIR_ENTRIES) (e : FileEntry) : DirBlock :=
  { d with entries := Function.update d.entries i e }

def DiskDir.setSlot (d : DiskDir) (i : Fin DIR_SLOTS) (e : FileEntry) : DiskDir :=
  { d with slots := Function.update d.slots i e }

theorem ofDisk_entries_of_lt (d : DiskDir) (i : Fin MAX_DIR_ENTRIES) (h : i.val < DIR_SLOTS) :
    (DirBlock.ofDisk d).entries i = d.slots ⟨i.val, h⟩ := by
  simp [DirBlock.ofDisk, h]

theorem ofDisk_entries_of_ge (d : DiskDir) (i : Fin MAX_DIR_ENTRIES) (h : DIR_SLOTS ≤ i.val) :
    ((DirBlock.ofDisk d).entries i).bno = 0 ∧ ((DirBlock.ofDisk d).entries i).type = 0 := by
  simp only [DirBlock.ofDisk, Nat.not_lt.mpr h, dite_false]
  split <;> exact ⟨rfl, rfl⟩

theorem ofDisk_nameStr_of_ge (d : DiskDir) (i : Fin MAX_DIR_ENTRIES) (h : DIR_SLOTS ≤ i.val) :
    ((DirBlock.ofDisk d).entries i).nameStr.length ≤ EDGE_BYTES ∧
      (DIR_SLOTS < i.val → ((DirBlock.ofDisk d).entries i).inUse = false) := by
  simp only [DirBlock.ofDisk, Nat.not_lt.mpr h, dite_false]
  split
  · refine ⟨?_, fun hlt => by omega⟩
    have hedge : d.edge.val = d.edge.val.take EDGE_BYTES := by
      rw [List.take_of_length_le (Nat.le_of_eq d.edge.property)]
    unfold FileEntry.nameStr
    dsimp only
    rw [hedge, cstr_take_append_zeros, List.length_take]
    exact Nat.min_le_left _ _
  · exact ⟨by decide, fun _ => rfl⟩

@[simp]
theorem ofDisk_parent_bno (d : DiskDir) : (DirBlock.ofDisk d).parent_bno = d.parent_bno := rfl

@[simp]
theorem toDisk_parent_bno (d : DirBlock) : d.toDisk.parent_bno = d.parent_bno := rfl

@[simp]
theorem setEntry_parent_bno (d : DirBlock) (i : Fin MAX_DIR_ENTRIES) (e : FileEntry) :
    (d.setEntry i e).parent_bno = d.parent_bno := rfl

theorem toDisk_ofDisk (d : DiskDir) : (DirBlock.ofDisk d).toDisk = d := by
  obtain ⟨p, s, ⟨edge, he⟩⟩ := d
  have hlen : edge.length = EDGE_BYTES := he
  simp only [DirBlock.toDisk, DirBlock.ofDisk, DiskDir.mk.injEq, true_and]
  refine ⟨?_, ?_⟩
  · funext i
    simp [i.isLt]
  · simp only [lt_irrefl, dite_false, if_true, Subtype.mk.injEq]
    rw [← hlen, List.take_left]

theorem toDisk_setEntry_of_lt (d : DiskDir) (i : Fin MAX_DIR_ENTRIES) (e : FileEntry)
    (h : i.val < DIR_SLOTS) :
    ((DirBlock.ofDisk d).setEntry i e).toDisk = d.setSlot ⟨i.val, h⟩ e := by
  conv_rhs => rw [← toDisk_ofDisk d]
  simp only [DirBlock.toDisk, DiskDir.setSlot, DirBlock.setEntry, DiskDir.mk.injEq, true_and]
  refine ⟨?_, ?_⟩
  · funext j
    by_cases hj : j = ⟨i.val, h⟩
    · subst hj; simp
    · rw [Function.update_of_ne hj, Function.update_of_ne]
      intro he
      have := Fin.val_eq_of_eq he
      exact hj (Fin.ext this)
  · have hne : (⟨DIR_SLOTS, by decide⟩ : Fin MAX_DIR_ENTRIES) ≠ i := by
      intro he
      have := Fin.val_eq_of_eq he
      simp only at this
      omega
    simp only [Function.update_of_ne hne]

theorem toDisk_setEntry_of_ge (d : DiskDir) (i : Fin MAX_DIR_ENTRIES) (e : FileEntry)
    (h : DIR_SLOTS ≤ i.val) :
    ((DirBlock.ofDisk d).setEntry i e).toDisk.slots = d.slots := by
  conv_rhs => rw [← toDisk_ofDisk d]
  funext j
  simp only [DirBlock.toDisk, DirBlock.setEntry]
  rw [Function.update_of_ne]
  intro he
  have := Fin.val_eq_of_eq he
  have := j.isLt
  simp only at *
  omega

/-- What a read shows of a slot that was written with `e`: behind the block, no more than
the head of the name. -/
def FileEntry.shownAt (e : FileEntry) (i : Fin MAX_DIR_ENTRIES) : FileEntry :=
  if i.val < DIR_SLOTS then e
  else if i.val = DIR_SLOTS then
    { FileEntry.zero with name := ⟨e.name.val.take EDGE_BYTES ++ List.replicate 12 0, by
        rw [List.length_append, List.length_take, e.name.property]; rfl⟩ }
  else FileEntry.zero

theorem ofDisk_toDisk_setEntry (d : DiskDir) (i : Fin MAX_DIR_ENTRIES) (e : FileEntry) :
    DirBlock.ofDisk ((DirBlock.ofDisk d).setEntry i e).toDisk =
      (DirBlock.ofDisk d).setEntry i (e.shownAt i) := by
  have hsame : ∀ j, j ≠ i → (DirBlock.ofDisk ((DirBlock.ofDisk d).setEntry i e).toDisk).entries j =
      (DirBlock.ofDisk d).entries j := by
    intro j hj
    conv_rhs => rw [← toDisk_ofDisk d]
    simp only [DirBlock.ofDisk, DirBlock.toDisk, DirBlock.setEntry]
    split
    · rename_i hlt
      rw [Function.update_of_ne hj]
      simp [hlt]
    split
    · rename_i h102
      have hne : (⟨DIR_SLOTS, by decide⟩ : Fin MAX_DIR_ENTRIES) ≠ i :=
        fun he => hj (Fin.ext (h102.trans (congrArg Fin.val he)))
      simp only [Function.update_of_ne hne]
    · rfl
  have hself : (DirBlock.ofDisk ((DirBlock.ofDisk d).setEntry i e).toDisk).entries i =
      e.shownAt i := by
    simp only [DirBlock.ofDisk, DirBlock.toDisk, DirBlock.setEntry, FileEntry.shownAt]
    split
    · simp
    split
    · rename_i h102
      have he : (⟨DIR_SLOTS, by decide⟩ : Fin MAX_DIR_ENTRIES) = i := Fin.ext h102.symm
      simp only [he, Function.update_self]
    · rfl
  have hentries : (DirBlock.ofDisk ((DirBlock.ofDisk d).setEntry i e).toDisk).entries =
      Function.update (DirBlock.ofDisk d).entries i (e.shownAt i) := by
    funext j
    by_cases hj : j = i
    · subst hj
      rw [hself, Function.update_self]
    · rw [hsame j hj, Function.update_of_ne hj]
  exact congrArg₂ DirBlock.mk rfl hentries

theorem FileEntry.shownAt_of_lt (e : FileEntry) {i : Fin MAX_DIR_ENTRIES}
    (h : i.val < DIR_SLOTS) : e.shownAt i = e := by
  simp [shownAt, h]

theorem FileEntry.shownAt_of_ge (e : FileEntry) {i : Fin MAX_DIR_ENTRIES}
    (h : DIR_SLOTS ≤ i.val) : (e.shownAt i).bno = 0 ∧ (e.shownAt i).size = 0 ∧
      (e.shownAt i).type = 0 := by
  simp only [shownAt, Nat.not_lt.mpr h, if_false]
  split <;> exact ⟨rfl, rfl, rfl⟩

theorem FileEntry.shownAt_edge_nameStr (e : FileEntry) {i : Fin MAX_DIR_ENTRIES}
    (h : i.val = DIR_SLOTS) : (e.shownAt i).nameStr = e.nameStr.take EDGE_BYTES := by
  simp only [shownAt, h, lt_irrefl, if_false, if_true]
  exact cstr_take_append_zeros e.name.val EDGE_BYTES 12

theorem FileEntry.shownAt_behind (e : FileEntry) {i : Fin MAX_DIR_ENTRIES}
    (h : DIR_SLOTS < i.val) : (e.shownAt i).inUse = false := by
  simp [shownAt, show ¬ i.val < DIR_SLOTS by omega, show i.val ≠ DIR_SLOTS by omega]

/-! ## Looking up an entry -/

/-- `find_entry_index`: the first entry in use with this name; `none` as the filter is `-1`. -/
@[irreducible]
def find_entry_index (db : DirBlock) (name : List UInt8) (type_filter : Option Nat) :
    Option (Fin MAX_DIR_ENTRIES) :=
  Fin.find? fun i =>
    (db.entries i).inUse && (type_filter.all fun t => (db.entries i).type == t) &&
      (db.entries i).nameStr == name

/-- `find_free_entry_index`: the first entry whose name is empty. -/
@[irreducible]
def find_free_entry_index (db : DirBlock) : Option (Fin MAX_DIR_ENTRIES) :=
  Fin.find? fun i => !(db.entries i).inUse

def FileEntry.Matches (e : FileEntry) (name : List UInt8) (type_filter : Option Nat) : Prop :=
  e.inUse = true ∧ (∀ t, type_filter = some t → e.type = t) ∧ e.nameStr = name

theorem find_entry_index_eq_some {db : DirBlock} {name : List UInt8} {f : Option Nat}
    {i : Fin MAX_DIR_ENTRIES} : find_entry_index db name f = some i ↔
      (db.entries i).Matches name f ∧ ∀ j < i, ¬ (db.entries j).Matches name f := by
  unfold find_entry_index FileEntry.Matches
  rw [Fin.find?_eq_some_iff]
  have key : ∀ j, ((db.entries j).inUse && (f.all fun t => (db.entries j).type == t) &&
      (db.entries j).nameStr == name) = true ↔
      ((db.entries j).inUse = true ∧ (∀ t, f = some t → (db.entries j).type = t) ∧
        (db.entries j).nameStr = name) := by
    intro j
    cases f <;> simp [and_assoc]
  simp only [← Bool.not_eq_true, key]

theorem find_entry_index_eq_none {db : DirBlock} {name : List UInt8} {f : Option Nat} :
    find_entry_index db name f = none ↔ ∀ j, ¬ (db.entries j).Matches name f := by
  constructor
  · intro h j hj
    have hex : ∃ j, (db.entries j).Matches name f := ⟨j, hj⟩
    unfold find_entry_index at h
    have h2 := Fin.eq_false_of_find?_eq_none h j
    obtain ⟨h3, h4, h5⟩ := hj
    cases f <;> simp_all
  · intro h
    rcases he : find_entry_index db name f with _ | i
    · rfl
    · exact absurd (find_entry_index_eq_some.mp he).1 (h i)

theorem find_free_entry_index_eq_some {db : DirBlock} {i : Fin MAX_DIR_ENTRIES} :
    find_free_entry_index db = some i ↔
      (db.entries i).inUse = false ∧ ∀ j < i, (db.entries j).inUse = true := by
  unfold find_free_entry_index
  rw [Fin.find?_eq_some_iff]
  simp

theorem find_free_entry_index_eq_none {db : DirBlock} :
    find_free_entry_index db = none ↔ ∀ j, (db.entries j).inUse = true := by
  unfold find_free_entry_index
  rw [Fin.find?_eq_none_iff]
  simp

theorem find_entry_index_congr {db db' : DirBlock} {name : List UInt8} {f : Option Nat}
    (h : ∀ j, (db'.entries j).Matches name f ↔ (db.entries j).Matches name f) :
    find_entry_index db' name f = find_entry_index db name f := by
  rcases hf : find_entry_index db name f with _ | i
  · rw [find_entry_index_eq_none] at hf ⊢
    exact fun j hj => hf j ((h j).mp hj)
  · rw [find_entry_index_eq_some] at hf ⊢
    exact ⟨(h i).mpr hf.1, fun j hj hm => hf.2 j hj ((h j).mp hm)⟩

theorem find_setEntry_of_not_matches {db : DirBlock} {i : Fin MAX_DIR_ENTRIES} {e : FileEntry}
    {name : List UInt8} {f : Option Nat} (h : ¬ (db.entries i).Matches name f)
    (he : ¬ e.Matches name f) :
    find_entry_index (db.setEntry i e) name f = find_entry_index db name f := by
  apply find_entry_index_congr
  intro j
  by_cases hj : j = i
  · subst hj
    simp [DirBlock.setEntry, h, he]
  · simp [DirBlock.setEntry, Function.update_of_ne hj]

end vibeos.fs
