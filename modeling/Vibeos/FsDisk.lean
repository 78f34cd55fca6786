-- The disk and the allocator of fs.c: what a block holds, the bitmap that lives
-- in memory only, `balloc`, `bfree`, the walk that frees a chain, and the scan
-- that rebuilds the bitmap from the disk.
import Vibeos.FsLayout
import Vibeos.LinkChain

namespace vibeos.fs

/-- `FS_MAX_BLOCKS` is set at compile time: 512 with FPGA_MINIMAL, else 65536. It is past
the reserved blocks, and the block numbers below it are 32-bit words. -/
class BuildConfig where
  FS_MAX_BLOCKS : Nat
  reserved_lt : 60 < FS_MAX_BLOCKS
  word_fits : FS_MAX_BLOCKS ≤ 2 ^ 32

export BuildConfig (FS_MAX_BLOCKS)

@[reducible] def fpgaBuild : BuildConfig := ⟨512, by decide, by decide⟩
@[reducible] def qemuBuild : BuildConfig := ⟨65536, by decide, by decide⟩

/-! ## Blocks -/

/-- A 32-bit word in the byte order of the target, the low byte first. -/
def word32 (l : List UInt8) : Nat := (l.take 4).foldr (fun b acc => b.toNat + 256 * acc) 0

def le16 (n : Nat) : List UInt8 := [UInt8.ofNat n, UInt8.ofNat (n / 256)]
def le32 (n : Nat) : List UInt8 := le16 n ++ le16 (n / 65536)

theorem length_le32 (n : Nat) : (le32 n).length = 4 := rfl

structure DataBlock where
  next_bno : Nat
  data : Bytes FS_DATA_PAYLOAD

/-- The bytes of a block that carries neither magic number. -/
structure RawBlock where
  bytes : Bytes BSIZE
  not_dir : word32 bytes.val ≠ FS_MAGIC
  not_data : word32 bytes.val ≠ FS_DATA_MAGIC

/-- A block of the disk, told apart by its first word. -/
inductive Block where
  | dir (d : DiskDir)
  | data (d : DataBlock)
  | raw (r : RawBlock)

def RawBlock.zero : RawBlock where
  bytes := Bytes.zero BSIZE
  not_dir := by
    simp only [Bytes.zero, word32, List.take_replicate]
    decide
  not_data := by
    simp only [Bytes.zero, word32, List.take_replicate]
    decide

/-- `memset` to zero, then `memcpy` of the chunk. -/
def fillPayload (chunk : List UInt8) : Bytes FS_DATA_PAYLOAD :=
  ⟨chunk.take FS_DATA_PAYLOAD ++ List.replicate (FS_DATA_PAYLOAD - chunk.length) 0, by
    simp only [List.length_append, List.length_take, List.length_replicate]
    omega⟩

theorem take_fillPayload {chunk : List UInt8} (h : chunk.length ≤ FS_DATA_PAYLOAD) :
    (fillPayload chunk).val.take chunk.length = chunk := by
  simp only [fillPayload, List.take_of_length_le h]
  exact List.take_left

def FileEntry.bytes (e : FileEntry) : List UInt8 :=
  e.name.val ++ le32 e.bno ++ le32 e.size ++ le32 e.ctime ++ le32 e.mtime ++
    le16 e.mode ++ le16 e.type

/-- The bytes of a block, for the loaders that copy a block without the data magic. -/
def Block.bytes : Block → List UInt8
  | .dir d => le32 FS_MAGIC ++ le32 d.parent_bno ++
      (List.finRange DIR_SLOTS).flatMap (fun i => (d.slots i).bytes) ++ d.edge.val
  | .data d => le32 FS_DATA_MAGIC ++ le32 d.next_bno ++ d.data.val
  | .raw r => r.bytes.val

theorem word32_link (n : Nat) (l : Bytes BSIZE) :
    word32 (l.val.take 4 ++ le32 n ++ l.val.drop 8) = word32 l.val := by
  have h4 : 4 ≤ l.val.length := by rw [l.property]; decide
  have hl : (l.val.take 4).length = 4 := by rw [List.length_take]; omega
  unfold word32
  rw [List.append_assoc, List.take_append_of_le_length (by omega),
    List.take_of_length_le (by omega)]

theorem length_link (n : Nat) (l : Bytes BSIZE) :
    (l.val.take 4 ++ le32 n ++ l.val.drop 8).length = BSIZE := by
  have := l.property
  simp only [List.length_append, List.length_take, List.length_drop, length_le32]
  simp only [BSIZE] at *
  omega

/-- `((struct data_block *)b)->next_bno = n`: the second word, whatever the block is. -/
def Block.setLink (n : Nat) : Block → Block
  | .dir d => .dir { d with parent_bno := n }
  | .data d => .data { d with next_bno := n }
  | .raw r => .raw
    { bytes := ⟨r.bytes.val.take 4 ++ le32 n ++ r.bytes.val.drop 8, length_link n r.bytes⟩
      not_dir := by rw [word32_link]; exact r.not_dir
      not_data := by rw [word32_link]; exact r.not_data }

abbrev Disk := Nat → Block

/-- The `next_bno` that a walk follows: 0 ends it, and so does a missing data magic. -/
def nextOf (disk : Disk) (b : Nat) : Nat :=
  match disk b with
  | .data d => d.next_bno
  | _ => 0

/-- A cast to `struct dir_block` with its test of the magic number. -/
def dirOf (disk : Disk) (b : Nat) : Option DiskDir :=
  match disk b with
  | .dir d => some d
  | _ => none

theorem dirOf_eq_some {disk : Disk} {b : Nat} {d : DiskDir} :
    dirOf disk b = some d ↔ disk b = .dir d := by
  unfold dirOf
  split <;> simp_all

theorem nextOf_of_dir {disk : Disk} {b : Nat} {d : DiskDir} (h : dirOf disk b = some d) :
    nextOf disk b = 0 := by
  rw [dirOf_eq_some] at h
  simp [nextOf, h]

/-! ## The state -/

/-- The disk, the log of the block writes so far, and the static variables of fs.c. The
hint starts at 60, and no line of fs.c sets it lower. -/
structure FsState where
  disk : Disk
  writes : List (Nat × Block)
  fs_block_map : Nat → Bool
  next_free_block : Nat
  fs_alloc_ready : Bool
  hint_ge : 60 ≤ next_free_block

theorem hint_start : 60 ≤ 60 := Nat.le_refl 60

section

variable [BuildConfig]

def virtio_disk_write (st : FsState) (bno : Nat) (b : Block) : FsState :=
  { st with disk := Function.update st.disk bno b, writes := st.writes ++ [(bno, b)] }

def fs_block_is_used (map : Nat → Bool) (bno : Nat) : Bool :=
  if FS_MAX_BLOCKS ≤ bno then true else map bno

def fs_block_set_used (map : Nat → Bool) (bno : Nat) : Nat → Bool :=
  if FS_MAX_BLOCKS ≤ bno then map else Function.update map bno true

/-! ## The scan of the disk -/

/-- `fs_scan_chain`, with the turns that are left of its guard. -/
def fs_scan_chain (disk : Disk) : Nat → Nat → (Nat → Bool) → Nat → Bool
  | 0, _, map => map
  | guard + 1, bno, map =>
    if 60 ≤ bno ∧ bno < FS_MAX_BLOCKS then
      if fs_block_is_used map bno then map
      else
        let map := fs_block_set_used map bno
        match disk bno with
        | .data d =>
          if d.next_bno = 0 ∨ d.next_bno = bno then map
          else fs_scan_chain disk guard d.next_bno map
        | _ => map
    else map

/-- `fs_scan_dir`: the root is scanned although its bit is set, every other directory
only when its bit is clear, and nothing below depth 32. -/
def fs_scan_dir (disk : Disk) (bno depth : Nat) (map : Nat → Bool) : Nat → Bool :=
  if _hd : bno = 0 ∨ FS_MAX_BLOCKS ≤ bno ∨ 32 < depth then map
  else if 0 < depth ∧ fs_block_is_used map bno then map
  else
    match dirOf disk bno with
    | none => map
    | some d =>
      let db := DirBlock.ofDisk d
      (List.finRange MAX_DIR_ENTRIES).foldl
        (fun map i =>
          if ¬ (db.entries i).inUse then map
          else if (db.entries i).type = 1 then
            fs_scan_dir disk (db.entries i).bno (depth + 1) map
          else fs_scan_chain disk FS_MAX_BLOCKS (db.entries i).bno map)
        (fs_block_set_used map bno)
termination_by 33 - depth
decreasing_by omega

def reservedMap : Nat → Bool := fun i => i < 60

def fs_rebuild_alloc_state (st : FsState) : FsState :=
  let st : FsState := { st with
    fs_block_map := reservedMap, next_free_block := 60, fs_alloc_ready := true
    hint_ge := hint_start }
  match dirOf st.disk 1 with
  | none => st
  | some _ => { st with fs_block_map := fs_scan_dir st.disk 1 0 st.fs_block_map }

/-- `if (!fs_alloc_ready) fs_rebuild_alloc_state()`. -/
def ensure_ready (st : FsState) : FsState :=
  if st.fs_alloc_ready then st else fs_rebuild_alloc_state st

/-! ## Allocation -/

def firstClear (st : FsState) : Option Nat :=
  (List.range' st.next_free_block (FS_MAX_BLOCKS - st.next_free_block)).find?
    fun i => !st.fs_block_map i

theorem firstClear_eq_some {st : FsState} {b : Nat} : firstClear st = some b ↔
    st.next_free_block ≤ b ∧ b < FS_MAX_BLOCKS ∧ st.fs_block_map b = false ∧
      ∀ j, st.next_free_block ≤ j → j < b → st.fs_block_map j = true := by
  simp only [firstClear, List.find?_range'_eq_some, List.mem_range'_1, Bool.not_eq_true',
    Bool.not_not]
  constructor
  · rintro ⟨h1, ⟨h2, h3⟩, h4⟩
    exact ⟨h2, by omega, h1, fun j hj hjb => by simpa using h4 j hj hjb⟩
  · rintro ⟨h1, h2, h3, h4⟩
    exact ⟨h3, ⟨h1, by omega⟩, fun j hj hjb => by simpa using h4 j hj hjb⟩

theorem firstClear_eq_none {st : FsState} : firstClear st = none ↔
    ∀ j, st.next_free_block ≤ j → j < FS_MAX_BLOCKS → st.fs_block_map j = true := by
  simp only [firstClear, List.find?_range'_eq_none]
  constructor
  · intro h j h1 h2
    simpa using h j h1 (by omega)
  · intro h j h1 h2
    simpa using h j h1 (by omega)

/-- The loop of `balloc`: the first clear bit from the hint on, or 0. The block is zeroed
on the disk. -/
def balloc_search (st : FsState) : Nat × FsState :=
  match h : firstClear st with
  | some i =>
    let st : FsState := { st with
      fs_block_map := Function.update st.fs_block_map i true
      next_free_block := i + 1
      hint_ge := by
        have := (firstClear_eq_some.mp h).1
        have := st.hint_ge
        omega }
    (i, virtio_disk_write st i (.raw .zero))
  | none => (0, st)

def balloc (st : FsState) : Nat × FsState := balloc_search (ensure_ready st)

def bfree (st : FsState) (bno : Nat) : FsState :=
  if h : bno < 60 ∨ FS_MAX_BLOCKS ≤ bno then st
  else
    { st with
      fs_block_map := Function.update st.fs_block_map bno false
      next_free_block := if bno < st.next_free_block then bno else st.next_free_block
      hint_ge := by
        have := st.hint_ge
        split <;> omega }

/-- The loop of `fs_free_chain`, `none` when the turns run out. -/
def fs_free_chain_loop : Nat → FsState → Nat → Option FsState
  | 0, st, bno => if bno = 0 then some st else none
  | fuel + 1, st, bno =>
    if bno = 0 then some st
    else fs_free_chain_loop fuel (bfree st bno) (nextOf st.disk bno)

/-- `fs_free_chain`. Block numbers are 32-bit words, so a walk of more than `2 ^ 32`
blocks has met a block twice and never ends: `none`. -/
def fs_free_chain (st : FsState) (bno : Nat) : Option FsState :=
  fs_free_chain_loop (2 ^ 32) st bno

/-- `fs_usage_info`: the number of used and of free blocks. -/
def fs_usage_info (st : FsState) : Nat × Nat :=
  let st := ensure_ready st
  let used := (List.range FS_MAX_BLOCKS).countP fun i => st.fs_block_map i
  (used, FS_MAX_BLOCKS - used)

end

end vibeos.fs
