-- The FAT driver of the SD card (drivers/sd/sd_fat.c). The SD host, and the memory that
-- the formatter reads for a `%s`, are parameters.
import Vibeos.ByteMem
import Vibeos.LibPrint

namespace vibeos.sd

open fs (cstr)
open wget (ascii)
open lib (snprintf)

/-- The machine around the driver: does `sdio_init` succeed, what does a read of a sector
give if it succeeds, which text is at an address, and where is the buffer `name`. -/
structure Machine where
  sdio_init : Bool
  sdio_read_sector : Nat → Option Mem
  string_at : Nat → List UInt8
  name_buf : Nat
  name_buf_pos : 0 < name_buf
  name_buf_lt : name_buf < 2 ^ 32

def le16 (p : Mem) (a : Nat) : Nat := p.readLE a 2

def le32 (p : Mem) (a : Nat) : Nat := p.readLE a 4

/-- The text in `out` after it; the loop stops one byte before the end of the buffer. -/
def append_str (out : List UInt8) (out_max : Int) (s : List UInt8) : List UInt8 :=
  if out_max ≤ 0 then out else out ++ s.take ((out_max - 1).toNat - out.length)

/-! ## Names -/

/-- `last`, plus one, after the loop that steps back over blanks from `lo + n`. -/
def name_end (e : Nat → UInt8) (lo : Nat) : Nat → Nat
  | 0 => lo
  | n + 1 => if e (lo + n) = 32 then name_end e lo n else lo + n + 1

/-- The bytes put into `name` before its terminator. -/
def format_83_name (e : Nat → UInt8) (name_max : Nat) : List UInt8 :=
  let name := (((List.range (name_end e 0 8)).map e).take (name_max - 1))
  let last := name_end e 8 3
  let name := if 8 < last ∧ name.length < name_max - 1 then name ++ [46] else name
  name ++ ((List.range (last - 8)).map fun i => e (8 + i)).take (name_max - 1 - name.length)

/-! ## Mounting -/

inductive FatType where
  | none
  | fat16
  | fat32
  deriving DecidableEq, Repr

structure sd_fat_fs_t where
  part_lba : Nat
  fat_lba : Nat
  root_lba : Nat
  root_cluster : Nat
  root_sectors : Nat
  first_data_lba : Nat
  fat_sectors : Nat
  root_entries : Nat
  sectors_per_cluster : Nat
  type : FatType
  deriving DecidableEq, Repr

def valid_boot_sector (bs : Mem) : Bool :=
  if bs 510 ≠ 0x55 ∨ bs 511 ≠ 0xAA then false
  else if le16 bs 11 ≠ 512 then false
  else if bs 13 = 0 then false
  else if bs 16 = 0 then false
  else true

def u32 (n : Nat) : Nat := n % 2 ^ 32

def sub32 (a b : Nat) : Nat := u32 (a + (2 ^ 32 - u32 b))

def cluster_lba (fs : sd_fat_fs_t) (cluster : Nat) : Nat :=
  u32 (fs.first_data_lba + sub32 cluster 2 * fs.sectors_per_cluster)

def mount_from_boot_sector (part_lba : Nat) (bs : Mem) : Option sd_fat_fs_t :=
  let reserved := le16 bs 14
  let fats := (bs 16).toNat
  let root_entries := le16 bs 17
  let total16 := le16 bs 19
  let total32 := le32 bs 32
  let fat16 := le16 bs 22
  let fat32 := le32 bs 36
  let total := if total16 ≠ 0 then total16 else total32
  let fat_sectors := if fat16 ≠ 0 then fat16 else fat32
  let root_sectors := (root_entries * 32 + 511) / 512
  if !valid_boot_sector bs then none
  else if total = 0 ∨ fat_sectors = 0 then none
  else
    let data_sectors := sub32 (sub32 (sub32 total reserved) (fats * fat_sectors)) root_sectors
    let clusters := data_sectors / (bs 13).toNat
    let fs : sd_fat_fs_t := {
      part_lba
      fat_lba := u32 (part_lba + reserved)
      fat_sectors
      root_entries
      root_sectors
      sectors_per_cluster := (bs 13).toNat
      first_data_lba := u32 (part_lba + reserved + fats * fat_sectors + root_sectors)
      root_lba := 0
      root_cluster := 0
      type := .none }
    if clusters < 65525 ∧ root_entries ≠ 0 ∧ fat16 ≠ 0 then
      some { fs with type := .fat16, root_lba := u32 (part_lba + reserved + fats * fat_sectors) }
    else if root_entries = 0 ∧ fat32 ≠ 0 then
      let root_cluster := if le32 bs 44 < 2 then 2 else le32 bs 44
      some { fs with
        type := .fat32
        root_cluster
        root_lba := cluster_lba fs root_cluster }
    else none

def sd_fat_mount (m : Machine) : Option sd_fat_fs_t :=
  if !m.sdio_init then none
  else do
    let s ← m.sdio_read_sector 0
    match mount_from_boot_sector 0 s with
    | some fs => some fs
    | none =>
      let part_lba := le32 s (446 + 8)
      if part_lba = 0 then none
      else do
        let s ← m.sdio_read_sector part_lba
        mount_from_boot_sector part_lba s

/-! ## The listing -/

/-- The buffer and the two flags of a listing. -/
structure Listing where
  out : List UInt8
  printed : Bool
  done : Bool
  deriving DecidableEq, Repr

def fat32_next_cluster (m : Machine) (fs : sd_fat_fs_t) (cluster : Nat) : Option Nat := do
  let fat_offset := u32 (cluster * 4)
  let lba := u32 (fs.fat_lba + fat_offset / 512)
  let off := fat_offset &&& 511
  let sector ← m.sdio_read_sector lba
  return le32 sector off &&& 0x0FFFFFFF

/-- The flag characters, and the size and the name, of a long row. -/
def row_all (m : Machine) (entry : Nat → UInt8) (name : List UInt8) : List UInt8 :=
  let attr := entry 11
  snprintf (fun p => if p = m.name_buf then cstr name else m.string_at p) 96
    (ascii "%c%c%c%c %10u %s\n")
    [(if attr &&& 0x10 ≠ 0 then 'd' else '-').toNat,
      (if attr &&& 0x01 ≠ 0 then 'r' else 'w').toNat,
      (if attr &&& 0x02 ≠ 0 then 'h' else '-').toNat,
      (if attr &&& 0x04 ≠ 0 then 's' else '-').toNat,
      le32 entry 28, m.name_buf]

def row_short (m : Machine) (entry : Nat → UInt8) (name : List UInt8) : List UInt8 :=
  snprintf (fun p => if p = m.name_buf then cstr name else m.string_at p) 96
    (ascii "%c %s\n") [(if entry 11 &&& 0x10 ≠ 0 then 'd' else 'f').toNat, m.name_buf]

def append_dir_entry (m : Machine) (entry : Nat → UInt8) (out_max : Int) (all : Bool)
    (st : Listing) : Listing :=
  let attr := entry 11
  if entry 0 = 0x00 ∨ entry 0 = 0xE5 then st
  else if attr = 0x0F ∨ attr &&& 0x08 ≠ 0 then st
  else
    let name := format_83_name entry 16
    if name.headD 0 = 0 then st
    else
      let row := if all then row_all m entry name else row_short m entry name
      { st with out := append_str st.out out_max row, printed := true }

def list_dir_slots (m : Machine) (out_max : Int) (all : Bool) :
    List (Nat → UInt8) → Listing → Listing
  | [], st => st
  | e :: es, st =>
    if e 0 = 0x00 then { st with done := true }
    else list_dir_slots m out_max all es (append_dir_entry m e out_max all st)

def list_dir_sector (m : Machine) (lba : Nat) (out_max : Int) (all : Bool) (st : Listing) :
    Except Listing Listing :=
  match m.sdio_read_sector lba with
  | none => .error st
  | some dir =>
    .ok (list_dir_slots m out_max all ((List.range 16).map fun i j => dir (32 * i + j)) st)

/-- The loop over the sectors of a root directory or of a cluster. -/
def list_dir_sectors (m : Machine) (out_max : Int) (all : Bool) :
    List Nat → Listing → Except Listing Listing
  | [], st => .ok st
  | lba :: lbas, st =>
    if st.done then .ok st
    else do
      let st ← list_dir_sector m lba out_max all st
      list_dir_sectors m out_max all lbas st

/-- The loop over the clusters; `guard` counts down. -/
def list_dir_chain (m : Machine) (fs : sd_fat_fs_t) (out_max : Int) (all : Bool) :
    Nat → Nat → Listing → Except Listing Listing
  | 0, _, st => .ok st
  | guard + 1, cluster, st =>
    if 2 ≤ cluster ∧ cluster < 0x0FFFFFF8 ∧ !st.done then do
      let lbas := (List.range fs.sectors_per_cluster).map fun i => u32 (cluster_lba fs cluster + i)
      let st ← list_dir_sectors m out_max all lbas st
      if st.done then .ok st
      else
        match fat32_next_cluster m fs cluster with
        | none => .error st
        | some cluster => list_dir_chain m fs out_max all guard cluster st
    else .ok st

def list_dir_root (m : Machine) (fs : sd_fat_fs_t) (out_max : Int) (all : Bool) (st : Listing) :
    Except Listing Listing :=
  match fs.type with
  | .fat16 =>
    list_dir_sectors m out_max all
      ((List.range fs.root_sectors).map fun i => u32 (fs.root_lba + i)) st
  | .fat32 => list_dir_chain m fs out_max all 128 fs.root_cluster st
  | .none =>
    .error { st with out := append_str st.out out_max (ascii "ERR: unsupported SD filesystem.\n") }

/-- The result, and the text in the buffer, which had `old` in it. -/
def sd_fat_list_root (m : Machine) (old : List UInt8) (out_max : Int) (all : Bool) :
    Int × List UInt8 :=
  if out_max ≤ 0 then (-1, old)
  else
    match sd_fat_mount m with
    | none =>
      (-1, append_str [] out_max
        (ascii "ERR: SD mount failed. Use FAT16/FAT32 card on PS SD0.\n"))
    | some fs =>
      match list_dir_root m fs out_max all ⟨[], false, false⟩ with
      | .error st => (-1, st.out)
      | .ok st => (0, if st.printed then st.out else append_str st.out out_max (ascii "(empty)\n"))

end vibeos.sd
