-- The FAT16 calls of the card test programs (project_2/fat16_api.c) over a card of
-- 512-byte sectors, where which calls of the SD host fail is a parameter. What the creation of a
-- file does to a FAT16 volume: which images it keeps consistent, and that it does so on these only.
import Vibeos.ByteMem
import Vibeos.FatVolume
import Mathlib.Data.List.Basic

namespace vibeos.fat16

open Fat (Geometry Slot geometry firstPartition)

/-! ## The card -/

/-- The card, with the calls of the SD host so far and how many of them were writes. -/
structure Sd where
  card : Nat → Mem
  calls : Nat
  writes : Nat

/-- The calls that fail, by number. A write that fails may leave anything in its sector. -/
abbrev Faults := Nat → Option Mem

/-- A function that works on the card; `none` is the return value -1. -/
def Sdio (α : Type) := Sd → Option α × Sd

instance : Monad Sdio where
  pure a s := (some a, s)
  bind x f s :=
    match x s with
    | (some a, s) => f a s
    | (none, s) => (none, s)

def fail {α : Type} : Sdio α := fun s => (none, s)

/-- The card with another content of the sector `lba`. -/
def putSector (card : Nat → Mem) (lba : Nat) (sector : Mem) : Nat → Mem := fun x =>
  if x = lba then sector else card x

@[simp]
theorem putSector_self (card : Nat → Mem) (lba : Nat) (sector : Mem) :
    putSector card lba sector lba = sector := if_pos rfl

theorem putSector_ne {card : Nat → Mem} {lba x : Nat} {sector : Mem} (h : x ≠ lba) :
    putSector card lba sector x = card x := if_neg h

def sdio_read_sector (faults : Faults) (lba : Nat) : Sdio Mem := fun s =>
  match faults s.calls with
  | none => (some (s.card lba), { s with calls := s.calls + 1 })
  | some _ => (none, { s with calls := s.calls + 1 })

def sdio_write_sector (faults : Faults) (lba : Nat) (sector : Mem) : Sdio Unit := fun s =>
  let s := { s with calls := s.calls + 1, writes := s.writes + 1 }
  match faults (s.calls - 1) with
  | none => (some (), { s with card := putSector s.card lba sector })
  | some left => (none, { s with card := putSector s.card lba left })

/-! ## Mounting -/

def le16 (p : Mem) (a : Nat) : Nat := p.readLE a 2

def le32 (p : Mem) (a : Nat) : Nat := p.readLE a 4

structure fat16_fs_t where
  part_lba : Nat
  fat0_lba : Nat
  fat1_lba : Nat
  root_lba : Nat
  root_sectors : Nat
  first_data_lba : Nat
  root_entries : Nat
  fat_sectors : Nat
  sectors_per_cluster : Nat

def fat16_mount (faults : Faults) : Sdio fat16_fs_t := do
  let mbr ← sdio_read_sector faults 0
  let part_lba := le32 mbr (446 + 8)
  let part_type := mbr (446 + 4)
  let part_lba := if part_lba = 0 ∧ part_type = 0 then 0 else part_lba
  let bs ← sdio_read_sector faults part_lba
  let bps := le16 bs 11
  let spc := (bs 13).toNat
  let reserved := le16 bs 14
  let fats := (bs 16).toNat
  let root_entries := le16 bs 17
  let fat_sz := le16 bs 22
  if bps ≠ 512 ∨ spc = 0 ∨ fats < 2 ∨ fat_sz = 0 ∨ root_entries = 0 then fail
  else
    let fat0_lba := (part_lba + reserved) % 2 ^ 32
    let root_lba := (part_lba + reserved + fats * fat_sz) % 2 ^ 32
    let root_sectors := (root_entries * 32 + 511) / 512
    return {
      part_lba
      fat0_lba
      fat1_lba := (fat0_lba + fat_sz) % 2 ^ 32
      root_lba
      root_sectors
      first_data_lba := (root_lba + root_sectors) % 2 ^ 32
      root_entries
      fat_sectors := fat_sz
      sectors_per_cluster := spc }

/-! ## Creating a file -/

/-- `free_cluster`, `free_fat_sector` and `free_fat_offset`. -/
structure Found where
  free_cluster : Nat
  free_fat_sector : Nat
  free_fat_offset : Nat

/-- The loop over the entries of one FAT sector: the place of the first free one. -/
def free_entry (fat : Mem) (fat_sector : Nat) : Option Nat :=
  (List.range 256).find? fun i => 2 ≤ fat_sector * 256 + i ∧ le16 fat (2 * i) = 0

/-- The loop over the FAT with `n` sectors left. A free entry whose number is 0 in 16 bits
does not end it. -/
def free_search (faults : Faults) (fs : fat16_fs_t) : Nat → Nat → Found → Sdio Found
  | 0, _, found => pure found
  | n + 1, fat_sector, found =>
    if found.free_cluster = 0 then do
      let fat ← sdio_read_sector faults ((fs.fat0_lba + fat_sector) % 2 ^ 32)
      free_search faults fs n (fat_sector + 1) <|
        match free_entry fat fat_sector with
        | none => found
        | some i => {
            free_cluster := (fat_sector * 256 + i) % 2 ^ 16
            free_fat_sector := fat_sector
            free_fat_offset := 2 * i }
    else pure found

/-- The loop over the places of one root sector: the first that is free. -/
def entry_place (root : Mem) : Option Nat :=
  (List.range 16).find? fun i => root (32 * i) = 0x00 ∨ root (32 * i) = 0xE5

/-- The loop over the root directory with `n` sectors left. -/
def entry_search (faults : Faults) (fs : fat16_fs_t) : Nat → Nat → Sdio (Nat × Nat)
  | 0, _ => fail
  | n + 1, rs => do
    let root ← sdio_read_sector faults ((fs.root_lba + rs) % 2 ^ 32)
    match entry_place root with
    | none => entry_search faults fs n (rs + 1)
    | some i => return (rs, 32 * i)

/-- The sector with the entry of the file at `a`. -/
def put_entry (root : Mem) (a : Nat) (name11 : Mem) (cluster size : Nat) : Mem :=
  let root := root.fill a 0 32
  let root := root.patch a 11 name11
  let root := root.patch (a + 11) 1 fun _ => 0x20
  (root.writeLE (a + 26) 2 cluster).writeLE (a + 28) 4 size

def fat16_create_file_83 (faults : Faults) (fs : fat16_fs_t) (name11 data : Mem) (size : Nat) :
    Sdio Unit :=
  if 512 < size then fail
  else do
    let found ← free_search faults fs fs.fat_sectors 0 ⟨0, 0, 0⟩
    if found.free_cluster = 0 then fail
    else
      let (entry_sector, entry_offset) ← entry_search faults fs fs.root_sectors 0
      let data_sector := Mem.patch (fun _ => 0) 0 size data
      -- in unsigned words, so a cluster number 1 goes round
      let past := (found.free_cluster + (2 ^ 32 - 2)) % 2 ^ 32
      let data_lba := (fs.first_data_lba + past * fs.sectors_per_cluster) % 2 ^ 32
      sdio_write_sector faults data_lba data_sector
      let fat ← sdio_read_sector faults ((fs.fat0_lba + found.free_fat_sector) % 2 ^ 32)
      let fat := fat.writeLE found.free_fat_offset 2 0xFFFF
      sdio_write_sector faults ((fs.fat0_lba + found.free_fat_sector) % 2 ^ 32) fat
      sdio_write_sector faults ((fs.fat1_lba + found.free_fat_sector) % 2 ^ 32) fat
      let root ← sdio_read_sector faults ((fs.root_lba + entry_sector) % 2 ^ 32)
      sdio_write_sector faults ((fs.root_lba + entry_sector) % 2 ^ 32)
        (put_entry root entry_offset name11 found.free_cluster size)

/-! ## Calls on the card -/

section Calls

variable {α β : Type} {faults : Faults} {s s' : Sd}

theorem bind_of_some {x : Sdio α} {f : α → Sdio β} {a : α} {t : Sd} (h : x s = (some a, t)) :
    (x >>= f) s = f a t := by
  change (match x s with | (some a, t) => f a t | (none, t) => (none, t)) = _
  rw [h]

theorem bind_of_none {x : Sdio α} {f : α → Sdio β} {t : Sd} (h : x s = (none, t)) :
    (x >>= f) s = (none, t) := by
  change (match x s with | (some a, t) => f a t | (none, t) => (none, t)) = _
  rw [h]

theorem bind_some {x : Sdio α} {f : α → Sdio β} {b : β} (h : (x >>= f) s = (some b, s')) :
    ∃ a t, x s = (some a, t) ∧ f a t = (some b, s') := by
  match hx : x s with
  | (some a, t) =>
    rw [bind_of_some hx] at h
    exact ⟨a, t, rfl, h⟩
  | (none, t) =>
    rw [bind_of_none hx] at h
    cases h

theorem read_some {lba : Nat} {sector : Mem}
    (h : sdio_read_sector faults lba s = (some sector, s')) :
    sector = s.card lba ∧ s'.card = s.card ∧ s'.writes = s.writes := by
  unfold sdio_read_sector at h
  split at h
  · cases h
    exact ⟨rfl, rfl, rfl⟩
  · cases h

theorem write_some {lba : Nat} {sector : Mem}
    (h : sdio_write_sector faults lba sector s = (some (), s')) :
    s'.card = putSector s.card lba sector := by
  unfold sdio_write_sector at h
  dsimp only at h
  split at h
  · cases h
    rfl
  · cases h

/-- The call leaves the card as it is, unless it writes. -/
def Tidy (x : Sdio α) : Prop := ∀ s, s.writes ≤ (x s).2.writes ∧
  ((x s).2.writes = s.writes → (x s).2.card = s.card)

theorem Tidy.bind {x : Sdio α} {f : α → Sdio β} (hx : Tidy x) (hf : ∀ a, Tidy (f a)) :
    Tidy (x >>= f) := by
  intro s
  obtain ⟨hle, hkeep⟩ := hx s
  match hr : x s with
  | (some a, t) =>
    rw [hr] at hle hkeep
    rw [bind_of_some hr]
    obtain ⟨hle', hkeep'⟩ := hf a t
    refine ⟨Nat.le_trans hle hle', fun h => ?_⟩
    have hsame : t.writes = s.writes := Nat.le_antisymm (h ▸ hle') hle
    exact (hkeep' (h.trans hsame.symm)).trans (hkeep hsame)
  | (none, t) =>
    rw [hr] at hle hkeep
    rw [bind_of_none hr]
    exact ⟨hle, hkeep⟩

theorem tidy_pure (a : α) : Tidy (pure a : Sdio α) := fun _ => ⟨Nat.le_refl _, fun _ => rfl⟩

theorem tidy_fail : Tidy (fail : Sdio α) := fun _ => ⟨Nat.le_refl _, fun _ => rfl⟩

theorem tidy_read (lba : Nat) : Tidy (sdio_read_sector faults lba) := by
  intro s
  unfold sdio_read_sector
  split <;> exact ⟨Nat.le_refl _, fun _ => rfl⟩

theorem tidy_write (lba : Nat) (sector : Mem) : Tidy (sdio_write_sector faults lba sector) := by
  intro s
  unfold sdio_write_sector
  dsimp only
  split
  all_goals
    refine ⟨Nat.le_succ _, fun h => ?_⟩
    exact absurd h (Nat.succ_ne_self _)

end Calls

/-! ## The searches -/

section Searches

variable {faults : Faults} {fs : fat16_fs_t} {s s' : Sd}

theorem tidy_free_search (n i : Nat) (found : Found) :
    Tidy (free_search faults fs n i found) := by
  induction n generalizing i found with
  | zero => exact tidy_pure _
  | succ n ih =>
    unfold free_search
    split
    · exact (tidy_read _).bind fun fat => ih _ _
    · exact tidy_pure _

theorem tidy_entry_search (n i : Nat) : Tidy (entry_search faults fs n i) := by
  induction n generalizing i with
  | zero => exact tidy_fail
  | succ n ih =>
    refine (tidy_read _).bind fun root => ?_
    split
    · exact ih _
    · exact tidy_pure _

theorem tidy_create (faults : Faults) (fs : fat16_fs_t) (name11 data : Mem) (size : Nat) :
    Tidy (fat16_create_file_83 faults fs name11 data size) := by
  unfold fat16_create_file_83
  split
  · exact tidy_fail
  refine (tidy_free_search _ _ _).bind fun found => ?_
  split
  · exact tidy_fail
  refine (tidy_entry_search _ _).bind fun place => ?_
  refine (tidy_write _ _).bind fun _ => (tidy_read _).bind fun fat => ?_
  refine (tidy_write _ _).bind fun _ => (tidy_write _ _).bind fun _ => ?_
  exact (tidy_read _).bind fun root => tidy_write _ _

theorem free_entry_some {fat : Mem} {k i : Nat} (h : free_entry fat k = some i) :
    i < 256 ∧ 2 ≤ k * 256 + i ∧ le16 fat (2 * i) = 0 ∧
      ∀ j < i, 2 ≤ k * 256 + j → le16 fat (2 * j) ≠ 0 := by
  unfold free_entry at h
  obtain ⟨hp, hmem, hfirst⟩ := List.find?_range_eq_some.mp h
  rw [decide_eq_true_eq] at hp
  refine ⟨List.mem_range.mp hmem, hp.1, hp.2, fun j hj h2 h0 => ?_⟩
  have hno := hfirst j hj
  simp [h2, h0] at hno

theorem free_entry_none {fat : Mem} {k : Nat} (h : free_entry fat k = none) :
    ∀ j < 256, 2 ≤ k * 256 + j → le16 fat (2 * j) ≠ 0 := by
  intro j hj h2 h0
  have hno := List.find?_eq_none.mp h j (List.mem_range.mpr hj)
  simp [h2, h0] at hno

/-- The 16-bit entry of a cluster in the FAT that starts at `fat_lba`. -/
def fatWord (card : Nat → Mem) (fat_lba x : Nat) : Nat :=
  le16 (card ((fat_lba + x / 256) % 2 ^ 32)) (2 * (x % 256))

/-- What the search of a free cluster finds, from the FAT sector `i` on: the entry of `m`
is free, and so is none before it that 16 bits can number. -/
def FreeAt (card : Nat → Mem) (fat_lba i m : Nat) (found : Found) : Prop :=
  256 * i ≤ m ∧ 2 ≤ m ∧ found = ⟨m % 2 ^ 16, m / 256, 2 * (m % 256)⟩ ∧
    fatWord card fat_lba m = 0 ∧
    ∀ y, 256 * i ≤ y → 2 ≤ y → y < m → y < 2 ^ 16 → fatWord card fat_lba y ≠ 0

theorem free_search_done {n i : Nat} {found r : Found} (hf : found.free_cluster ≠ 0)
    (h : free_search faults fs n i found s = (some r, s')) : r = found ∧ s' = s := by
  cases n with
  | zero =>
    cases h
    exact ⟨rfl, rfl⟩
  | succ n =>
    unfold free_search at h
    rw [if_neg hf] at h
    cases h
    exact ⟨rfl, rfl⟩

theorem free_search_some {n i : Nat} {found r : Found} (hf : found.free_cluster = 0)
    (h : free_search faults fs n i found s = (some r, s')) (hr : r.free_cluster ≠ 0) :
    s'.card = s.card ∧ ∃ m < 256 * (i + n), FreeAt s.card fs.fat0_lba i m r := by
  induction n generalizing i found s with
  | zero =>
    cases h
    exact absurd hf hr
  | succ n ih =>
    unfold free_search at h
    rw [if_pos hf] at h
    obtain ⟨fat, t, hread, hrest⟩ := bind_some h
    obtain ⟨rfl, hcard, -⟩ := read_some hread
    have hword {j : Nat} (hj : j < 256) : fatWord s.card fs.fat0_lba (i * 256 + j) =
        le16 (s.card ((fs.fat0_lba + i) % 2 ^ 32)) (2 * j) := by
      unfold fatWord
      rw [show (i * 256 + j) / 256 = i by omega, show (i * 256 + j) % 256 = j by omega]
    -- the entries of this sector, then the search of the others
    have hlater {found : Found} (hf : found.free_cluster = 0)
        (hnone : ∀ j < 256, 2 ≤ i * 256 + j → i * 256 + j < 2 ^ 16 →
          fatWord s.card fs.fat0_lba (i * 256 + j) ≠ 0)
        (hrest : free_search faults fs n (i + 1) found t = (some r, s')) :
        s'.card = s.card ∧ ∃ m < 256 * (i + (n + 1)), FreeAt s.card fs.fat0_lba i m r := by
      obtain ⟨hkeep, m, hm, hlow, h2, hfound, hzero, hfirst⟩ := ih hf hrest
      rw [hcard] at hzero hfirst
      refine ⟨hkeep.trans hcard, m, by omega, by omega, h2, hfound, hzero, ?_⟩
      intro y hy h2y hym hshort
      by_cases hin : y < 256 * (i + 1)
      · have hsplit : y = i * 256 + (y - i * 256) := by omega
        rw [hsplit]
        exact hnone _ (by omega) (by omega) (by omega)
      · exact hfirst y (by omega) h2y hym hshort
    cases hentry : free_entry (s.card ((fs.fat0_lba + i) % 2 ^ 32)) i with
    | none =>
      rw [hentry] at hrest
      refine hlater hf (fun j hj h2 _ => ?_) hrest
      rw [hword hj]
      exact free_entry_none hentry j hj h2
    | some j =>
      rw [hentry] at hrest
      obtain ⟨hj, h2, hzero, hfirst⟩ := free_entry_some hentry
      dsimp only at hrest
      by_cases hwrap : (i * 256 + j) % 2 ^ 16 = 0
      · refine hlater hwrap (fun k hk h2k hshort => ?_) hrest
        -- a number that is 0 in 16 bits stands at the start of its sector, beyond 2^16
        omega
      · obtain ⟨rfl, rfl⟩ := free_search_done (by exact hwrap) hrest
        refine ⟨hcard, i * 256 + j, by omega, by omega, h2, ?_, ?_, ?_⟩
        · rw [show (i * 256 + j) / 256 = i by omega, show (i * 256 + j) % 256 = j by omega]
        · rw [hword hj]
          exact hzero
        · intro y hy h2y hym _
          have hsplit : y = i * 256 + (y - i * 256) := by omega
          rw [hsplit, hword (by omega)]
          exact hfirst _ (by omega) (by omega)

theorem entry_place_some {root : Mem} {i : Nat} (h : entry_place root = some i) :
    i < 16 ∧ (root (32 * i) = 0x00 ∨ root (32 * i) = 0xE5) ∧
      ∀ j < i, ¬ (root (32 * j) = 0x00 ∨ root (32 * j) = 0xE5) := by
  unfold entry_place at h
  obtain ⟨hp, hmem, hfirst⟩ := List.find?_range_eq_some.mp h
  rw [decide_eq_true_eq] at hp
  refine ⟨List.mem_range.mp hmem, hp, fun j hj hfree => ?_⟩
  have hno := hfirst j hj
  simp [hfree] at hno

theorem entry_place_none {root : Mem} (h : entry_place root = none) :
    ∀ j < 16, ¬ (root (32 * j) = 0x00 ∨ root (32 * j) = 0xE5) := by
  intro j hj hfree
  have hno := List.find?_eq_none.mp h j (List.mem_range.mpr hj)
  simp [hfree] at hno

/-- The first byte of place `k` of the root directory that starts at `root_lba`. -/
def firstByte (card : Nat → Mem) (root_lba k : Nat) : UInt8 :=
  card ((root_lba + k / 16) % 2 ^ 32) (32 * (k % 16))

theorem entry_search_some {n i : Nat} {place : Nat × Nat}
    (h : entry_search faults fs n i s = (some place, s')) :
    s'.card = s.card ∧ ∃ e, 16 * i ≤ e ∧ e < 16 * (i + n) ∧ place = (e / 16, 32 * (e % 16)) ∧
      (firstByte s.card fs.root_lba e = 0x00 ∨ firstByte s.card fs.root_lba e = 0xE5) ∧
      ∀ y, 16 * i ≤ y → y < e →
        ¬ (firstByte s.card fs.root_lba y = 0x00 ∨ firstByte s.card fs.root_lba y = 0xE5) := by
  induction n generalizing i s with
  | zero => cases h
  | succ n ih =>
    obtain ⟨root, t, hread, hrest⟩ := bind_some h
    obtain ⟨rfl, hcard, -⟩ := read_some hread
    have hbyte {j : Nat} (hj : j < 16) : firstByte s.card fs.root_lba (i * 16 + j) =
        s.card ((fs.root_lba + i) % 2 ^ 32) (32 * j) := by
      unfold firstByte
      rw [show (i * 16 + j) / 16 = i by omega, show (i * 16 + j) % 16 = j by omega]
    have hhere {y : Nat} (hy : 16 * i ≤ y) : y = i * 16 + (y - i * 16) := by omega
    cases hplace : entry_place (s.card ((fs.root_lba + i) % 2 ^ 32)) with
    | none =>
      rw [hplace] at hrest
      obtain ⟨hkeep, e, hlow, hhigh, hpl, hfree, hfirst⟩ := ih hrest
      rw [hcard] at hkeep hfree hfirst
      refine ⟨hkeep, e, by omega, by omega, hpl, hfree, fun y hy hye => ?_⟩
      by_cases hin : y < 16 * (i + 1)
      · rw [hhere hy, hbyte (by omega)]
        exact entry_place_none hplace _ (by omega)
      · exact hfirst y (by omega) hye
    | some j =>
      rw [hplace] at hrest
      obtain ⟨hj, hfree, hfirst⟩ := entry_place_some hplace
      cases hrest
      refine ⟨hcard, i * 16 + j, by omega, by omega, ?_, ?_, fun y hy hye => ?_⟩
      · rw [show (i * 16 + j) / 16 = i by omega, show (i * 16 + j) % 16 = j by omega]
      · rw [hbyte hj]
        exact hfree
      · rw [hhere hy, hbyte (by omega)]
        exact hfirst _ (by omega)

end Searches

/-! ## Images -/

/-- Where a FAT16 volume lies on a card, with what its boot sector says. -/
structure Layout where
  geo : Geometry
  start : Nat
  sound : geo.Sound
  fixed : geo.FixedRoot
  reserved : 0 < geo.reserved
  covered : geo.clusters + 2 ≤ 256 * geo.fatSize
  onCard : start + geo.total ≤ 2 ^ 32

namespace Layout

variable (L : Layout) (card : Nat → Mem)

def fatLba (i : Nat) : Nat := L.start + L.geo.reserved + i * L.geo.fatSize

def rootLba : Nat := L.start + L.geo.rootStart

def clusterLba (c i : Nat) : Nat := L.start + L.geo.clusterStart c + i

def entry (x : Nat) : Nat := le16 (card (L.fatLba 0 + x / 256)) (2 * (x % 256))

def slot (k : Nat) : Slot := fun i => card (L.rootLba + k / 16) (32 * (k % 16) + i)

def cluster (k : Nat) : Nat := le16 (L.slot card k) 26

def LiveAt (k : Nat) : Prop :=
  k < L.geo.rootEntries ∧ (∀ i ≤ k, ¬ (L.slot card i).IsEnd) ∧ (L.slot card k).Live

def SameName (e d : Mem) : Prop := ∀ i < 11, e i = d i

def DistinctNames : Prop := ∀ i j, L.LiveAt card i → L.LiveAt card j →
  SameName (L.slot card i) (L.slot card j) → i = j

def CopiesAlike : Prop := ∀ i < L.geo.fats, ∀ j < L.geo.fatSize, ∀ b < 512,
  card (L.fatLba i + j) b = card (L.fatLba 0 + j) b

/-- The clusters of the chain that starts at `a`. -/
inductive Reaches (a : Nat) : Nat → Prop
  | start : L.geo.IsCluster a → Reaches a a
  | next {x : Nat} : Reaches a x → L.geo.IsCluster (L.entry card x) → Reaches a (L.entry card x)

/-- The first place of the root directory that is free. -/
def FirstPlace (e : Nat) : Prop :=
  e < L.geo.rootEntries ∧ (L.slot card e 0 = 0x00 ∨ L.slot card e 0 = 0xE5) ∧
    ∀ i < e, ¬ (L.slot card i 0 = 0x00 ∨ L.slot card i 0 = 0xE5)

def FirstCluster (m : Nat) : Prop :=
  L.geo.IsCluster m ∧ L.entry card m = 0 ∧ ∀ y, 2 ≤ y → y < m → L.entry card y ≠ 0

/-- A cluster has the entry in the FAT and the sectors that it had. -/
def Keeps (card' : Nat → Mem) (x : Nat) : Prop :=
  L.entry card' x = L.entry card x ∧
    ∀ i < L.geo.sectorsPerCluster, card' (L.clusterLba x i) = card (L.clusterLba x i)

/-- What `fat16_mount` stores. A data area at the very end of the numbers is empty. -/
def mounted : fat16_fs_t where
  part_lba := L.start
  fat0_lba := L.fatLba 0
  fat1_lba := L.fatLba 1
  root_lba := L.rootLba
  root_sectors := L.geo.rootSectors
  first_data_lba := (L.start + L.geo.dataStart) % 2 ^ 32
  root_entries := L.geo.rootEntries
  fat_sectors := L.geo.fatSize
  sectors_per_cluster := L.geo.sectorsPerCluster

/-! ## Where things lie -/

variable {L} {card}

theorem fatSize_eq : L.geo.fatSize = L.geo.fatSize16 := if_pos L.fixed.1

theorem dataStart_le : L.start + L.geo.dataStart ≤ 2 ^ 32 :=
  Nat.le_trans (Nat.add_le_add_left L.sound.fits _) L.onCard

theorem fatLba_lt {i j : Nat} (hi : i < L.geo.fats) (hj : j < L.geo.fatSize) :
    L.fatLba i + j < L.rootLba := by
  have hmul : (i + 1) * L.geo.fatSize ≤ L.geo.fats * L.geo.fatSize :=
    Nat.mul_le_mul_right _ hi
  rw [Nat.add_mul, Nat.one_mul] at hmul
  unfold fatLba rootLba Geometry.rootStart
  omega

theorem fatLba_inj {i i' j j' : Nat} (hj : j < L.geo.fatSize) (hj' : j' < L.geo.fatSize)
    (h : L.fatLba i + j = L.fatLba i' + j') : i = i' ∧ j = j' := by
  have hsum : i * L.geo.fatSize + j = i' * L.geo.fatSize + j' := by
    unfold fatLba at h
    omega
  have hpos : 0 < L.geo.fatSize := L.sound.fat
  have hdiv := congrArg (· / L.geo.fatSize) hsum
  have hmod := congrArg (· % L.geo.fatSize) hsum
  simp only [Nat.mul_comm _ L.geo.fatSize, Nat.mul_add_div hpos, Nat.mul_add_mod,
    Nat.div_eq_of_lt hj, Nat.div_eq_of_lt hj', Nat.mod_eq_of_lt hj, Nat.mod_eq_of_lt hj',
    Nat.add_zero] at hdiv hmod
  exact ⟨hdiv, hmod⟩

theorem rootLba_lt {k : Nat} (hk : k < L.geo.rootEntries) :
    L.rootLba + k / 16 < L.start + L.geo.dataStart := by
  have hwhole := L.sound.whole
  unfold rootLba Geometry.dataStart Geometry.rootSectors
  omega

theorem le_clusterLba (c i : Nat) : L.start + L.geo.dataStart ≤ L.clusterLba c i := by
  unfold clusterLba Geometry.clusterStart
  omega

theorem clusterLba_lt {c i : Nat} (hc : L.geo.IsCluster c) (hi : i < L.geo.sectorsPerCluster) :
    L.clusterLba c i < L.start + L.geo.total := by
  have hfits := L.sound.fits
  have hclusters : L.geo.clusters * L.geo.sectorsPerCluster ≤ L.geo.total - L.geo.dataStart :=
    Nat.div_mul_le_self _ _
  have hmul : (c - 2 + 1) * L.geo.sectorsPerCluster ≤
      L.geo.clusters * L.geo.sectorsPerCluster :=
    Nat.mul_le_mul_right _ (by have := hc.1; have := hc.2; omega)
  rw [Nat.add_mul, Nat.one_mul] at hmul
  unfold clusterLba Geometry.clusterStart
  omega

theorem clusterLba_inj {x m i : Nat} (hx : L.geo.IsCluster x) (hm : L.geo.IsCluster m)
    (hi : i < L.geo.sectorsPerCluster) (h : L.clusterLba x i = L.clusterLba m 0) : x = m := by
  have hpos : 0 < L.geo.sectorsPerCluster := Nat.zero_lt_of_lt hi
  have hsum : (x - 2) * L.geo.sectorsPerCluster + i = (m - 2) * L.geo.sectorsPerCluster := by
    unfold clusterLba Geometry.clusterStart at h
    omega
  have hdiv := congrArg (· / L.geo.sectorsPerCluster) hsum
  simp only [Nat.mul_comm _ L.geo.sectorsPerCluster, Nat.mul_add_div hpos,
    Nat.mul_div_cancel_left _ hpos, Nat.div_eq_of_lt hi, Nat.add_zero] at hdiv
  have := hx.1
  have := hm.1
  omega

theorem cluster_div_lt {x : Nat} (hx : L.geo.IsCluster x) : x / 256 < L.geo.fatSize := by
  have hcov := L.covered
  have hlt := hx.2
  omega

end Layout

/-! ## What the calls do -/

section Effects

variable {L : Layout} {faults : Faults} {fs : fat16_fs_t} {s s' : Sd}

theorem readLE_one (m : Mem) (a : Nat) : m.readLE a 1 = (m a).toNat := by
  simp [Mem.readLE]

theorem mount_some (hgeo : geometry (s.card L.start) = L.geo)
    (hstart : L.start = firstPartition (s.card 0))
    (h : fat16_mount faults s = (some fs, s')) :
    s'.card = s.card ∧ 2 ≤ L.geo.fats ∧ fs = L.mounted := by
  unfold fat16_mount at h
  obtain ⟨mbr, t, hmbr, h⟩ := bind_some h
  obtain ⟨rfl, hcard, -⟩ := read_some hmbr
  have hpart : le32 (s.card 0) (446 + 8) = L.start := hstart.symm
  have hsame (p : Prop) [Decidable p] : (if L.start = 0 ∧ p then 0 else L.start) = L.start := by
    split
    · omega
    · rfl
  dsimp only at h
  rw [hpart, hsame] at h
  obtain ⟨bs, t', hbs, h⟩ := bind_some h
  obtain ⟨rfl, hcard', -⟩ := read_some hbs
  rw [hcard] at h hcard'
  split at h
  · cases h
  rename_i hok
  cases h
  -- the fields are those of the boot sector
  have hres : le16 (s.card L.start) 14 = L.geo.reserved := congrArg Geometry.reserved hgeo
  have hroot : le16 (s.card L.start) 17 = L.geo.rootEntries :=
    congrArg Geometry.rootEntries hgeo
  have hsize : le16 (s.card L.start) 22 = L.geo.fatSize :=
    (congrArg Geometry.fatSize16 hgeo).trans L.fatSize_eq.symm
  have hspc : (s.card L.start 13).toNat = L.geo.sectorsPerCluster :=
    (readLE_one _ _).symm.trans (congrArg Geometry.sectorsPerCluster hgeo)
  have hfats : (s.card L.start 16).toNat = L.geo.fats :=
    (readLE_one _ _).symm.trans (congrArg Geometry.fats hgeo)
  rw [hfats] at hok
  have htwo : 2 ≤ L.geo.fats := by omega
  refine ⟨hcard', htwo, ?_⟩
  -- nothing goes round in 32 bits
  have hdata := L.dataStart_le
  have hwhole := L.sound.whole
  have hmul : 2 * L.geo.fatSize ≤ L.geo.fats * L.geo.fatSize := Nat.mul_le_mul_right _ htwo
  unfold Geometry.dataStart Geometry.rootStart Geometry.rootSectors at hdata
  have hpos := L.sound.fat
  have hcount : (L.geo.rootEntries * 32 + 511) / 512 = L.geo.rootEntries / 16 := by omega
  have hne : L.geo.rootEntries ≠ 0 := L.fixed.2.1
  have hfat0 : (L.start + L.geo.reserved) % 2 ^ 32 = L.start + L.geo.reserved :=
    Nat.mod_eq_of_lt (by omega)
  have hfat1 : (L.start + L.geo.reserved + L.geo.fatSize) % 2 ^ 32 =
      L.start + L.geo.reserved + L.geo.fatSize := Nat.mod_eq_of_lt (by omega)
  have hrootLba : (L.start + L.geo.reserved + L.geo.fats * L.geo.fatSize) % 2 ^ 32 =
      L.start + L.geo.reserved + L.geo.fats * L.geo.fatSize := Nat.mod_eq_of_lt (by omega)
  rw [hres, hroot, hsize, hspc, hfats, hcount, hfat0, hfat1, hrootLba]
  unfold Layout.mounted Layout.fatLba Layout.rootLba Geometry.dataStart Geometry.rootStart
    Geometry.rootSectors
  simp only [Nat.zero_mul, Nat.one_mul, Nat.add_zero, Nat.add_assoc]

/-- The card after the file has been written, if `m` is free and so is place `e`. -/
def written (fs : fat16_fs_t) (name11 data : Mem) (size m e : Nat) (card : Nat → Mem) :
    Nat → Mem :=
  let past := (m % 2 ^ 16 + (2 ^ 32 - 2)) % 2 ^ 32
  let card := putSector card ((fs.first_data_lba + past * fs.sectors_per_cluster) % 2 ^ 32)
    (Mem.patch (fun _ => 0) 0 size data)
  let fat := (card ((fs.fat0_lba + m / 256) % 2 ^ 32)).writeLE (2 * (m % 256)) 2 0xFFFF
  let card := putSector card ((fs.fat0_lba + m / 256) % 2 ^ 32) fat
  let card := putSector card ((fs.fat1_lba + m / 256) % 2 ^ 32) fat
  putSector card ((fs.root_lba + e / 16) % 2 ^ 32)
    (put_entry (card ((fs.root_lba + e / 16) % 2 ^ 32)) (32 * (e % 16)) name11 (m % 2 ^ 16) size)

theorem create_some {name11 data : Mem} {size : Nat}
    (h : fat16_create_file_83 faults fs name11 data size s = (some (), s')) :
    ∃ m e, 2 ≤ m ∧ m % 2 ^ 16 ≠ 0 ∧ fatWord s.card fs.fat0_lba m = 0 ∧
      (∀ y, 2 ≤ y → y < m → y < 2 ^ 16 → fatWord s.card fs.fat0_lba y ≠ 0) ∧
      e < 16 * fs.root_sectors ∧
      (firstByte s.card fs.root_lba e = 0x00 ∨ firstByte s.card fs.root_lba e = 0xE5) ∧
      (∀ y < e,
        ¬ (firstByte s.card fs.root_lba y = 0x00 ∨ firstByte s.card fs.root_lba y = 0xE5)) ∧
      s'.card = written fs name11 data size m e s.card := by
  unfold fat16_create_file_83 at h
  split at h
  · cases h
  obtain ⟨found, t₁, hfound, h⟩ := bind_some h
  split at h
  · cases h
  rename_i hne
  obtain ⟨hc₁, m, -, -, h2, rfl, hzero, hfirst⟩ := free_search_some rfl hfound hne
  obtain ⟨place, t₂, hplace, h⟩ := bind_some h
  obtain ⟨hc₂, e, -, he, rfl, hfree, hfirst'⟩ := entry_search_some hplace
  rw [hc₁] at hc₂ hfree hfirst'
  dsimp only at h hne
  obtain ⟨_, t₃, hw₃, h⟩ := bind_some h
  have hc₃ := write_some hw₃
  obtain ⟨fat, t₄, hr₄, h⟩ := bind_some h
  obtain ⟨rfl, hc₄, -⟩ := read_some hr₄
  obtain ⟨_, t₅, hw₅, h⟩ := bind_some h
  have hc₅ := write_some hw₅
  obtain ⟨_, t₆, hw₆, h⟩ := bind_some h
  have hc₆ := write_some hw₆
  obtain ⟨root, t₇, hr₇, h⟩ := bind_some h
  obtain ⟨rfl, hc₇, -⟩ := read_some hr₇
  have hc₈ := write_some h
  refine ⟨m, e, h2, hne, hzero, fun y h2y hy hs => hfirst y (Nat.zero_le _) h2y hy hs, ?_, hfree,
    fun y hy => hfirst' y (Nat.zero_le _) hy, ?_⟩
  · rwa [Nat.zero_add] at he
  · rw [hc₈, hc₇, hc₆, hc₅, hc₄, hc₃, hc₂]
    rfl

end Effects

/-! ## The sectors that are written -/

namespace Layout

variable {L : Layout} {card : Nat → Mem} {name11 data : Mem} {size m e : Nat}

theorem short_of_isCluster (hm : L.geo.IsCluster m) : m < 2 ^ 16 := by
  have hlt := hm.2
  have hfew := L.fixed.2.2
  omega

theorem clusterLba_eq (hm : L.geo.IsCluster m) :
    (L.mounted.first_data_lba + (m % 2 ^ 16 + (2 ^ 32 - 2)) % 2 ^ 32 *
      L.mounted.sectors_per_cluster) % 2 ^ 32 = L.clusterLba m 0 := by
  have hpast : (m % 2 ^ 16 + (2 ^ 32 - 2)) % 2 ^ 32 = m - 2 := by
    have h2 := hm.1
    have hshort := short_of_isCluster hm
    omega
  have hpos : 0 < L.geo.sectorsPerCluster := Nat.pos_of_ne_zero L.sound.boots.2.2.1
  have hlt := Nat.lt_of_lt_of_le (L.clusterLba_lt hm hpos) L.onCard
  rw [hpast]
  change ((L.start + L.geo.dataStart) % 2 ^ 32 + (m - 2) * L.geo.sectorsPerCluster) % 2 ^ 32 = _
  rw [Nat.mod_add_mod]
  unfold clusterLba Geometry.clusterStart at hlt ⊢
  rw [Nat.mod_eq_of_lt (by omega)]
  omega

theorem fatLba_short {i j : Nat} (hi : i < L.geo.fats) (hj : j < L.geo.fatSize) :
    (L.fatLba i + j) % 2 ^ 32 = L.fatLba i + j := by
  apply Nat.mod_eq_of_lt
  have hlt := L.fatLba_lt hi hj
  have hle := L.dataStart_le
  have hroot : L.rootLba ≤ L.start + L.geo.dataStart := by
    unfold rootLba Geometry.dataStart
    omega
  omega

theorem rootLba_short {k : Nat} (hk : k < L.geo.rootEntries) :
    (L.rootLba + k / 16) % 2 ^ 32 = L.rootLba + k / 16 :=
  Nat.mod_eq_of_lt (Nat.lt_of_lt_of_le (L.rootLba_lt hk) L.dataStart_le)

theorem written_eq (hfats : 2 ≤ L.geo.fats) (hm : L.geo.IsCluster m)
    (he : e < L.geo.rootEntries) :
    written L.mounted name11 data size m e card =
      let fat := (card (L.fatLba 0 + m / 256)).writeLE (2 * (m % 256)) 2 0xFFFF
      putSector (putSector (putSector (putSector card
        (L.clusterLba m 0) (Mem.patch (fun _ => 0) 0 size data))
        (L.fatLba 0 + m / 256) fat)
        (L.fatLba 1 + m / 256) fat)
        (L.rootLba + e / 16)
        (put_entry (card (L.rootLba + e / 16)) (32 * (e % 16)) name11 m size) := by
  have hdiv := cluster_div_lt hm
  have h0 := L.fatLba_lt (i := 0) (by omega) hdiv
  have h1 := L.fatLba_lt (i := 1) (by omega) hdiv
  have hroot := L.rootLba_lt he
  have hdata := L.le_clusterLba m 0
  unfold written
  dsimp only
  rw [clusterLba_eq hm]
  change putSector (putSector (putSector _ ((L.fatLba 0 + m / 256) % 2 ^ 32) _)
    ((L.fatLba 1 + m / 256) % 2 ^ 32) _) ((L.rootLba + e / 16) % 2 ^ 32) _ = _
  rw [show (L.mounted.fat0_lba + m / 256) % 2 ^ 32 = L.fatLba 0 + m / 256 from
      fatLba_short (by omega) hdiv,
    show (L.mounted.fat1_lba + m / 256) % 2 ^ 32 = L.fatLba 1 + m / 256 from
      fatLba_short (by omega) hdiv,
    show (L.mounted.root_lba + e / 16) % 2 ^ 32 = L.rootLba + e / 16 from rootLba_short he,
    fatLba_short (by omega) hdiv, fatLba_short (by omega) hdiv, rootLba_short he,
    Nat.mod_eq_of_lt (short_of_isCluster hm)]
  have hfat : L.fatLba 0 + m / 256 ≠ L.clusterLba m 0 := by omega
  have hroot1 : L.rootLba + e / 16 ≠ L.fatLba 1 + m / 256 := by omega
  have hroot0 : L.rootLba + e / 16 ≠ L.fatLba 0 + m / 256 := by omega
  have hrootData : L.rootLba + e / 16 ≠ L.clusterLba m 0 := by omega
  rw [putSector_ne hfat, putSector_ne hroot1, putSector_ne hroot0, putSector_ne hrootData]

section Sectors

variable (hfats : 2 ≤ L.geo.fats) (hm : L.geo.IsCluster m) (he : e < L.geo.rootEntries)

include hfats hm he

theorem written_root : written L.mounted name11 data size m e card (L.rootLba + e / 16) =
    put_entry (card (L.rootLba + e / 16)) (32 * (e % 16)) name11 m size := by
  rw [written_eq hfats hm he]
  exact putSector_self _ _ _

theorem written_fat {i : Nat} (hi : i < 2) :
    written L.mounted name11 data size m e card (L.fatLba i + m / 256) =
      (card (L.fatLba 0 + m / 256)).writeLE (2 * (m % 256)) 2 0xFFFF := by
  have hdiv := cluster_div_lt hm
  have hroot := L.fatLba_lt (i := i) (by omega) hdiv
  rw [written_eq hfats hm he]
  dsimp only
  rw [putSector_ne (by omega)]
  obtain rfl | rfl : i = 0 ∨ i = 1 := by omega
  · have hne : L.fatLba 0 + m / 256 ≠ L.fatLba 1 + m / 256 := fun h =>
      absurd (fatLba_inj hdiv hdiv h).1 (by decide)
    rw [putSector_ne hne, putSector_self]
  · rw [putSector_self]

theorem written_data : written L.mounted name11 data size m e card (L.clusterLba m 0) =
    Mem.patch (fun _ => 0) 0 size data := by
  have hdiv := cluster_div_lt hm
  have h0 := L.fatLba_lt (i := 0) (by omega) hdiv
  have h1 := L.fatLba_lt (i := 1) (by omega) hdiv
  have hroot := L.rootLba_lt he
  have hdata := L.le_clusterLba m 0
  rw [written_eq hfats hm he]
  dsimp only
  rw [putSector_ne (by omega), putSector_ne (by omega), putSector_ne (by omega), putSector_self]

theorem written_other {lba : Nat} (hdata : lba ≠ L.clusterLba m 0)
    (hfat : ∀ i < 2, lba ≠ L.fatLba i + m / 256) (hroot : lba ≠ L.rootLba + e / 16) :
    written L.mounted name11 data size m e card lba = card lba := by
  rw [written_eq hfats hm he]
  dsimp only
  rw [putSector_ne hroot, putSector_ne (hfat 1 (by decide)), putSector_ne (hfat 0 (by decide)),
    putSector_ne hdata]

end Sectors

end Layout

end vibeos.fat16
