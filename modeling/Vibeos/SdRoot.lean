-- Mounting the volume of an SD card, and when the driver lists its root directory.
import Vibeos.SdListing

namespace vibeos.sd

open Fat
open wget (ascii)

/-! ## Mounting -/

theorem readLE_one (b : Mem) (a : Nat) : b.readLE a 1 = (b a).toNat := by
  simp [Mem.readLE]

theorem readLE_two (b : Mem) (a : Nat) : b.readLE a 2 = (b a).toNat + (b (a + 1)).toNat * 256 := by
  simp [Mem.readLE]

theorem toNat_ne_zero {c : UInt8} : c.toNat ≠ 0 ↔ c ≠ 0 := by
  rw [ne_eq, ne_eq, ← UInt8.toNat_inj]
  rfl

theorem valid_boot_sector_iff (bs : Mem) : valid_boot_sector bs = true ↔ (geometry bs).Boots := by
  have hsig : (geometry bs).signature = 0xAA55 ↔ bs 510 = 0x55 ∧ bs 511 = 0xAA := by
    have h510 := UInt8.toNat_lt (bs 510)
    have h511 := UInt8.toNat_lt (bs 511)
    have hlow : (0x55 : UInt8).toNat = 0x55 := rfl
    have hhigh : (0xAA : UInt8).toNat = 0xAA := rfl
    simp only [geometry, readLE_two, ← UInt8.toNat_inj, hlow, hhigh, Nat.reduceAdd]
    omega
  have hspc : (geometry bs).sectorsPerCluster ≠ 0 ↔ bs 13 ≠ 0 := by
    rw [← toNat_ne_zero, ← readLE_one]
    rfl
  have hfats : (geometry bs).fats ≠ 0 ↔ bs 16 ≠ 0 := by
    rw [← toNat_ne_zero, ← readLE_one]
    rfl
  have hbytes : (geometry bs).bytesPerSector = le16 bs 11 := rfl
  rw [Geometry.Boots, hsig, hspc, hfats, hbytes, valid_boot_sector]
  by_cases h1 : bs 510 = 0x55 <;> by_cases h2 : bs 511 = 0xAA <;>
    by_cases h3 : le16 bs 11 = 512 <;> by_cases h4 : bs 13 = 0 <;>
    by_cases h5 : bs 16 = 0 <;> simp [h1, h2, h3, h4, h5]

theorem u32_of_lt {n : Nat} (h : n < 2 ^ 32) : u32 n = n := Nat.mod_eq_of_lt h

theorem sub32_of_le {a b : Nat} (hle : b ≤ a) (ha : a < 2 ^ 32) : sub32 a b = a - b := by
  unfold sub32 u32
  omega

structure Mounted (v : Volume) (fs : sd_fat_fs_t) : Prop where
  spc : fs.sectors_per_cluster = v.geo.sectorsPerCluster
  fat : fs.fat_lba = u32 (v.start + v.geo.reserved)
  data : fs.first_data_lba = u32 (v.start + v.geo.dataStart)
  root : match v.root with
    | .fixed => fs.type = .fat16 ∧ fs.root_sectors = v.geo.rootSectors ∧
        fs.root_lba = u32 (v.start + v.geo.rootStart)
    | .chain _ => fs.type = .fat32 ∧ fs.root_cluster = v.geo.rootCluster

theorem total_lt (b : Mem) : (geometry b).total < 2 ^ 32 := by
  have h16 : (geometry b).total16 < 256 ^ 2 := Mem.readLE_lt _ _ _
  have h32 : (geometry b).total32 < 256 ^ 4 := Mem.readLE_lt _ _ _
  unfold Geometry.total
  split <;> omega

/-- The sectors of a root directory of fixed size; the last one may not be full. -/
def rootSize (g : Geometry) : Nat := (g.rootEntries * 32 + 511) / 512

/-- Where the clusters start, counted from the boot sector. -/
def dataAt (g : Geometry) : Nat := g.rootStart + rootSize g

def clusterCount (g : Geometry) : Nat := (g.total - dataAt g) / g.sectorsPerCluster

/-- The first cluster of a root directory in clusters; a cluster that is none counts as 2. -/
def firstCluster (g : Geometry) : Nat := if g.rootCluster < 2 then 2 else g.rootCluster

/-- The sectors that the driver counts for the clusters, in 32 bits. -/
def dataSectors (g : Geometry) : Nat :=
  sub32 (sub32 (sub32 g.total g.reserved) (g.fats * g.fatSize)) (rootSize g)

/-- What is in the record before the kind of the volume is known. -/
def header (part_lba : Nat) (g : Geometry) : sd_fat_fs_t where
  part_lba
  fat_lba := u32 (part_lba + g.reserved)
  fat_sectors := g.fatSize
  root_entries := g.rootEntries
  root_sectors := rootSize g
  sectors_per_cluster := g.sectorsPerCluster
  first_data_lba := u32 (part_lba + dataAt g)
  root_lba := 0
  root_cluster := 0
  type := .none

theorem mount_header (part_lba : Nat) (bs : Mem) :
    mount_from_boot_sector part_lba bs =
      let g := geometry bs
      if ¬ g.Boots ∨ g.total = 0 ∨ g.fatSize = 0 then none
      else if dataSectors g / g.sectorsPerCluster < 65525 ∧ g.rootEntries ≠ 0 ∧ g.fatSize16 ≠ 0 then
        some { header part_lba g with type := .fat16, root_lba := u32 (part_lba + g.rootStart) }
      else if g.rootEntries = 0 ∧ g.fatSize32 ≠ 0 then
        some { header part_lba g with
          type := .fat32
          root_cluster := firstCluster g
          root_lba := cluster_lba (header part_lba g) (firstCluster g) }
      else none := by
  have hfats : (bs 16).toNat = (geometry bs).fats := (readLE_one bs 16).symm
  have hspc : (bs 13).toNat = (geometry bs).sectorsPerCluster := (readLE_one bs 13).symm
  have hroot : (le16 bs 17 * 32 + 511) / 512 = rootSize (geometry bs) := rfl
  have htotal : (if le16 bs 19 ≠ 0 then le16 bs 19 else le32 bs 32) = (geometry bs).total := rfl
  have hfat : (if le16 bs 22 ≠ 0 then le16 bs 22 else le32 bs 36) = (geometry bs).fatSize := rfl
  have hreserved : le16 bs 14 = (geometry bs).reserved := rfl
  have hstart : part_lba + (geometry bs).reserved + (geometry bs).fats * (geometry bs).fatSize =
      part_lba + (geometry bs).rootStart := Nat.add_assoc _ _ _
  simp only [mount_from_boot_sector, htotal, hfat, hroot, hfats, hspc, hreserved, hstart,
    Nat.add_assoc part_lba]
  by_cases hboots : (geometry bs).Boots
  · have hvalid : (!valid_boot_sector bs) = false := by simp [(valid_boot_sector_iff bs).mpr hboots]
    simp only [hvalid, hboots, not_true, false_or]
    rfl
  · have hvalid : (!valid_boot_sector bs) = true := by
      simp [← Bool.not_eq_true, valid_boot_sector_iff, hboots]
    simp [hvalid, hboots]

theorem dataSectors_of_fits {bs : Mem} (h : dataAt (geometry bs) ≤ (geometry bs).total) :
    dataSectors (geometry bs) = (geometry bs).total - dataAt (geometry bs) := by
  have hlt := total_lt bs
  simp only [dataSectors, dataAt, Geometry.rootStart] at h ⊢
  generalize (geometry bs).fats * (geometry bs).fatSize = fatArea at h ⊢
  have h1 := sub32_of_le (by omega : (geometry bs).reserved ≤ (geometry bs).total) hlt
  have h2 := sub32_of_le (by omega : fatArea ≤ (geometry bs).total - (geometry bs).reserved)
    (by omega)
  rw [h1, h2, sub32_of_le (by omega) (by omega)]
  omega

/-- The same with a root directory that fills its sectors. -/
def mountBase (part_lba : Nat) (g : Geometry) : sd_fat_fs_t where
  part_lba
  fat_lba := u32 (part_lba + g.reserved)
  fat_sectors := g.fatSize
  root_entries := g.rootEntries
  root_sectors := g.rootSectors
  sectors_per_cluster := g.sectorsPerCluster
  first_data_lba := u32 (part_lba + g.dataStart)
  root_lba := 0
  root_cluster := 0
  type := .none

theorem mount_from_boot_sector_eq (part_lba : Nat) {bs : Mem} (h : (geometry bs).Sound) :
    mount_from_boot_sector part_lba bs =
      let g := geometry bs
      let fs := mountBase part_lba g
      if g.clusters < 65525 ∧ g.rootEntries ≠ 0 ∧ g.fatSize16 ≠ 0 then
        some { fs with type := .fat16, root_lba := u32 (part_lba + g.rootStart) }
      else if g.rootEntries = 0 ∧ g.fatSize32 ≠ 0 then
        let root_cluster := if g.rootCluster < 2 then 2 else g.rootCluster
        some { fs with type := .fat32, root_cluster, root_lba := cluster_lba fs root_cluster }
      else none := by
  have hroot : rootSize (geometry bs) = (geometry bs).rootSectors := by
    have hwhole := h.whole
    unfold rootSize Geometry.rootSectors
    omega
  have hdata : dataAt (geometry bs) = (geometry bs).dataStart := congrArg (_ + ·) hroot
  have hcount := dataSectors_of_fits (hdata ▸ h.fits)
  have hguard : ¬ (¬ (geometry bs).Boots ∨ (geometry bs).total = 0 ∨ (geometry bs).fatSize = 0) :=
    not_or.mpr ⟨not_not.mpr h.boots, not_or.mpr ⟨h.nonempty.ne', h.fat.ne'⟩⟩
  rw [mount_header]
  simp only [if_neg hguard, header, hroot, hdata, hcount]
  rfl

theorem mount_boot (v : Volume) :
    ∃ fs, mount_from_boot_sector v.start (v.card v.start) = some fs ∧ Mounted v fs := by
  have hsound := v.sound
  have hrooted := v.rooted
  rw [mount_from_boot_sector_eq _ hsound]
  dsimp only
  cases hroot : v.root with
  | fixed =>
    rw [hroot] at hrooted
    rw [if_pos ⟨hrooted.2.2, hrooted.2.1, hrooted.1⟩]
    refine ⟨_, rfl, rfl, rfl, rfl, ?_⟩
    rw [hroot]
    exact ⟨rfl, rfl, rfl⟩
  | chain cs =>
    rw [hroot] at hrooted
    obtain ⟨hg, hchain⟩ := hrooted
    have hfat : (geometry (v.card v.start)).fatSize32 ≠ 0 := by
      have hpos := hsound.fat
      rw [Geometry.fatSize, if_neg (by simp [hg.fatSize16])] at hpos
      exact hpos.ne'
    have hcluster : 2 ≤ (geometry (v.card v.start)).rootCluster := by
      cases hchain with
      | last hok => exact hok.1
      | link hok => exact hok.1
    rw [if_neg (by simp [hg.rootEntries]), if_pos ⟨hg.rootEntries, hfat⟩,
      if_neg (not_lt.mpr hcluster)]
    refine ⟨_, rfl, rfl, rfl, rfl, ?_⟩
    rw [hroot]
    exact ⟨rfl, rfl⟩

/-- The machine that reads each sector of a card. -/
def Machine.whole (m : Machine) (card : Nat → Mem) : Machine :=
  { m with sdio_init := true, sdio_read_sector := fun lba => some (card lba) }

theorem mount_whole (m : Machine) (v : Volume) :
    ∃ fs, sd_fat_mount (m.whole v.card) = some fs ∧ Mounted v fs := by
  obtain ⟨fs, hfs, hm⟩ := mount_boot v
  refine ⟨fs, ?_, hm⟩
  rcases v.place with h0 | ⟨hpart, hpos, hboots⟩
  · rw [h0] at hfs
    simp [sd_fat_mount, Machine.whole, hfs]
  · have hnone : mount_from_boot_sector 0 (v.card 0) = none := by
      have hvalid : valid_boot_sector (v.card 0) = false := by
        rw [← Bool.not_eq_true, valid_boot_sector_iff]
        exact hboots
      simp [mount_from_boot_sector, hvalid]
    have hlba : le32 (v.card 0) (446 + 8) = v.start := hpart.symm
    simp [sd_fat_mount, Machine.whole, hnone, hlba, hpos.ne', hfs]

/-! ## The walk of a card that reads everywhere -/

theorem u32_u32_add (a b : Nat) : u32 (u32 a + b) = u32 (a + b) := Nat.mod_add_mod _ _ _

theorem cluster_sectors (v : Volume) {fs : sd_fat_fs_t} (hm : Mounted v fs) {c : Nat}
    (hc : v.geo.IsCluster c) (h32 : c < 2 ^ 32) :
    ((List.range fs.sectors_per_cluster).map fun i => u32 (cluster_lba fs c + i)) =
      v.clusterSectors c := by
  rw [Volume.clusterSectors, hm.spc]
  refine List.map_congr_left fun i hi => ?_
  have hi : i < v.geo.sectorsPerCluster := List.mem_range.mp hi
  have hfits : v.geo.dataStart ≤ v.geo.total := v.sound.fits
  have hcard : v.start + v.geo.total ≤ 2 ^ 32 := v.onCard
  have hclusters : v.geo.clusters * v.geo.sectorsPerCluster ≤ v.geo.total - v.geo.dataStart :=
    Nat.div_mul_le_self _ _
  have hlast : (c - 2 + 1) * v.geo.sectorsPerCluster ≤
      v.geo.clusters * v.geo.sectorsPerCluster := by
    refine Nat.mul_le_mul_right _ ?_
    have := hc.1
    have := hc.2
    omega
  rw [Nat.add_mul, Nat.one_mul] at hlast
  rw [cluster_lba, hm.data, hm.spc, sub32_of_le hc.1 h32, u32_u32_add, Nat.add_assoc (u32 _),
    u32_u32_add, Geometry.clusterStart, u32_of_lt (by omega)]
  omega

theorem next_cluster (m : Machine) (v : Volume) {fs : sd_fat_fs_t} (hm : Mounted v fs)
    (hg : v.geo.ChainedRoot) {c : Nat} (hc : v.geo.IsCluster c) :
    fat32_next_cluster (m.whole v.card) fs c = some (fatEntry v.card v.start c) := by
  have hcovered := hg.covered
  have hclusters := hg.clusters
  have hlast := hc.2
  have hfits : v.geo.dataStart ≤ v.geo.total := v.sound.fits
  have hcard : v.start + v.geo.total ≤ 2 ^ 32 := v.onCard
  have hfats : v.geo.fatSize ≤ v.geo.fats * v.geo.fatSize :=
    Nat.le_mul_of_pos_left _ (Nat.pos_of_ne_zero v.sound.boots.2.2.2)
  have hoffset : u32 (c * 4) = 4 * c := by
    rw [u32_of_lt (by omega), Nat.mul_comm]
  have hlba : u32 (u32 (v.start + v.geo.reserved) + 4 * c / 512) =
      v.start + v.geo.reserved + 4 * c / 512 := by
    simp only [Geometry.dataStart, Geometry.rootStart] at hfits
    rw [u32_u32_add, u32_of_lt (by omega)]
  have hoff : 4 * c &&& 511 = 4 * c % 512 := Nat.and_two_pow_sub_one_eq_mod _ 9
  have hmask (n : Nat) : n &&& 0x0FFFFFFF = n % 2 ^ 28 := Nat.and_two_pow_sub_one_eq_mod _ 28
  simp only [fat32_next_cluster, hm.fat, hoffset, hlba, hoff, hmask]
  rfl

theorem list_dir_root_whole (m : Machine) (v : Volume) {fs : sd_fat_fs_t} (hm : Mounted v fs)
    (out_max : Int) (all : Bool) {st : Listing} (hst : st.done = false) :
    list_dir_root (m.whole v.card) fs out_max all st =
      .ok (list_dir_slots (m.whole v.card) out_max all (v.slotsTo 128) st) := by
  have hroot := hm.root
  have hrooted := v.rooted
  rw [list_dir_root, Volume.slotsTo, Volume.rootSectorsTo]
  cases hv : v.root with
  | fixed =>
    rw [hv] at hroot
    have hfits : v.geo.dataStart ≤ v.geo.total := v.sound.fits
    have hcard : v.start + v.geo.total ≤ 2 ^ 32 := v.onCard
    have hlbas : ((List.range fs.root_sectors).map fun i => u32 (fs.root_lba + i)) =
        (List.range v.geo.rootSectors).map fun i => v.start + v.geo.rootStart + i := by
      rw [hroot.2.1]
      refine List.map_congr_left fun i hi => ?_
      have hi : i < v.geo.rootSectors := List.mem_range.mp hi
      rw [Geometry.dataStart] at hfits
      rw [hroot.2.2, u32_u32_add, u32_of_lt (by omega)]
    rw [hroot.1]
    simp only [hlbas]
    exact list_dir_sectors_eq (fun _ _ => rfl) hst
  | chain cs =>
    rw [hv] at hroot hrooted
    have hbound {c : Nat} (hc : v.geo.IsCluster c) : c < 0x0FFFFFF8 := by
      have hlt := hc.2
      have hclusters : v.geo.clusters + 2 ≤ 0x0FFFFFF7 := hrooted.1.clusters
      omega
    rw [hroot.1, hroot.2]
    exact list_dir_chain_eq hrooted.2 (fun c hc => ⟨hc.1, hbound hc⟩)
      (fun c hc => cluster_sectors v hm hc (lt_trans (hbound hc) (by norm_num)))
      (fun _ => rfl) (fun c hc => next_cluster m v hm hrooted.1 hc) 128 hst

theorem entries_eq_append (v : Volume) (n : Nat) : ∃ t, v.entries = v.entriesTo n ++ t := by
  have hslots : ∃ t, v.slotsTo v.rootLength = v.slotsTo n ++ t := by
    simp only [Volume.slotsTo, Volume.rootSectorsTo, Volume.rootLength]
    cases v.root with
    | fixed => exact ⟨[], (List.append_nil _).symm⟩
    | chain cs =>
      refine ⟨((cs.drop n).flatMap v.clusterSectors).flatMap fun lba => slotsOf (v.card lba), ?_⟩
      dsimp only
      rw [List.take_length, ← List.flatMap_append, ← List.flatMap_append, List.take_append_drop]
  obtain ⟨t, ht⟩ := hslots
  rw [Volume.entries, Volume.entriesTo, ht, liveEntries_append]
  exact ⟨_, rfl⟩

theorem listingText_rowOf (m : Machine) {entries : List Slot} (hname : ∀ e ∈ entries, e.Named) :
    listingText (rowOf m false) entries = listingText (rowText false) entries := by
  unfold listingText
  split
  · rfl
  · exact List.flatMap_congr fun e he => row_short_eq m (hname e he)

theorem list_root_whole (m : Machine) (v : Volume) (old : List UInt8) {out_max : Int} (all : Bool)
    (hmax : 0 < out_max) (hname : ∀ e ∈ v.entries, e.Named) :
    sd_fat_list_root (m.whole v.card) old out_max all =
      (0, (listingText (rowOf m all) (v.entriesTo 128)).take (out_max - 1).toNat) := by
  obtain ⟨fs, hfs, hm⟩ := mount_whole m v
  obtain ⟨t, ht⟩ := entries_eq_append v 128
  have hname' : ∀ e ∈ liveEntries (v.slotsTo 128), e.Named := fun e he =>
    hname e (ht ▸ List.mem_append_left _ he)
  rw [sd_fat_list_root, if_neg (not_le.mpr hmax), hfs]
  simp only [@list_dir_root_whole m v _ hm out_max all ⟨[], false, false⟩ rfl,
    list_dir_slots_eq hname']
  rw [listingText, Volume.entriesTo]
  by_cases hnil : liveEntries (v.slotsTo 128) = []
  · simp [hnil, append_str_empty hmax]
  · have hsome : (liveEntries (v.slotsTo 128)).isEmpty = false := by simpa using hnil
    simp only [hsome, if_neg hnil, Bool.not_false, Bool.or_true, if_true, append_str_empty hmax]
    rfl

/-! ## Reads that fail -/

/-- What the machine reads is what is on the card. -/
def Machine.Reads (m : Machine) (card : Nat → Mem) : Prop :=
  ∀ lba s, m.sdio_read_sector lba = some s → s = card lba

section Partial

variable {m : Machine} {card : Nat → Mem} {out_max : Int} {all : Bool} {st st' : Listing}
  {fs : sd_fat_fs_t}

theorem whole_read (h : m.Reads card) {lba : Nat} {s : Mem} (hs : m.sdio_read_sector lba = some s) :
    (m.whole card).sdio_read_sector lba = some s :=
  congrArg some (h lba s hs).symm

theorem mount_of_reads (h : m.Reads card) (hfs : sd_fat_mount m = some fs) :
    sd_fat_mount (m.whole card) = some fs := by
  rw [sd_fat_mount] at hfs ⊢
  cases hinit : m.sdio_init with
  | false => simp [hinit] at hfs
  | true =>
    simp only [hinit, Bool.not_true, Bool.false_eq_true, if_false] at hfs
    obtain ⟨s, hs, hfs⟩ := Option.bind_eq_some_iff.mp hfs
    have hinit' : (m.whole card).sdio_init = true := rfl
    simp only [hinit', whole_read h hs, Bool.not_true, Bool.false_eq_true, if_false]
    refine Option.bind_eq_some_iff.mpr ⟨s, rfl, ?_⟩
    cases hmount : mount_from_boot_sector 0 s with
    | some fs' => simpa [hmount] using hfs
    | none =>
      simp only [hmount] at hfs ⊢
      split at hfs
      · cases hfs
      · next hpart =>
        obtain ⟨s', hs', hfs⟩ := Option.bind_eq_some_iff.mp hfs
        rw [if_neg hpart, whole_read h hs']
        exact hfs

theorem list_dir_slots_whole (slots : List Slot) :
    list_dir_slots (m.whole card) out_max all slots st = list_dir_slots m out_max all slots st := by
  induction slots generalizing st with
  | nil => rfl
  | cons e slots ih =>
    simp only [list_dir_slots, ih]
    rfl

theorem list_dir_sectors_of_reads (h : m.Reads card) {lbas : List Nat}
    (hok : list_dir_sectors m out_max all lbas st = .ok st') :
    list_dir_sectors (m.whole card) out_max all lbas st = .ok st' := by
  induction lbas generalizing st with
  | nil => exact hok
  | cons lba lbas ih =>
    rw [list_dir_sectors] at hok ⊢
    split
    · next hdone => rwa [if_pos hdone] at hok
    · next hdone =>
      rw [if_neg hdone] at hok
      rw [list_dir_sector] at hok ⊢
      cases hs : m.sdio_read_sector lba with
      | none =>
        rw [hs] at hok
        cases hok
      | some s =>
        rw [hs] at hok
        simp only [whole_read h hs, list_dir_slots_whole]
        exact ih hok

theorem next_of_reads (h : m.Reads card) {cluster next : Nat}
    (hnext : fat32_next_cluster m fs cluster = some next) :
    fat32_next_cluster (m.whole card) fs cluster = some next := by
  rw [fat32_next_cluster] at hnext ⊢
  obtain ⟨s, hs, hnext⟩ := Option.bind_eq_some_iff.mp hnext
  exact Option.bind_eq_some_iff.mpr ⟨s, whole_read h hs, hnext⟩

theorem list_dir_chain_of_reads (h : m.Reads card) {guard cluster : Nat}
    (hok : list_dir_chain m fs out_max all guard cluster st = .ok st') :
    list_dir_chain (m.whole card) fs out_max all guard cluster st = .ok st' := by
  induction guard generalizing cluster st with
  | zero => exact hok
  | succ guard ih =>
    rw [list_dir_chain] at hok ⊢
    split
    · next hgo =>
      rw [if_pos hgo] at hok
      dsimp only at hok ⊢
      cases hsectors : list_dir_sectors m out_max all ((List.range fs.sectors_per_cluster).map
          fun i => u32 (cluster_lba fs cluster + i)) st with
      | error st₁ =>
        rw [hsectors] at hok
        cases hok
      | ok st₁ =>
        rw [hsectors] at hok
        rw [list_dir_sectors_of_reads h hsectors]
        change (if _ then _ else _) = _ at hok
        change (if _ then _ else _) = _
        split
        · next hdone => rwa [if_pos hdone] at hok
        · next hdone =>
          rw [if_neg hdone] at hok
          cases hnext : fat32_next_cluster m fs cluster with
          | none =>
            rw [hnext] at hok
            cases hok
          | some c =>
            rw [hnext] at hok
            rw [next_of_reads h hnext]
            exact ih hok
    · next hgo => rwa [if_neg hgo] at hok

theorem list_root_of_reads (h : m.Reads card) {old : List UInt8}
    (h0 : (sd_fat_list_root m old out_max all).1 = 0) :
    sd_fat_list_root (m.whole card) old out_max all = sd_fat_list_root m old out_max all := by
  rw [sd_fat_list_root] at h0 ⊢
  rw [sd_fat_list_root]
  split
  · rfl
  · next hmax =>
    rw [if_neg hmax] at h0
    cases hmount : sd_fat_mount m with
    | none =>
      rw [hmount] at h0
      cases h0
    | some fs =>
      rw [hmount] at h0
      rw [mount_of_reads h hmount]
      dsimp only at h0 ⊢
      cases hroot : list_dir_root m fs out_max all ⟨[], false, false⟩ with
      | error st =>
        rw [hroot] at h0
        cases h0
      | ok st =>
        have hwhole : list_dir_root (m.whole card) fs out_max all ⟨[], false, false⟩ = .ok st := by
          rw [list_dir_root] at hroot ⊢
          split
          · next htype =>
            rw [htype] at hroot
            exact list_dir_sectors_of_reads h hroot
          · next htype =>
            rw [htype] at hroot
            exact list_dir_chain_of_reads h hroot
          · next htype =>
            rw [htype] at hroot
            cases hroot
        rw [hwhole]

end Partial

/-! ## When the listing is right -/

structure NamedVolume extends Volume where
  named : ∀ e ∈ toVolume.entries, e.Named

/-- A call that returns 0 has listed the root directory, and one with a buffer that is large
enough and a card that reads everywhere returns 0. -/
def ListsRoot (v : Volume) (out_max : Int) (all : Bool) : Prop :=
  (∀ (m : Machine) (old : List UInt8), m.Reads v.card →
    (sd_fat_list_root m old out_max all).1 = 0 →
    (sd_fat_list_root m old out_max all).2 = listing v all) ∧
  ((listing v all).length < out_max → ∀ (m : Machine) (old : List UInt8),
    sd_fat_list_root (m.whole v.card) old out_max all = (0, listing v all))

theorem head_listingText {row : Slot → List UInt8} (entries : List Slot) (hne : entries ≠ [])
    (hrow : ∀ e, row e ≠ []) : ∃ e, (listingText row entries).head? = (row e).head? := by
  obtain ⟨e, es, rfl⟩ := List.exists_cons_of_ne_nil hne
  refine ⟨e, ?_⟩
  obtain ⟨c, t, hct⟩ := List.exists_cons_of_ne_nil (hrow e)
  simp [listingText, hct]

theorem head_rowText (all : Bool) (e : Slot) : (rowText all e).head? ≠ some 40 := by
  have hflag (bit : UInt8) (no : Char) (hno : no.toUInt8 ≠ 40) : flag e bit 'd' no ≠ 40 := by
    unfold flag
    split
    · decide
    · exact hno
  intro h40
  cases all with
  | false =>
    have hfirst : (rowText false e).head? = some (flag e 0x10 'd' 'f') := rfl
    exact hflag 0x10 'f' (by decide) (Option.some.inj (hfirst.symm.trans h40))
  | true =>
    have hfirst : (rowText true e).head? = some (flag e 0x10 'd' '-') := rfl
    exact hflag 0x10 '-' (by decide) (Option.some.inj (hfirst.symm.trans h40))

theorem empty_ne_listing {entries : List Slot} {all : Bool} {n : Nat} (hne : entries ≠ []) :
    (ascii "(empty)\n").take n ≠ listingText (rowText all) entries := by
  intro heq
  obtain ⟨e, he⟩ := head_listingText entries hne (rowText_ne_nil all)
  rw [← heq] at he
  have hempty : ascii "(empty)\n" = [40, 101, 109, 112, 116, 121, 41, 10] := by decide
  rw [hempty] at he
  cases n with
  | zero => exact rowText_ne_nil all e (List.head?_eq_none_iff.mp he.symm)
  | succ n => exact head_rowText all e he.symm

theorem rows_all_ne_listing (m : Machine) {e : Slot} {es es' : List Slot} {n : Nat} :
    ((e :: es).flatMap (rowOf m true)).take n ≠ (e :: es').flatMap (rowText true) := by
  intro heq
  obtain ⟨t, ht⟩ := row_all_percent m e
  obtain ⟨c, d, hcd, hc⟩ := field10_head e.size
  have hfive : ((e :: es').flatMap (rowText true))[5]? = some c := by
    rw [List.flatMap_cons, rowText, hcd]
    rfl
  have hrow : ((e :: es).flatMap (rowOf m true))[5]? = some 37 := by
    have hrowOf : rowOf m true e = row_all m e e.shortName := rfl
    rw [List.flatMap_cons, hrowOf, ht]
    rfl
  rw [← heq, List.getElem?_take] at hfive
  split at hfive
  · exact hc (Option.some.inj (hfive.symm.trans hrow))
  · cases hfive

theorem eq_nil_of_flatMap_take {row : Slot → List UInt8} {es t : List Slot} {n : Nat}
    (hrow : ∀ e, row e ≠ []) (heq : (es.flatMap row).take n = (es ++ t).flatMap row) : t = [] := by
  have hlen := congrArg List.length heq
  rw [List.flatMap_append, List.length_append, List.length_take] at hlen
  have hnil : t.flatMap row = [] := List.length_eq_zero_iff.mp (by omega)
  cases t with
  | nil => rfl
  | cons e t =>
    rw [List.flatMap_cons, List.append_eq_nil_iff] at hnil
    exact absurd hnil.1 (hrow e)

/-- The driver lists the root directory if and only if the listing fits into the buffer, no
long rows are needed, and no live entry is behind the 128th cluster. -/
theorem lists_root_iff (v : NamedVolume) (out_max : Int) (all : Bool) :
    ListsRoot v.toVolume out_max all ↔ out_max ≤ 0 ∨
      (listing v.toVolume all).length < out_max ∧ (all = true → v.entries = []) ∧
        v.entriesTo 128 = v.entries := by
  have hrun (m : Machine) (old : List UInt8) (hmax : 0 < out_max) :=
    list_root_whole m v.toVolume old all hmax v.named
  obtain ⟨t, ht⟩ := entries_eq_append v.toVolume 128
  constructor
  · rintro ⟨hlists, -⟩
    refine or_iff_not_imp_left.mpr fun hmax => ?_
    let m : Machine := ⟨true, fun _ => none, fun _ => [], 1, by decide, by decide⟩
    have heq := hlists (m.whole v.card) [] (fun _ _ hs => (Option.some.inj hs).symm)
      (by rw [hrun m [] (not_le.mp hmax)])
    rw [hrun m [] (not_le.mp hmax)] at heq
    dsimp only at heq
    have hlen : (listing v.toVolume all).length < out_max := by
      rw [← heq, List.length_take]
      omega
    refine ⟨hlen, ?_⟩
    rw [listing] at heq
    by_cases hnil : v.entries = []
    · rw [hnil] at ht ⊢
      exact ⟨fun _ => rfl, (List.append_eq_nil_iff.mp ht.symm).1⟩
    · cases hfirst : v.entriesTo 128 with
      | nil =>
        rw [hfirst] at heq
        exact absurd heq (empty_ne_listing hnil)
      | cons e es =>
        have htext (row : Slot → List UInt8) : listingText row v.entries = v.entries.flatMap row :=
          if_neg hnil
        have htext' (row : Slot → List UInt8) : listingText row (e :: es) = (e :: es).flatMap row :=
          if_neg (List.cons_ne_nil e es)
        rw [hfirst, htext, htext', ht, hfirst] at heq
        cases all with
        | true => exact absurd heq (rows_all_ne_listing m)
        | false =>
          have hshort : (e :: es).flatMap (rowOf m false) = (e :: es).flatMap (rowText false) :=
            List.flatMap_congr fun d hd => row_short_eq m
              (v.named d (ht ▸ List.mem_append_left _ (hfirst ▸ hd)))
          rw [hshort] at heq
          refine ⟨fun h => absurd h (by decide), ?_⟩
          rw [ht, hfirst, eq_nil_of_flatMap_take (rowText_ne_nil false) heq, List.append_nil]
  · rintro (hmax | ⟨hlen, hlong, hfirst⟩)
    · have hret (m : Machine) (old : List UInt8) : (sd_fat_list_root m old out_max all).1 = -1 := by
        rw [sd_fat_list_root, if_pos hmax]
      refine ⟨fun m old _ h0 => ?_, fun hlen => ?_⟩
      · rw [hret] at h0
        cases h0
      · omega
    · have hmax : 0 < out_max := by omega
      have hwhole (m : Machine) (old : List UInt8) :
          sd_fat_list_root (m.whole v.card) old out_max all = (0, listing v.toVolume all) := by
        have htext : listingText (rowOf m all) v.entries = listing v.toVolume all := by
          cases all with
          | false => exact listingText_rowOf m v.named
          | true => rw [listing, hlong rfl, listingText, listingText, if_pos rfl, if_pos rfl]
        rw [hrun m old hmax, hfirst, htext, List.take_of_length_le (by omega)]
      refine ⟨fun m old hm h0 => ?_, fun _ => hwhole⟩
      rw [← list_root_of_reads hm h0, hwhole]

/-- A small card: a sector for the boot sector, sixteen for the FAT, one for the root directory with
the empty file `A`, and 4085 clusters of one sector. -/
def sampleCard (lba : Nat) : Mem := fun x =>
  if lba = 0 then
    ([(12, 2), (13, 1), (14, 1), (16, 1), (17, 16), (19, 7), (20, 0x10), (22, 16),
      (510, 0x55), (511, 0xAA)].lookup x).getD 0
  else if lba = 17 then
    if x = 0 then 65 else if x < 11 then 32 else 0
  else 0

def sampleVolume : NamedVolume where
  card := sampleCard
  start := 0
  root := .fixed
  place := Or.inl rfl
  sound := ⟨by decide, by decide, by decide, by decide,
    by decide⟩
  onCard := by decide
  rooted := ⟨by decide, by decide, by decide⟩
  named := by decide

/-- The long listing of one file names no file. -/
theorem long_listing_names_no_file :
    (listing sampleVolume.toVolume true).length < 2048 ∧
      ¬ ListsRoot sampleVolume.toVolume 2048 true := by
  refine ⟨by decide, fun h => ?_⟩
  let m : Machine := ⟨true, fun lba => some (sampleCard lba), fun _ => [], 1, by decide, by decide⟩
  have hreads : m.Reads sampleCard := fun _ _ hs => (Option.some.inj hs).symm
  have hrun : sd_fat_list_root m [] 2048 true = (0, ascii "-w-- %10u (null)\n") := by
    decide
  have hlisting : listing sampleVolume.toVolume true = ascii "-w--          0 A\n" := by
    decide
  have heq := h.1 m [] hreads (by rw [hrun])
  rw [hrun, hlisting] at heq
  exact absurd heq (by decide)

end vibeos.sd
