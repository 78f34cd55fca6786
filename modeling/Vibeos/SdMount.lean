-- Which volumes the driver of the SD card mounts. Its arithmetic on the fields of a boot
-- sector is in 32 bits, and a header that does not fit its own volume may come through.
import Vibeos.SdRoot

namespace vibeos.sd

open Fat

/-! ## What a boot sector says -/

/-- The driver has the volume as its header says: the areas fit, they are where the header
puts them, and the number of clusters is one of the kind of the volume. -/
structure Consistent (g : Geometry) (fs : sd_fat_fs_t) : Prop where
  fits : g.reserved + g.fats * g.fatSize + rootSize g ≤ g.total
  fat : fs.fat_lba = fs.part_lba + g.reserved ∧ fs.fat_sectors = g.fatSize
  data : fs.first_data_lba = fs.part_lba + dataAt g
  root : fs.type = .fat16 →
    fs.root_lba = fs.part_lba + g.rootStart ∧ fs.root_sectors = rootSize g
  rootCluster : fs.type = .fat32 →
    2 ≤ fs.root_cluster ∧ fs.root_cluster < clusterCount g + 2 ∧
      fs.root_lba = fs.part_lba + dataAt g + (fs.root_cluster - 2) * g.sectorsPerCluster
  type : fs.type = .fat16 ∧ 4085 ≤ clusterCount g ∧ clusterCount g < 65525 ∨
    fs.type = .fat32 ∧ 65525 ≤ clusterCount g

theorem Consistent.in_order {g : Geometry} {fs : sd_fat_fs_t} (h : Consistent g fs)
    (h16 : fs.type = .fat16) :
    fs.part_lba ≤ fs.fat_lba ∧ fs.fat_lba + g.fats * fs.fat_sectors ≤ fs.root_lba ∧
      fs.root_lba + fs.root_sectors ≤ fs.first_data_lba ∧
      fs.first_data_lba + clusterCount g * g.sectorsPerCluster ≤ fs.part_lba + g.total := by
  obtain ⟨hlba, hsectors⟩ := h.root h16
  have hfits := h.fits
  have hclusters : clusterCount g * g.sectorsPerCluster ≤ g.total - dataAt g :=
    Nat.div_mul_le_self _ _
  rw [h.fat.1, h.fat.2, hlba, hsectors, h.data]
  simp only [dataAt, Geometry.rootStart] at hclusters ⊢
  omega

/-! ## Which headers are taken -/

/-- A header that the driver takes for one of FAT16. -/
def Fixed (g : Geometry) : Prop :=
  g.rootEntries ≠ 0 ∧ g.fatSize16 ≠ 0 ∧ dataAt g ≤ g.total ∧ clusterCount g < 65525

/-- A header that the driver takes for one of FAT32. -/
def Chained (g : Geometry) : Prop := g.rootEntries = 0 ∧ g.fatSize32 ≠ 0

def Taken (g : Geometry) : Prop :=
  g.Boots ∧ g.total ≠ 0 ∧ g.fatSize ≠ 0 ∧ (Fixed g ∨ Chained g)

instance (g : Geometry) : Decidable (Fixed g) := inferInstanceAs (Decidable (_ ∧ _))

instance (g : Geometry) : Decidable (Chained g) := inferInstanceAs (Decidable (_ ∧ _))

instance (g : Geometry) : Decidable (Taken g) := inferInstanceAs (Decidable (_ ∧ _))

/-- What a header that is taken has to say. -/
structure Right (start : Nat) (g : Geometry) : Prop where
  fixed : Fixed g → 4085 ≤ clusterCount g ∧ start + dataAt g < 2 ^ 32
  chained : Chained g → dataAt g ≤ g.total ∧ 65525 ≤ clusterCount g ∧
    firstCluster g < clusterCount g + 2 ∧
    start + dataAt g + (firstCluster g - 2) * g.sectorsPerCluster < 2 ^ 32

/-! ## The arithmetic -/

theorem geometry_lt (bs : Mem) :
    (geometry bs).reserved < 2 ^ 16 ∧ (geometry bs).fats < 2 ^ 8 ∧
      (geometry bs).rootEntries < 2 ^ 16 ∧ (geometry bs).fatSize16 < 2 ^ 16 ∧
      (geometry bs).sectorsPerCluster < 2 ^ 8 :=
  ⟨Mem.readLE_lt _ _ 2, Mem.readLE_lt _ _ 1, Mem.readLE_lt _ _ 2, Mem.readLE_lt _ _ 2,
    Mem.readLE_lt _ _ 1⟩

theorem dataSectors_wraps {bs : Mem} (h16 : (geometry bs).fatSize16 ≠ 0)
    (h : (geometry bs).total < dataAt (geometry bs)) :
    2 ^ 32 - 2 ^ 25 ≤ dataSectors (geometry bs) := by
  obtain ⟨hreserved, hfats, hentries, hsize, _⟩ := geometry_lt bs
  have hlt := total_lt bs
  have hfat : (geometry bs).fatSize = (geometry bs).fatSize16 := if_pos h16
  have harea : (geometry bs).fats * (geometry bs).fatSize ≤ 2 ^ 8 * 2 ^ 16 := by
    rw [hfat]
    exact Nat.mul_le_mul (by omega) (by omega)
  have hroot : rootSize (geometry bs) ≤ 2 ^ 12 := by
    unfold rootSize
    omega
  simp only [dataSectors, dataAt, Geometry.rootStart] at h ⊢
  generalize (geometry bs).fats * (geometry bs).fatSize = fatArea at h harea ⊢
  unfold sub32 u32
  omega

theorem fixed_iff {bs : Mem} (hspc : (geometry bs).sectorsPerCluster ≠ 0) :
    dataSectors (geometry bs) / (geometry bs).sectorsPerCluster < 65525 ∧
      (geometry bs).rootEntries ≠ 0 ∧ (geometry bs).fatSize16 ≠ 0 ↔ Fixed (geometry bs) := by
  unfold Fixed
  by_cases hfits : dataAt (geometry bs) ≤ (geometry bs).total
  · rw [dataSectors_of_fits hfits, clusterCount]
    tauto
  · refine ⟨fun ⟨hcount, _, h16⟩ => absurd hcount ?_, fun h => absurd h.2.2.1 hfits⟩
    have hwraps := dataSectors_wraps h16 (by omega)
    have hlt := (geometry_lt bs).2.2.2.2
    rw [not_lt, Nat.le_div_iff_mul_le (by omega)]
    have hmul : 65525 * (geometry bs).sectorsPerCluster ≤ 65525 * 2 ^ 8 :=
      Nat.mul_le_mul_left _ (by omega)
    omega

theorem mount_cases (part_lba : Nat) (bs : Mem) :
    mount_from_boot_sector part_lba bs =
      let g := geometry bs
      if ¬ g.Boots ∨ g.total = 0 ∨ g.fatSize = 0 then none
      else if Fixed g then
        some { header part_lba g with type := .fat16, root_lba := u32 (part_lba + g.rootStart) }
      else if Chained g then
        some { header part_lba g with
          type := .fat32
          root_cluster := firstCluster g
          root_lba := cluster_lba (header part_lba g) (firstCluster g) }
      else none := by
  rw [mount_header]
  dsimp only
  by_cases hno : ¬ (geometry bs).Boots ∨ (geometry bs).total = 0 ∨ (geometry bs).fatSize = 0
  · rw [if_pos hno, if_pos hno]
  · have hspc : (geometry bs).sectorsPerCluster ≠ 0 := (not_not.mp (not_or.mp hno).1).2.2.1
    simp only [if_neg hno, fixed_iff hspc]
    rfl

theorem mount_isSome_iff {part_lba : Nat} {bs : Mem} :
    (mount_from_boot_sector part_lba bs).isSome ↔ Taken (geometry bs) := by
  rw [mount_cases]
  unfold Taken
  dsimp only
  split
  · simp
    tauto
  · split
    · simp
      tauto
    · split
      · simp
        tauto
      · simp
        tauto

/-! ## When a mount is consistent -/

theorem u32_eq_self {n : Nat} : u32 n = n ↔ n < 2 ^ 32 :=
  ⟨fun h => h ▸ Nat.mod_lt _ (by decide), u32_of_lt⟩

theorem fixed_consistent {start : Nat} {g : Geometry} (h : Fixed g) :
    Consistent g { header start g with type := .fat16, root_lba := u32 (start + g.rootStart) } ↔
      4085 ≤ clusterCount g ∧ start + dataAt g < 2 ^ 32 := by
  constructor
  · intro hc
    refine ⟨?_, u32_eq_self.mp hc.data⟩
    rcases hc.type with ⟨_, hcount, _⟩ | ⟨htype, _⟩
    · exact hcount
    · cases htype
  · rintro ⟨hcount, hlt⟩
    have hroot : g.reserved ≤ g.rootStart ∧ g.rootStart ≤ dataAt g :=
      ⟨Nat.le_add_right _ _, Nat.le_add_right _ _⟩
    exact {
      fits := h.2.2.1
      fat := ⟨u32_of_lt (by omega), rfl⟩
      data := u32_of_lt hlt
      root := fun _ => ⟨u32_of_lt (by omega), rfl⟩
      rootCluster := fun htype => by cases htype
      type := Or.inl ⟨rfl, hcount, h.2.2.2⟩ }

theorem chained_consistent {start : Nat} {g : Geometry} (h32 : g.rootCluster < 2 ^ 32) :
    Consistent g { header start g with
      type := .fat32
      root_cluster := firstCluster g
      root_lba := cluster_lba (header start g) (firstCluster g) } ↔
    dataAt g ≤ g.total ∧ 65525 ≤ clusterCount g ∧ firstCluster g < clusterCount g + 2 ∧
      start + dataAt g + (firstCluster g - 2) * g.sectorsPerCluster < 2 ^ 32 := by
  have hfirst : 2 ≤ firstCluster g ∧ firstCluster g < 2 ^ 32 := by
    unfold firstCluster
    split <;> omega
  have hlba : cluster_lba (header start g) (firstCluster g) =
      u32 (start + dataAt g + (firstCluster g - 2) * g.sectorsPerCluster) := by
    rw [cluster_lba, sub32_of_le hfirst.1 hfirst.2]
    exact u32_u32_add _ _
  rw [hlba]
  constructor
  · intro hc
    obtain ⟨_, hcluster, hroot⟩ := hc.rootCluster rfl
    refine ⟨hc.fits, ?_, hcluster, ?_⟩
    · rcases hc.type with ⟨htype, _⟩ | ⟨_, hcount⟩
      · cases htype
      · exact hcount
    · have hdata : u32 (start + dataAt g) = start + dataAt g := hc.data
      rw [← u32_eq_self]
      exact hroot
  · rintro ⟨hfits, hcount, hcluster, hlt⟩
    have hroot : g.reserved ≤ dataAt g :=
      (Nat.le_add_right _ _).trans (Nat.le_add_right _ _)
    exact {
      fits := hfits
      fat := ⟨u32_of_lt (by omega), rfl⟩
      data := u32_of_lt (by omega)
      root := fun htype => by cases htype
      rootCluster := fun _ => ⟨hfirst.1, hcluster, u32_of_lt hlt⟩
      type := Or.inr ⟨rfl, hcount⟩ }

theorem mount_from_boot_sector_iff (start : Nat) (bs : Mem) :
    (∀ fs, mount_from_boot_sector start bs = some fs → Consistent (geometry bs) fs) ↔
      (Taken (geometry bs) → Right start (geometry bs)) := by
  have h32 : (geometry bs).rootCluster < 2 ^ 32 := Mem.readLE_lt _ _ 4
  have hexcl : Fixed (geometry bs) → ¬ Chained (geometry bs) := fun hf hc => hf.1 hc.1
  rw [← mount_isSome_iff, mount_cases]
  dsimp only
  split
  · simp
  split
  · rename_i hfixed
    simp only [Option.some.injEq, forall_eq', Option.isSome_some, true_imp_iff,
      fixed_consistent hfixed]
    exact ⟨fun h => ⟨fun _ => h, fun hc => absurd hc (hexcl hfixed)⟩, fun h => h.fixed hfixed⟩
  split
  · rename_i hfixed hchained
    simp only [Option.some.injEq, forall_eq', Option.isSome_some, true_imp_iff,
      chained_consistent h32]
    exact ⟨fun h => ⟨fun hf => absurd hf hfixed, fun _ => h⟩, fun h => h.chained hchained⟩
  · simp

theorem mount_part_lba {start : Nat} {bs : Mem} {fs : sd_fat_fs_t}
    (h : mount_from_boot_sector start bs = some fs) : fs.part_lba = start := by
  rw [mount_cases] at h
  dsimp only at h
  split at h
  · cases h
  split at h
  · cases h
    rfl
  split at h
  · cases h
    rfl
  · cases h

/-! ## The mount of a card -/

/-- The record fits the boot sector of its partition. -/
def FitsCard (m : Machine) (fs : sd_fat_fs_t) : Prop :=
  ∃ bs, m.sdio_read_sector fs.part_lba = some bs ∧ Consistent (geometry bs) fs

theorem fits_card_iff {m : Machine} {start : Nat} {bs : Mem}
    (hread : m.sdio_read_sector start = some bs) :
    (∀ fs, mount_from_boot_sector start bs = some fs → FitsCard m fs) ↔
      (Taken (geometry bs) → Right start (geometry bs)) := by
  rw [← mount_from_boot_sector_iff]
  refine forall_congr' fun fs => forall_congr' fun hfs => ?_
  unfold FitsCard
  rw [mount_part_lba hfs, hread]
  simp

/-- The boot sector that the driver takes is right: sector 0, or else the first sector of the
first partition. -/
def RightCard (m : Machine) : Prop :=
  m.sdio_init = true → ∀ s, m.sdio_read_sector 0 = some s →
    (Taken (geometry s) → Right 0 (geometry s)) ∧
    (¬ Taken (geometry s) → le32 s (446 + 8) ≠ 0 →
      ∀ bs, m.sdio_read_sector (le32 s (446 + 8)) = some bs →
        Taken (geometry bs) → Right (le32 s (446 + 8)) (geometry bs))

/-- Each mount that succeeds is consistent with the boot sector of its partition, exactly when
the boot sector that is taken is right. -/
theorem mount_sound_iff (m : Machine) :
    (∀ fs, sd_fat_mount m = some fs → FitsCard m fs) ↔ RightCard m := by
  unfold sd_fat_mount RightCard
  cases m.sdio_init with
  | false => simp
  | true =>
    cases hread : m.sdio_read_sector 0 with
    | none => simp
    | some s =>
      simp only [Bool.not_true, Bool.false_eq_true, if_false, Option.bind_eq_bind,
        Option.bind_some, true_imp_iff, Option.some.injEq, forall_eq']
      by_cases htaken : Taken (geometry s)
      · -- sector 0 is the boot sector
        obtain ⟨fs, hfs⟩ := Option.isSome_iff_exists.mp (mount_isSome_iff.mpr htaken)
        have hiff := fits_card_iff hread
        rw [hfs] at hiff ⊢
        simpa [htaken] using hiff
      · have hnone : mount_from_boot_sector 0 s = none := by
          rw [← Option.not_isSome_iff_eq_none, mount_isSome_iff]
          exact htaken
        simp only [hnone, htaken, false_imp_iff, not_false_iff, true_and, true_imp_iff]
        by_cases hpart : le32 s (446 + 8) = 0
        · simp [hpart]
        · cases hread' : m.sdio_read_sector (le32 s (446 + 8)) with
          | none => simp
          | some bs => simpa [hpart] using fits_card_iff hread'

/-- The boot sector of a floppy disk of 1.44 MB, with 2847 clusters. -/
def floppy : Mem := fun x =>
  ([(12, 2), (13, 1), (14, 1), (16, 2), (17, 224), (19, 64), (20, 11), (22, 9), (510, 0x55),
    (511, 0xAA)].lookup x).getD 0

/-- A volume of FAT12 is mounted, for one of FAT16. -/
theorem floppy_mounted : ¬ ∀ m : Machine, ∀ fs, sd_fat_mount m = some fs → FitsCard m fs := by
  intro h
  let m : Machine := ⟨true, fun _ => some floppy, fun _ => [], 1, by decide, by decide⟩
  have htaken : Taken (geometry floppy) := by decide
  have hcount : clusterCount (geometry floppy) = 2847 := by decide
  have hright := (@fits_card_iff m 0 _ rfl).mp (fun fs hfs => h m fs ?_) htaken
  · have := (hright.fixed (by decide)).1
    omega
  · simp [sd_fat_mount, m, hfs]

end vibeos.sd
