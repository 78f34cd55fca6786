-- The FAT format on a card of 512-byte sectors: the fields of a boot sector, the chain of
-- clusters of a root directory, and the entries that a directory holds.
import Vibeos.ByteMem
import Mathlib.Data.List.DropRight
import Mathlib.Tactic.Common

namespace vibeos.Fat

/-! ## Directory entries -/

/-- The 32 bytes of one place of a directory. -/
abbrev Slot := Nat → UInt8

namespace Slot

def attr (e : Slot) : UInt8 := e 11

def IsEnd (e : Slot) : Prop := e 0 = 0x00

/-- A short-name entry that is not deleted. A volume label has the attribute bit 3, and
the parts of a long name have it too. -/
def Live (e : Slot) : Prop := e 0 ≠ 0xE5 ∧ e.attr &&& 0x08 = 0

instance (e : Slot) : Decidable e.IsEnd := inferInstanceAs (Decidable (e 0 = 0x00))
instance (e : Slot) : Decidable e.Live :=
  inferInstanceAs (Decidable (e 0 ≠ 0xE5 ∧ e.attr &&& 0x08 = 0))

/-- A field of the name, without the blanks that fill it up. -/
def unpadded (field : List UInt8) : List UInt8 := field.rdropWhile (· == 32)

def base (e : Slot) : List UInt8 := unpadded ((List.range 8).map e)

def extension (e : Slot) : List UInt8 := unpadded ((List.range 3).map fun i => e (8 + i))

/-- The name and, if there is one, the extension behind a dot. -/
def shortName (e : Slot) : List UInt8 :=
  e.base ++ if e.extension = [] then [] else 46 :: e.extension

def size (e : Slot) : Nat := Mem.readLE e 28 4

/-- A name does not start with a blank and has no zero byte. -/
def Named (e : Slot) : Prop := e 0 ≠ 32 ∧ ∀ i < 11, e i ≠ 0

instance (e : Slot) : Decidable e.Named :=
  inferInstanceAs (Decidable (e 0 ≠ 32 ∧ ∀ i < 11, e i ≠ 0))

end Slot

/-- The live entries of a directory, up to the first end marker. -/
def liveEntries (slots : List Slot) : List Slot :=
  (slots.takeWhile fun e => !decide e.IsEnd).filter fun e => e.Live

def slotsOf (sector : Mem) : List Slot := (List.range 16).map fun i j => sector (32 * i + j)

theorem liveEntries_append (a b : List Slot) : liveEntries (a ++ b) =
    liveEntries a ++ if ∃ e ∈ a, e.IsEnd then [] else liveEntries b := by
  induction a with
  | nil => simp [liveEntries]
  | cons e a ih =>
    by_cases he : e.IsEnd
    · simp [liveEntries, he]
    · have hcons (l : List Slot) : liveEntries (e :: l) =
          (if e.Live then [e] else []) ++ liveEntries l := by
        by_cases hl : e.Live <;> simp [liveEntries, he, hl]
      have hex : (∃ d ∈ e :: a, d.IsEnd) ↔ ∃ d ∈ a, d.IsEnd := by simp [he]
      rw [List.cons_append, hcons, hcons, ih, List.append_assoc, if_congr hex rfl rfl]

/-! ## Boot sectors -/

/-- The fields of a boot sector that say where things are. -/
structure Geometry where
  signature : Nat
  bytesPerSector : Nat
  sectorsPerCluster : Nat
  reserved : Nat
  fats : Nat
  rootEntries : Nat
  total16 : Nat
  fatSize16 : Nat
  total32 : Nat
  fatSize32 : Nat
  flags : Nat
  rootCluster : Nat

def geometry (boot : Mem) : Geometry where
  signature := boot.readLE 510 2
  bytesPerSector := boot.readLE 11 2
  sectorsPerCluster := boot.readLE 13 1
  reserved := boot.readLE 14 2
  fats := boot.readLE 16 1
  rootEntries := boot.readLE 17 2
  total16 := boot.readLE 19 2
  fatSize16 := boot.readLE 22 2
  total32 := boot.readLE 32 4
  fatSize32 := boot.readLE 36 4
  flags := boot.readLE 40 2
  rootCluster := boot.readLE 44 4

namespace Geometry

/-- A sector that starts a volume of 512-byte sectors has these fields. -/
def Boots (g : Geometry) : Prop :=
  g.signature = 0xAA55 ∧ g.bytesPerSector = 512 ∧ g.sectorsPerCluster ≠ 0 ∧ g.fats ≠ 0

instance (g : Geometry) : Decidable g.Boots :=
  inferInstanceAs (Decidable (_ ∧ _ ∧ _ ∧ _))

def total (g : Geometry) : Nat := if g.total16 ≠ 0 then g.total16 else g.total32

def fatSize (g : Geometry) : Nat := if g.fatSize16 ≠ 0 then g.fatSize16 else g.fatSize32

/-- The sectors of a root directory of fixed size. -/
def rootSectors (g : Geometry) : Nat := g.rootEntries / 16

/-- Where the FATs end, counted from the boot sector. -/
def rootStart (g : Geometry) : Nat := g.reserved + g.fats * g.fatSize

def dataStart (g : Geometry) : Nat := g.rootStart + g.rootSectors

def clusters (g : Geometry) : Nat := (g.total - g.dataStart) / g.sectorsPerCluster

/-- The first sector of a cluster; the clusters are numbered from 2 on. -/
def clusterStart (g : Geometry) (c : Nat) : Nat := g.dataStart + (c - 2) * g.sectorsPerCluster

def IsCluster (g : Geometry) (c : Nat) : Prop := 2 ≤ c ∧ c < g.clusters + 2

/-- What a boot sector of either kind says. -/
structure Sound (g : Geometry) : Prop where
  boots : g.Boots
  whole : g.rootEntries % 16 = 0
  fits : g.dataStart ≤ g.total
  nonempty : 0 < g.total
  fat : 0 < g.fatSize

/-- A root directory of fixed size, as FAT16 has it. -/
def FixedRoot (g : Geometry) : Prop := g.fatSize16 ≠ 0 ∧ g.rootEntries ≠ 0 ∧ g.clusters < 65525

/-- A root directory in clusters, as FAT32 has it. The FAT has an entry for each cluster,
and the first FAT is in use: all are kept alike, or it is the active one. -/
structure ChainedRoot (g : Geometry) : Prop where
  fatSize16 : g.fatSize16 = 0
  rootEntries : g.rootEntries = 0
  clusters : g.clusters + 2 ≤ 0x0FFFFFF7
  covered : 4 * (g.clusters + 2) ≤ 512 * g.fatSize
  first : g.flags / 128 % 2 = 0 ∨ g.flags % 16 = 0

end Geometry

/-! ## Volumes -/

/-- The 28 bits that the first FAT has for a cluster. -/
def fatEntry (card : Nat → Mem) (start : Nat) (c : Nat) : Nat :=
  let g := geometry (card start)
  (card (start + g.reserved + 4 * c / 512)).readLE (4 * c % 512) 4 % 2 ^ 28

/-- The clusters from `c` on, to the one whose entry marks the end of the chain. -/
inductive Chain (next : Nat → Nat) (ok : Nat → Prop) : Nat → List Nat → Prop
  | last {c : Nat} : ok c → 0x0FFFFFF8 ≤ next c → Chain next ok c [c]
  | link {c : Nat} {cs : List Nat} : ok c → Chain next ok (next c) cs → Chain next ok c (c :: cs)

inductive Root where
  | fixed
  | chain (cs : List Nat)

/-- The first partition of a card with a partition table. -/
def firstPartition (mbr : Mem) : Nat := mbr.readLE 454 4

/-- A FAT volume on a card: it is the whole card, or the first partition of one whose
sector 0 starts no volume. -/
structure Volume where
  card : Nat → Mem
  start : Nat
  root : Root
  place : start = 0 ∨
    start = firstPartition (card 0) ∧ 0 < start ∧ ¬ (geometry (card 0)).Boots
  sound : (geometry (card start)).Sound
  onCard : start + (geometry (card start)).total ≤ 2 ^ 32
  rooted : match root with
    | .fixed => (geometry (card start)).FixedRoot
    | .chain cs => (geometry (card start)).ChainedRoot ∧
        Chain (fatEntry card start) (geometry (card start)).IsCluster
          (geometry (card start)).rootCluster cs

namespace Volume

variable (v : Volume)

def geo : Geometry := geometry (v.card v.start)

def clusterSectors (c : Nat) : List Nat :=
  (List.range v.geo.sectorsPerCluster).map fun i => v.start + v.geo.clusterStart c + i

/-- The sectors of the root directory, in order; of a chain those of the first `n` clusters. -/
def rootSectorsTo (n : Nat) : List Nat :=
  match v.root with
  | .fixed => (List.range v.geo.rootSectors).map fun i => v.start + v.geo.rootStart + i
  | .chain cs => (cs.take n).flatMap v.clusterSectors

def slotsTo (n : Nat) : List Slot := (v.rootSectorsTo n).flatMap fun lba => slotsOf (v.card lba)

/-- The number of clusters of the root directory; one of fixed size has none. -/
def rootLength : Nat :=
  match v.root with
  | .fixed => 0
  | .chain cs => cs.length

/-- The live entries that the root directory has in its first `n` clusters. -/
def entriesTo (n : Nat) : List Slot := liveEntries (v.slotsTo n)

def entries : List Slot := v.entriesTo v.rootLength

end Volume

end vibeos.Fat
