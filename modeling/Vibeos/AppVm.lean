-- The page tables of an application: after app_vm_reset the application region is mapped to
-- itself, and user mode reaches no other address.
import Vibeos.ElfLoad
import Vibeos.Loops
import Vibeos.Sv32

namespace vibeos.app_runtime

open Mem Sv32

/-- Where the linker put the tables: whole pages of the address space, and no page twice. -/
class AppTables where
  app_root_pt : Nat
  app_l2_pt : Nat
  root_aligned : 4096 ∣ app_root_pt
  l2_aligned : 4096 ∣ app_l2_pt
  root_fits : app_root_pt + 4096 ≤ 2 ^ 32
  l2_fits : app_l2_pt + 4 * 4096 ≤ 2 ^ 32
  apart : app_root_pt + 4096 ≤ app_l2_pt ∨ app_l2_pt + 4 * 4096 ≤ app_root_pt

/-- Tables in the second megabyte of the RAM. -/
@[reducible]
def sampleTables : AppTables where
  app_root_pt := 0x80100000
  app_l2_pt := 0x80101000
  root_aligned := by decide
  l2_aligned := by decide
  root_fits := by decide
  l2_fits := by decide
  apart := by decide

/-- What os.ld provides for the region. It ends where the RAM ends. -/
structure Linked [AppConfig] : Prop where
  start_aligned : 2 ^ 22 ∣ APP_START
  end_aligned : 4096 ∣ APP_END
  start_le : APP_START ≤ APP_END
  size_le : APP_END ≤ APP_START + 16777216

/-! ## app_runtime.c -/

def PGSIZE : BitVec 32 := 4096
def PTE_V : BitVec 32 := 1 <<< 0
def PTE_R : BitVec 32 := 1 <<< 1
def PTE_W : BitVec 32 := 1 <<< 2
def PTE_X : BitVec 32 := 1 <<< 3
def PTE_U : BitVec 32 := 1 <<< 4
def PTE_A : BitVec 32 := 1 <<< 6
def PTE_D : BitVec 32 := 1 <<< 7
def SATP_MODE_SV32 : BitVec 32 := 1 <<< 31

structure VmLoop where
  mem : Mem
  app_pa : BitVec 32
  app_page : BitVec 32

section

variable [AppConfig] [AppTables]

open AppTables

/-- `app_root_pt[root_idx] = pte`, if a chunk of 4 MiB starts at `app_pa`. -/
def set_root (m : Mem) (app_pa chunk : BitVec 32) : Mem :=
  let root_idx := (app_pa >>> 22) &&& 0x3ff
  let l2_pa := BitVec.ofNat 32 (app_l2_pt + 4096 * chunk.toNat)
  if app_pa &&& 0x3fffff = 0 then
    writeLE m (app_root_pt + 4 * root_idx.toNat) 4 (((l2_pa >>> 12) <<< 10) ||| PTE_V).toNat
  else m

def app_vm_turn (s : VmLoop) : VmLoop ⊕ Mem :=
  if s.app_pa < BitVec.ofNat 32 APP_END then
    let l2_idx := (s.app_pa >>> 12) &&& 0x3ff
    let chunk := s.app_page >>> 10
    let m := set_root s.mem s.app_pa chunk
    let m := writeLE m (app_l2_pt + 4096 * chunk.toNat + 4 * l2_idx.toNat) 4
      (((s.app_pa >>> 12) <<< 10) ||| PTE_V ||| PTE_R ||| PTE_W ||| PTE_X ||| PTE_U ||| PTE_A |||
        PTE_D).toNat
    let app_page := s.app_page + 1
    if 4 * 1024 ≤ app_page.toNat then .inr m else .inl ⟨m, s.app_pa + PGSIZE, app_page⟩
  else .inr s.mem

/-- The memory with the tables, and the new `loaded_app_satp`. -/
def app_vm_reset (m : Mem) : Option (Mem × BitVec 32) :=
  let m := fill m app_root_pt 0 4096
  let m := fill m app_l2_pt 0 (4 * 4096)
  (runFor app_vm_turn 4096 ⟨m, BitVec.ofNat 32 APP_START, 0⟩).map fun m =>
    (m, SATP_MODE_SV32 ||| (BitVec.ofNat 32 app_root_pt >>> 12))

/-! ## Words -/

omit [AppConfig] [AppTables] in
theorem toNat_entry (v bits : BitVec 32) (h : bits.toNat < 1024) :
    (((v >>> 12) <<< 10) ||| bits).toNat = entryOf (v.toNat / 4096) bits.toNat := by
  have hshift : ((v >>> 12) <<< 10).toNat = (v.toNat / 4096) <<< 10 := by
    rw [BitVec.toNat_shiftLeft, BitVec.toNat_ushiftRight, Nat.shiftRight_eq_div_pow,
      Nat.shiftLeft_eq]
    omega
  rw [BitVec.toNat_or, hshift, ← Nat.shiftLeft_add_eq_or_of_lt h, Nat.shiftLeft_eq]
  rfl

omit [AppConfig] [AppTables] in
theorem toNat_leaf (v : BitVec 32) :
    (((v >>> 12) <<< 10) ||| PTE_V ||| PTE_R ||| PTE_W ||| PTE_X ||| PTE_U ||| PTE_A |||
      PTE_D).toNat = userLeaf (v.toNat / 4096) := by
  have hbits : ((v >>> 12) <<< 10) ||| PTE_V ||| PTE_R ||| PTE_W ||| PTE_X ||| PTE_U ||| PTE_A |||
      PTE_D = ((v >>> 12) <<< 10) ||| 0xDF#32 := by
    simp only [BitVec.or_assoc]
    rfl
  rw [hbits]
  exact toNat_entry v 0xDF#32 (by decide)

omit [AppConfig] [AppTables] in
theorem toNat_index (v : BitVec 32) (s : Nat) :
    ((v >>> s) &&& 0x3ff).toNat = v.toNat / 2 ^ s % 1024 := by
  rw [BitVec.toNat_and, BitVec.toNat_ushiftRight, Nat.shiftRight_eq_div_pow]
  exact Nat.and_two_pow_sub_one_eq_mod _ 10

omit [AppConfig] [AppTables] in
theorem chunk_start_iff (v : BitVec 32) : v &&& 0x3fffff = 0 ↔ v.toNat % 2 ^ 22 = 0 := by
  rw [← BitVec.toNat_inj, BitVec.toNat_and]
  exact iff_of_eq (congrArg (· = 0) (Nat.and_two_pow_sub_one_eq_mod v.toNat 22))

/-! ## The tables -/

/-- The number of pages in the region, and of the first chunk. -/
def pages : Nat := (APP_END - APP_START) / 4096
def firstChunk : Nat := APP_START / 2 ^ 22

/-- The tables with the first `n` pages of the region. -/
structure Tables (n : Nat) (m : Mem) : Prop where
  root : ∀ i < 1024, readLE m (app_root_pt + 4 * i) 4 =
    if firstChunk ≤ i ∧ (i - firstChunk) * 1024 < n then
      pointer (app_l2_pt / 4096 + (i - firstChunk))
    else 0
  l2 : ∀ q < 4096, readLE m (app_l2_pt + 4 * q) 4 =
    if q < n then userLeaf (APP_START / 4096 + q) else 0

omit [AppConfig] [AppTables] in
theorem readLE_fill {m : Mem} {a n b : Nat} (h : a ≤ b ∧ b + 4 ≤ a + n) :
    readLE (fill m a 0 n) b 4 = 0 := by
  have hbyte : ∀ i < 4, fill m a 0 n (b + i) = 0 := fun i hi => patch_in (by omega) (by omega)
  have h0 := hbyte 0 (by decide)
  have h1 := hbyte 1 (by decide)
  have h2 := hbyte 2 (by decide)
  have h3 := hbyte 3 (by decide)
  simp [readLE, h1, h2, h3, show fill m a 0 n b = 0 from h0]

theorem tables_zero (m : Mem) :
    Tables 0 (fill (fill m app_root_pt 0 4096) app_l2_pt 0 (4 * 4096)) where
  root i hi := by
    have happart := AppTables.apart
    rw [if_neg (by omega)]
    change readLE (patch _ app_l2_pt (4 * 4096) _) _ 4 = 0
    rw [readLE_patch_out (by omega)]
    exact readLE_fill ⟨by omega, by omega⟩
  l2 q hq := by
    rw [if_neg (Nat.not_lt_zero q)]
    exact readLE_fill ⟨by omega, by omega⟩

/-! ## One turn -/

omit [AppConfig] [AppTables] in
theorem readLE_write_word (m : Mem) (a : Nat) (v : BitVec 32) :
    readLE (writeLE m a 4 v.toNat) a 4 = v.toNat :=
  readLE_writeLE_of_lt v.isLt

variable {m : Mem} {n : Nat} {pa page : BitVec 32}

theorem Tables.set_root (hlink : Linked) (h : Tables n m) (hn : n < 4096)
    (hpa : pa.toNat = APP_START + 4096 * n) (hpage : page.toNat = n) :
    (∀ i < 1024, readLE (set_root m pa (page >>> 10)) (app_root_pt + 4 * i) 4 =
      if firstChunk ≤ i ∧ (i - firstChunk) * 1024 < n + 1 then
        pointer (app_l2_pt / 4096 + (i - firstChunk))
      else 0) ∧
    ∀ q < 4096, readLE (set_root m pa (page >>> 10)) (app_l2_pt + 4 * q) 4 =
      readLE m (app_l2_pt + 4 * q) 4 := by
  have hstart := hlink.start_aligned
  have happart := AppTables.apart
  have hfits := AppTables.l2_fits
  have haligned := AppTables.l2_aligned
  have hlt := pa.isLt
  have hchunk : (page >>> 10).toNat = n / 1024 := by
    rw [BitVec.toNat_ushiftRight, hpage, Nat.shiftRight_eq_div_pow]
  have hidx : ((pa >>> 22) &&& 0x3ff).toNat = firstChunk + n / 1024 := by
    rw [toNat_index, hpa, firstChunk]
    omega
  have hl2 : (BitVec.ofNat 32 (app_l2_pt + 4096 * (n / 1024))).toNat =
      app_l2_pt + 4096 * (n / 1024) := by
    rw [BitVec.toNat_ofNat]
    omega
  have hpage_number : (app_l2_pt + 4096 * (n / 1024)) / 4096 = app_l2_pt / 4096 + n / 1024 := by
    omega
  by_cases hfirst : n % 1024 = 0
  · have hnew : app_runtime.set_root m pa (page >>> 10) =
        writeLE m (app_root_pt + 4 * (firstChunk + n / 1024)) 4
          (((BitVec.ofNat 32 (app_l2_pt + 4096 * (n / 1024)) >>> 12) <<< 10) ||| PTE_V).toNat := by
      unfold app_runtime.set_root
      dsimp only
      rw [if_pos ((chunk_start_iff pa).mpr (by omega)), hidx, hchunk]
    rw [hnew]
    constructor
    · intro i hi
      by_cases hthis : i = firstChunk + n / 1024
      · rw [hthis, readLE_write_word, toNat_entry _ _ (by decide), hl2, hpage_number,
          if_pos (by omega), Nat.add_sub_cancel_left]
        rfl
      · rw [readLE_writeLE_out (by omega), h.root i hi]
        refine if_congr ?_ rfl rfl
        omega
    · intro q hq
      unfold firstChunk at hidx ⊢
      exact readLE_writeLE_out (by omega)
  · have hsame : app_runtime.set_root m pa (page >>> 10) = m := by
      unfold app_runtime.set_root
      exact if_neg fun h0 => hfirst (by have := (chunk_start_iff pa).mp h0; omega)
    rw [hsame]
    refine ⟨fun i hi => ?_, fun q _ => rfl⟩
    rw [h.root i hi]
    refine if_congr ?_ rfl rfl
    omega

theorem Tables.next (hlink : Linked) (h : Tables n m) (hn : n < 4096)
    (hpa : pa.toNat = APP_START + 4096 * n) (hpage : page.toNat = n) :
    Tables (n + 1) (writeLE (app_runtime.set_root m pa (page >>> 10))
      (app_l2_pt + 4096 * (page >>> 10).toNat + 4 * ((pa >>> 12) &&& 0x3ff).toNat) 4
      (((pa >>> 12) <<< 10) ||| PTE_V ||| PTE_R ||| PTE_W ||| PTE_X ||| PTE_U ||| PTE_A |||
        PTE_D).toNat) := by
  have hstart := hlink.start_aligned
  have happart := AppTables.apart
  have hplace : app_l2_pt + 4096 * (page >>> 10).toNat + 4 * ((pa >>> 12) &&& 0x3ff).toNat =
      app_l2_pt + 4 * n := by
    rw [toNat_index, BitVec.toNat_ushiftRight, hpage, hpa, Nat.shiftRight_eq_div_pow]
    omega
  obtain ⟨hroot, hl2⟩ := h.set_root hlink hn hpa hpage
  rw [hplace]
  constructor
  · intro i hi
    rw [readLE_writeLE_out (by omega), hroot i hi]
  · intro q hq
    by_cases hthis : q = n
    · rw [hthis, readLE_write_word, toNat_leaf, hpa, if_pos (Nat.lt_succ_self n)]
      congr 1
      omega
    · rw [readLE_writeLE_out (by omega), hl2 q hq, h.l2 q hq]
      refine if_congr ?_ rfl rfl
      omega

/-! ## The loop -/

structure VmLoop.At (n : Nat) (s : VmLoop) : Prop where
  tables : Tables n s.mem
  app_pa : s.app_pa.toNat = APP_START + 4096 * n
  app_page : s.app_page.toNat = n

theorem VmLoop.At.more_iff (hlink : Linked) {s : VmLoop} (h : s.At n) :
    s.app_pa < BitVec.ofNat 32 APP_END ↔ n < pages := by
  have hstart := hlink.start_aligned
  have hend := hlink.end_aligned
  have hfits := AppConfig.fits
  rw [BitVec.lt_def, h.app_pa, BitVec.toNat_ofNat, pages]
  omega

theorem app_vm_loop_ends (hlink : Linked) {s : VmLoop} {rounds : Nat} (h : s.At n)
    (hn : n + rounds = 4096) (hrounds : 0 < rounds) (hle : n ≤ pages) :
    ∃ m', runFor app_vm_turn rounds s = some m' ∧ Tables pages m' := by
  have hsize := hlink.size_le
  have hpages : pages ≤ 4096 := by
    unfold pages
    omega
  induction rounds generalizing n s with
  | zero => exact absurd hrounds (Nat.lt_irrefl 0)
  | succ rounds ih =>
    unfold runFor app_vm_turn
    by_cases hmore : s.app_pa < BitVec.ofNat 32 APP_END
    · have hlt := (h.more_iff hlink).mp hmore
      have hnext := h.tables.next hlink (by omega) h.app_pa h.app_page
      have hpage : (s.app_page + 1).toNat = n + 1 := by
        rw [BitVec.toNat_add, h.app_page]
        change (n + 1) % 2 ^ 32 = n + 1
        omega
      rw [if_pos hmore]
      dsimp only
      by_cases hlast : 4 * 1024 ≤ (s.app_page + 1).toNat
      · rw [if_pos hlast]
        have hall : n + 1 = pages := by omega
        exact ⟨_, rfl, hall ▸ hnext⟩
      · rw [if_neg hlast]
        have hpa : (s.app_pa + PGSIZE).toNat = APP_START + 4096 * (n + 1) := by
          have hpgsize : PGSIZE.toNat = 4096 := rfl
          have hfits := AppConfig.fits
          have hend := hlink.end_aligned
          have hstart := hlink.start_aligned
          rw [BitVec.toNat_add, h.app_pa, hpgsize]
          unfold pages at hlt
          omega
        exact ih ⟨hnext, hpa, hpage⟩ (by omega) (by omega) hlt
    · rw [if_neg hmore]
      have hall : n = pages := by
        have := mt (h.more_iff hlink).mpr hmore
        omega
      exact ⟨_, rfl, hall ▸ h.tables⟩

/-! ## The walk of the tables -/

/-- What `app_vm_reset` leaves in `loaded_app_satp`. -/
def satpOf : BitVec 32 := SATP_MODE_SV32 ||| (BitVec.ofNat 32 app_root_pt >>> 12)

omit [AppConfig] in
theorem toNat_satpOf : satpOf.toNat = 2 ^ 31 + app_root_pt / 4096 := by
  have hfits := AppTables.root_fits
  have hmode : SATP_MODE_SV32.toNat = 1 <<< 31 := rfl
  rw [satpOf, BitVec.toNat_or, BitVec.toNat_ushiftRight, BitVec.toNat_ofNat,
    Nat.shiftRight_eq_div_pow, hmode, ← Nat.shiftLeft_add_eq_or_of_lt (by omega),
    Nat.shiftLeft_eq]
  omega

omit [AppConfig] in
theorem satpOf_mode : satpOf.toNat.testBit 31 = true := by
  have hfits := AppTables.root_fits
  rw [toNat_satpOf, Nat.testBit_two_pow_add_eq, Nat.testBit_lt_two_pow (by omega)]
  rfl

omit [AppConfig] in
theorem satpOf_ppn : satpOf.toNat % 2 ^ 22 = app_root_pt / 4096 := by
  have hfits := AppTables.root_fits
  rw [toNat_satpOf]
  omega

theorem Tables.root_entry (h : Tables n m) (va : BitVec 32) :
    entry m va.toNat 1 (app_root_pt / 4096) =
      if firstChunk ≤ va.toNat / 2 ^ 22 ∧ (va.toNat / 2 ^ 22 - firstChunk) * 1024 < n then
        pointer (app_l2_pt / 4096 + (va.toNat / 2 ^ 22 - firstChunk))
      else 0 := by
  have hlt := va.isLt
  have haligned := AppTables.root_aligned
  have hidx : vpn va.toNat 1 = va.toNat / 2 ^ 22 := by
    unfold vpn
    omega
  rw [entry, hidx, Nat.div_mul_cancel haligned]
  exact h.root _ (by omega)

theorem Tables.l2_entry (h : Tables n m) (va : BitVec 32) {c : Nat} (hc : c < 4) :
    entry m va.toNat 0 (app_l2_pt / 4096 + c) =
      if c * 1024 + va.toNat / 4096 % 1024 < n then
        userLeaf (APP_START / 4096 + (c * 1024 + va.toNat / 4096 % 1024))
      else 0 := by
  have haligned := AppTables.l2_aligned
  have hidx : vpn va.toNat 0 = va.toNat / 4096 % 1024 := by
    rw [vpn, Nat.pow_zero, Nat.div_one]
  have hplace : (app_l2_pt / 4096 + c) * 4096 + 4 * (va.toNat / 4096 % 1024) =
      app_l2_pt + 4 * (c * 1024 + va.toNat / 4096 % 1024) := by
    omega
  rw [entry, hidx, hplace]
  exact h.l2 _ (by omega)

theorem Tables.walk_eq (hlink : Linked) (h : Tables pages m) (va : BitVec 32) :
    walk m va.toNat 1 (app_root_pt / 4096) =
      if APP_START ≤ va.toNat ∧ va.toNat < APP_END then some (0, userLeaf (va.toNat / 4096))
      else none := by
  have hstart := hlink.start_aligned
  have hend := hlink.end_aligned
  have hsize := hlink.size_le
  have hchunk : firstChunk * 2 ^ 22 = APP_START := Nat.div_mul_cancel hstart
  have hpages : pages * 4096 = APP_END - APP_START :=
    Nat.div_mul_cancel (Nat.dvd_sub hend (dvd_trans (by decide) hstart))
  have hroot := h.root_entry va
  by_cases hin : firstChunk ≤ va.toNat / 2 ^ 22 ∧
      (va.toNat / 2 ^ 22 - firstChunk) * 1024 < pages
  · have hleaf := h.l2_entry va (c := va.toNat / 2 ^ 22 - firstChunk) (by omega)
    rw [if_pos hin] at hroot
    rw [walk_of_pointer hroot]
    by_cases hpage : (va.toNat / 2 ^ 22 - firstChunk) * 1024 + va.toNat / 4096 % 1024 < pages
    · have hnumber : APP_START / 4096 + ((va.toNat / 2 ^ 22 - firstChunk) * 1024 +
          va.toNat / 4096 % 1024) = va.toNat / 4096 := by
        omega
      rw [if_pos hpage, hnumber] at hleaf
      rw [walk_of_userLeaf hleaf, if_pos (by omega)]
    · rw [if_neg hpage] at hleaf
      rw [walk_of_zero hleaf, if_neg (by omega)]
  · rw [if_neg hin] at hroot
    rw [walk_of_zero hroot, if_neg (by omega)]

/-- After `app_vm_reset` an access in user mode reaches the address itself in the region, and
nothing outside of it. -/
theorem app_vm_identity (hlink : Linked) (m : Mem) :
    ∃ m' satp, app_vm_reset m = some (m', satp) ∧ ∀ (va : BitVec 32) (access : Access),
      translate m' satp.toNat va.toNat access =
        if APP_START ≤ va.toNat ∧ va.toNat < APP_END then some va.toNat else none := by
  have hfirst : VmLoop.At 0 ⟨fill (fill m app_root_pt 0 4096) app_l2_pt 0 (4 * 4096),
      BitVec.ofNat 32 APP_START, 0⟩ := by
    refine ⟨tables_zero m, ?_, rfl⟩
    exact Nat.mod_eq_of_lt (lt_of_le_of_lt hlink.start_le AppConfig.fits)
  obtain ⟨m', hrun, htables⟩ := app_vm_loop_ends hlink hfirst (Nat.zero_add 4096)
    (Nat.succ_pos _) (Nat.zero_le _)
  refine ⟨m', satpOf, by rw [app_vm_reset, hrun]; rfl, fun va access => ?_⟩
  have hwalk := htables.walk_eq hlink va
  rw [← satpOf_ppn] at hwalk
  by_cases hin : APP_START ≤ va.toNat ∧ va.toNat < APP_END
  · rw [if_pos hin] at hwalk ⊢
    rw [translate_of_userLeaf satpOf_mode hwalk, Nat.div_add_mod']
  · rw [if_neg hin] at hwalk ⊢
    exact translate_of_walk_none satpOf_mode hwalk access

end

section

attribute [local instance] qemuApps sampleTables

/-- The tables of the emulated board. -/
theorem app_vm_identity_qemu : Linked ∧
    ∃ m' satp, app_vm_reset (fun _ => 0xAA) = some (m', satp) ∧
      ∀ (va : BitVec 32) (access : Access), translate m' satp.toNat va.toNat access =
        if APP_START ≤ va.toNat ∧ va.toNat < APP_END then some va.toNat else none :=
  have hlink : Linked := ⟨by decide, by decide, by decide, by decide⟩
  ⟨hlink, app_vm_identity hlink _⟩

end

end vibeos.app_runtime
