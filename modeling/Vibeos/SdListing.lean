-- The listing of the root directory of an SD card. The driver walks the first 128 clusters,
-- and what it prints is compared with the entries that the volume has.
import Vibeos.FatVolume
import Vibeos.SdFat

namespace vibeos.sd

open Fat
open fs (cstr cstr_eq_self)
open wget (ascii)
open lib (snprintf format format_end format_plain format_char format_string format_width)

/-! ## The listing as it should be -/

def flag (e : Slot) (bit : UInt8) (yes no : Char) : UInt8 :=
  (if e.attr &&& bit ≠ 0 then yes else no).toUInt8

def field10 (n : Nat) : List UInt8 :=
  let digits := lib.print_unsigned n 10 false
  List.replicate (10 - digits.length) 32 ++ digits

/-- The row that the format string of the driver asks for. -/
def rowText (all : Bool) (e : Slot) : List UInt8 :=
  (if all then
    [flag e 0x10 'd' '-', flag e 0x01 'r' 'w', flag e 0x02 'h' '-', flag e 0x04 's' '-', 32] ++
      field10 e.size
  else [flag e 0x10 'd' 'f']) ++ [32] ++ e.shortName ++ [10]

def listingText (row : Slot → List UInt8) (entries : List Slot) : List UInt8 :=
  if entries = [] then ascii "(empty)\n" else entries.flatMap row

/-- The text that lists the root directory of a volume. -/
def listing (v : Volume) (all : Bool) : List UInt8 := listingText (rowText all) v.entries

/-! ## Names and rows -/

theorem name_end_eq (e : Slot) (lo n : Nat) :
    lo ≤ name_end e lo n ∧ name_end e lo n ≤ lo + n ∧
      (List.range (name_end e lo n - lo)).map (fun i => e (lo + i)) =
        Slot.unpadded ((List.range n).map fun i => e (lo + i)) := by
  induction n with
  | zero => simp [name_end, Slot.unpadded]
  | succ n ih =>
    obtain ⟨hlo, hhi, hmap⟩ := ih
    rw [name_end, List.range_succ, List.map_append, List.map_singleton, Slot.unpadded]
    by_cases hblank : e (lo + n) = 32
    · rw [if_pos hblank, List.rdropWhile_concat_pos _ _ _ (by simpa using hblank)]
      exact ⟨hlo, by omega, hmap⟩
    · rw [if_neg hblank, List.rdropWhile_concat_neg _ _ _ (by simpa using hblank)]
      refine ⟨by omega, by omega, ?_⟩
      rw [show lo + n + 1 - lo = n + 1 by omega, List.range_succ, List.map_append,
        List.map_singleton]

theorem length_unpadded_le (l : List UInt8) : (Slot.unpadded l).length ≤ l.length :=
  (List.rdropWhile_prefix _ l).length_le

theorem format_83_name_eq (e : Slot) : format_83_name e 16 = e.shortName := by
  obtain ⟨_, hbase_le, hbase⟩ := name_end_eq e 0 8
  obtain ⟨hext_ge, hext_le, hext⟩ := name_end_eq e 8 3
  have hbase' : (List.range (name_end e 0 8)).map e = e.base := by
    simpa [Slot.base] using hbase
  have hlen : e.base.length ≤ 8 := by
    simpa [Slot.base] using length_unpadded_le ((List.range 8).map e)
  have hextlen : e.extension.length = name_end e 8 3 - 8 := by
    rw [Slot.extension, ← hext, List.length_map, List.length_range]
  have hnil : e.extension = [] ↔ ¬ 8 < name_end e 8 3 := by
    rw [← List.length_eq_zero_iff, hextlen]
    omega
  have htake : e.base.take (16 - 1) = e.base := List.take_of_length_le (by omega)
  have htail : ((List.range (name_end e 8 3 - 8)).map fun i => e (8 + i)) = e.extension := hext
  rw [format_83_name, hbase', htake, htail, Slot.shortName]
  by_cases hnone : e.extension = []
  · rw [if_neg (fun h => hnil.mp hnone h.1), hnone]
    simp
  · rw [if_pos ⟨not_not.mp (mt hnil.mpr hnone), by omega⟩, if_neg hnone, List.take_of_length_le]
    · simp
    · simp only [List.length_append, List.length_singleton]
      omega

theorem nul_not_mem_unpadded {l : List UInt8} (h : 0 ∉ l) : 0 ∉ Slot.unpadded l :=
  fun hmem => h ((List.rdropWhile_prefix _ l).subset hmem)

theorem nul_not_mem_shortName {e : Slot} (h : e.Named) : 0 ∉ e.shortName := by
  have hbase : 0 ∉ e.base := nul_not_mem_unpadded fun hmem => by
    obtain ⟨i, hi, h0⟩ := List.mem_map.mp hmem
    exact h.2 i (by have := List.mem_range.mp hi; omega) h0
  have hext : 0 ∉ e.extension := nul_not_mem_unpadded fun hmem => by
    obtain ⟨i, hi, h0⟩ := List.mem_map.mp hmem
    exact h.2 (8 + i) (by have := List.mem_range.mp hi; omega) h0
  rw [Slot.shortName]
  split <;> simp [hbase, hext]

theorem headD_shortName {e : Slot} (h : e.Named) : e.shortName.headD 0 ≠ 0 := by
  have hne : e.shortName ≠ [] := by
    intro hnil
    rw [Slot.shortName, List.append_eq_nil_iff, Slot.base, Slot.unpadded,
      List.rdropWhile_eq_nil_iff] at hnil
    exact h.1 (by simpa using hnil.1 (e 0) (List.mem_map_of_mem (List.mem_range.mpr (by decide))))
  intro h0
  obtain ⟨c, t, hct⟩ := List.exists_cons_of_ne_nil hne
  rw [hct] at h0
  exact nul_not_mem_shortName h (by rw [hct, ← h0]; simp)

/-- The row that the driver makes of an entry. -/
def rowOf (m : Machine) (all : Bool) (e : Slot) : List UInt8 :=
  if all then row_all m e e.shortName else row_short m e e.shortName

theorem length_shortName_le (e : Slot) : e.shortName.length ≤ 12 := by
  have hbase : e.base.length ≤ 8 := by
    simpa [Slot.base] using length_unpadded_le ((List.range 8).map e)
  have hext : e.extension.length ≤ 3 := by
    simpa [Slot.extension] using length_unpadded_le ((List.range 3).map fun i => e (8 + i))
  rw [Slot.shortName]
  split <;> simp only [List.length_append, List.length_cons, List.length_nil] <;> omega

theorem row_short_eq (m : Machine) {e : Slot} (h : e.Named) :
    row_short m e e.shortName = rowText false e := by
  have hname : cstr e.shortName = e.shortName := cstr_eq_self (nul_not_mem_shortName h)
  have hfmt : ascii "%c %s\n" ++ [0] = [37, 99, 32, 37, 115, 10, 0] := by decide
  have htext : rowText false e = flag e 0x10 'd' 'f' :: 32 :: (e.shortName ++ [10]) := by
    simp [rowText]
  have hflag : flag e 0x10 'd' 'f' ≠ 0 := by
    unfold flag
    split <;> decide
  have hchar : UInt8.ofNat (if e 11 &&& 0x10 ≠ 0 then 'd' else 'f').toNat =
      flag e 0x10 'd' 'f' := rfl
  have hlen := length_shortName_le e
  rw [row_short, snprintf, hfmt, format_char, format_plain (by decide) (by decide),
    format_string m.name_buf_pos.ne' m.name_buf_lt, format_plain (by decide) (by decide),
    format_end, hchar, if_pos rfl, hname, ← htext, List.take_of_length_le]
  · rw [cstr_eq_self]
    simpa [htext, hflag.symm] using nul_not_mem_shortName h
  · simp only [htext, List.length_cons, List.length_append, List.length_nil]
    omega

theorem rowText_ne_nil (all : Bool) (e : Slot) : rowText all e ≠ [] := by
  simp [rowText]

theorem flag_ne_zero {e : Slot} {bit : UInt8} {yes no : Char} (hy : yes.toUInt8 ≠ 0)
    (hn : no.toUInt8 ≠ 0) : flag e bit yes no ≠ 0 := by
  unfold flag
  split
  · exact hy
  · exact hn

theorem cstr_take_cons {c : UInt8} {l : List UInt8} {n : Nat} (h : c ≠ 0) :
    cstr ((c :: l).take (n + 1)) = c :: cstr (l.take n) := by
  rw [List.take_succ_cons, cstr, List.takeWhile_cons_of_pos (by simpa using h), cstr]

theorem row_all_percent (m : Machine) (e : Slot) :
    ∃ t, row_all m e e.shortName = flag e 0x10 'd' '-' :: flag e 0x01 'r' 'w' ::
      flag e 0x02 'h' '-' :: flag e 0x04 's' '-' :: 32 :: 37 :: t := by
  have hfmt : ascii "%c%c%c%c %10u %s\n" ++ [0] = [37, 99, 37, 99, 37, 99, 37, 99, 32, 37, 49, 48,
    117, 32, 37, 115, 10, 0] := by decide
  have hchar (bit : UInt8) (yes no : Char) :
      UInt8.ofNat (if e 11 &&& bit ≠ 0 then yes else no).toNat = flag e bit yes no := rfl
  rw [row_all, snprintf, hfmt, format_char, format_char, format_char, format_char,
    format_plain (by decide) (by decide), format_width, hchar, hchar, hchar, hchar]
  generalize 49 :: format _ _ _ _ = rest
  refine ⟨cstr (rest.take 89), ?_⟩
  rw [show 96 - 1 = 89 + 6 from rfl, cstr_take_cons (flag_ne_zero (by decide) (by decide)),
    cstr_take_cons (flag_ne_zero (by decide) (by decide)),
    cstr_take_cons (flag_ne_zero (by decide) (by decide)),
    cstr_take_cons (flag_ne_zero (by decide) (by decide)), cstr_take_cons (by decide),
    cstr_take_cons (by decide)]

theorem field10_head (n : Nat) : ∃ c t, field10 n = c :: t ∧ c ≠ 37 := by
  have hne : field10 n ≠ [] := by simp [field10, lib.print_unsigned_ne_nil]
  obtain ⟨c, t, hct⟩ := List.exists_cons_of_ne_nil hne
  refine ⟨c, t, hct, ?_⟩
  have hmem : c ∈ field10 n := hct ▸ List.mem_cons_self
  rintro rfl
  rcases List.mem_append.mp hmem with hpad | hdigit
  · exact absurd (List.eq_of_mem_replicate hpad) (by decide)
  · exact absurd (lib.print_unsigned_decimal hdigit).1 (by decide)

/-! ## What a walk prints -/

section Walk

variable {m : Machine} {out_max : Int} {all : Bool} {st : Listing} {fs : sd_fat_fs_t}

@[simp]
theorem append_str_nil (out : List UInt8) (out_max : Int) : append_str out out_max [] = out := by
  simp [append_str]

theorem append_str_append (out a b : List UInt8) (out_max : Int) :
    append_str (append_str out out_max a) out_max b = append_str out out_max (a ++ b) := by
  by_cases h : out_max ≤ 0
  · simp [append_str, h]
  · simp only [append_str, if_neg h]
    rw [List.append_assoc, List.take_append, List.length_append, List.length_take]
    congr 3
    omega

theorem append_str_empty (h : 0 < out_max) (s : List UInt8) :
    append_str [] out_max s = s.take (out_max - 1).toNat := by
  simp [append_str, if_neg (not_le.mpr h)]

theorem append_dir_entry_eq {e : Slot} (hend : ¬ e.IsEnd) (hname : e.Live → e.Named) :
    append_dir_entry m e out_max all st =
      if e.Live then { st with out := append_str st.out out_max (rowOf m all e), printed := true }
      else st := by
  have hend0 : e 0 ≠ 0x00 := hend
  rw [append_dir_entry, format_83_name_eq]
  by_cases hlive : e.Live
  · have hattr : ¬ (e 11 = 0x0F ∨ e 11 &&& 0x08 ≠ 0) := by
      rintro (h | h)
      · exact absurd hlive.2 (by rw [Slot.attr, h]; decide)
      · exact h hlive.2
    rw [if_pos hlive, if_neg (not_or.mpr ⟨hend0, hlive.1⟩)]
    simp only [if_neg hattr, if_neg (headD_shortName (hname hlive)), rowOf]
  · rw [if_neg hlive]
    by_cases hdel : e 0 = 0xE5
    · rw [if_pos (Or.inr hdel)]
    · have hattr : e 11 &&& 0x08 ≠ 0 := fun h => hlive ⟨hdel, h⟩
      rw [if_neg (not_or.mpr ⟨hend0, hdel⟩)]
      simp only [if_pos (Or.inr hattr : e 11 = 0x0F ∨ e 11 &&& 0x08 ≠ 0)]

theorem append_dir_entry_done (e : Slot) :
    (append_dir_entry m e out_max all st).done = st.done := by
  simp only [append_dir_entry]
  split
  · rfl
  · split
    · rfl
    · split <;> rfl

theorem list_dir_slots_eq {slots : List Slot} (hname : ∀ e ∈ liveEntries slots, e.Named) :
    list_dir_slots m out_max all slots st = {
      out := append_str st.out out_max ((liveEntries slots).flatMap (rowOf m all))
      printed := st.printed || !(liveEntries slots).isEmpty
      done := st.done || slots.any fun e => e.IsEnd } := by
  induction slots generalizing st with
  | nil => simp [list_dir_slots, liveEntries]
  | cons e slots ih =>
    by_cases hend : e.IsEnd
    · have hend0 : e 0 = 0x00 := hend
      rw [list_dir_slots, if_pos hend0]
      simp [liveEntries, hend]
    · have hlive : liveEntries (e :: slots) = (if e.Live then [e] else []) ++ liveEntries slots := by
        by_cases h : e.Live <;> simp [liveEntries, hend, h]
      have hend0 : ¬ e 0 = 0x00 := hend
      rw [hlive] at hname
      rw [list_dir_slots, if_neg hend0, append_dir_entry_eq hend, ih, hlive]
      · by_cases h : e.Live <;> simp [h, hend, append_str_append]
      · exact fun d hd => hname d (List.mem_append_right _ hd)
      · exact fun h => hname e (by simp [h])

theorem list_dir_slots_append (a b : List Slot) (hst : st.done = false) :
    list_dir_slots m out_max all (a ++ b) st =
      if (list_dir_slots m out_max all a st).done then list_dir_slots m out_max all a st
      else list_dir_slots m out_max all b (list_dir_slots m out_max all a st) := by
  induction a generalizing st with
  | nil => simp [list_dir_slots, hst]
  | cons e a ih =>
    by_cases hend : e 0 = 0x00
    · simp [list_dir_slots, hend]
    · simp only [List.cons_append, list_dir_slots, if_neg hend]
      exact ih ((append_dir_entry_done e).trans hst)

theorem list_dir_sectors_done (lbas : List Nat) (hst : st.done = true) :
    list_dir_sectors m out_max all lbas st = .ok st := by
  cases lbas <;> simp [list_dir_sectors, hst]

theorem list_dir_sectors_eq {card : Nat → Mem} {lbas : List Nat}
    (hread : ∀ lba ∈ lbas, m.sdio_read_sector lba = some (card lba)) (hst : st.done = false) :
    list_dir_sectors m out_max all lbas st =
      .ok (list_dir_slots m out_max all (lbas.flatMap fun lba => slotsOf (card lba)) st) := by
  induction lbas generalizing st with
  | nil => rfl
  | cons lba lbas ih =>
    have hsector : list_dir_sector m lba out_max all st =
        .ok (list_dir_slots m out_max all (slotsOf (card lba)) st) := by
      rw [list_dir_sector, hread lba List.mem_cons_self]
      rfl
    rw [list_dir_sectors, if_neg (by simp [hst]), hsector, List.flatMap_cons,
      list_dir_slots_append _ _ hst]
    change list_dir_sectors m out_max all lbas _ = _
    cases hdone : (list_dir_slots m out_max all (slotsOf (card lba)) st).done with
    | true => rw [list_dir_sectors_done _ hdone, if_pos rfl]
    | false =>
      rw [ih (fun l hl => hread l (List.mem_cons_of_mem _ hl)) hdone, if_neg (by decide)]

theorem list_dir_chain_stop {cluster : Nat} (guard : Nat) (h : 0x0FFFFFF8 ≤ cluster) :
    list_dir_chain m fs out_max all guard cluster st = .ok st := by
  cases guard with
  | zero => rfl
  | succ guard => rw [list_dir_chain, if_neg (by omega)]

theorem list_dir_chain_eq {card : Nat → Mem} {next : Nat → Nat} {ok : Nat → Prop}
    {sectors : Nat → List Nat} {cluster : Nat} {cs : List Nat} (hchain : Chain next ok cluster cs)
    (hok : ∀ c, ok c → 2 ≤ c ∧ c < 0x0FFFFFF8)
    (hsectors : ∀ c, ok c → ((List.range fs.sectors_per_cluster).map fun i =>
      u32 (cluster_lba fs c + i)) = sectors c)
    (hread : ∀ lba, m.sdio_read_sector lba = some (card lba))
    (hnext : ∀ c, ok c → fat32_next_cluster m fs c = some (next c))
    (guard : Nat) (hst : st.done = false) :
    list_dir_chain m fs out_max all guard cluster st = .ok (list_dir_slots m out_max all
      (((cs.take guard).flatMap sectors).flatMap fun lba => slotsOf (card lba)) st) := by
  induction guard generalizing cluster cs st with
  | zero => rw [list_dir_chain, List.take_zero, List.flatMap_nil, List.flatMap_nil, list_dir_slots]
  | succ guard ih =>
    have hcluster : ok cluster := by cases hchain <;> assumption
    rw [list_dir_chain, if_pos ⟨(hok _ hcluster).1, (hok _ hcluster).2, by simp [hst]⟩]
    simp only [hsectors _ hcluster, list_dir_sectors_eq (fun lba _ => hread lba) hst,
      hnext _ hcluster]
    change (if _ then _ else _) = _
    cases hchain with
    | last _ hend =>
      rw [List.take_succ_cons, List.take_nil, List.flatMap_cons, List.flatMap_nil, List.append_nil,
        list_dir_chain_stop _ hend]
      split <;> rfl
    | @link _ cs _ hrest =>
      rw [List.take_succ_cons, List.flatMap_cons, List.flatMap_append, list_dir_slots_append _ _ hst]
      split
      · rfl
      · next hdone => exact ih hrest (by simpa using hdone)

end Walk

end vibeos.sd
