-- Where a copy meets what the destination has: the names of both, the room for the new ones, and
-- what a copy under some names leaves of the others. Their slots, trees and files stay, so what was
-- copied before stays a copy, and what is to be copied still finds its destination.
import Vibeos.CopySteps
import Vibeos.CopyVisits
import Vibeos.DirCapacity

namespace vibeos.fs

open LinkChain

/-! ## Names that stand once -/

section

variable {disk : Disk} {D c : Nat} {d : DiskDir} {i j : Fin DIR_SLOTS} {e f : FileEntry}
  {name : List UInt8}

theorem NamesInside.slot_eq (h : NamesInside (DirBlock.ofDisk d).entries)
    (hd : dirOf disk D = some d) (he : SlotHas disk D i e) (hf : SlotHas disk D j f)
    (hname : e.nameStr = f.nameStr) : i = j ∧ e = f := by
  obtain ⟨d1, hd1, hei, heused⟩ := id he
  obtain ⟨d2, hd2, hfj, hfused⟩ := id hf
  obtain rfl : d = d1 := Option.some.inj (hd.symm.trans hd1)
  obtain rfl : d = d2 := Option.some.inj (hd.symm.trans hd2)
  have hi := ofDisk_entries_of_lt d ⟨i.val, i.isLt.trans_le dir_slots_le⟩ i.isLt
  have hj := ofDisk_entries_of_lt d ⟨j.val, j.isLt.trans_le dir_slots_le⟩ j.isLt
  have hij := h.unique ⟨i.val, i.isLt.trans_le dir_slots_le⟩ ⟨j.val, j.isLt.trans_le dir_slots_le⟩
    (by rw [hi, hei]; exact heused) (by rw [hj, hfj]; exact hfused)
    (by rw [hi, hj, hei, hfj]; exact hname)
  have heq : i = j := Fin.ext (Fin.mk.inj hij)
  subst heq
  exact ⟨rfl, he.det hf⟩

theorem NamesInside.exists_slot (h : NamesInside (DirBlock.ofDisk d).entries)
    (hd : dirOf disk D = some d) {k : Fin MAX_DIR_ENTRIES}
    (hused : ((DirBlock.ofDisk d).entries k).inUse = true) :
    ∃ i : Fin DIR_SLOTS, i.val = k.val ∧ SlotHas disk D i ((DirBlock.ofDisk d).entries k) := by
  have hk := (slotInside_iff k).mp (h.inside k hused)
  exact ⟨⟨k.val, hk⟩, rfl, d, hd, (ofDisk_entries_of_lt d k hk).symm, hused⟩

theorem NamesInside.find_none_iff (h : NamesInside (DirBlock.ofDisk d).entries)
    (hd : dirOf disk D = some d) : find_entry_index (DirBlock.ofDisk d) name none = none ↔
      ∀ i e, SlotHas disk D i e → e.nameStr ≠ name := by
  rw [find_entry_index_eq_none]
  constructor
  · intro hall i e he hname
    obtain ⟨d', hd', hi, hused⟩ := he
    obtain rfl : d = d' := Option.some.inj (hd.symm.trans hd')
    have hentry := ofDisk_entries_of_lt d ⟨i.val, i.isLt.trans_le dir_slots_le⟩ i.isLt
    refine hall ⟨i.val, i.isLt.trans_le dir_slots_le⟩ ⟨?_, by simp, ?_⟩
    · rw [hentry, hi]
      exact hused
    · rw [hentry, hi]
      exact hname
  · rintro hall k ⟨hused, -, hname⟩
    obtain ⟨i, -, hslot⟩ := h.exists_slot hd hused
    exact hall i _ hslot hname

theorem NamesInside.stepName_iff (h : NamesInside (DirBlock.ofDisk d).entries)
    (hd : dirOf disk D = some d) (hup : name ≠ dotdotName) : stepName disk D name = some c ↔
      ∃ i e, SlotHas disk D i e ∧ e.nameStr = name ∧ e.type = 1 ∧ e.bno = c := by
  unfold stepName childOf
  rw [hd, Option.bind_some, if_neg hup, Option.map_eq_some_iff]
  constructor
  · rintro ⟨k, hfind, hbno⟩
    obtain ⟨hused, htype, hname⟩ := (find_entry_index_eq_some.mp hfind).1
    obtain ⟨i, -, hslot⟩ := h.exists_slot hd hused
    exact ⟨i, _, hslot, hname, htype 1 rfl, hbno⟩
  · rintro ⟨i, e, he, hname, htype, hbno⟩
    obtain ⟨d', hd', hi, hused⟩ := id he
    obtain rfl : d = d' := Option.some.inj (hd.symm.trans hd')
    have hentry := ofDisk_entries_of_lt d ⟨i.val, i.isLt.trans_le dir_slots_le⟩ i.isLt
    refine ⟨⟨i.val, i.isLt.trans_le dir_slots_le⟩, find_entry_index_eq_some.mpr ⟨?_, ?_⟩, ?_⟩
    · rw [hentry, hi]
      exact ⟨hused, fun t ht => htype.trans (Option.some.inj ht), hname⟩
    · rintro j hj ⟨hjused, -, hjname⟩
      -- an earlier entry with the name would be the same one
      have := h.unique j ⟨i.val, i.isLt.trans_le dir_slots_le⟩ hjused
        (by rw [hentry, hi]; exact hused) (by rw [hjname, hentry, hi, hname])
      exact absurd (this ▸ hj) (lt_irrefl _)
    · rw [hentry, hi]
      exact hbno

theorem dirChild_of_stepName (hup : name ≠ dotdotName) (h : stepName disk D name = some c) :
    DirChild disk D c := by
  obtain ⟨d, hd, hstep⟩ := Option.bind_eq_some_iff.mp h
  rw [if_neg hup] at hstep
  obtain ⟨i, hfind, rfl⟩ := Option.map_eq_some_iff.mp hstep
  exact dirChild_of_find hd hfind

end

/-! ## What a destination has to be -/

/-- The entries whose names the directory does not have. -/
def newEntries (d : DiskDir) (L : List FileEntry) : List FileEntry :=
  L.filter fun e => find_entry_index (DirBlock.ofDisk d) e.nameStr none = none

theorem newEntries_cons_of_new {d : DiskDir} {e : FileEntry} {rest : List FileEntry}
    (h : find_entry_index (DirBlock.ofDisk d) e.nameStr none = none) :
    newEntries d (e :: rest) = e :: newEntries d rest := by
  unfold newEntries
  rw [List.filter_cons, if_pos (by simpa using h)]

theorem newEntries_cons_of_old {d : DiskDir} {e : FileEntry} {rest : List FileEntry}
    (h : find_entry_index (DirBlock.ofDisk d) e.nameStr none ≠ none) :
    newEntries d (e :: rest) = newEntries d rest := by
  unfold newEntries
  rw [List.filter_cons, if_neg (by simpa using h)]

/-- Directory `b` of the source meets what directory `D` has under the name: a directory that `fits`,
nothing, or a file, and then the copy of `b` has an entry that cannot be written. -/
def NameFits (disk0 disk : Disk) (fits : Nat → Nat → Prop) (D b : Nat) (name : List UInt8) : Prop :=
  match stepName disk D name with
  | some D' => fits b D'
  | none => ∀ d, dirOf disk D = some d → find_entry_index (DirBlock.ofDisk d) name none ≠ none →
      ∃ d0, dirOf disk0 b = some d0 ∧ dirEntries d0 ≠ []

/-- Directory `b` of the source can be merged into directory `D`, down to a depth: `D` is not of the
source, its names are good ones, and it has room for the new ones. -/
def MergeFits (disk0 : Disk) (src : Nat) (disk : Disk) : Nat → Nat → Nat → Prop
  | 0, _, _ => True
  | depth + 1, b, D => ¬ Forest.Below (Edge disk0) src D ∧ ∃ d0 d, dirOf disk0 b = some d0 ∧
      dirOf disk D = some d ∧ NamesInside (DirBlock.ofDisk d).entries ∧
      (newEntries d (dirEntries d0)).length ≤ freeSlots d ∧
      ∀ e ∈ dirEntries d0, e.type = 1 →
        NameFits disk0 disk (MergeFits disk0 src disk depth) D e.bno e.nameStr

/-- The pairs that a copy to the names of `L` in directory `D` may write: the names, and those of the
directories below them, but none of the source. -/
def Writes (disk0 : Disk) (src : Nat) (disk : Disk) (D : Nat) (L : List (List UInt8)) (P : Nat)
    (name : List UInt8) : Prop :=
  IsDir disk P ∧ ¬ Forest.Below (Edge disk0) src P ∧ (P = D ∧ name ∈ L ∨
    ∃ n ∈ L, ∃ c, stepName disk D n = some c ∧ Forest.Below (DirChild disk) c P)

section

variable {disk0 disk disk' : Disk} {U : Nat → Prop} {src b D n : Nat} {name : List UInt8}

theorem NameFits.congr {fits fits' : Nat → Nat → Prop} (h : NameFits disk0 disk fits D b name)
    (hD : disk' D = disk D)
    (hfits : ∀ D', stepName disk D name = some D' → fits b D' → fits' b D') :
    NameFits disk0 disk' fits' D b name := by
  unfold NameFits at h ⊢
  rw [stepName_congr hD, dirOf_congr hD]
  rcases hstep : stepName disk D name with _ | D'
  · rw [hstep] at h
    exact h
  · rw [hstep] at h
    exact hfits D' hstep h

/-- The names of all directories of a tree are good ones. -/
def GoodNames (disk : Disk) (b : Nat) : Prop :=
  ∀ x d, Forest.Below (DirChild disk) b x → dirOf disk x = some d →
    NamesInside (DirBlock.ofDisk d).entries

theorem GoodNames.child {c : Nat} (h : GoodNames disk b) (hc : DirChild disk b c) :
    GoodNames disk c :=
  fun x d hx => h x d (.head hc hx)

theorem GoodNames.no_up {d : DiskDir} {e : FileEntry} (h : GoodNames disk b)
    (hd : dirOf disk b = some d) (he : e ∈ dirEntries d) : e.nameStr ≠ dotdotName := by
  obtain ⟨i, rfl, hused⟩ := mem_dirEntries.mp he
  exact ((h b d .refl hd).valid i hused).ne_dotdot

theorem MergeFits.congr (h : MergeFits disk0 src disk n b D) (hf : Frozen disk disk' D)
    (htree : TreeDisk U disk) (hD : IsDir disk D) (hgood : GoodNames disk0 b) :
    MergeFits disk0 src disk' n b D := by
  induction n generalizing b D with
  | zero => trivial
  | succ n ih =>
    obtain ⟨hsrc, d0, d, hd0, hd, hinside, hroom, hall⟩ := h
    refine ⟨hsrc, d0, d, hd0, (dirOf_congr (hf D .refl)).trans hd, hinside, hroom, ?_⟩
    intro e he ht
    refine (hall e he ht).congr (hf D .refl) fun D' hstep hfits => ?_
    obtain ⟨hf', hdir⟩ := hf.dirChild htree hD (dirChild_of_stepName (hgood.no_up hd0 he) hstep)
    exact ih hfits hf' hdir (hgood.child (dirChild_of_mem hd0 he ht))

end

section

variable {disk disk0 : Disk} {U : Nat → Prop} {src D P : Nat} {d : DiskDir} {i : Fin DIR_SLOTS}
  {e : FileEntry} {L : List (List UInt8)} {name : List UInt8}

/-! ## Names that are not written -/

theorem Writes.not_below (h : Writes disk0 src disk D L P name) (htree : TreeDisk U disk)
    (hD : IsDir disk D) (hd : dirOf disk D = some d)
    (hnames : NamesInside (DirBlock.ofDisk d).entries) (hL : ∀ n ∈ L, n ≠ dotdotName)
    (he : SlotHas disk D i e) (hname : e.nameStr ∉ L) {c : Nat} (hc : Owns disk D i c) :
    ¬ Forest.Below (Edge disk) c P := by
  intro hcP
  obtain ⟨-, -, ⟨rfl, -⟩ | ⟨n, hn, c', hstep, hbelow⟩⟩ := h
  · exact htree.no_cycle hD (.head' ⟨hD, i, hc⟩ hcP)
  · obtain ⟨j, f, hf, hfname, hftype, rfl⟩ := (hnames.stepName_iff hd (hL n hn)).mp hstep
    have hchild : DirChild disk D f.bno := ⟨j, f, hf, hftype, rfl⟩
    have hij : i ≠ j := by
      rintro rfl
      exact hname (by rw [he.det hf, hfname]; exact hn)
    exact htree.slots_disjoint hD hij hc
      ⟨f, hf, .here (htree.child_ne_zero hD hchild)⟩ hcP
      (htree.below_edge (htree.isDir_child hD hchild) hbelow)

theorem not_writes_self (htree : TreeDisk U disk) (hD : IsDir disk D)
    (hL : ∀ n ∈ L, n ≠ dotdotName) (hname : name ∉ L) : ¬ Writes disk0 src disk D L D name := by
  rintro ⟨-, -, ⟨-, hn⟩ | ⟨n, hn, c, hstep, hbelow⟩⟩
  · exact hname hn
  · have hchild := dirChild_of_stepName (hL n hn) hstep
    exact htree.no_cycle hD (.head' (htree.edge_of_dirChild hD hchild)
      (htree.below_edge (htree.isDir_child hD hchild) hbelow))

end

section

variable [BuildConfig] {disk0 : Disk} {st st1 st' : FsState} {T : Nat → Prop} {src D c : Nat}
  {d d1 : DiskDir} {i : Fin DIR_SLOTS} {e : FileEntry} {L : List (List UInt8)} {name : List UInt8}

/-- What a copy under the names of `L` in directory `D` finds and leaves there. -/
structure CopiedUnder (disk0 : Disk) (src : Nat) (D : Nat) (L : List (List UInt8)) (d d1 : DiskDir)
    (st st1 : FsState) : Prop where
  effect : Effect (Writes disk0 src st.disk D L) st st1
  isDir : IsDir st.disk D
  before : dirOf st.disk D = some d
  after : dirOf st1.disk D = some d1
  names : NamesInside (DirBlock.ofDisk d).entries
  names_after : NamesInside (DirBlock.ofDisk d1).entries
  no_up : ∀ n ∈ L, n ≠ dotdotName

/-! ## The other names -/

section

variable (h : CopiedUnder disk0 src D L d d1 st st1) (hinv : Inv T st)

include h hinv

theorem CopiedUnder.slot_iff (hname : e.nameStr ∉ L) :
    SlotHas st1.disk D i e ↔ SlotHas st.disk D i e :=
  h.effect.slots h.isDir (not_writes_self hinv.treeDisk h.isDir h.no_up hname)

theorem CopiedUnder.find_iff (hname : name ∉ L) :
    find_entry_index (DirBlock.ofDisk d1) name none = none ↔
      find_entry_index (DirBlock.ofDisk d) name none = none := by
  rw [h.names_after.find_none_iff h.after, h.names.find_none_iff h.before]
  constructor
  · rintro hall i e he rfl
    exact hall i e ((h.slot_iff hinv hname).mpr he) rfl
  · rintro hall i e he rfl
    exact hall i e ((h.slot_iff hinv hname).mp he) rfl

theorem CopiedUnder.stepName_eq (hname : name ∉ L) (hup : name ≠ dotdotName) :
    stepName st1.disk D name = stepName st.disk D name := by
  apply Option.ext
  intro c
  rw [h.names_after.stepName_iff h.after hup, h.names.stepName_iff h.before hup]
  constructor
  · rintro ⟨i, e, he, rfl, hrest⟩
    exact ⟨i, e, (h.slot_iff hinv hname).mp he, rfl, hrest⟩
  · rintro ⟨i, e, he, rfl, hrest⟩
    exact ⟨i, e, (h.slot_iff hinv hname).mpr he, rfl, hrest⟩

theorem CopiedUnder.frozen (he : SlotHas st.disk D i e) (ht : e.type = 1) (hname : e.nameStr ∉ L) :
    Frozen st.disk st1.disk e.bno := by
  have hchild : DirChild st.disk D e.bno := ⟨i, e, he, ht, rfl⟩
  have htree := hinv.treeDisk
  refine h.effect.frozen hinv (htree.isDir_child h.isDir hchild) fun P n hw => ?_
  exact hw.not_below htree h.isDir h.before h.names h.no_up he hname
    ⟨e, he, .here (htree.child_ne_zero h.isDir hchild)⟩

theorem CopiedUnder.frozen_step (hstep : stepName st.disk D name = some c)
    (hname : name ∉ L) (hup : name ≠ dotdotName) :
    Frozen st.disk st1.disk c ∧ IsDir st.disk c := by
  obtain ⟨i, e, he, rfl, ht, rfl⟩ := (h.names.stepName_iff h.before hup).mp hstep
  exact ⟨h.frozen hinv he ht hname, hinv.treeDisk.isDir_child h.isDir ⟨i, e, he, ht, rfl⟩⟩

theorem CopiedUnder.load (he : SlotHas st.disk D i e) (ht : e.type ≠ 1) (hname : e.nameStr ∉ L)
    (n : Nat) : load_loop st1.disk n e.bno = load_loop st.disk n e.bno := by
  have htree := hinv.treeDisk
  obtain ⟨l, hl, -⟩ := htree.sound.chain h.isDir he
  refine load_loop_congr hl (fun x hx => ?_) n
  have hon := hl.onChain hx
  refine (h.effect.same (hinv.occupied_edge ⟨h.isDir, i, e, he, hon⟩) ?_).1
  rintro (⟨m, hw⟩ | ⟨P, j, f, hw, hf, -, hfon⟩)
  · exact htree.not_isDir_of_file h.isDir he ht hon hw.1
  · obtain ⟨rfl, -, rfl⟩ := htree.type_eq h.isDir hw.1 he hf hon hfon
    exact not_writes_self htree h.isDir h.no_up hname hw

theorem CopiedUnder.writes_back {L1 : List (List UInt8)} (hdisj : ∀ n ∈ L1, n ∉ L)
    (hL1 : ∀ n ∈ L1, n ≠ dotdotName) {P : Nat} (hw : Writes disk0 src st1.disk D L1 P name)
    (hP : IsDir st.disk P) : Writes disk0 src st.disk D (L ++ L1) P name := by
  obtain ⟨-, hsrc, ⟨rfl, hn⟩ | ⟨n, hn, c, hstep, hbelow⟩⟩ := hw
  · exact ⟨hP, hsrc, Or.inl ⟨rfl, List.mem_append_right _ hn⟩⟩
  · rw [h.stepName_eq hinv (hdisj n hn) (hL1 n hn)] at hstep
    obtain ⟨hfrozen, hc⟩ := h.frozen_step hinv hstep (hdisj n hn) (hL1 n hn)
    exact ⟨hP, hsrc, Or.inr ⟨n, List.mem_append_right _ hn, c, hstep,
      hfrozen.below_back hinv.treeDisk hc hbelow⟩⟩

theorem CopiedUnder.nameFits {b n : Nat} (hname : name ∉ L) (hup : name ≠ dotdotName)
    (hgood : GoodNames disk0 b)
    (hfits : NameFits disk0 st.disk (MergeFits disk0 src st.disk n) D b name) :
    NameFits disk0 st1.disk (MergeFits disk0 src st1.disk n) D b name := by
  unfold NameFits at hfits ⊢
  rw [h.stepName_eq hinv hname hup]
  rcases hstep : stepName st.disk D name with _ | c
  · rw [hstep] at hfits
    intro d' hd' hthere
    obtain rfl : d1 = d' := Option.some.inj (h.after.symm.trans hd')
    exact hfits d h.before (mt (h.find_iff hinv hname).mpr hthere)
  · rw [hstep] at hfits
    obtain ⟨hfrozen, hc⟩ := h.frozen_step hinv hstep hname hup
    exact hfits.congr hfrozen hinv.treeDisk hc hgood

end

/-! ## Entries that are copied -/

/-- Directory `D` has a copy of the entry, which has nothing else when there was no directory. -/
def CopiedTo (disk0 : Disk) (st st' : FsState) (D : Nat) (e : FileEntry) : Prop :=
  ∃ i e', SlotHas st'.disk D i e' ∧ ∀ n,
    SameEntry disk0 st'.disk (HasCopy disk0 st'.disk n) e e' ∧
    (stepName st.disk D e.nameStr = none →
      SameEntry st'.disk disk0 (HasCopy st'.disk disk0 n) e' e)

theorem CopiedTo.under (hc : CopiedTo disk0 st st1 D e) (h : CopiedUnder disk0 src D L d d1 st1 st')
    (hinv : Inv T st1) (hname : e.nameStr ∉ L) : CopiedTo disk0 st st' D e := by
  obtain ⟨i, e', he', hsame⟩ := hc
  have hname' : e'.nameStr = e.nameStr := (hsame 0).1.1
  have hn : e'.nameStr ∉ L := hname'.symm ▸ hname
  refine ⟨i, e', (h.slot_iff hinv hn).mpr he', fun n => ?_⟩
  obtain ⟨⟨-, htype, hcopy⟩, hback⟩ := hsame n
  by_cases ht : e'.type = 1
  · have hdir := hinv.treeDisk.isDir_child h.isDir ⟨i, e', he', ht, rfl⟩
    have hfrozen := h.frozen hinv he' ht hn
    refine ⟨⟨hname', htype, ?_⟩, fun hnew => ⟨hname'.symm, htype.symm, ?_⟩⟩
    · rw [if_pos (htype.mp ht)] at hcopy ⊢
      exact hcopy.congr_right hfrozen hinv.treeDisk hdir
    · obtain ⟨-, -, hcopy'⟩ := hback hnew
      rw [if_pos ht] at hcopy' ⊢
      exact hcopy'.congr_left hfrozen hinv.treeDisk hdir
  · have hload := h.load hinv he' ht hn
    refine ⟨⟨hname', htype, ?_⟩, fun hnew => ⟨hname'.symm, htype.symm, ?_⟩⟩
    · rw [if_neg (mt htype.mpr ht)] at hcopy ⊢
      rw [hload, hcopy]
    · obtain ⟨-, -, hcopy'⟩ := hback hnew
      rw [if_neg ht] at hcopy' ⊢
      rw [hload, hcopy']

end

end vibeos.fs
