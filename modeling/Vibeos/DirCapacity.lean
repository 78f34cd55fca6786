-- How many files a directory takes. `find_free_entry_index` searches 120 slots
-- and 102 of them lie inside the block: a run of creates is kept exactly when
-- its new names fit into the free slots of the block.
import Vibeos.ReadBack
import Mathlib.Data.Fintype.Card

namespace vibeos.fs

/-! ## The slots of one directory -/

/-- The free slots that lie inside the block. -/
def freeSlots (d : DiskDir) : Nat :=
  (Finset.univ.filter fun i => (d.slots i).inUse = false).card

theorem find_free_lt_iff {d : DiskDir} {i : Fin MAX_DIR_ENTRIES}
    (h : find_free_entry_index (DirBlock.ofDisk d) = some i) :
    i.val < DIR_SLOTS ↔ 0 < freeSlots d := by
  obtain ⟨hfree, hfirst⟩ := find_free_entry_index_eq_some.mp h
  rw [freeSlots, Finset.card_pos]
  constructor
  · intro hi
    refine ⟨⟨i.val, hi⟩, Finset.mem_filter.mpr ⟨Finset.mem_univ _, ?_⟩⟩
    rwa [ofDisk_entries_of_lt d i hi] at hfree
  · rintro ⟨j, hj⟩
    have hj := (Finset.mem_filter.mp hj).2
    by_contra hi
    -- slot `j` would come before the first free one
    have hjlt : j.val < MAX_DIR_ENTRIES := Nat.lt_of_lt_of_le j.isLt dir_slots_le
    have hused := hfirst ⟨j.val, hjlt⟩ (by
      have := j.isLt
      exact Fin.mk_lt_of_lt_val (by omega))
    rw [ofDisk_entries_of_lt d _ j.isLt] at hused
    rw [hused] at hj
    cases hj

section

variable {d d' : DiskDir} {i : Fin MAX_DIR_ENTRIES} {e : FileEntry}
  (hd' : d' = ((DirBlock.ofDisk d).setEntry i e).toDisk) (hi : i.val < DIR_SLOTS)
  (he : e.inUse = true)

include hd' hi he

theorem freeSlots_of_new (hfree : ((DirBlock.ofDisk d).entries i).inUse = false) :
    freeSlots d = freeSlots d' + 1 := by
  have herase : (Finset.univ.filter fun j => (d'.slots j).inUse = false) =
      (Finset.univ.filter fun j => (d.slots j).inUse = false).erase ⟨i.val, hi⟩ := by
    ext j
    rw [Finset.mem_erase, Finset.mem_filter, Finset.mem_filter, hd', slots_of_setEntry]
    by_cases hj : j.val = i.val
    · simp [hj, he, Fin.ext_iff]
    · simp [hj, Fin.ext_iff]
  have hmem : (⟨i.val, hi⟩ : Fin DIR_SLOTS) ∈
      Finset.univ.filter fun j => (d.slots j).inUse = false := by
    rw [Finset.mem_filter]
    rw [ofDisk_entries_of_lt d i hi] at hfree
    exact ⟨Finset.mem_univ _, hfree⟩
  unfold freeSlots
  rw [herase, Finset.card_erase_add_one hmem]

theorem freeSlots_of_old (hused : ((DirBlock.ofDisk d).entries i).inUse = true) :
    freeSlots d' = freeSlots d := by
  unfold freeSlots
  congr 1
  ext j
  rw [Finset.mem_filter, Finset.mem_filter, hd', slots_of_setEntry]
  by_cases hj : j.val = i.val
  · have hentry : d.slots j = (DirBlock.ofDisk d).entries i := by
      rw [ofDisk_entries_of_lt d i hi]
      exact congrArg d.slots (Fin.ext hj)
    simp [hj, he, hentry, hused]
  · simp [hj]

end

/-! ## Runs of creates -/

/-- One create: a name, the contents and the time. -/
structure Create where
  name : List UInt8
  data : List UInt8
  now : Nat

section

variable [BuildConfig] {st st' st1 mid : FsState} {w : Window} {f : Create} {files : List Create}

/-- Stores one after another through one window, all of which return 0. -/
inductive StoredAll (w : Window) : FsState → List Create → FsState → Prop
  | nil {st : FsState} : StoredAll w st [] st
  | cons {st st1 st' : FsState} {f : Create} {files : List Create} :
      store_file_bytes st w f.name f.data f.now = some (0, st1) → StoredAll w st1 files st' →
      StoredAll w st (f :: files) st'

/-- No create of a run uses a slot that the block does not hold. -/
def SlotsInside (w : Window) : FsState → List Create → Prop
  | _, [] => True
  | st, f :: files => (∀ i, usedSlot st w.cwd_bno f.name = some i → SlotInside i) ∧
      ∀ st1, store_file_bytes st w f.name f.data f.now = some (0, st1) → SlotsInside w st1 files

/-- What a run of creates owes: no write outside of the block, every name found, and every
file read back. -/
structure AllKept (w : Window) (st st' : FsState) (files : List Create) : Prop where
  inside : SlotsInside w st files
  found : ∀ f ∈ files, ∃ d i, dirOf st'.disk w.cwd_bno = some d ∧
    find_entry_index (DirBlock.ofDisk d) f.name none = some i
  loads : ∀ f ∈ files, ∀ max_size, f.data.length ≤ max_size →
    load_file_bytes st' w f.name max_size = (0, f.data)

/-- The names that the directory has lie inside the block, and there is a free slot inside
the block for each of the others. -/
structure FitsBlock (d : DiskDir) (files : List Create) : Prop where
  old : ∀ f ∈ files, ∀ i, find_entry_index (DirBlock.ofDisk d) f.name none = some i → SlotInside i
  new : (files.filter fun f => find_entry_index (DirBlock.ofDisk d) f.name none = none).length ≤
    freeSlots d

/-- Names that a path has, each once. -/
structure PlainFiles (files : List Create) : Prop where
  plain : ∀ f ∈ files, PlainName f.name
  nodup : (files.map Create.name).Nodup

omit [BuildConfig] in
theorem PlainFiles.head (h : PlainFiles (f :: files)) :
    PlainName f.name ∧ (∀ g ∈ files, g.name ≠ f.name) ∧ PlainFiles files := by
  have hnodup := h.nodup
  rw [List.map_cons, List.nodup_cons] at hnodup
  refine ⟨h.plain f List.mem_cons_self, fun g hg he => ?_, ?_⟩
  · exact hnodup.1 (he ▸ List.mem_map_of_mem hg)
  · exact ⟨fun g hg => h.plain g (List.mem_cons_of_mem _ hg), hnodup.2⟩

section

variable {d : DiskDir} {idx : Fin MAX_DIR_ENTRIES} {old : Option FileEntry} {first : Nat}
  {l lold : List Nat} {ws : List (Nat × Block)}
  (c : StoreCommit st mid st1 w.cwd_bno f.name f.data f.now d idx old first l lold ws)
  (hname : PlainName f.name)

include c

theorem StoreCommit.inside_of_fits (hfits : FitsBlock d (f :: files)) : idx.val < DIR_SLOTS := by
  rcases store_slot_ok c.slot with ⟨_, hf, _⟩ | ⟨_, hf, hfree⟩
  · exact (slotInside_iff _).mp (hfits.old f List.mem_cons_self idx hf)
  · have hnew := hfits.new
    rw [List.filter_cons_of_pos (by simpa using hf), List.length_cons] at hnew
    rw [find_free_lt_iff hfree]
    omega

variable (hi : idx.val < DIR_SLOTS)

include hname

omit [BuildConfig] c in
theorem store_entry_inUse : (store_entry ((DirBlock.ofDisk d).entries idx) old f.name first
    f.data.length f.now).inUse = true := by
  rw [FileEntry.inUse_iff, store_entry_nameStr _ _ hname.nul_free]
  rw [Ne, List.take_eq_nil_iff, not_or]
  exact ⟨by decide, hname.ne_nil⟩

include hi

theorem StoreCommit.find_other {d' : DiskDir} (hd' : dirOf st1.disk w.cwd_bno = some d')
    {name : List UInt8} (hne : name ≠ f.name) :
    find_entry_index (DirBlock.ofDisk d') name none =
      find_entry_index (DirBlock.ofDisk d) name none := by
  obtain ⟨d1, hd1, _, hdb⟩ := c.dir_shown
  rw [hd1] at hd'
  cases hd'
  rw [hdb, find_setEntry_of_not_matches (c.slot_free (Or.inr hne))]
  rw [FileEntry.shownAt_of_lt _ hi]
  rintro ⟨_, _, hn⟩
  rw [store_entry_nameStr _ _ hname.nul_free, List.take_of_length_le hname.short] at hn
  exact hne hn.symm

theorem StoreCommit.find_self {d' : DiskDir} (hd' : dirOf st1.disk w.cwd_bno = some d') :
    find_entry_index (DirBlock.ofDisk d') f.name none = some idx := by
  obtain ⟨d1, hd1, _, hdb⟩ := c.dir_shown
  rw [hd1] at hd'
  cases hd'
  rw [hdb, find_entry_index_eq_some]
  have huse := @store_entry_inUse f d idx old first hname
  refine ⟨?_, fun j hj => ?_⟩
  · simp only [DirBlock.setEntry, Function.update_self]
    rw [FileEntry.shownAt_of_lt _ hi]
    refine ⟨huse, fun t ht => by simp at ht, ?_⟩
    rw [store_entry_nameStr _ _ hname.nul_free, List.take_of_length_le hname.short]
  · simpa [DirBlock.setEntry, Function.update_of_ne (Fin.ne_of_lt hj)] using c.slot_first j hj

theorem StoreCommit.fits_iff {d' : DiskDir} (hd' : dirOf st1.disk w.cwd_bno = some d')
    (hother : ∀ g ∈ files, g.name ≠ f.name) :
    FitsBlock d (f :: files) ↔ FitsBlock d' files := by
  have hfind : ∀ g ∈ files, find_entry_index (DirBlock.ofDisk d') g.name none =
      find_entry_index (DirBlock.ofDisk d) g.name none :=
    fun g hg => c.find_other hname hi hd' (hother g hg)
  have hfilter : (files.filter fun g =>
      find_entry_index (DirBlock.ofDisk d') g.name none = none) =
      files.filter fun g => find_entry_index (DirBlock.ofDisk d) g.name none = none :=
    List.filter_congr fun g hg => by rw [hfind g hg]
  have hafter := c.dir_after
  rw [hd', Option.some.injEq] at hafter
  have huse := @store_entry_inUse f d idx old first hname
  have hcount : ((f :: files).filter fun g =>
      find_entry_index (DirBlock.ofDisk d) g.name none = none).length ≤ freeSlots d ↔
      (files.filter fun g =>
        find_entry_index (DirBlock.ofDisk d) g.name none = none).length ≤ freeSlots d' := by
    rcases store_slot_ok c.slot with ⟨_, hf, _⟩ | ⟨_, hf, hfree⟩
    · have hused := (find_entry_index_eq_some.mp hf).1.1
      rw [List.filter_cons_of_neg (by simp [hf]), freeSlots_of_old hafter hi huse hused]
    · have hempty := (find_free_entry_index_eq_some.mp hfree).1
      rw [List.filter_cons_of_pos (by simpa using hf), List.length_cons,
        freeSlots_of_new hafter hi huse hempty, Nat.add_le_add_iff_right]
  constructor
  · intro h
    refine ⟨fun g hg i hgi => ?_, ?_⟩
    · rw [hfind g hg] at hgi
      exact h.old g (List.mem_cons_of_mem _ hg) i hgi
    · rw [hfilter]
      exact hcount.mp h.new
  · intro h
    refine ⟨fun g hg i hgi => ?_, ?_⟩
    · rcases List.mem_cons.mp hg with rfl | hg
      · rcases store_slot_ok c.slot with ⟨_, hf, _⟩ | ⟨_, hf, _⟩
        · rw [hf] at hgi
          cases hgi
          exact (slotInside_iff _).mpr hi
        · rw [hf] at hgi
          cases hgi
      · rw [← hfind g hg] at hgi
        exact h.old g hg i hgi
    · have hnew := h.new
      rw [hfilter] at hnew
      exact hcount.mpr hnew

end

/-! ## The run -/

variable {T : Nat → Prop} {d : DiskDir}

theorem StoredAll.slotsInside_iff (hr : StoredAll w st files st') (h : Inv T st)
    (hw : IsDir st.disk w.cwd_bno) (hf : PlainFiles files)
    (hd : dirOf st.disk w.cwd_bno = some d) : SlotsInside w st files ↔ FitsBlock d files := by
  induction hr generalizing T d with
  | nil => exact ⟨fun _ => ⟨by simp, by simp⟩, fun _ => trivial⟩
  | @cons st st1 st' f files hs hrun ih =>
    obtain ⟨hname, hother, hrest⟩ := hf.head
    obtain ⟨mid, d0, idx, old, first, l, lold, ws, c⟩ := h.wellFormed.plain_commit hw hname hs
    obtain ⟨d1, hd1, _⟩ := c.dir_shown
    cases c.dir.symm.trans hd
    have ih := ih (h.storeCommit (h.isDir_mem hw) c) (c.isDir h.wellFormed hw) hrest hd1
    constructor
    · rintro ⟨hslot, hnext⟩
      have hi := (slotInside_iff _).mp (hslot idx c.usedSlot_eq)
      exact (c.fits_iff hname hi hd1 hother).mpr (ih.mp (hnext st1 hs))
    · intro hfits
      have hi := c.inside_of_fits hfits
      refine ⟨fun i hslot => ?_, fun st2 hs2 => ?_⟩
      · cases c.usedSlot_eq.symm.trans hslot
        exact (slotInside_iff _).mpr hi
      · cases hs.symm.trans hs2
        exact ih.mpr ((c.fits_iff hname hi hd1 hother).mp hfits)

theorem StoredAll.frame (hr : StoredAll w st files st') (h : Inv T st)
    (hw : IsDir st.disk w.cwd_bno) (hf : PlainFiles files) (hslots : SlotsInside w st files)
    {name : List UInt8} (hname : PlainName name) (hother : ∀ f ∈ files, f.name ≠ name) :
    (∀ n, load_file_bytes st' w name n = load_file_bytes st w name n) ∧
      ∀ {d i}, dirOf st.disk w.cwd_bno = some d →
        find_entry_index (DirBlock.ofDisk d) name none = some i →
        ∃ d', dirOf st'.disk w.cwd_bno = some d' ∧
          find_entry_index (DirBlock.ofDisk d') name none = some i := by
  induction hr generalizing T with
  | nil => exact ⟨fun _ => rfl, fun {d i} hd hi => ⟨d, hd, hi⟩⟩
  | @cons st st1 st' f files hs hrun ih =>
    obtain ⟨hfname, _, hrest⟩ := hf.head
    have hne := hother f List.mem_cons_self
    obtain ⟨mid, d0, idx, old, first, l, lold, ws, c⟩ := h.wellFormed.plain_commit hw hfname hs
    obtain ⟨d1, hd1, _⟩ := c.dir_shown
    have hi := (slotInside_iff _).mp (hslots.1 idx c.usedSlot_eq)
    have ih := ih (h.storeCommit (h.isDir_mem hw) c) (c.isDir h.wellFormed hw) hrest
      (hslots.2 st1 hs) fun g hg => hother g (List.mem_cons_of_mem _ hg)
    refine ⟨fun n => ?_, fun {d i} hd hdi => ?_⟩
    · rw [ih.1 n]
      refine ((c.readsBack h.wellFormed hw hfname hi).frame w name hw ?_).1 n
      rw [hname.target]
      intro he
      exact hne (Prod.mk.inj (Option.some.inj he)).2.symm
    · cases c.dir.symm.trans hd
      exact ih.2 hd1 ((c.find_other hfname hi hd1 hne.symm).trans hdi)

theorem StoredAll.kept (hr : StoredAll w st files st') (h : Inv T st)
    (hw : IsDir st.disk w.cwd_bno) (hf : PlainFiles files) (hslots : SlotsInside w st files) :
    AllKept w st st' files := by
  induction hr generalizing T with
  | nil => exact ⟨trivial, by simp, by simp⟩
  | @cons st st1 st' f files hs hrun ih =>
    obtain ⟨hname, hother, hrest⟩ := hf.head
    obtain ⟨mid, d0, idx, old, first, l, lold, ws, c⟩ := h.wellFormed.plain_commit hw hname hs
    obtain ⟨d1, hd1, _⟩ := c.dir_shown
    have hi := (slotInside_iff _).mp (hslots.1 idx c.usedSlot_eq)
    have h1 := h.storeCommit (h.isDir_mem hw) c
    have hw1 := c.isDir h.wellFormed hw
    have hkept := ih h1 hw1 hrest (hslots.2 st1 hs)
    obtain ⟨hload, hfind⟩ := hrun.frame h1 hw1 hrest (hslots.2 st1 hs) hname hother
    refine ⟨hslots, fun g hg => ?_, fun g hg n hn => ?_⟩
    · rcases List.mem_cons.mp hg with rfl | hg
      · obtain ⟨d', hd', hi'⟩ := hfind hd1 (c.find_self hname hi hd1)
        exact ⟨d', idx, hd', hi'⟩
      · exact hkept.found g hg
    · rcases List.mem_cons.mp hg with rfl | hg
      · rw [hload n]
        exact (c.readsBack h.wellFormed hw hname hi).load n hn
      · exact hkept.loads g hg n hn

/-- A run of creates goes through when no directory has one of the names and the disk has
room: the buffer always shows a free slot, behind the block if not inside of it. -/
theorem Inv.storedAll_ok (h : Inv T st) (hw : IsDir st.disk w.cwd_bno) (hf : PlainFiles files)
    (hd : dirOf st.disk w.cwd_bno = some d)
    (hno : ∀ f ∈ files, ∀ j, ¬ ((DirBlock.ofDisk d).entries j).Matches f.name (some 1))
    (hroom : (files.map fun f => storeNeeds f.data.length).sum ≤ freeAhead st) :
    ∃ st', StoredAll w st files st' := by
  induction files generalizing st T d with
  | nil => exact ⟨st, .nil⟩
  | cons f files ih =>
    obtain ⟨hname, _, hrest⟩ := hf.head
    rw [List.map_cons, List.sum_cons] at hroom
    have hslot : ¬ StoreRefused st w.cwd_bno f.name := by
      intro href
      obtain ⟨rc, hrc⟩ := href d hd
      unfold store_slot at hrc
      split at hrc
      · rename_i i hi
        split at hrc
        · rename_i ht
          obtain ⟨h1, _, h2⟩ := (find_entry_index_eq_some.mp hi).1
          refine hno f List.mem_cons_self i ⟨h1, fun t h1 => ?_, h2⟩
          cases h1
          exact ht
        · cases hrc
      · split at hrc
        · rename_i hfull
          have := find_free_entry_index_eq_none.mp hfull ⟨119, by decide⟩
          rw [(ofDisk_nameStr_of_ge d ⟨119, by decide⟩ (by decide)).2 (by decide)] at this
          cases this
        · cases hrc
    obtain ⟨st1, hs⟩ := h.wellFormed.store_into_ok hw f.now hslot
      (le_trans (Nat.le_add_right _ _) hroom)
    have hs' : vibeos.fs.store_file_bytes st w f.name f.data f.now = some (0, st1) := by
      rw [store_file_bytes_eq h.ready, orRoot_of_ne_zero (h.wellFormed.tree.isDir_ne_zero hw),
        hname.target]
      exact hs
    obtain ⟨mid, d0, idx, old, first, l, lold, ws, c⟩ := h.wellFormed.plain_commit hw hname hs'
    cases c.dir.symm.trans hd
    obtain ⟨d1, hd1, _, hdb⟩ := c.dir_shown
    have hno1 : ∀ g ∈ files, ∀ j, ¬ ((DirBlock.ofDisk d1).entries j).Matches g.name (some 1) := by
      intro g hg j hm
      rw [hdb] at hm
      by_cases hj : j = idx
      · -- the new entry is no directory
        subst hj
        have ht := hm.2.1 1 rfl
        simp only [DirBlock.setEntry, Function.update_self, store_entry_shown_type] at ht
        cases ht
      · simp only [DirBlock.setEntry, Function.update_of_ne hj] at hm
        exact hno g (List.mem_cons_of_mem _ hg) j hm
    have hafter := c.room_after
    obtain ⟨st', hrun⟩ := ih (h.storeCommit (h.isDir_mem hw) c) (c.isDir h.wellFormed hw) hrest
      hd1 hno1 (by omega)
    exact ⟨st', .cons hs' hrun⟩

/-- A run of creates that all return 0 is kept exactly when its names fit into the block. -/
theorem dir_capacity_iff {s : System} (h : Reached s) (hw : IsDir s.st.disk w.cwd_bno)
    (hf : PlainFiles files) (hd : dirOf s.st.disk w.cwd_bno = some d)
    (hr : StoredAll w s.st files st') : AllKept w s.st st' files ↔ FitsBlock d files := by
  obtain ⟨T, hT⟩ := h.sysInv
  have hiff := hr.slotsInside_iff hT.inv hw hf hd
  exact ⟨fun hk => hiff.mp hk.inside, fun hfits => hr.kept hT.inv hw hf (hiff.mpr hfits)⟩

end

section

attribute [local instance] fpgaBuild

/-- Two names, `a` with a byte and `b` without, after a format. -/
theorem dir_capacity_iff_sample : ∃ st', StoredAll (blankSystem.wins 0) (format blankSystem).st
    [⟨lit ['a'], [7], 1⟩, ⟨lit ['b'], [], 2⟩] st' ∧
    AllKept (blankSystem.wins 0) (format blankSystem).st st'
      [⟨lit ['a'], [7], 1⟩, ⟨lit ['b'], [], 2⟩] := by
  have hreached : Reached (format blankSystem) := ⟨blankSystem, [], rfl⟩
  have hw : IsDir (format blankSystem).st.disk (blankSystem.wins 0).cwd_bno :=
    hreached.wellFormed.tree.isDir_root
  have hd : dirOf (format blankSystem).st.disk 1 = some (emptyDir 1).toDisk :=
    write_dir_disk_same _ _ _
  have hf : PlainFiles [⟨lit ['a'], [7], 1⟩, ⟨lit ['b'], [], 2⟩] := by
    refine ⟨fun f hf => ?_, by decide⟩
    rcases List.mem_cons.mp hf with rfl | hf
    · exact ⟨by decide, by decide, by decide, by decide, by decide⟩
    · rw [List.mem_singleton] at hf
      subst hf
      exact ⟨by decide, by decide, by decide, by decide, by decide⟩
  obtain ⟨st', hr⟩ := (inv_format blankSystem.st).storedAll_ok hw hf hd
    (fun f _ j hm => by rw [FileEntry.Matches, ofDisk_emptyDir] at hm; cases hm.1)
    (by decide +kernel)
  refine ⟨st', hr, (dir_capacity_iff hreached hw hf hd hr).mpr ⟨fun f _ i hi => ?_, ?_⟩⟩
  · have hm := (find_entry_index_eq_some.mp hi).1.1
    rw [ofDisk_emptyDir] at hm
    cases hm
  · refine (List.length_filter_le _ _).trans ?_
    decide

/-- The files of 104 names with one byte each, and no contents. -/
def manyFiles : List Create :=
  (List.range 104).map fun i => ⟨[UInt8.ofNat (128 + i)], [], 1⟩

/-- All 104 creates of a fresh disk return 0, and not all are kept. -/
theorem dir_capacity_exceeded : ∃ (s : System) (w : Window) (files : List Create) (st' : FsState),
    Reached s ∧ IsDir s.st.disk w.cwd_bno ∧ PlainFiles files ∧ files.length ≤ MAX_DIR_ENTRIES ∧
    StoredAll w s.st files st' ∧ ¬ AllKept w s.st st' files := by
  have hinv := inv_format blankSystem.st
  have hw : IsDir (format blankSystem).st.disk (blankSystem.wins 0).cwd_bno :=
    hinv.wellFormed.tree.isDir_root
  have hd : dirOf (format blankSystem).st.disk 1 = some (emptyDir 1).toDisk :=
    write_dir_disk_same _ _ _
  have hnodup : (manyFiles.map Create.name).Nodup := by
    rw [manyFiles, List.map_map]
    refine List.Nodup.map_on (fun i hi j hj h => ?_) List.nodup_range
    rw [List.mem_range] at hi hj
    have hname := congrArg UInt8.toNat (List.cons.inj h).1
    rw [UInt8.toNat_ofNat_of_lt' (show 128 + i < 2 ^ 8 by omega),
      UInt8.toNat_ofNat_of_lt' (show 128 + j < 2 ^ 8 by omega)] at hname
    omega
  have hf : PlainFiles manyFiles := by
    refine ⟨fun f hf => ?_, hnodup⟩
    obtain ⟨i, hi, rfl⟩ := List.mem_map.mp hf
    have hbytes : ∀ i < 104, UInt8.ofNat (128 + i) ≠ 0 ∧ UInt8.ofNat (128 + i) ≠ slash ∧
        UInt8.ofNat (128 + i) ≠ '~'.toUInt8 := by decide
    obtain ⟨h1, h2, h3⟩ := hbytes i (List.mem_range.mp hi)
    exact ⟨by simp, by simp, by simpa using h1.symm, by simpa using h2.symm, by simpa using h3⟩
  have hnone : ∀ name f, find_entry_index (DirBlock.ofDisk (emptyDir 1).toDisk) name f = none := by
    intro name f
    rw [find_entry_index_eq_none]
    intro j hm
    rw [FileEntry.Matches, ofDisk_emptyDir] at hm
    cases hm.1
  obtain ⟨st', hr⟩ := hinv.storedAll_ok hw hf hd
    (fun f _ => find_entry_index_eq_none.mp (hnone f.name (some 1))) (by decide +kernel)
  refine ⟨format blankSystem, blankSystem.wins 0, manyFiles, st', ⟨blankSystem, [], rfl⟩, hw, hf,
    by decide, hr, fun hk => ?_⟩
  have hfits := (hr.slotsInside_iff hinv hw hf hd).mp hk.inside
  have hnew := hfits.new
  rw [List.filter_eq_self.mpr fun f _ => by simp [hnone]] at hnew
  revert hnew
  decide

end

end vibeos.fs
