-- Read after write. A store that returns 0 is read back by both loaders, and no
-- other load of the tree, through any window and any path, sees it.
import Vibeos.LoadSpecs
import Vibeos.AllocInv

namespace vibeos.fs

open LinkChain

section

variable [BuildConfig] {st st' mid : FsState} {U : Nat → Prop} {P : Nat} {leaf : List UInt8}

/-! ## Two disks that agree on the tree -/

omit [BuildConfig] in
theorem fileAt_eq_ok {disk : Disk} {e : FileEntry} : fileAt disk P leaf = .ok e ↔
    ∃ d i, dirOf disk P = some d ∧
      find_entry_index (DirBlock.ofDisk d) leaf (some 0) = some i ∧
      e = (DirBlock.ofDisk d).entries i := by
  constructor
  · intro h
    unfold fileAt at h
    split at h
    · cases h
    rename_i d hd
    split at h
    · cases h
    · rename_i i hf
      cases h
      exact ⟨d, i, hd, hf, rfl⟩
  · rintro ⟨d, i, hd, hf, rfl⟩
    simp only [fileAt, hd, hf]

omit [BuildConfig] in
theorem TreeDisk.file_chain {disk : Disk} (h : TreeDisk U disk) (hP : IsDir disk P)
    {e : FileEntry} (he : fileAt disk P leaf = .ok e) :
    ∃ l, Chain 0 (nextOf disk) e.bno l ∧ ∀ b ∈ l, Live disk b ∧ ¬ IsDir disk b := by
  obtain ⟨d, i, hd, hf, rfl⟩ := fileAt_eq_ok.mp he
  rcases Nat.lt_or_ge i.val DIR_SLOTS with hi | hi
  · have hslot := (slotHas_of_find hd hf hi).1
    have ht := (find_entry_index_eq_some.mp hf).1.2.1 0 rfl
    obtain ⟨l, hl, _⟩ := h.sound.chain hP hslot
    exact ⟨l, hl, fun b hb => ⟨Or.inr ⟨P, _, hP, _, hslot, hl.onChain hb⟩,
      h.not_isDir_of_file hP hslot (by rw [ht]; decide) (hl.onChain hb)⟩⟩
  · rw [(ofDisk_entries_of_ge d i hi).1]
    exact ⟨[], .stop, by simp⟩

/-- The two loaders give the same on both disks. -/
def SameLoads (st st' : FsState) (w : Window) (name : List UInt8) : Prop :=
  (∀ max_size, load_file_bytes st' w name max_size = load_file_bytes st w name max_size) ∧
    ∀ malloc, load_file_bytes_alloc malloc st' w name = load_file_bytes_alloc malloc st w name

theorem sameLoads_of_tree (h : TreeDisk U st.disk) {w : Window} (hw : IsDir st.disk w.cwd_bno)
    {name : List UInt8} (hsame : ∀ {Q}, IsDir st.disk Q → SameWalk st.disk st'.disk Q)
    (hfile : ∀ {Q leaf}, (file_target st w name w.cwd_bno).2 = some (Q, leaf) →
      IsDir st.disk Q → fileAt st'.disk Q leaf = fileAt st.disk Q leaf)
    (hblocks : ∀ {b}, Live st.disk b → ¬ IsDir st.disk b → st'.disk b = st.disk b) :
    SameLoads st st' w name := by
  have htarget := file_target_congr h.closed hsame (h.closed.orRoot hw) name w.cwd_bno
  rcases ht : (file_target st w name w.cwd_bno).2 with _ | ⟨Q, leaf⟩
  · constructor
    · intro n
      rw [load_file_bytes_eq, load_file_bytes_eq, htarget, ht]
    · intro malloc
      rw [load_file_bytes_alloc_eq, load_file_bytes_alloc_eq, htarget, ht]
  · have hQ := file_target_mem h.closed hw hw ht
    have hload := loadAt_congr (hfile ht hQ) fun e he => by
      obtain ⟨l, hl, hlive⟩ := h.file_chain hQ he
      exact load_loop_congr hl (fun x hx => hblocks (hlive x hx).1 (hlive x hx).2) e.size
    constructor
    · intro n
      rw [load_file_bytes_eq, load_file_bytes_eq, htarget, ht]
      exact hload.1 n
    · intro malloc
      rw [load_file_bytes_alloc_eq, load_file_bytes_alloc_eq, htarget, ht]
      exact hload.2 malloc

/-! ## A committed store -/

/-- A name of 1 to 19 bytes that no resolver touches. -/
structure PlainName (name : List UInt8) : Prop where
  ne_nil : name ≠ []
  short : name.length ≤ 19
  nul_free : 0 ∉ name
  no_slash : slash ∉ name
  no_tilde : name.head? ≠ some '~'.toUInt8

omit [BuildConfig] in
theorem PlainName.usesResolve {name : List UInt8} (h : PlainName name) :
    usesResolve name = false := by
  have h1 := h.no_slash
  have h2 := h.no_tilde
  simp [vibeos.fs.usesResolve, h1, h2]

omit [BuildConfig] in
theorem store_entry_nameStr (e : FileEntry) (old : Option FileEntry) {leaf : List UInt8}
    (hnul : 0 ∉ leaf) (first size now : Nat) :
    (store_entry e old leaf first size now).nameStr = leaf.take 19 :=
  cstr_copy_name20 e.name hnul

section

variable {data : List UInt8} {now : Nat} {d : DiskDir} {idx : Fin MAX_DIR_ENTRIES}
  {old : Option FileEntry} {first : Nat} {l lold : List Nat} {ws : List (Nat × Block)}

theorem Grown.not_mem_of_live {t : List Nat} (g : Grown st mid l t ws) (h : WellFormed st)
    {b : Nat} (hb : Live st.disk b) : b ∉ l := by
  rcases h.tree.live_cases hb with rfl | hm
  · intro hl
    have := (g.fresh 1 hl).1
    omega
  · exact g.not_mem_of_used hm.2.2

variable (c : StoreCommit st mid st' P leaf data now d idx old first l lold ws)

include c

theorem StoreCommit.slot_free {f : Option Nat} {name : List UInt8}
    (hf : f = some 1 ∨ name ≠ leaf) :
    ¬ ((DirBlock.ofDisk d).entries idx).Matches name f := by
  rintro ⟨h1, h2, h3⟩
  rcases store_slot_ok c.slot with ⟨_, hfind, ht⟩ | ⟨_, _, hfree⟩
  · rcases hf with rfl | hf
    · exact ht (h2 1 rfl)
    · exact hf (h3.symm.trans (find_entry_index_eq_some.mp hfind).1.2.2)
  · rw [(find_free_entry_index_eq_some.mp hfree).1] at h1
    cases h1

theorem StoreCommit.dir_shown :
    ∃ d', dirOf st'.disk P = some d' ∧ d'.parent_bno = d.parent_bno ∧
      DirBlock.ofDisk d' = (DirBlock.ofDisk d).setEntry idx ((store_entry
        ((DirBlock.ofDisk d).entries idx) old leaf first data.length now).shownAt idx) :=
  ⟨_, c.dir_after, rfl, ofDisk_toDisk_setEntry d idx _⟩

omit [BuildConfig] c in
theorem store_entry_shown_type (e : FileEntry) (i : Fin MAX_DIR_ENTRIES) :
    ((store_entry e old leaf first data.length now).shownAt i).type = 0 := by
  rcases Nat.lt_or_ge i.val DIR_SLOTS with hi | hi
  · rw [FileEntry.shownAt_of_lt _ hi]
    rfl
  · exact (FileEntry.shownAt_of_ge _ hi).2.2

theorem StoreCommit.sameWalk (h : WellFormed st) {Q : Nat} (hQ : IsDir st.disk Q) :
    SameWalk st.disk st'.disk Q := by
  obtain ⟨dq, hdq⟩ := hQ.2
  by_cases hQP : Q = P
  · subst hQP
    rw [c.dir] at hdq
    cases hdq
    obtain ⟨d', hd', hp, hdb⟩ := c.dir_shown
    refine ⟨d, d', c.dir, hd', hp, fun name => ?_⟩
    have hnew : ¬ ((store_entry ((DirBlock.ofDisk d).entries idx) old leaf first data.length
        now).shownAt idx).Matches name (some 1) := by
      intro hm
      have := hm.2.1 1 rfl
      rw [store_entry_shown_type] at this
      cases this
    unfold childOf
    rw [hdb, find_setEntry_of_not_matches (c.slot_free (Or.inl rfl)) hnew]
    rcases hf : find_entry_index (DirBlock.ofDisk d) name (some 1) with _ | i
    · rfl
    · have hne : i ≠ idx := by
        rintro rfl
        exact c.slot_free (Or.inl rfl) (find_entry_index_eq_some.mp hf).1
      simp [DirBlock.setEntry, Function.update_of_ne hne]
  · have := dirOf_congr (c.disk_eq (c.grown.not_mem_of_live h (Or.inl hQ)) hQP)
    exact ⟨dq, dq, hdq, this.trans hdq, rfl, fun _ => rfl⟩

theorem StoreCommit.type_ne_one {j : Fin DIR_SLOTS} {e : FileEntry}
    (he : SlotHas st.disk P j e) (hj : j.val = idx.val) : e.type ≠ 1 := by
  obtain ⟨rfl, hused⟩ := slotHas_entry c.dir he hj
  intro ht
  refine @StoreCommit.slot_free _ _ _ _ _ _ _ _ _ _ _ _ _ _ _ c (some 1) _ (Or.inl rfl) ⟨hused, fun t h1 => ?_, rfl⟩
  cases h1
  exact ht

theorem StoreCommit.isDir (h : WellFormed st) {Q : Nat} (hQ : IsDir st.disk Q) :
    IsDir st'.disk Q := by
  refine isDir_of_kept (fun {R C} hR hC => ?_) (fun hR => ?_) hQ
  · obtain ⟨j, e, he, ht, rfl⟩ := hC
    refine ⟨j, e, c.slot_iff.mpr (Or.inr ⟨?_, Or.inl ?_, he⟩), ht, rfl⟩
    · rintro ⟨rfl, hj⟩
      exact c.type_ne_one he hj ht
    · exact c.grown.not_mem_of_live h (Or.inl hR)
  · obtain ⟨_, d', _, hd', _⟩ := c.sameWalk h hR
    exact ⟨d', hd'⟩

theorem StoreCommit.fileAt_frame (h : WellFormed st) {Q : Nat} {name : List UInt8}
    (hQ : IsDir st.disk Q) (hne : Q = P → name ≠ leaf ∧ ¬ ((store_entry
      ((DirBlock.ofDisk d).entries idx) old leaf first data.length now).shownAt idx).Matches
        name (some 0)) :
    fileAt st'.disk Q name = fileAt st.disk Q name := by
  unfold fileAt
  by_cases hQP : Q = P
  · subst hQP
    obtain ⟨hname, hnew⟩ := hne rfl
    obtain ⟨d', hd', _, hdb⟩ := c.dir_shown
    rw [hd', c.dir]
    simp only [hdb, find_setEntry_of_not_matches (c.slot_free (Or.inr hname)) hnew]
    rcases hf : find_entry_index (DirBlock.ofDisk d) name (some 0) with _ | i
    · rfl
    · have hidx : i ≠ idx := by
        rintro rfl
        exact c.slot_free (Or.inr hname) (find_entry_index_eq_some.mp hf).1
      simp [DirBlock.setEntry, Function.update_of_ne hidx]
  · rw [dirOf_congr (c.disk_eq (c.grown.not_mem_of_live h (Or.inl hQ)) hQP)]

theorem StoreCommit.fileAt_new {name : List UInt8} (hm : ((store_entry
      ((DirBlock.ofDisk d).entries idx) old leaf first data.length now).shownAt idx).Matches
        name (some 0))
    (hfirst : ∀ j < idx, ¬ ((DirBlock.ofDisk d).entries j).Matches name (some 0)) :
    fileAt st'.disk P name = .ok ((store_entry ((DirBlock.ofDisk d).entries idx) old leaf first
      data.length now).shownAt idx) := by
  obtain ⟨d', hd', _, hdb⟩ := c.dir_shown
  rw [fileAt_eq_ok]
  refine ⟨d', idx, hd', ?_, by rw [hdb]; simp [DirBlock.setEntry]⟩
  rw [hdb, find_entry_index_eq_some]
  refine ⟨by simpa [DirBlock.setEntry] using hm, fun j hj => ?_⟩
  simpa [DirBlock.setEntry, Function.update_of_ne (Fin.ne_of_lt hj)] using hfirst j hj

theorem StoreCommit.slot_first {f : Option Nat} :
    ∀ j < idx, ¬ ((DirBlock.ofDisk d).entries j).Matches leaf f := by
  intro j hj hm
  have hany : ((DirBlock.ofDisk d).entries j).Matches leaf none :=
    ⟨hm.1, fun t ht => by simp at ht, hm.2.2⟩
  rcases store_slot_ok c.slot with ⟨_, hf, _⟩ | ⟨_, hf, _⟩
  · exact (find_entry_index_eq_some.mp hf).2 j hj hany
  · exact find_entry_index_eq_none.mp hf j hany

theorem StoreCommit.fileAt_self (hi : idx.val < DIR_SLOTS) (hnul : 0 ∉ leaf)
    (hne : leaf ≠ []) (hlen : leaf.length ≤ 19) : fileAt st'.disk P leaf = .ok
      (store_entry ((DirBlock.ofDisk d).entries idx) old leaf first data.length now) := by
  have hname := store_entry_nameStr ((DirBlock.ofDisk d).entries idx) old hnul first
    data.length now
  rw [List.take_of_length_le hlen] at hname
  have hself := @StoreCommit.fileAt_new _ _ _ _ _ _ _ _ _ _ _ _ _ _ _ c leaf
  rw [FileEntry.shownAt_of_lt _ hi] at hself
  refine hself ⟨?_, ?_, hname⟩ c.slot_first
  · rw [FileEntry.inUse_iff, hname]
    exact hne
  · rintro t ht
    cases ht
    rfl

theorem StoreCommit.blocks_frame (h : WellFormed st) (hP : IsDir st.disk P) {b : Nat}
    (hb : Live st.disk b) (hn : ¬ IsDir st.disk b) : st'.disk b = st.disk b :=
  c.disk_eq (c.grown.not_mem_of_live h hb) fun he => hn (he ▸ hP)

theorem StoreCommit.load_self (h : WellFormed st) (hP : IsDir st.disk P) :
    load_loop st'.disk data.length first = data := by
  rw [← c.file.load]
  conv_lhs => rw [c.file.load]
  refine load_loop_congr c.file.chain (fun x hx => ?_) data.length
  rw [c.final, freeAll_disk, write_dir_disk_ne]
  rintro rfl
  exact c.grown.not_mem_of_live h (Or.inl hP) hx

end

/-! ## Read after write -/

/-- The slot that a store under a name of directory `P` uses. -/
def usedSlot (st : FsState) (P : Nat) (leaf : List UInt8) : Option (Fin MAX_DIR_ENTRIES) :=
  (dirOf st.disk P).bind fun d => (store_slot (DirBlock.ofDisk d) leaf).toOption.map Prod.fst

omit [BuildConfig] in
theorem not_storeRefused_of_usedSlot {i : Fin MAX_DIR_ENTRIES}
    (h : usedSlot st P leaf = some i) : ¬ StoreRefused st P leaf := by
  intro href
  obtain ⟨d, hd, h⟩ := Option.bind_eq_some_iff.mp h
  obtain ⟨rc, hrc⟩ := href d hd
  rw [hrc] at h
  cases h

theorem StoreCommit.usedSlot_eq {data : List UInt8} {now : Nat} {d : DiskDir}
    {idx : Fin MAX_DIR_ENTRIES} {old : Option FileEntry} {first : Nat} {l lold : List Nat}
    {ws : List (Nat × Block)}
    (c : StoreCommit st mid st' P leaf data now d idx old first l lold ws) :
    usedSlot st P leaf = some idx := by
  simp [usedSlot, c.dir, c.slot, Except.toOption]

/-- What a store of `data` under `name` owes the loads after it. -/
structure ReadsBack (st st' : FsState) (w : Window) (name data : List UInt8) : Prop where
  load : ∀ max_size, data.length ≤ max_size → load_file_bytes st' w name max_size = (0, data)
  load_alloc : ∀ malloc : Nat → Bool, load_file_bytes_alloc malloc st' w name =
    if malloc (if data.length = 0 then 1 else data.length) then (0, data) else (-4, [])
  created_at : ∀ d i, dirOf st.disk w.cwd_bno = some d →
    find_entry_index (DirBlock.ofDisk d) name none = some i →
    ∃ e, fileAt st'.disk w.cwd_bno name = .ok e ∧ e.ctime = ((DirBlock.ofDisk d).entries i).ctime
  frame : ∀ w' name', IsDir st.disk w'.cwd_bno →
    (file_target st w' name' w'.cwd_bno).2 ≠ some (w.cwd_bno, name) → SameLoads st st' w' name'

theorem PlainName.target {name : List UInt8} (hname : PlainName name) (st : FsState) (w : Window)
    (b : Nat) : file_target st w name b = (st, some (b, name)) := by
  simp [file_target, hname.usesResolve]

theorem StoreCommit.readsBack {w : Window} {name data : List UInt8} {now : Nat} {d : DiskDir}
    {idx : Fin MAX_DIR_ENTRIES} {old : Option FileEntry} {first : Nat} {l lold : List Nat}
    {ws : List (Nat × Block)}
    (c : StoreCommit st mid st' w.cwd_bno name data now d idx old first l lold ws)
    (h : WellFormed st) (hw : IsDir st.disk w.cwd_bno) (hname : PlainName name)
    (hi : idx.val < DIR_SLOTS) : ReadsBack st st' w name data := by
  have hself := c.fileAt_self hi hname.nul_free hname.ne_nil hname.short
  have hload := c.load_self h hw
  have hfirst := c.file.ne_zero
  refine ⟨fun n hn => ?_, fun malloc => ?_, fun d' i hd' hf => ?_, fun w' name' hw' hne => ?_⟩
  · rw [load_file_bytes_eq, hname.target]
    simp only [loadAt, hself]
    rw [if_neg (by simpa [store_entry] using hn)]
    exact congrArg (Prod.mk 0) hload
  · rw [load_file_bytes_alloc_eq, hname.target]
    simp only [loadAllocAt, hself, store_entry, hload, hfirst, if_false, ne_eq,
      not_true_eq_false]
    rcases malloc (if data.length = 0 then 1 else data.length) <;> rfl
  · refine ⟨_, hself, ?_⟩
    rw [c.dir] at hd'
    cases hd'
    rcases store_slot_ok c.slot with ⟨rfl, hf', _⟩ | ⟨_, hf', _⟩
    · rw [hf'] at hf
      cases hf
      rfl
    · rw [hf'] at hf
      cases hf
  · refine sameLoads_of_tree h.tree hw' (fun hQ => c.sameWalk h hQ) (fun {Q leaf} ht hQ => ?_)
      (fun hb hn => c.blocks_frame h hw hb hn)
    refine c.fileAt_frame h hQ fun he => ?_
    have hleaf : leaf ≠ name := fun hl => hne (by rw [ht, he, hl])
    refine ⟨hleaf, fun hm => hleaf ?_⟩
    have hm := hm.2.2
    rw [FileEntry.shownAt_of_lt _ hi, store_entry_nameStr _ _ hname.nul_free,
      List.take_of_length_le hname.short] at hm
    exact hm.symm

theorem WellFormed.plain_commit (h : WellFormed st) {w : Window} (hw : IsDir st.disk w.cwd_bno)
    {name data : List UInt8} (hname : PlainName name) {now : Nat}
    (hs : store_file_bytes st w name data now = some (0, st')) :
    ∃ mid d idx old first l lold ws,
      StoreCommit st mid st' w.cwd_bno name data now d idx old first l lold ws := by
  rw [store_file_bytes_eq h.ready, orRoot_of_ne_zero (h.tree.isDir_ne_zero hw),
    hname.target] at hs
  rcases store_into_cases h.ready hs with ⟨h0, _⟩ | ⟨h4, _⟩ | ⟨_, hc⟩
  · exact absurd rfl h0
  · cases h4
  · exact hc

/-- A store that returns 0 in a slot inside the block is read back, and every other file of
the tree loads as before. -/
theorem store_reads_back (h : WellFormed st) {w : Window} (hw : IsDir st.disk w.cwd_bno)
    {name data : List UInt8} (hname : PlainName name) {now : Nat}
    (hs : store_file_bytes st w name data now = some (0, st'))
    (hslot : ∀ i, usedSlot st w.cwd_bno name = some i → SlotInside i) :
    ReadsBack st st' w name data := by
  obtain ⟨mid, d, idx, old, first, l, lold, ws, c⟩ := h.plain_commit hw hname hs
  exact c.readsBack h hw hname ((slotInside_iff _).mp (hslot idx c.usedSlot_eq))

theorem WellFormed.store_into_ok (h : WellFormed st) (hP : IsDir st.disk P) {data : List UInt8}
    (now : Nat) (hslot : ¬ StoreRefused st P leaf) (hroom : storeNeeds data.length ≤ freeAhead st) :
    ∃ st', store_into st P leaf data now = some (0, st') := by
  have := BuildConfig.word_fits
  obtain ⟨⟨rc, st'⟩, hs⟩ := @store_into_total _ st P leaf data now h.ready fun he => by
    obtain ⟨l, hl, hm⟩ := h.tree.sound.chain hP he
    exact ⟨l, hl, fun b hb => ⟨by have := (hm b hb).2.1; omega, (hm b hb).2.2⟩⟩
  cases store_into_rc_zero h.ready hs hslot hroom
  exact ⟨st', hs⟩

end

section

attribute [local instance] fpgaBuild

/-- The first file after a format. -/
theorem store_reads_back_first : ∃ st', store_file_bytes (format blankSystem).st
    (blankSystem.wins 0) (lit ['f']) (lit ['h', 'i']) 1 = some (0, st') ∧
    ReadsBack (format blankSystem).st st' (blankSystem.wins 0) (lit ['f']) (lit ['h', 'i']) := by
  have h : WellFormed (format blankSystem).st := (inv_format _).wellFormed
  have hslot : usedSlot (format blankSystem).st 1 (lit ['f']) = some ⟨0, by decide⟩ := by
    decide +kernel
  obtain ⟨st', hs⟩ := @WellFormed.store_into_ok _ _ 1 (lit ['f']) h h.tree.isDir_root
    (lit ['h', 'i']) 1 (not_storeRefused_of_usedSlot hslot) (by decide +kernel)
  refine ⟨st', hs, store_reads_back h h.tree.isDir_root
    ⟨by decide, by decide, by decide, by decide, by decide⟩ hs fun i hi => ?_⟩
  cases hslot.symm.trans hi
  decide

/-- Without memory for the buffer, `load_file_bytes_alloc` does not give the file. -/
theorem load_alloc_without_memory : ∃ (st st' : FsState) (w : Window) (name data : List UInt8),
    WellFormed st ∧ IsDir st.disk w.cwd_bno ∧ PlainName name ∧
    store_file_bytes st w name data 1 = some (0, st') ∧
    (∀ i, usedSlot st w.cwd_bno name = some i → SlotInside i) ∧
    ¬ ∀ malloc, load_file_bytes_alloc malloc st' w name = (0, data) := by
  have h : WellFormed (format blankSystem).st := (inv_format _).wellFormed
  have hrun : (store_file_bytes (format blankSystem).st (blankSystem.wins 0) (lit ['f']) [] 1).map
      (fun r => (r.1, load_file_bytes_alloc (fun _ => false) r.2 (blankSystem.wins 0)
        (lit ['f']))) = some (0, -4, []) := by decide +kernel
  obtain ⟨⟨rc, st'⟩, hs, hr⟩ := Option.map_eq_some_iff.mp hrun
  obtain ⟨rfl, hload⟩ := Prod.mk.inj hr
  refine ⟨_, st', _, _, [], h, h.tree.isDir_root,
    ⟨by decide, by decide, by decide, by decide, by decide⟩, hs, by decide +kernel, fun hall => ?_⟩
  rw [hall] at hload
  cases hload

end

end vibeos.fs
