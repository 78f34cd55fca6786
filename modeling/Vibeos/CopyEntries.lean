-- One entry of the source, and the loop over a directory: each file and each directory that is copied
-- takes its name in the destination, and the entries that were copied before stay.
import Vibeos.CopyMerge

namespace vibeos.fs

open LinkChain

/-! ## The names of the destination -/

/-- What becomes of a directory in which a name is written: a new name takes a free slot, and an old
one keeps its own. -/
structure NamesAfter (d d' : DiskDir) (name : List UInt8) : Prop where
  inside : NamesInside (DirBlock.ofDisk d).entries → NamesInside (DirBlock.ofDisk d').entries
  fresh : find_entry_index (DirBlock.ofDisk d) name none = none → freeSlots d = freeSlots d' + 1
  there : find_entry_index (DirBlock.ofDisk d) name none ≠ none → freeSlots d' = freeSlots d

theorem namesAfter_refl {d : DiskDir} {name : List UInt8}
    (h : find_entry_index (DirBlock.ofDisk d) name none ≠ none) : NamesAfter d d name :=
  ⟨id, fun h' => absurd h' h, fun _ => rfl⟩

theorem namesAfter_set {d : DiskDir} {idx : Fin MAX_DIR_ENTRIES} {e : FileEntry}
    {name : List UInt8} (hi : idx.val < DIR_SLOTS) (hname : PathName name)
    (he : e.nameStr = name) (hslot : find_entry_index (DirBlock.ofDisk d) name none = some idx ∨
      find_entry_index (DirBlock.ofDisk d) name none = none ∧
        find_free_entry_index (DirBlock.ofDisk d) = some idx) :
    NamesAfter d ((DirBlock.ofDisk d).setEntry idx e).toDisk name := by
  have hused : e.inUse = true := by
    rw [FileEntry.inUse_iff, he]
    exact hname.ne_nil
  refine ⟨fun h => ?_, fun hnone => ?_, fun hsome => ?_⟩
  · rw [ofDisk_toDisk_setEntry]
    refine h.update_named ((slotInside_iff _).mpr hi) (he.symm ▸ hname) fun j hj hjname => ?_
    refine h.only_found ?_ j hj (hjname.trans he)
    rcases hslot with hf | ⟨hf, -⟩
    · exact Or.inr hf
    · exact Or.inl hf
  · obtain ⟨-, hfree⟩ := hslot.resolve_left fun hf => by rw [hnone] at hf; cases hf
    exact freeSlots_of_new rfl hi hused (find_free_entry_index_eq_some.mp hfree).1
  · have hf := hslot.resolve_right fun hf => hsome hf.1
    exact freeSlots_of_old rfl hi hused (find_entry_index_eq_some.mp hf).1.1

section

variable [BuildConfig] {world : CopyWorld} {w : Window} {disk0 : Disk} {U T : Nat → Prop}
  {fromRoot : Bool} {src b D P : Nat} {st st' : FsState} {q leaf : List UInt8}
  {names : List (List UInt8)} {d d0 : DiskDir} {i : Fin DIR_SLOTS} {e : FileEntry}
  {L : List FileEntry} {copy : FsState → Nat → List UInt8 → Option (Int × FsState)}

/-! ## The state of a copy -/

/-- The source is as it was, and the names of the path lead to directory `D`. -/
structure CopyState (disk0 : Disk) (src : Nat) (w : Window) (fromRoot : Bool) (T : Nat → Prop)
    (st : FsState) (names : List (List UInt8)) (D : Nat) : Prop where
  inv : Inv T st
  kept : Kept disk0 st src
  start : IsDir st.disk (planStart w fromRoot)
  leads : Leads st.disk w fromRoot names D

omit [BuildConfig] in
theorem isDir_of_stepName {disk : Disk} (h : TreeDisk U disk) {c : Nat} {name : List UInt8}
    (hb : IsDir disk b) (hc : stepName disk b name = some c) : IsDir disk c := by
  obtain ⟨d, hd, hstep⟩ := Option.bind_eq_some_iff.mp hc
  by_cases hup : name = dotdotName
  · rw [if_pos hup] at hstep
    obtain rfl := Option.some.inj hstep
    exact h.closed.parent hb hd
  · rw [if_neg hup] at hstep
    obtain ⟨i, hf, rfl⟩ := Option.map_eq_some_iff.mp hstep
    exact h.closed.child hb (dirChild_of_find hd hf)

omit [BuildConfig] in
theorem isDir_of_foldlM {disk : Disk} (h : TreeDisk U disk) {c : Nat} (hb : IsDir disk b)
    (hfold : names.foldlM (stepName disk) b = some c) : IsDir disk c := by
  induction names generalizing b with
  | nil =>
    obtain rfl : b = c := Option.some.inj hfold
    exact hb
  | cons name rest ih =>
    rw [List.foldlM_cons] at hfold
    obtain ⟨b', hstep, hrest⟩ := Option.bind_eq_some_iff.mp hfold
    exact ih (isDir_of_stepName h hb hstep) hrest

theorem Effect.foldlM {W : Nat → List UInt8 → Prop} (h : Effect W st st') (hinv : Inv T st)
    {c : Nat} (hb : IsDir st.disk b) (hfold : names.foldlM (stepName st.disk) b = some c) :
    names.foldlM (stepName st'.disk) b = some c := by
  induction names generalizing b with
  | nil => exact hfold
  | cons name rest ih =>
    rw [List.foldlM_cons] at hfold ⊢
    obtain ⟨b', hstep, hrest⟩ := Option.bind_eq_some_iff.mp hfold
    rw [h.steps hb hstep]
    exact ih (isDir_of_stepName hinv.treeDisk hb hstep) hrest

theorem CopyState.isDir (h : CopyState disk0 src w fromRoot T st names D) : IsDir st.disk D :=
  isDir_of_foldlM h.inv.treeDisk h.start h.leads

theorem CopyState.occupied (h : CopyState disk0 src w fromRoot T st names D) : Occupied st D :=
  h.inv.occupied h.isDir

theorem CopyState.effect {T' : Nat → Prop} {L : List (List UInt8)}
    (h : CopyState disk0 src w fromRoot T st names D) (hsrc : IsDir disk0 src)
    (heff : Effect (Writes disk0 src st.disk P L) st st') (hinv' : Inv T' st') :
    CopyState disk0 src w fromRoot T' st' names D where
  inv := hinv'
  kept := h.kept.effect hsrc h.inv heff fun _ _ hw => hw.2.1
  start := heff.dirs h.start
  leads := heff.foldlM h.inv h.start h.leads

/-! ## What is owed -/

/-- What a lookup found is no directory, or one without entries. -/
def EmptyAt (disk : Disk) (found : Option Nat) : Prop :=
  ∀ D d, found = some D → dirOf disk D = some d → dirEntries d = []

/-- What a copy of the tree below `b` leaves under the name `leaf` of directory `P`: all of the tree,
and nothing else when nothing was there. -/
def TreeAdded (disk0 : Disk) (src P : Nat) (d : DiskDir) (b : Nat) (leaf : List UInt8)
    (st st' : FsState) : Prop :=
  ∃ T' d' D, Inv T' st' ∧ Effect (Writes disk0 src st.disk P [leaf]) st st' ∧
    dirOf st'.disk P = some d' ∧ NamesAfter d d' leaf ∧ stepName st'.disk P leaf = some D ∧
    (∀ n, HasCopy disk0 st'.disk n b D) ∧
    (EmptyAt st.disk (stepName st.disk P leaf) → ∀ n, HasCopy st'.disk disk0 n D b)

/-- The copy returns, and when it succeeds the name is a copy of the tree below `b`. -/
def CopySpec (disk0 : Disk) (src : Nat) (w : Window) (fromRoot : Bool)
    (copy : FsState → Nat → List UInt8 → Option (Int × FsState)) (b : Nat) : Prop :=
  ∀ {T : Nat → Prop} {st : FsState} {q : List UInt8} {names : List (List UInt8)} {P : Nat}
    {leaf : List UInt8} {d : DiskDir}, CopyState disk0 src w fromRoot T st names P →
    dirOf st.disk P = some d →
    (∀ n, NameFits disk0 st.disk (MergeFits disk0 src st.disk n) P b leaf) →
    (find_entry_index (DirBlock.ofDisk d) leaf none = none →
      0 < freeSlots d ∧ ¬ Forest.Below (Edge disk0) src P) →
    editorPlan w.home.bytes (terminal_expand_home_path w.home.bytes q 128) =
      some ⟨fromRoot, names, leaf⟩ → local_mkdir_fits st w q = true → PathName leaf → 0 ∉ leaf →
    (∀ x q' names', CopyVisits disk0 b q (names ++ [leaf]) x q' names' →
      VisitOk disk0 w fromRoot x q' names') →
    ∃ rc st', copy st b q = some (rc, st') ∧ (rc = 0 → TreeAdded disk0 src P d b leaf st st')

/-- What one entry of the source adds to the destination `D`. -/
def EntryAdded (disk0 : Disk) (src D : Nat) (d : DiskDir) (e : FileEntry) (st st' : FsState) :
    Prop :=
  ∃ T' d', Inv T' st' ∧ Effect (Writes disk0 src st.disk D [e.nameStr]) st st' ∧
    dirOf st'.disk D = some d' ∧ NamesAfter d d' e.nameStr ∧ CopiedTo disk0 st st' D e

/-! ## One entry -/

omit [BuildConfig] in
theorem onlyPair_writes (hD : IsDir st.disk D) (hsrc : ¬ Forest.Below (Edge disk0) src D)
    {name : List UInt8} {Q : Nat} {n : List UInt8} (h : OnlyPair D name Q n) :
    Writes disk0 src st.disk D [name] Q n := by
  obtain ⟨rfl, rfl⟩ := h
  exact ⟨hD, hsrc, Or.inl ⟨rfl, List.mem_singleton_self _⟩⟩

theorem store_added (h : Inv T st) (hD : IsDir st.disk D)
    (hsrc : ¬ Forest.Below (Edge disk0) src D) (hd : dirOf st.disk D = some d)
    (hnames : NamesInside (DirBlock.ofDisk d).entries)
    (hroom : find_entry_index (DirBlock.ofDisk d) e.nameStr none = none → 0 < freeSlots d)
    {data : List UInt8} {now : Nat} (hname : PathName e.nameStr) (htype : e.type ≠ 1)
    (hbytes : load_loop disk0 e.size e.bno = data) :
    ∃ rc st', store_into st D e.nameStr data now = some (rc, st') ∧
      (rc = 0 → EntryAdded disk0 src D d e st st') := by
  obtain ⟨⟨rc, st'⟩, hstore⟩ := @store_into_total _ st D e.nameStr data now h.ready
    fun he => h.chain_of_slot (h.isDir_mem hD) he
  refine ⟨rc, st', hstore, fun hrc => ?_⟩
  subst hrc
  rcases store_into_cases h.ready hstore with ⟨h0, -⟩ | ⟨h4, -⟩ | ⟨-, mid, d', idx, old, first, l,
    lold, ws, c⟩
  · exact absurd rfl h0
  · cases h4
  obtain rfl : d = d' := Option.some.inj (hd.symm.trans c.dir)
  have hnul : 0 ∉ e.nameStr := nul_not_mem_cstr _
  have hstr : (store_entry ((DirBlock.ofDisk d).entries idx) old e.nameStr first data.length
      now).nameStr = e.nameStr := by
    rw [store_entry_nameStr _ _ hnul, List.take_of_length_le hname.short]
  have hused : (store_entry ((DirBlock.ofDisk d).entries idx) old e.nameStr first data.length
      now).inUse = true := by
    rw [FileEntry.inUse_iff, hstr]
    exact hname.ne_nil
  have hslot : find_entry_index (DirBlock.ofDisk d) e.nameStr none = some idx ∨
      find_entry_index (DirBlock.ofDisk d) e.nameStr none = none ∧
        find_free_entry_index (DirBlock.ofDisk d) = some idx := by
    rcases store_slot_ok c.slot with ⟨-, hf, -⟩ | ⟨-, hf⟩
    · exact Or.inl hf
    · exact Or.inr hf
  have hi : idx.val < DIR_SLOTS := by
    rcases hslot with hf | ⟨hf, hfree⟩
    · exact (slotInside_iff _).mp (hnames.inside idx (find_entry_index_eq_some.mp hf).1.1)
    · exact (find_free_lt_iff hfree).mpr (hroom hf)
  have heff := (c.effect h hD hstr).mono (fun Q n => onlyPair_writes hD hsrc) fun _ _ hw => hw.1
  refine ⟨_, _, h.storeCommit (h.isDir_mem hD) c, heff, c.dir_after,
    namesAfter_set hi hname hstr hslot, ⟨idx.val, hi⟩, _,
    c.slot_iff.mpr (Or.inl ⟨rfl, rfl, rfl, hused⟩), fun n => ?_⟩
  have hfile : (store_entry ((DirBlock.ofDisk d).entries idx) old e.nameStr first data.length
      now).type ≠ 1 := by
    change (0 : Nat) ≠ 1
    decide
  have hload : load_loop st'.disk data.length first = load_loop disk0 e.size e.bno := by
    rw [hbytes]
    exact c.load_self h.wellFormed hD
  refine ⟨⟨hstr, iff_of_false hfile htype, ?_⟩, fun _ => ⟨hstr.symm, iff_of_false htype hfile, ?_⟩⟩
  · rw [if_neg htype]
    exact hload
  · rw [if_neg hfile]
    exact hload.symm

theorem TreeAdded.entry (h : TreeAdded disk0 src D d e.bno e.nameStr st st') (htype : e.type = 1)
    (hnames : NamesInside (DirBlock.ofDisk d).entries) (hup : e.nameStr ≠ dotdotName) :
    EntryAdded disk0 src D d e st st' := by
  obtain ⟨T', d', D', hinv', heff, hd', hafter, hstep, hcopy, hback⟩ := h
  obtain ⟨i, e', he', hname, ht, rfl⟩ := ((hafter.inside hnames).stepName_iff hd' hup).mp hstep
  refine ⟨T', d', hinv', heff, hd', hafter, i, e', he', fun n => ?_⟩
  refine ⟨⟨hname, iff_of_true ht htype, ?_⟩, fun hnew => ⟨hname.symm, iff_of_true htype ht, ?_⟩⟩
  · rw [if_pos htype]
    exact hcopy n
  · rw [if_pos ht]
    refine hback (fun D d hD => ?_) n
    rw [hnew] at hD
    cases hD

theorem copy_entry_spec (htree : TreeDisk U disk0) (hb : IsDir disk0 b)
    (hbelow : Forest.Below (Edge disk0) src b) (h : CopyState disk0 src w fromRoot T st names D)
    (hsrc : ¬ Forest.Below (Edge disk0) src D) (hd : dirOf st.disk D = some d)
    (hnames : NamesInside (DirBlock.ofDisk d).entries)
    (hroom : find_entry_index (DirBlock.ofDisk d) e.nameStr none = none → 0 < freeSlots d)
    (hq : q ≠ []) (hvisits : ∀ x q' names', CopyVisits disk0 b q names x q' names' →
      VisitOk disk0 w fromRoot x q' names') (he : SlotHas disk0 b i e)
    (hfits : e.type = 1 →
      ∀ n, NameFits disk0 st.disk (MergeFits disk0 src st.disk n) D e.bno e.nameStr)
    (hcopy : e.type = 1 → CopySpec disk0 src w fromRoot copy e.bno) :
    ∃ rc st', copy_entry world w b q copy e st = some (rc, st') ∧
      (rc = 0 → EntryAdded disk0 src D d e st st') := by
  have hok := hvisits b q names .root
  obtain ⟨d0, hd0, hslot, hused⟩ := id he
  have hinside := hok.inside d0 hd0
  have hshown := ofDisk_entries_of_lt d0 ⟨i.val, i.isLt.trans_le dir_slots_le⟩ i.isLt
  have hname : PathName e.nameStr := by
    rw [← hslot, ← hshown]
    exact hinside.valid _ (by rw [hshown, hslot]; exact hused)
  obtain ⟨hlen, hway, hdir, hfile, hsource⟩ := hok.reads i e he
  unfold copy_entry
  dsimp only
  rw [if_neg (Nat.not_le.mpr hlen)]
  by_cases htype : e.type = 1
  · -- a directory: the recursive call goes below the destination
    rw [if_pos htype]
    obtain ⟨rc, st', hcall, hdone⟩ := hcopy htype h hd (hfits htype)
      (fun hnew => ⟨hroom hnew, hsrc⟩) (hdir htype)
      (local_mkdir_fits_of_plan (hdir htype) hway st) hname (nul_not_mem_cstr _)
      fun x q' names' hx => hvisits x q' names' (.under he htype hx)
    exact ⟨rc, st', hcall, fun hrc => (hdone hrc).entry htype hnames hname.ne_dotdot⟩
  · -- a file: its bytes go through a buffer
    rw [if_neg htype, load_entry_state h.inv.ready]
    rcases hload : load_file_bytes_alloc (world.malloc (childPath q e.nameStr)) st
      (copyWindow b e.nameStr) e.nameStr with ⟨rc, buf⟩
    dsimp only
    by_cases hrc : rc ≠ 0
    · rw [if_pos hrc]
      exact ⟨rc, st, rfl, fun h0 => absurd h0 hrc⟩
    obtain rfl : rc = 0 := not_not.mp hrc
    have huses : usesResolve (childPath q e.nameStr) = true := by
      unfold usesResolve
      rw [List.contains_iff_mem.mpr (slash_mem_childPath hq _)]
      rfl
    have hleads := h.leads
    unfold Leads at hleads
    rw [if_neg hrc, if_neg (by rw [store_fits_of_plan (hfile htype) hway]; decide),
      store_file_bytes_eq h.inv.ready, file_target_plan (hfile htype) huses, hleads, Option.map_some, orRoot_of_ne_zero h.occupied.ne_zero]
    exact store_added h.inv h.isDir hsrc hd hnames hroom hname htype
      (load_source h.kept htree hb hbelow hd0 hinside he (hsource htype) hload)

/-! ## The loop -/

omit [BuildConfig] in
theorem newEntries_length_cons {rest : List FileEntry} {d' : DiskDir}
    (hafter : NamesAfter d d' e.nameStr)
    (hrest : ∀ f ∈ rest, find_entry_index (DirBlock.ofDisk d') f.nameStr none = none ↔
      find_entry_index (DirBlock.ofDisk d) f.nameStr none = none)
    (hroom : (newEntries d (e :: rest)).length ≤ freeSlots d) :
    (newEntries d' rest).length ≤ freeSlots d' := by
  have heq : newEntries d' rest = newEntries d rest := by
    unfold newEntries
    refine List.filter_congr fun f hf => ?_
    exact decide_eq_decide.mpr (hrest f hf)
  rw [heq]
  by_cases hnew : find_entry_index (DirBlock.ofDisk d) e.nameStr none = none
  · rw [newEntries_cons_of_new hnew, List.length_cons, hafter.fresh hnew] at hroom
    exact Nat.le_of_succ_le_succ hroom
  · rw [newEntries_cons_of_old hnew] at hroom
    rw [hafter.there hnew]
    exact hroom

theorem copy_loop_filter (world : CopyWorld) (w : Window) (b : Nat) (q : List UInt8)
    (copy : FsState → Nat → List UInt8 → Option (Int × FsState)) (L : List FileEntry)
    (st : FsState) :
    copy_loop world w b q copy L st = copy_loop world w b q copy (L.filter (·.inUse)) st := by
  induction L generalizing st with
  | nil => rfl
  | cons e rest ih =>
    by_cases hused : e.inUse = true
    · rw [List.filter_cons_of_pos hused]
      unfold copy_loop
      rw [if_neg (by rw [hused]; decide), if_neg (by rw [hused]; decide)]
      simp only [ih]
    · rw [List.filter_cons_of_neg hused, ← ih, copy_loop,
        if_pos (Bool.eq_false_iff.mpr hused)]

theorem copy_loop_spec (htree : TreeDisk U disk0) (hsrcdir : IsDir disk0 src) (hb : IsDir disk0 b)
    (hbelow : Forest.Below (Edge disk0) src b) (hgood : GoodNames disk0 b) (hq : q ≠ [])
    (hvisits : ∀ x q' names', CopyVisits disk0 b q names x q' names' →
      VisitOk disk0 w fromRoot x q' names')
    (hsrc : ¬ Forest.Below (Edge disk0) src D) (hL : ∀ e ∈ L, ∃ i, SlotHas disk0 b i e)
    (hup : ∀ e ∈ L, e.nameStr ≠ dotdotName) (hnodup : (L.map (·.nameStr)).Nodup)
    (hcopy : ∀ e ∈ L, e.type = 1 → CopySpec disk0 src w fromRoot copy e.bno)
    (h : CopyState disk0 src w fromRoot T st names D) (hd : dirOf st.disk D = some d)
    (hnames : NamesInside (DirBlock.ofDisk d).entries)
    (hroom : (newEntries d L).length ≤ freeSlots d)
    (hfits : ∀ e ∈ L, e.type = 1 →
      ∀ n, NameFits disk0 st.disk (MergeFits disk0 src st.disk n) D e.bno e.nameStr) :
    ∃ rc st', copy_loop world w b q copy L st = some (rc, st') ∧ (rc = 0 →
      ∃ T' d', Inv T' st' ∧ CopiedUnder disk0 src D (L.map (·.nameStr)) d d' st st' ∧
        ∀ e ∈ L, CopiedTo disk0 st st' D e) := by
  induction L generalizing T st d with
  | nil =>
    refine ⟨0, st, rfl, fun _ => ⟨T, d, h.inv, ⟨?_, h.isDir, hd, hd, hnames, hnames, ?_⟩, ?_⟩⟩
    · exact Effect.refl fun _ _ hw => hw.1
    · exact fun _ hn => absurd hn List.not_mem_nil
    · exact fun _ he => absurd he List.not_mem_nil
  | cons e rest ih =>
    obtain ⟨i, he⟩ := hL e List.mem_cons_self
    obtain ⟨-, -, -, hused⟩ := id he
    have hnew : find_entry_index (DirBlock.ofDisk d) e.nameStr none = none → 0 < freeSlots d := by
      intro hnone
      rw [newEntries_cons_of_new hnone, List.length_cons] at hroom
      omega
    obtain ⟨rc1, st1, hentry, hadded⟩ : ∃ rc st1, copy_entry world w b q copy e st =
        some (rc, st1) ∧ (rc = 0 → EntryAdded disk0 src D d e st st1) :=
      copy_entry_spec htree hb hbelow h hsrc hd hnames hnew hq hvisits he
        (hfits e List.mem_cons_self) (hcopy e List.mem_cons_self)
    unfold copy_loop
    rw [if_neg (by rw [hused]; decide), hentry]
    dsimp only
    by_cases hrc : rc1 ≠ 0
    · rw [if_pos hrc]
      exact ⟨-1, st1, rfl, fun h0 => absurd h0 (by decide)⟩
    rw [if_neg hrc]
    obtain ⟨T1, d1, hinv1, heff1, hd1, hafter, hcopied⟩ := hadded (not_not.mp hrc)
    have hnames1 := hafter.inside hnames
    have hup1 : ∀ n ∈ [e.nameStr], n ≠ dotdotName := by
      intro n hn
      rw [List.mem_singleton.mp hn]
      exact hup e List.mem_cons_self
    have hunder1 : CopiedUnder disk0 src D [e.nameStr] d d1 st st1 :=
      ⟨heff1, h.isDir, hd, hd1, hnames, hnames1, hup1⟩
    rw [List.map_cons, List.nodup_cons] at hnodup
    have hother : ∀ f ∈ rest, f.nameStr ∉ [e.nameStr] := fun f hf hmem =>
      hnodup.1 (List.mem_singleton.mp hmem ▸ List.mem_map_of_mem hf)
    have hmem : ∀ {f}, f ∈ rest → f ∈ e :: rest := List.mem_cons_of_mem e
    obtain ⟨rc, st', hloop, hdone⟩ := ih (fun f hf => hL f (hmem hf)) (fun f hf => hup f (hmem hf))
      hnodup.2 (fun f hf => hcopy f (hmem hf)) (h.effect hsrcdir heff1 hinv1) hd1 hnames1
      (newEntries_length_cons hafter (fun f hf => hunder1.find_iff h.inv (hother f hf)) hroom)
      (fun f hf ht n => by
        obtain ⟨j, hj⟩ := hL f (hmem hf)
        exact hunder1.nameFits h.inv (hother f hf) (hup f (hmem hf))
          (hgood.child ⟨j, f, hj, ht, rfl⟩) (hfits f (hmem hf) ht n))
    refine ⟨rc, st', hloop, fun h0 => ?_⟩
    obtain ⟨T', d', hinv', hunder', hall⟩ := hdone h0
    have hdisj : ∀ n ∈ rest.map (·.nameStr), n ∉ [e.nameStr] := by
      intro n hn
      obtain ⟨f, hf, rfl⟩ := List.mem_map.mp hn
      exact hother f hf
    refine ⟨T', d', hinv', ⟨?_, h.isDir, hd, hunder'.after, hnames, hunder'.names_after, ?_⟩, ?_⟩
    · have hsub : ∀ Q n, Writes disk0 src st.disk D [e.nameStr] Q n →
          Writes disk0 src st.disk D ((e :: rest).map (·.nameStr)) Q n := by
        rintro Q n ⟨hQ, hs, ⟨rfl, hn⟩ | ⟨m, hm, hrest⟩⟩
        · exact ⟨hQ, hs, Or.inl ⟨rfl, List.mem_cons.mpr (Or.inl (List.mem_singleton.mp hn))⟩⟩
        · exact ⟨hQ, hs, Or.inr ⟨m, List.mem_cons.mpr (Or.inl (List.mem_singleton.mp hm)), hrest⟩⟩
      exact (heff1.mono hsub fun _ _ hw => hw.1).trans hunder'.effect h.inv
        fun _ _ hw hQ => hunder1.writes_back h.inv hdisj hunder'.no_up hw hQ
    · intro n hn
      obtain ⟨f, hf, rfl⟩ := List.mem_map.mp hn
      exact hup f hf
    · intro f hf
      rcases List.mem_cons.mp hf with rfl | hf
      · exact hcopied.under hunder' hinv1 hnodup.1
      · obtain ⟨j, f', hf', hsame⟩ := hall f hf
        refine ⟨j, f', hf', fun n => ⟨(hsame n).1, fun hnone => (hsame n).2 ?_⟩⟩
        rw [hunder1.stepName_eq h.inv (hother f hf) (hup f (hmem hf))]
        exact hnone

end

end vibeos.fs
