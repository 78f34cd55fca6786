-- A directory of the source with everything below it, from the bottom up: what the loop reads of it, a
-- destination that is new or there, and one where a file is in the way.
import Vibeos.CopyEntries

namespace vibeos.fs

open LinkChain

/-! ## The entries that the loop reads -/

theorem map_filter_congr {α β : Type} {p : β → Bool} {f g : α → β} {l : List α}
    (h : ∀ a ∈ l, f a = g a ∨ (p (f a) = false ∧ p (g a) = false)) :
    (l.map f).filter p = (l.map g).filter p := by
  induction l with
  | nil => rfl
  | cons a rest ih =>
    have hrest := ih fun x hx => h x (List.mem_cons_of_mem _ hx)
    rw [List.map_cons, List.map_cons]
    rcases h a List.mem_cons_self with heq | ⟨hf, hg⟩
    · rw [heq]
      by_cases hp : p (g a) = true
      · rw [List.filter_cons_of_pos hp, List.filter_cons_of_pos hp, hrest]
      · rw [List.filter_cons_of_neg hp, List.filter_cons_of_neg hp, hrest]
    · rw [List.filter_cons_of_neg (by rw [hf]; decide), List.filter_cons_of_neg (by rw [hg]; decide),
        hrest]

section

variable {d : DiskDir}

theorem inUse_copyEntries_edge (world : CopyWorld) (q : List UInt8) {i : Fin MAX_DIR_ENTRIES}
    (hi : i.val = DIR_SLOTS) :
    (copyEntries world q d i).inUse = ((DirBlock.ofDisk d).entries i).inUse := by
  unfold copyEntries DirBlock.ofDisk FileEntry.inUse
  dsimp only
  rw [dif_neg (by omega), dif_neg (by omega), if_pos hi, if_pos hi]
  dsimp only
  obtain ⟨edge, hedge⟩ := d.edge
  cases edge with
  | nil => exact absurd hedge (by decide)
  | cons c rest => rfl

theorem filter_copyEntries {world : CopyWorld} {q : List UInt8}
    (hbehind : ∀ i : Fin MAX_DIR_ENTRIES, DIR_SLOTS < i.val → (world.behind q i).inUse = false)
    (h : NamesInside (DirBlock.ofDisk d).entries) :
    ((List.finRange MAX_DIR_ENTRIES).map (copyEntries world q d)).filter (·.inUse) =
      dirEntries d := by
  apply map_filter_congr
  intro i _
  rcases Nat.lt_or_ge i.val DIR_SLOTS with hi | hi
  · refine Or.inl ?_
    rw [ofDisk_entries_of_lt d i hi]
    unfold copyEntries
    rw [dif_pos hi]
  -- behind the slots neither is in use
  have hdisk : ((DirBlock.ofDisk d).entries i).inUse = false := by
    rw [← Bool.not_eq_true]
    intro hused
    exact absurd ((slotInside_iff i).mp (h.inside i hused)) (Nat.not_lt.mpr hi)
  refine Or.inr ⟨?_, hdisk⟩
  rcases Nat.lt_or_eq_of_le hi with hlt | heq
  · have hread : copyEntries world q d i = world.behind q i := by
      unfold copyEntries
      rw [dif_neg (Nat.not_lt.mpr hi), if_neg (Nat.ne_of_gt hlt)]
    rw [hread]
    exact hbehind i hlt
  · exact (inUse_copyEntries_edge world q heq.symm).trans hdisk

theorem mem_dirEntries_slot {disk : Disk} {b : Nat} {e : FileEntry} (hd : dirOf disk b = some d)
    (h : NamesInside (DirBlock.ofDisk d).entries) (he : e ∈ dirEntries d) :
    ∃ i, SlotHas disk b i e := by
  obtain ⟨i, hi, hused⟩ := mem_dirEntries.mp he
  have hin := (slotInside_iff i).mp (h.inside i (hi ▸ hused))
  refine ⟨⟨i.val, hin⟩, d, hd, ?_, hused⟩
  rw [← hi, ofDisk_entries_of_lt d i hin]

theorem length_dirEntries (h : NamesInside (DirBlock.ofDisk d).entries) :
    (dirEntries d).length ≤ DIR_SLOTS := by
  have hbehind : (((List.finRange MAX_DIR_ENTRIES).drop DIR_SLOTS).map
      (DirBlock.ofDisk d).entries).filter (·.inUse) = [] := by
    rw [List.filter_eq_nil_iff]
    intro e he hused
    obtain ⟨i, hi, rfl⟩ := List.mem_map.mp he
    obtain ⟨j, hj, rfl⟩ := List.getElem_of_mem hi
    rw [List.getElem_drop, List.getElem_finRange] at hused
    have := (slotInside_iff _).mp (h.inside _ hused)
    exact absurd this (Nat.not_lt.mpr (Nat.le_add_right _ _))
  unfold dirEntries
  rw [← List.take_append_drop DIR_SLOTS (List.finRange MAX_DIR_ENTRIES), List.map_append,
    List.filter_append, hbehind, List.append_nil]
  calc _ ≤ (((List.finRange MAX_DIR_ENTRIES).take DIR_SLOTS).map
        (DirBlock.ofDisk d).entries).length := List.length_filter_le _ _
    _ ≤ DIR_SLOTS := by
      rw [List.length_map]
      exact List.length_take_le _ _

theorem nodup_dirEntries (h : EntryNames (DirBlock.ofDisk d).entries) :
    ((dirEntries d).map (·.nameStr)).Nodup := by
  unfold dirEntries
  rw [List.filter_map, List.map_map]
  refine List.Nodup.map_on ?_ ((List.nodup_finRange _).filter _)
  intro i hi j hj heq
  exact h.unique i j (List.mem_filter.mp hi).2 (List.mem_filter.mp hj).2 heq

end

section

variable [BuildConfig] {world : CopyWorld} {w : Window} {disk0 : Disk} {U T : Nat → Prop}
  {fromRoot : Bool} {src b D P n : Nat} {st st1 st' : FsState} {q leaf : List UInt8}
  {names : List (List UInt8)} {d d0 : DiskDir}
  {copy : FsState → Nat → List UInt8 → Option (Int × FsState)}

/-! ## A directory and everything below it -/

/-- The stack behind the blocks shows no entries. -/
def NothingBehind (world : CopyWorld) : Prop :=
  ∀ q (i : Fin MAX_DIR_ENTRIES), DIR_SLOTS < i.val → (world.behind q i).inUse = false

omit [BuildConfig] in
theorem exists_visit {disk : Disk} {x : Nat} (h : Forest.Below (DirChild disk) b x) :
    ∃ q' names', CopyVisits disk b q names x q' names' := by
  induction h with
  | refl => exact ⟨q, names, .root⟩
  | tail _ hc ih =>
    obtain ⟨q', names', hv⟩ := ih
    obtain ⟨i, e, he, ht, rfl⟩ := hc
    exact ⟨_, _, hv.child he ht⟩

omit [BuildConfig] in
theorem goodNames_of_visits {disk : Disk}
    (hvisits : ∀ x q' names', CopyVisits disk b q names x q' names' →
      VisitOk disk w fromRoot x q' names') : GoodNames disk b := by
  intro x d hx hd
  obtain ⟨q', names', hv⟩ : ∃ q' names', CopyVisits disk b q names x q' names' :=
    exists_visit hx
  exact (hvisits x q' names' hv).inside d hd

theorem copy_dir_loop (htree : TreeDisk U disk0) (hsrcdir : IsDir disk0 src) (hb : IsDir disk0 b)
    (hbelow : Forest.Below (Edge disk0) src b) (hbehind : NothingBehind world)
    (hcopy : ∀ c, DirChild disk0 b c → CopySpec disk0 src w fromRoot copy c) (hq : q ≠ [])
    (hvisits : ∀ x q' names', CopyVisits disk0 b q names x q' names' →
      VisitOk disk0 w fromRoot x q' names')
    (h : CopyState disk0 src w fromRoot T st names D) (hd0 : dirOf disk0 b = some d0)
    (hfits : ∀ n, MergeFits disk0 src st.disk n b D) :
    ∃ rc st', copy_loop world w b q copy
        ((List.finRange MAX_DIR_ENTRIES).map (copyEntries world q d0)) st = some (rc, st') ∧
      (rc = 0 → ∃ T' d d', Inv T' st' ∧
        CopiedUnder disk0 src D ((dirEntries d0).map (·.nameStr)) d d' st st' ∧
        ∀ e ∈ dirEntries d0, CopiedTo disk0 st st' D e) := by
  have hgood := goodNames_of_visits hvisits
  have hinside := hgood b d0 .refl hd0
  obtain ⟨hsrc, d1, d, hd1, hd, hnames, hroom, -⟩ := hfits 1
  obtain rfl : d0 = d1 := Option.some.inj (hd0.symm.trans hd1)
  have hslots : ∀ e ∈ dirEntries d0, ∃ i, SlotHas disk0 b i e := fun e he =>
    mem_dirEntries_slot hd0 hinside he
  have hdirs : ∀ e ∈ dirEntries d0, e.type = 1 → CopySpec disk0 src w fromRoot copy e.bno :=
    fun e he htype => hcopy e.bno (dirChild_of_mem hd0 he htype)
  have hmeets : ∀ e ∈ dirEntries d0, e.type = 1 → ∀ n,
      NameFits disk0 st.disk (MergeFits disk0 src st.disk n) D e.bno e.nameStr := by
    intro e he htype n
    obtain ⟨-, d1, -, hd1, -, -, -, hall⟩ := hfits (n + 1)
    obtain rfl : d0 = d1 := Option.some.inj (hd0.symm.trans hd1)
    exact hall e he htype
  rw [copy_loop_filter, filter_copyEntries (hbehind q) hinside]
  obtain ⟨rc, st', hloop, hdone⟩ : ∃ rc st', copy_loop world w b q copy (dirEntries d0) st =
      some (rc, st') ∧ (rc = 0 → ∃ T' d', Inv T' st' ∧
        CopiedUnder disk0 src D ((dirEntries d0).map (·.nameStr)) d d' st st' ∧
        ∀ e ∈ dirEntries d0, CopiedTo disk0 st st' D e) :=
    copy_loop_spec htree hsrcdir hb hbelow hgood hq hvisits hsrc hslots
      (fun e he => hgood.no_up hd0 he) (nodup_dirEntries hinside.toEntryNames) hdirs h hd hnames
      hroom hmeets
  refine ⟨rc, st', hloop, fun h0 => ?_⟩
  obtain ⟨T', d', hrest⟩ := hdone h0
  exact ⟨T', d, d', hrest⟩

omit [BuildConfig] in
theorem hasCopy_of_copied {d' : DiskDir} (hd0 : dirOf disk0 b = some d0)
    (hd' : dirOf st'.disk D = some d') (hall : ∀ e ∈ dirEntries d0, CopiedTo disk0 st st' D e)
    (n : Nat) : HasCopy disk0 st'.disk n b D := by
  cases n with
  | zero => trivial
  | succ n =>
    refine ⟨d0, d', hd0, hd', fun e he => ?_⟩
    obtain ⟨i, e', he', hsame⟩ := hall e he
    exact ⟨e', he'.mem_dirEntries hd', (hsame n).1⟩

theorem hasCopy_back {d' : DiskDir} (hinv : Inv T st) (hd0 : dirOf disk0 b = some d0)
    (hunder : CopiedUnder disk0 src D ((dirEntries d0).map (·.nameStr)) d d' st st')
    (hempty : dirEntries d = []) (hall : ∀ e ∈ dirEntries d0, CopiedTo disk0 st st' D e) (n : Nat) :
    HasCopy st'.disk disk0 n D b := by
  have hnone : ∀ i e, ¬ SlotHas st.disk D i e := by
    intro i e he
    have := he.mem_dirEntries hunder.before
    rw [hempty] at this
    cases this
  cases n with
  | zero => trivial
  | succ n =>
    refine ⟨d', d0, hunder.after, hd0, fun f hf => ?_⟩
    obtain ⟨j, hj⟩ := mem_dirEntries_slot hunder.after hunder.names_after hf
    -- its name was written, so it is the copy of the entry with that name
    have hmem : f.nameStr ∈ (dirEntries d0).map (·.nameStr) := by
      by_contra hn
      exact hnone j f ((hunder.slot_iff hinv hn).mp hj)
    obtain ⟨e, he, hname⟩ := List.mem_map.mp hmem
    obtain ⟨i, e', he', hsame⟩ := hall e he
    have hname' : e'.nameStr = f.nameStr := (hsame 0).1.1.trans hname
    obtain ⟨-, rfl⟩ := hunder.names_after.slot_eq hunder.after he' hj hname'
    refine ⟨e, he, (hsame n).2 ?_⟩
    rw [Option.eq_none_iff_forall_ne_some]
    intro c hc
    obtain ⟨i, g, hg, -⟩ := (hunder.names.stepName_iff hunder.before
      (hunder.no_up _ (List.mem_map_of_mem he))).mp hc
    exact hnone i g hg

/-! ## The three destinations -/

theorem CopyState.mkdirTarget (h : CopyState disk0 src w fromRoot T st names P)
    (hplan : editorPlan w.home.bytes (terminal_expand_home_path w.home.bytes q 128) =
      some ⟨fromRoot, names, leaf⟩) : mkdirTarget st w q = some (P, leaf) :=
  h.leads.mkdirTarget h.occupied.ne_zero hplan

theorem mkdir_new_cases {now : Nat} {rc : Int} (hinv : Inv T st)
    (htarget : vibeos.fs.mkdirTarget st w q = some (P, leaf)) (hleaf : leaf ≠ [])
    (hd : dirOf st.disk P = some d)
    (habsent : find_entry_index (DirBlock.ofDisk d) leaf none = none)
    (hmake : local_mkdir_path st w q now = (rc, st1)) :
    rc = -1 ∨ rc = 0 ∧ ∃ mid i nb, MkdirCommit st mid st1 w q now P leaf d i nb := by
  have hsteps := local_mkdir_path_steps st w q now
  rw [hmake] at hsteps
  rcases hsteps with ⟨hrc, hwrites⟩ | ⟨-, -, hrc | ⟨-, hhere | ⟨P', leaf', htarget', hthere⟩⟩⟩
  · obtain ⟨mid, P', leaf', d', i, nb, c, htarget'⟩ := commit_of_mkdirWrites hinv.ready hwrites
    rw [htarget] at htarget'
    obtain ⟨rfl, rfl⟩ := Prod.mk.inj (Option.some.inj htarget')
    obtain rfl : d = d' := Option.some.inj (hd.symm.trans c.dir)
    exact Or.inr ⟨hrc, mid, i, nb, c⟩
  · exact Or.inl hrc
  · obtain ⟨P', htarget'⟩ := @mkdirTarget_here _ st w q hhere
    rw [htarget] at htarget'
    exact absurd (Prod.mk.inj (Option.some.inj htarget')).2 hleaf
  · rw [htarget] at htarget'
    obtain ⟨rfl, rfl⟩ := Prod.mk.inj (Option.some.inj htarget')
    obtain ⟨d', hd', hfound⟩ := hthere
    obtain rfl : d = d' := Option.some.inj (hd.symm.trans hd')
    exact absurd habsent hfound

theorem mkdir_there_cases {now : Nat} {rc : Int} (hinv : Inv T st)
    (htarget : vibeos.fs.mkdirTarget st w q = some (P, leaf)) (hd : dirOf st.disk P = some d)
    (hthere : find_entry_index (DirBlock.ofDisk d) leaf none ≠ none)
    (hmake : local_mkdir_path st w q now = (rc, st1)) : (rc = -1 ∨ rc = 0) ∧ st1 = st := by
  have hsteps := local_mkdir_path_steps st w q now
  rw [hmake] at hsteps
  rcases hsteps with ⟨-, hwrites⟩ | ⟨-, hkept, hrc⟩
  · obtain ⟨mid, P', leaf', d', i, nb, c, htarget'⟩ := commit_of_mkdirWrites hinv.ready hwrites
    rw [htarget] at htarget'
    obtain ⟨rfl, rfl⟩ := Prod.mk.inj (Option.some.inj htarget')
    obtain rfl : d = d' := Option.some.inj (hd.symm.trans c.dir)
    exact absurd c.absent hthere
  · refine ⟨hrc.imp_right And.left, ?_⟩
    rcases hkept with hst | hst
    · exact hst
    · rw [← ensure_ready_of_ready hinv.ready]
      exact hst

omit [BuildConfig] in
theorem mergeFits_new (hgood : GoodNames disk0 b) (hsrc : ¬ Forest.Below (Edge disk0) src D)
    (hb : IsDir disk0 b) (hD : dirOf st.disk D = some (emptyDir P).toDisk) (n : Nat) :
    MergeFits disk0 src st.disk n b D := by
  have hfree : ∀ i, ((DirBlock.ofDisk (emptyDir P).toDisk).entries i).inUse = false := by
    intro i
    rw [ofDisk_emptyDir]
    rfl
  have hnone : ∀ name f, find_entry_index (DirBlock.ofDisk (emptyDir P).toDisk) name f = none := by
    intro name f
    rw [find_entry_index_eq_none]
    rintro i ⟨hused, -⟩
    rw [hfree i] at hused
    cases hused
  cases n with
  | zero => trivial
  | succ n =>
    obtain ⟨d0, hd0⟩ := hb.2
    refine ⟨hsrc, d0, _, hd0, hD, ?_, ?_, ?_⟩
    · rw [ofDisk_emptyDir]
      exact namesInside_empty
    · have hslots : freeSlots (emptyDir P).toDisk = DIR_SLOTS := by
        unfold freeSlots
        rw [Finset.filter_true_of_mem, Finset.card_univ, Fintype.card_fin]
        intro i _
        have := hfree ⟨i.val, i.isLt.trans_le dir_slots_le⟩
        rwa [ofDisk_entries_of_lt _ _ i.isLt] at this
      rw [hslots]
      exact (List.length_filter_le _ _).trans (length_dirEntries (hgood b d0 .refl hd0))
    · intro e he ht
      unfold NameFits stepName childOf
      rw [hD, Option.bind_some, if_neg (hgood.no_up hd0 he), hnone, Option.map_none]
      intro d' hd' hfound
      obtain rfl := Option.some.inj hd'
      exact absurd (hnone _ _) hfound

omit [BuildConfig] in
theorem dirEntries_emptyDir (P : Nat) : dirEntries (emptyDir P).toDisk = [] := by
  rw [List.eq_nil_iff_forall_not_mem]
  intro e he
  obtain ⟨j, rfl, hused⟩ := mem_dirEntries.mp he
  rw [ofDisk_emptyDir] at hused
  cases hused

omit [BuildConfig] in
theorem foldlM_snoc_none {disk : Disk} (h : Leads disk w fromRoot names P)
    (hstep : stepName disk P leaf = none) :
    (names ++ [leaf]).foldlM (stepName disk) (planStart w fromRoot) = none := by
  unfold Leads at h
  rw [List.foldlM_append, h]
  change (stepName disk P leaf).bind _ = _
  rw [hstep]
  rfl

theorem copy_entry_blocked {e : FileEntry} (h : CopyState disk0 src w fromRoot T st names P)
    (hstep : stepName st.disk P leaf = none) (hq : q ≠ [])
    (hreads : EntryReads w fromRoot q (names ++ [leaf]) e)
    (hdeep : e.type = 1 → 0 < n) : ∃ rc st', copy_entry world w b q
      (copy_local_dir_recursive world w n) e st = some (rc, st') ∧ rc ≠ 0 := by
  have hfold := foldlM_snoc_none h.leads hstep
  unfold copy_entry
  dsimp only
  rw [if_neg (Nat.not_le.mpr hreads.fits)]
  by_cases htype : e.type = 1
  · rw [if_pos htype]
    obtain ⟨m, rfl⟩ := Nat.exists_eq_add_of_lt (hdeep htype)
    have htarget : vibeos.fs.mkdirTarget st w (childPath q e.nameStr) = none := by
      rw [mkdirTarget_plan (hreads.dir htype), hfold, Option.map_none]
    unfold copy_local_dir_recursive local_mkdir_call
    rw [if_pos (local_mkdir_fits_of_plan (hreads.dir htype) hreads.way st)]
    have hsteps := local_mkdir_path_steps st w (childPath q e.nameStr)
      (world.now (childPath q e.nameStr))
    rcases hmake : local_mkdir_path st w (childPath q e.nameStr)
      (world.now (childPath q e.nameStr)) with ⟨rc, st1⟩
    rw [hmake, mkdirWrites_none htarget] at hsteps
    dsimp only at hsteps ⊢
    rcases hsteps with ⟨-, hnone⟩ | ⟨-, -, rfl | ⟨-, hhere | ⟨P', leaf', htarget', -⟩⟩⟩
    · cases hnone
    · rw [if_pos (by decide)]
      exact ⟨-1, st1, rfl, by decide⟩
    · obtain ⟨P', htarget'⟩ := @mkdirTarget_here _ st w _ hhere
      rw [htarget] at htarget'
      cases htarget'
    · rw [htarget] at htarget'
      cases htarget'
  · rw [if_neg htype, load_entry_state h.inv.ready]
    rcases load_file_bytes_alloc (world.malloc (childPath q e.nameStr)) st
      (copyWindow b e.nameStr) e.nameStr with ⟨rc, buf⟩
    dsimp only
    by_cases hrc : rc ≠ 0
    · rw [if_pos hrc]
      exact ⟨rc, st, rfl, hrc⟩
    have huses : usesResolve (childPath q e.nameStr) = true := by
      unfold usesResolve
      rw [List.contains_iff_mem.mpr (slash_mem_childPath hq _)]
      rfl
    rw [if_neg hrc, if_neg (by rw [store_fits_of_plan (hreads.file htype) hreads.way]; decide),
      store_file_bytes_eq h.inv.ready, file_target_plan (hreads.file htype) huses, hfold,
      Option.map_none]
    exact ⟨-1, st, rfl, by decide⟩

theorem Effect.dir_same {W : Nat → List UInt8 → Prop} (h : Effect W st st') (hinv : Inv T st)
    (hP : IsDir st.disk P) (hW : ∀ name, ¬ W P name) : st'.disk P = st.disk P := by
  refine (h.same (hinv.occupied hP) ?_).1
  rintro (⟨name, hw⟩ | ⟨Q, i, e, hw, he, ht, hon⟩)
  · exact hW name hw
  · exact hinv.treeDisk.not_isDir_of_file (h.inside hw) he ht hon hP

omit [BuildConfig] in
theorem not_writes_parent {disk : Disk} {L : List (List UInt8)} {name : List UInt8}
    (htree : TreeDisk U disk) (hP : IsDir disk P) (hchild : DirChild disk P D)
    (hL : ∀ n ∈ L, n ≠ dotdotName) : ¬ Writes disk0 src disk D L P name := by
  have hedge := htree.edge_of_dirChild hP hchild
  have hD := htree.isDir_child hP hchild
  rintro ⟨-, -, ⟨rfl, -⟩ | ⟨n, hn, c, hstep, hbelow⟩⟩
  · exact htree.no_cycle hP (.single hedge)
  · have hc := dirChild_of_stepName (hL n hn) hstep
    exact htree.no_cycle hP (.head' hedge (.head (htree.edge_of_dirChild hD hc)
      (htree.below_edge (htree.isDir_child hD hc) hbelow)))

omit [BuildConfig] in
theorem writes_of_child {disk : Disk} {L : List (List UInt8)} {Q : Nat} {name : List UInt8}
    (hL : ∀ n ∈ L, n ≠ dotdotName) (hstep : stepName disk P leaf = some D)
    (h : Writes disk0 src disk D L Q name) : Writes disk0 src disk P [leaf] Q name := by
  obtain ⟨hQ, hsrc, ⟨rfl, -⟩ | ⟨n, hn, c, hc, hbelow⟩⟩ := h
  · exact ⟨hQ, hsrc, Or.inr ⟨leaf, List.mem_singleton_self _, Q, hstep, .refl⟩⟩
  · exact ⟨hQ, hsrc, Or.inr ⟨leaf, List.mem_singleton_self _, D, hstep,
      .head (dirChild_of_stepName (hL n hn) hc) hbelow⟩⟩

end

end vibeos.fs
