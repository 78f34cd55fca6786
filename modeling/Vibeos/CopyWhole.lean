-- The whole call of `copy_local_dir_recursive`: the condition under which it copies the tree and leaves
-- the source alone, and a copy that reports success and makes none.
import Vibeos.CopyResult

namespace vibeos.fs

open LinkChain

section

variable [BuildConfig] {world : CopyWorld} {w : Window} {disk0 : Disk} {U T : Nat → Prop}
  {fromRoot : Bool} {src b D P n : Nat} {st st1 st' : FsState} {q leaf : List UInt8}
  {names : List (List UInt8)} {d d0 : DiskDir}

/-! ## Directories from the bottom up -/

theorem TreeAdded.of_merge {T' : Nat → Prop} {d1 d1' : DiskDir}
    (h : CopyState disk0 src w fromRoot T st names P) (hinv' : Inv T' st')
    (hd : dirOf st.disk P = some d) (hup : leaf ≠ dotdotName)
    (hthere : find_entry_index (DirBlock.ofDisk d) leaf none ≠ none)
    (hstep : stepName st.disk P leaf = some D) (hd0 : dirOf disk0 b = some d0)
    (hunder : CopiedUnder disk0 src D ((dirEntries d0).map (·.nameStr)) d1 d1' st st')
    (hall : ∀ e ∈ dirEntries d0, CopiedTo disk0 st st' D e) :
    TreeAdded disk0 src P d b leaf st st' := by
  have hchild := dirChild_of_stepName hup hstep
  have hsame := hunder.effect.dir_same h.inv h.isDir fun _ =>
    not_writes_parent h.inv.treeDisk h.isDir hchild hunder.no_up
  refine ⟨T', d, D, hinv', ?_, (dirOf_congr hsame).trans hd, namesAfter_refl hthere,
    hunder.effect.steps h.isDir hstep, hasCopy_of_copied hd0 hunder.after hall, fun hempty => ?_⟩
  · exact hunder.effect.mono (fun _ _ hw => writes_of_child hunder.no_up hstep hw)
      fun _ _ hw => hw.1
  · exact hasCopy_back h.inv hd0 hunder (hempty D d1 hstep hunder.before) hall

theorem TreeAdded.of_new {T1 T' : Nat → Prop} {mid : FsState} {i : Fin MAX_DIR_ENTRIES}
    {nb now : Nat} {d1 d1' : DiskDir} (h : CopyState disk0 src w fromRoot T st names P)
    (hsrc : ¬ Forest.Below (Edge disk0) src P) (hname : PathName leaf)
    (c : MkdirCommit st mid st1 w q now P leaf d i nb) (hi : i.val < DIR_SLOTS)
    (hstr : (mkdirEntry leaf nb now).nameStr = leaf) (hinv1 : Inv T1 st1) (hinv' : Inv T' st')
    (hstep1 : stepName st1.disk P leaf = some nb) (hd0 : dirOf disk0 b = some d0)
    (hunder : CopiedUnder disk0 src nb ((dirEntries d0).map (·.nameStr)) d1 d1' st1 st')
    (hall : ∀ e ∈ dirEntries d0, CopiedTo disk0 st1 st' nb e) :
    TreeAdded disk0 src P d b leaf st st' := by
  have hempty : dirEntries d1 = [] := by
    obtain rfl := Option.some.inj (c.dir_new.symm.trans hunder.before)
    exact dirEntries_emptyDir P
  have heff1 := (c.effect h.inv h.isDir hi hstr).mono (fun Q n => onlyPair_writes h.isDir hsrc)
    fun _ _ hw => hw.1
  have hP1 := heff1.dirs h.isDir
  have hchild := dirChild_of_stepName hname.ne_dotdot hstep1
  have hsame := hunder.effect.dir_same hinv1 hP1 fun _ =>
    not_writes_parent hinv1.treeDisk hP1 hchild hunder.no_up
  refine ⟨T', _, nb, hinv', ?_, (dirOf_congr hsame).trans (c.dir_after h.inv h.occupied),
    namesAfter_set hi hname hstr (Or.inr ⟨c.absent, c.free⟩), hunder.effect.steps hP1 hstep1,
    hasCopy_of_copied hd0 hunder.after hall, fun _ => hasCopy_back hinv1 hd0 hunder hempty hall⟩
  -- the second step writes only in directories that are new
  refine heff1.trans hunder.effect h.inv fun Q m hw hQ => ?_
  obtain ⟨-, -, ⟨rfl, -⟩ | ⟨k, hk, x, hx, -⟩⟩ := hw
  · exact absurd (h.inv.occupied hQ) (c.not_occupied h.inv)
  · obtain ⟨j, e, he, -⟩ := dirChild_of_stepName (hunder.no_up k hk) hx
    have := he.mem_dirEntries hunder.before
    rw [hempty] at this
    cases this

theorem copySpec_of_children (htree : TreeDisk U disk0) (hsrcdir : IsDir disk0 src)
    (hb : IsDir disk0 b) (hbelow : Forest.Below (Edge disk0) src b) (hbehind : NothingBehind world)
    (hdeep : ∀ c, DirChild disk0 b c → 0 < n)
    (hcopy : ∀ c, DirChild disk0 b c →
      CopySpec disk0 src w fromRoot (copy_local_dir_recursive world w n) c) :
    CopySpec disk0 src w fromRoot (copy_local_dir_recursive world w (n + 1)) b := by
  intro T st q names P leaf d h hd hfits hnew hplan hcall hname hnul hvisits
  have htarget := h.mkdirTarget hplan
  have hgood := goodNames_of_visits hvisits
  have hq : q ≠ [] := by
    rintro rfl
    rw [mkdirTarget_nil] at htarget
    cases htarget
  obtain ⟨d0, hd0⟩ := hb.2
  unfold copy_local_dir_recursive local_mkdir_call
  rw [if_pos hcall]
  rcases hmake : local_mkdir_path st w q (world.now q) with ⟨rc, st1⟩
  dsimp only
  by_cases habsent : find_entry_index (DirBlock.ofDisk d) leaf none = none
  · -- a new directory
    rcases mkdir_new_cases h.inv htarget hname.ne_nil hd habsent hmake with
      rfl | ⟨rfl, mid, i, nb, c⟩
    · rw [if_pos (by decide)]
      exact ⟨-1, st1, rfl, fun h0 => absurd h0 (by decide)⟩
    rw [if_neg (by decide)]
    obtain ⟨hroom, hsrc⟩ := hnew habsent
    have hi := (find_free_lt_iff c.free).mpr hroom
    have hstr : (mkdirEntry leaf nb (world.now q)).nameStr = leaf := cstr_pathName hname hnul
    have heff1 := (c.effect h.inv h.isDir hi hstr).mono (fun Q n => onlyPair_writes h.isDir hsrc)
      fun _ _ hw => hw.1
    have h1 := h.effect hsrcdir heff1 (h.inv.mkdirCommit (h.inv.isDir_mem h.isDir) c)
    have hstep1 : stepName st1.disk P leaf = some nb :=
      hstr ▸ stepName_new (c.dir_after h.inv h.occupied) hi (hstr.symm ▸ c.absent) (c.inUse hstr)
        rfl (hstr.symm ▸ hname.ne_dotdot)
    have hnbsrc : ¬ Forest.Below (Edge disk0) src nb := fun hx =>
      c.not_occupied h.inv (h.kept.occupied nb hx)
    rw [h1.kept.dirOf hbelow, hd0]
    obtain ⟨rc, st', hloop, hdone⟩ := copy_dir_loop htree hsrcdir hb hbelow hbehind hcopy hq hvisits
      ⟨h1.inv, h1.kept, h1.start, h1.leads.snoc hstep1⟩ hd0
      (mergeFits_new hgood hnbsrc hb c.dir_new)
    refine ⟨rc, st', hloop, fun h0 => ?_⟩
    obtain ⟨T', d1, d1', hinv', hunder, hall⟩ := hdone h0
    exact .of_new h hsrc hname c hi hstr h1.inv hinv' hstep1 hd0 hunder hall
  -- the name is there
  obtain ⟨rfl | rfl, rfl⟩ := mkdir_there_cases h.inv htarget hd habsent hmake
  · rw [if_pos (by decide)]
    exact ⟨-1, _, rfl, fun h0 => absurd h0 (by decide)⟩
  rw [if_neg (by decide), h.kept.dirOf hbelow, hd0]
  dsimp only
  rcases hstep : stepName st1.disk P leaf with _ | D
  · -- a file is in the way: the first entry of the directory cannot be written
    have hblocked := hfits 0
    unfold NameFits at hblocked
    rw [hstep] at hblocked
    obtain ⟨d0', hd0', hne⟩ := hblocked d hd habsent
    obtain rfl : d0 = d0' := Option.some.inj (hd0.symm.trans hd0')
    have hinside := hgood b d0 .refl hd0
    obtain ⟨e, rest, hL⟩ := List.exists_cons_of_ne_nil hne
    have he : e ∈ dirEntries d0 := hL ▸ List.mem_cons_self
    obtain ⟨i, hi⟩ := mem_dirEntries_slot hd0 hinside he
    obtain ⟨-, -, -, hused⟩ := id hi
    obtain ⟨rc, st', hentry, hrc⟩ : ∃ rc st', copy_entry world w b q
        (copy_local_dir_recursive world w n) e st1 = some (rc, st') ∧ rc ≠ 0 :=
      copy_entry_blocked h hstep hq ((hvisits b q _ .root).reads i e hi)
        fun ht => hdeep e.bno ⟨i, e, hi, ht, rfl⟩
    rw [copy_loop_filter, filter_copyEntries (hbehind q) hinside, hL]
    unfold copy_loop
    rw [if_neg (by rw [hused]; decide), hentry]
    dsimp only
    rw [if_pos hrc]
    exact ⟨-1, st', rfl, fun h0 => absurd h0 (by decide)⟩
  · have hmerge : ∀ n, MergeFits disk0 src st1.disk n b D := by
      intro m
      have := hfits m
      unfold NameFits at this
      rwa [hstep] at this
    obtain ⟨rc, st', hloop, hdone⟩ := copy_dir_loop htree hsrcdir hb hbelow hbehind hcopy hq hvisits
      ⟨h.inv, h.kept, h.start, h.leads.snoc hstep⟩ hd0 hmerge
    refine ⟨rc, st', hloop, fun h0 => ?_⟩
    obtain ⟨T', d1, d1', hinv', hunder, hall⟩ := hdone h0
    exact .of_merge h hinv' hd hname.ne_dotdot habsent hstep hd0 hunder hall

theorem copySpec_of_height (htree : TreeDisk U disk0) (hsrcdir : IsDir disk0 src)
    (hb : IsDir disk0 b) (hbelow : Forest.Below (Edge disk0) src b) (hbehind : NothingBehind world)
    (hn : HeightLe disk0 n b) :
    CopySpec disk0 src w fromRoot (copy_local_dir_recursive world w n) b := by
  induction n generalizing b with
  | zero => exact hn.elim
  | succ n ih =>
    refine copySpec_of_children htree hsrcdir hb hbelow hbehind (fun c hc => ?_) fun c hc => ?_
    · exact Nat.pos_of_ne_zero fun h0 => by
        have := hn c hc
        rw [h0] at this
        exact this
    · exact ih (htree.isDir_child hb hc) (hbelow.tail (htree.edge_of_dirChild hb hc)) (hn c hc)

/-! ## The whole call -/

/-- The directory that the path of a copy names. -/
def copyDest (st : FsState) (w : Window) (dst_path : List UInt8) : Option Nat :=
  (mkdirTarget st w dst_path).bind fun (P, leaf) =>
    if leaf = [] then some P else stepName st.disk P leaf

/-- The copy returns. When it reports success, the path names a directory that has a copy of the whole
source as it was, and nothing else when there was nothing; and no block of the source has changed. -/
def CopiesTree (world : CopyWorld) (st : FsState) (w : Window) (src_bno : Nat)
    (dst_path : List UInt8) : Prop :=
  ∃ depth rc st', copy_local_dir_recursive world w depth st src_bno dst_path = some (rc, st') ∧
    (rc = 0 →
      (∃ D, copyDest st' w dst_path = some D ∧ (∀ n, HasCopy st.disk st'.disk n src_bno D) ∧
        (EmptyAt st.disk (copyDest st w dst_path) → ∀ n, HasCopy st'.disk st.disk n D src_bno)) ∧
      ∀ x, Forest.Below (Edge st.disk) src_bno x → st'.disk x = st.disk x)

/-- What a copy takes for granted. The window stands on a directory, and the stack behind the blocks
shows no entries. Every path is read as the names that it is put together from. A new destination
gets a slot inside of its block, outside of the source. One that is there can take the source; where a
file is in the way of a directory, the directory has an entry that cannot be written. -/
structure CopyFits (world : CopyWorld) (st : FsState) (w : Window) (src_bno : Nat)
    (dst_path : List UInt8) : Prop where
  stands : IsDir st.disk (orRoot w.cwd_bno)
  call : local_mkdir_fits st w dst_path = true
  behind : NothingBehind world
  visits : ∀ fromRoot names leaf,
    editorPlan w.home.bytes (terminal_expand_home_path w.home.bytes dst_path 128) =
      some ⟨fromRoot, names, leaf⟩ → ∀ x q names',
    CopyVisits st.disk src_bno dst_path (if leaf = [] then names else names ++ [leaf]) x q names' →
      VisitOk st.disk w fromRoot x q names'
  fresh : ∀ P leaf d, mkdirTarget st w dst_path = some (P, leaf) → leaf ≠ [] →
    dirOf st.disk P = some d → find_entry_index (DirBlock.ofDisk d) leaf none = none →
    0 < freeSlots d ∧ ¬ Forest.Below (Edge st.disk) src_bno P
  there : ∀ P leaf, mkdirTarget st w dst_path = some (P, leaf) → leaf ≠ [] → ∀ n,
    NameFits st.disk st.disk (MergeFits st.disk src_bno st.disk n) P src_bno leaf
  here : ∀ P, isHere w dst_path → mkdirTarget st w dst_path = some (P, []) →
    ∀ n, MergeFits st.disk src_bno st.disk n src_bno P

theorem Inv.kept (h : Inv T st) (hsrc : IsDir st.disk src) : Kept st.disk st src where
  occupied := by
    intro x hx
    rcases hx.cases_tail with rfl | ⟨y, -, hy⟩
    · exact h.occupied hsrc
    · exact h.occupied_edge hy
  same := fun _ _ => rfl
  dirs := fun _ _ hdir => hdir

theorem Inv.copyState (h : Inv T st) (hsrc : IsDir st.disk src)
    (hstands : IsDir st.disk (orRoot w.cwd_bno)) (htarget : mkdirTarget st w q = some (P, leaf)) :
    ∃ fromRoot names,
      editorPlan w.home.bytes (terminal_expand_home_path w.home.bytes q 128) =
        some ⟨fromRoot, names, leaf⟩ ∧ CopyState st.disk src w fromRoot T st names P := by
  have hres := resolve_editor_target_plan st w (terminal_expand_home_path w.home.bytes q 128)
  rcases hplan : editorPlan w.home.bytes (terminal_expand_home_path w.home.bytes q 128) with
    _ | ⟨fromRoot, names, leaf'⟩
  · rw [hplan] at hres
    obtain ⟨r, hr, -⟩ := Option.map_eq_some_iff.mp htarget
    rw [hr] at hres
    cases hres
  rw [mkdirTarget_plan hplan] at htarget
  obtain ⟨c, hfold, heq⟩ := Option.map_eq_some_iff.mp htarget
  obtain ⟨hc, rfl⟩ := Prod.mk.inj heq
  have hstart : IsDir st.disk (planStart w fromRoot) := by
    cases fromRoot with
    | true => exact h.treeDisk.isDir_root
    | false => exact hstands
  have hdir := isDir_of_foldlM h.treeDisk hstart hfold
  obtain rfl : c = P := by
    rw [← hc, orRoot_of_ne_zero (h.occupied hdir).ne_zero]
  exact ⟨fromRoot, names, rfl, h, h.kept hsrc, hstart, hfold⟩

theorem copyDest_of_state {T' : Nat → Prop} (h : CopyState disk0 src w fromRoot T' st' names P)
    (hplan : editorPlan w.home.bytes (terminal_expand_home_path w.home.bytes q 128) =
      some ⟨fromRoot, names, leaf⟩) :
    copyDest st' w q = if leaf = [] then some P else stepName st'.disk P leaf := by
  unfold copyDest
  rw [h.mkdirTarget hplan, Option.bind_some]

theorem copiesTree_of_failed (hcall : local_mkdir_fits st w q = true)
    (hmake : (local_mkdir_path st w q (world.now q)).1 = -1) : CopiesTree world st w src q := by
  refine ⟨1, -1, (local_mkdir_path st w q (world.now q)).2, ?_, fun h0 => absurd h0 (by decide)⟩
  unfold copy_local_dir_recursive local_mkdir_call
  rw [if_pos hcall]
  rcases hpath : local_mkdir_path st w q (world.now q) with ⟨rc, st1⟩
  rw [hpath] at hmake
  dsimp only at hmake ⊢
  rw [if_pos (by rw [hmake]; decide)]

theorem copiesTree_of_named (h : CopyState st.disk src w fromRoot T st names P)
    (hsrc : IsDir st.disk src) (hnul : 0 ∉ q) (hfits : CopyFits world st w src q)
    (hplan : editorPlan w.home.bytes (terminal_expand_home_path w.home.bytes q 128) =
      some ⟨fromRoot, names, leaf⟩) (hne : leaf ≠ []) : CopiesTree world st w src q := by
  have htarget := h.mkdirTarget hplan
  obtain ⟨hname, hleaf⟩ := mkdirTarget_name hnul htarget hne
  obtain ⟨d, hd⟩ := h.isDir.2
  have hvisits := hfits.visits fromRoot names leaf hplan
  rw [if_neg hne] at hvisits
  obtain ⟨n, hn⟩ := h.inv.treeDisk.exists_height (fun _ hu => hu.2.1) hsrc
  obtain ⟨rc, st', hcopy, hdone⟩ := copySpec_of_height h.inv.treeDisk hsrc hsrc .refl hfits.behind
    hn h hd (hfits.there P leaf htarget hne) (hfits.fresh P leaf d htarget hne hd) hplan hfits.call
    hname hleaf hvisits
  refine ⟨n, rc, st', hcopy, fun h0 => ?_⟩
  obtain ⟨T', d', D, hinv', heff, -, -, hstep, hhas, hback⟩ := hdone h0
  have h' := h.effect hsrc heff hinv'
  have hdest := copyDest_of_state h hplan
  have hdest' := copyDest_of_state h' hplan
  rw [if_neg hne] at hdest hdest'
  refine ⟨⟨D, hdest'.trans hstep, hhas, fun hempty => hback ?_⟩, h'.kept.same⟩
  rw [hdest] at hempty
  exact hempty

theorem copiesTree_of_here (h : CopyState st.disk src w fromRoot T st names P)
    (hsrc : IsDir st.disk src) (hfits : CopyFits world st w src q)
    (hplan : editorPlan w.home.bytes (terminal_expand_home_path w.home.bytes q 128) =
      some ⟨fromRoot, names, []⟩) (hhere : isHere w q)
    (hmake : local_mkdir_path st w q (world.now q) = (0, st)) : CopiesTree world st w src q := by
  have htarget := h.mkdirTarget hplan
  have htree := h.inv.treeDisk
  have hq : q ≠ [] := by
    rintro rfl
    rw [mkdirTarget_nil] at htarget
    cases htarget
  have hvisits := hfits.visits fromRoot names [] hplan
  rw [if_pos rfl] at hvisits
  obtain ⟨n, hn⟩ := htree.exists_height (fun _ hu => hu.2.1) hsrc
  cases n with
  | zero => exact hn.elim
  | succ n =>
    obtain ⟨d0, hd0⟩ := hsrc.2
    obtain ⟨rc, st', hloop, hdone⟩ := copy_dir_loop htree hsrc hsrc .refl hfits.behind
      (fun c hc => copySpec_of_height htree hsrc (htree.isDir_child hsrc hc)
        (.single (htree.edge_of_dirChild hsrc hc)) hfits.behind (hn c hc))
      hq hvisits h hd0 (hfits.here P hhere htarget)
    refine ⟨n + 1, rc, st', ?_, fun h0 => ?_⟩
    · unfold copy_local_dir_recursive local_mkdir_call
      rw [if_pos hfits.call, hmake]
      dsimp only
      rw [if_neg (by decide), hd0]
      exact hloop
    obtain ⟨T', d1, d1', hinv', hunder, hall⟩ := hdone h0
    have h' := h.effect hsrc hunder.effect hinv'
    have hdest := copyDest_of_state h hplan
    have hdest' := copyDest_of_state h' hplan
    rw [if_pos rfl] at hdest hdest'
    refine ⟨⟨P, hdest', hasCopy_of_copied hd0 hunder.after hall, fun hempty => ?_⟩, h'.kept.same⟩
    exact hasCopy_back h.inv hd0 hunder (hempty P d1 hdest hunder.before) hall

/-- When the copy gets what it takes for granted, it copies the tree. -/
theorem copies_tree_of_fits {s : System} (hs : Reached s) (world : CopyWorld) (w : Window)
    {src : Nat} (hsrc : IsDir s.st.disk src) (dst_path : CString)
    (hfits : CopyFits world s.st w src dst_path.bytes) :
    CopiesTree world s.st w src dst_path.bytes := by
  obtain ⟨T, hsys⟩ := hs.sysInv
  have hinv := hsys.inv
  have hsteps := local_mkdir_path_steps s.st w dst_path.bytes (world.now dst_path.bytes)
  rcases htarget : mkdirTarget s.st w dst_path.bytes with _ | ⟨P, leaf⟩
  · -- the path leads nowhere
    refine copiesTree_of_failed hfits.call ?_
    rw [mkdirWrites_none htarget] at hsteps
    rcases hsteps with ⟨-, hnone⟩ | ⟨-, -, hrc | ⟨-, hhere | ⟨P, leaf, hthere, -⟩⟩⟩
    · cases hnone
    · exact hrc
    · obtain ⟨P, hP⟩ := @mkdirTarget_here _ s.st w _ hhere
      rw [htarget] at hP
      cases hP
    · rw [htarget] at hthere
      cases hthere
  obtain ⟨fromRoot, names, hplan, hstate⟩ := hinv.copyState hsrc hfits.stands htarget
  by_cases hne : leaf = []
  · subst hne
    rw [mkdirWrites_nil htarget] at hsteps
    rcases hsteps with ⟨-, hnone⟩ | ⟨-, hkept, hrc | ⟨hrc, hhere | ⟨P', leaf', hthere, d, hd, hfind⟩⟩⟩
    · cases hnone
    · exact copiesTree_of_failed hfits.call hrc
    · refine copiesTree_of_here hstate hsrc hfits hplan hhere (Prod.ext hrc ?_)
      rcases hkept with hst | hst
      · exact hst
      · rw [hst, ensure_ready_of_ready hinv.ready]
    · -- no entry in use has an empty name
      rw [htarget] at hthere
      obtain ⟨rfl, rfl⟩ := Prod.mk.inj (Option.some.inj hthere)
      obtain ⟨i, hi⟩ := Option.ne_none_iff_exists'.mp hfind
      obtain ⟨hused, -, hname⟩ := (find_entry_index_eq_some.mp hi).1
      exact absurd hname ((FileEntry.inUse_iff _).mp hused)
  · exact copiesTree_of_named hstate hsrc dst_path.nul_free hfits hplan hne

end

/-! ## On a small disk -/

theorem namesInside_single {d : DiskDir}
    (hfree : ∀ i : Fin MAX_DIR_ENTRIES, i.val ≠ 0 → ((DirBlock.ofDisk d).entries i).inUse = false)
    (hname : PathName ((DirBlock.ofDisk d).entries ⟨0, by decide⟩).nameStr) :
    NamesInside (DirBlock.ofDisk d).entries := by
  have hzero : ∀ i, ((DirBlock.ofDisk d).entries i).inUse = true → i = ⟨0, by decide⟩ := by
    intro i hi
    refine Fin.ext ?_
    by_contra hne
    rw [hfree i hne] at hi
    cases hi
  refine ⟨⟨fun i hi => ?_, fun i j hi hj _ => (hzero i hi).trans (hzero j hj).symm⟩, fun i hi => ?_⟩
  · rw [hzero i hi]
    exact hname
  · rw [hzero i hi, slotInside_iff]
    decide

section

attribute [local instance] fpgaBuild

/-- Time 3, memory for everything, and zeros behind every block. -/
def plainWorld : CopyWorld := ⟨fun _ => 3, fun _ _ => true, fun _ _ => .zero⟩

def copyName : CString := ⟨lit ['t'], by decide⟩
def wayName : CString := ⟨lit ['f'], nul_free_f⟩

def copyOps : List Op :=
  [.mkdir 0 ⟨lit ['s'], by decide⟩ 1, .store 0 ⟨lit ['s', '/', 'a'], by decide⟩ (lit ['x']) 2]

/-- A directory `s` without entries, and a file `f`. -/
def wayOps : List Op := [.mkdir 0 ⟨lit ['s'], by decide⟩ 1, .store 0 wayName (lit ['x']) 2]

/-- The slot in front: whether it is in use, its type and its block. -/
def firstEntry (disk : Nat → Block) (b : Nat) : Option (Bool × Nat × Nat) :=
  (dirOf disk b).map fun d => ((d.slots ⟨0, by decide⟩).inUse, (d.slots ⟨0, by decide⟩).type,
    (d.slots ⟨0, by decide⟩).bno)

theorem Reached.isDir_first {s : System} (hs : Reached s)
    (h : firstEntry s.st.disk 1 = some (true, 1, 60)) : IsDir s.st.disk 60 := by
  obtain ⟨T, hsys⟩ := hs.sysInv
  obtain ⟨d, hd, heq⟩ := Option.map_eq_some_iff.mp h
  obtain ⟨hused, heq⟩ := Prod.mk.inj heq
  obtain ⟨htype, hbno⟩ := Prod.mk.inj heq
  have htree := hsys.inv.treeDisk
  exact htree.isDir_child htree.isDir_root ⟨_, _, ⟨d, hd, rfl, hused⟩, htype, hbno⟩

/-- A directory with a file, copied to a new name. -/
theorem copies_tree_of_fits_sample : ∃ s, run (format blankSystem) copyOps = some s ∧
    CopiesTree plainWorld s.st (s.wins 0) 60 copyName.bytes := by
  obtain ⟨s, hrun⟩ := (sysInv_format blankSystem).run_total copyOps
  have hs : Reached s := ⟨blankSystem, copyOps, hrun⟩
  have hend : ∀ s ∈ run (format blankSystem) copyOps,
      firstEntry s.st.disk 1 = some (true, 1, 60) ∧
      (s.wins 0).cwd_bno = 1 ∧ (s.wins 0).cwd = rootPath ∧ (s.wins 0).home.bytes = [] ∧
      local_mkdir_fits s.st (s.wins 0) copyName.bytes = true ∧
      mkdirTarget s.st (s.wins 0) copyName.bytes = some (1, lit ['t']) ∧
      (dirOf s.st.disk 1).map (fun d =>
        (find_entry_index (DirBlock.ofDisk d) (lit ['t']) none, decide (0 < freeSlots d))) =
        some (none, true) ∧
      stepName s.st.disk 1 (lit ['t']) = none ∧
      (dirOf s.st.disk 60).map (fun d => (((DirBlock.ofDisk d).entries ⟨0, by decide⟩).nameStr,
        ((DirBlock.ofDisk d).entries ⟨0, by decide⟩).type,
        decide (∀ i : Fin MAX_DIR_ENTRIES, i.val ≠ 0 →
          ((DirBlock.ofDisk d).entries i).inUse = false))) = some (lit ['a'], 0, true) := by
    decide +kernel
  obtain ⟨hfirst, hcwd, hpath, hhome, hcall, htarget, hroot, hstep, hsource⟩ := hend s hrun
  obtain ⟨T, hsys⟩ := hs.sysInv
  have htree := hsys.inv.treeDisk
  have hsrc := hs.isDir_first hfirst
  -- the only entry of the source is the file `a`
  obtain ⟨d60, hd60, heq⟩ := Option.map_eq_some_iff.mp hsource
  obtain ⟨hname, heq⟩ := Prod.mk.inj heq
  obtain ⟨htype, hfree⟩ := Prod.mk.inj heq
  have hfree := of_decide_eq_true hfree
  have honly : ∀ i e, SlotHas s.st.disk 60 i e → e.nameStr = lit ['a'] ∧ e.type = 0 := by
    rintro i e ⟨d, hd, hi, hused⟩
    obtain rfl : d60 = d := Option.some.inj (hd60.symm.trans hd)
    have hentry := ofDisk_entries_of_lt d60 ⟨i.val, i.isLt.trans_le dir_slots_le⟩ i.isLt
    have hi0 : i.val = 0 := by
      by_contra hne
      have := hfree ⟨i.val, i.isLt.trans_le dir_slots_le⟩ hne
      rw [hentry, hi, hused] at this
      cases this
    have heq : (⟨i.val, i.isLt.trans_le dir_slots_le⟩ : Fin MAX_DIR_ENTRIES) = ⟨0, by decide⟩ :=
      Fin.ext hi0
    rw [← hi, ← hentry, heq]
    exact ⟨hname, htype⟩
  have hvisit : ∀ x q names, CopyVisits s.st.disk 60 copyName.bytes [lit ['t']] x q names →
      VisitOk s.st.disk (s.wins 0) false x q names := by
    intro x q names hv
    have hroot : x = 60 ∧ q = copyName.bytes ∧ names = [lit ['t']] := by
      induction hv with
      | root => exact ⟨rfl, rfl, rfl⟩
      | child _ he ht ih =>
        obtain ⟨rfl, -, -⟩ := ih
        rw [(honly _ _ he).2] at ht
        cases ht
    obtain ⟨rfl, rfl, rfl⟩ := hroot
    refine ⟨fun d hd => ?_, fun i e he => ?_⟩
    · obtain rfl : d60 = d := Option.some.inj (hd60.symm.trans hd)
      refine namesInside_single hfree ?_
      rw [hname]
      constructor <;> decide
    · obtain ⟨hn, ht⟩ := honly i e he
      constructor
      · rw [hn]
        decide
      · unfold WayFits
        rw [hpath]
        decide
      · intro h1
        rw [ht] at h1
        cases h1
      · intro _
        rw [hhome, hn]
        decide
      · intro _
        rw [hn]
        decide
  have hfits : CopyFits plainWorld s.st (s.wins 0) 60 copyName.bytes := by
    constructor
    · rw [hcwd]
      exact htree.isDir_root
    · exact hcall
    · intro q i _
      rfl
    · intro fromRoot names leaf hplan
      rw [hhome] at hplan
      have hread : editorPlan [] (terminal_expand_home_path [] copyName.bytes 128) =
          some ⟨false, [], lit ['t']⟩ := by decide
      cases hread.symm.trans hplan
      exact hvisit
    · intro P leaf d hP hne hd hnone
      cases htarget.symm.trans hP
      rw [hd] at hroot
      refine ⟨of_decide_eq_true (Prod.mk.inj (Option.some.inj hroot)).2, fun hbelow => ?_⟩
      rcases hbelow.cases_tail with h1 | ⟨p, -, hp⟩
      · cases h1
      · exact htree.root_not_owned p hp
    · intro P leaf hP _ n
      cases htarget.symm.trans hP
      unfold NameFits
      rw [hstep]
      intro d hd hfound
      rw [hd] at hroot
      exact absurd (Prod.mk.inj (Option.some.inj hroot)).1 hfound
    · intro P _ hP
      cases htarget.symm.trans hP
  exact ⟨s, hrun, copies_tree_of_fits hs plainWorld (s.wins 0) hsrc copyName hfits⟩

/-- An empty directory is copied to the name of a file: the copy reports success, and there is no
directory of that name. -/
theorem copy_onto_file : ∃ s, run (format blankSystem) wayOps = some s ∧ IsDir s.st.disk 60 ∧
    ¬ CopiesTree plainWorld s.st (s.wins 0) 60 wayName.bytes := by
  obtain ⟨s, hrun⟩ := (sysInv_format blankSystem).run_total wayOps
  have hs : Reached s := ⟨blankSystem, wayOps, hrun⟩
  have hend : ∀ s ∈ run (format blankSystem) wayOps,
      firstEntry s.st.disk 1 = some (true, 1, 60) ∧
      (copy_local_dir_recursive plainWorld (s.wins 0) 1 s.st 60 wayName.bytes).map
        (fun r => (r.1, copyDest r.2 (s.wins 0) wayName.bytes)) = some (0, none) := by
    decide +kernel
  obtain ⟨hfirst, hcopy⟩ := hend s hrun
  refine ⟨s, hrun, hs.isDir_first hfirst, ?_⟩
  rintro ⟨depth, rc, st', hcall, hright⟩
  obtain ⟨⟨rc1, st1⟩, hone, heq⟩ := Option.map_eq_some_iff.mp hcopy
  obtain ⟨rfl, hdest⟩ := Prod.mk.inj heq
  cases depth with
  | zero => cases hcall
  | succ depth =>
    -- more depth changes nothing, so this is the only result
    cases (copy_deeper_le (Nat.le_add_left 1 depth) hone).symm.trans hcall
    obtain ⟨⟨D, hD, -⟩, -⟩ := hright rfl
    rw [hdest] at hD
    cases hD

end

end vibeos.fs
