-- The directories of the source that a copy visits, the paths that it puts together for them, and
-- what it reads there: the source as it was, through its own resolvers.
import Vibeos.CopySteps
import Vibeos.CwdStrings
import Vibeos.DirNames
import Mathlib.Order.WellFounded
import Mathlib.Data.Fintype.EquivFin
import Mathlib.Data.Finset.Lattice.Fold

namespace vibeos.fs

open LinkChain

/-! ## Strings on the way -/

section

variable [BuildConfig]

/-- No string of a walk is longer than its start and the names that it enters. -/
theorem length_walk_cwds_le {into : Bool} {segs behind : List (List UInt8)}
    {r : List (List UInt8) × Option (List UInt8)} (hread : readNames into segs = some r)
    (hbehind : behind = [] ∨ behind = [dotName] ∧ into = true) (st : FsState) (b : Nat)
    (cwd : List UInt8) : ∀ c ∈ walk_cwds st b cwd (segs ++ behind),
      c.length ≤ max rootPath.length cwd.length + pathLength r.1 := by
  have hstart (cwd : List UInt8) (names : List (List UInt8)) :
      cwd.length ≤ max rootPath.length cwd.length + pathLength names :=
    (Nat.le_max_right _ _).trans (Nat.le_add_right _ _)
  induction segs generalizing st b cwd r with
  | nil =>
    intro c hc
    obtain rfl : c = cwd := by
      rcases hbehind with rfl | ⟨rfl, -⟩
      · exact List.mem_singleton.mp hc
      · have hdot : c ∈ [cwd, cwd] := hc
        simpa using hdot
    exact hstart _ _
  | cons seg rest ih =>
    have hlonger (names : List (List UInt8)) :
        pathLength (seg :: names) = seg.length + 1 + pathLength names := rfl
    intro c hc
    rw [List.cons_append] at hc
    unfold walk_cwds at hc
    rcases List.mem_cons.mp hc with rfl | hc
    · exact hstart _ _
    unfold readNames at hread
    rw [load_current_dir_eq] at hc
    split at hread
    · cases hread
    rename_i hshort
    rw [if_neg hshort] at hc
    split at hread <;> rename_i hdot
    · rw [if_pos hdot] at hc
      exact ih hread _ _ _ c hc
    rw [if_neg hdot] at hc
    split at hread <;> rename_i hup
    · rw [if_pos hup] at hc
      obtain ⟨r', hr', rfl⟩ := Option.map_eq_some_iff.mp hread
      rcases hd : dirOf st.disk b with _ | d
      · rw [hd] at hc
        cases hc
      rw [hd] at hc
      have hparent : (if orRoot d.parent_bno = 1 then rootPath else path_set_parent cwd).length ≤
          max rootPath.length cwd.length := by
        split
        · exact Nat.le_max_left _ _
        · by_cases hnil : cwd = []
          · subst hnil
            decide
          · exact (length_path_set_parent_le hnil).trans (Nat.le_max_right _ _)
      have hle : c.length ≤ max rootPath.length (if orRoot d.parent_bno = 1 then rootPath
          else path_set_parent cwd).length + pathLength r'.1 := ih hr' _ _ _ c hc
      rw [hlonger]
      omega
    rw [if_neg hup] at hc
    split at hread <;> rename_i hlast
    · rcases hbehind with rfl | ⟨-, hinto⟩
      · rw [hlast.1, List.append_nil, if_pos rfl] at hc
        cases hc
      · exact absurd hinto (by rw [hlast.2]; decide)
    obtain ⟨r', hr', rfl⟩ := Option.map_eq_some_iff.mp hread
    by_cases hend : rest ++ behind = []
    · rw [if_pos hend] at hc
      cases hc
    rw [if_neg hend] at hc
    rcases hd : dirOf st.disk b with _ | d
    · rw [hd] at hc
      cases hc
    rw [hd] at hc
    simp only [Option.map_some] at hc
    split at hc
    · cases hc
    rename_i idx hf
    have hchild := length_path_set_child_le cwd ((DirBlock.ofDisk d).entries idx).nameStr
    have hname : ((DirBlock.ofDisk d).entries idx).nameStr = seg :=
      (find_entry_index_eq_some.mp hf).1.2.2
    have hle := ih hr' _ _ _ c hc
    rw [hname] at hchild hle
    rw [hlonger]
    omega

/-- No string on the way of a walk along the names is too long for `cwd`. -/
def WayFits (w : Window) (fromRoot : Bool) (names : List (List UInt8)) : Prop :=
  (orRootPath w.cwd).length < CWD_SIZE ∧
    max rootPath.length (if fromRoot then rootPath else orRootPath w.cwd).length +
      pathLength names < CWD_SIZE

theorem editor_fits_of_plan {w : Window} {input : List UInt8} {P : PathPlan}
    (hplan : editorPlan w.home.bytes input = some P) (hway : WayFits w P.fromRoot P.steps)
    (st : FsState) : editor_fits st w input = true := by
  unfold editor_fits resolve_editor_target_cwds
  rw [List.all_eq_true]
  intro c hc
  rw [decide_eq_true_eq]
  unfold editorPlan at hplan
  dsimp only at hplan hc
  revert hplan hc
  generalize terminal_expand_home_path w.home.bytes input 128 = e
  generalize skipBlanks e = p
  intro hplan hc
  by_cases hnil : p = []
  · rw [if_pos hnil] at hc
    cases hc
  rw [if_neg hnil] at hc hplan
  rcases List.mem_cons.mp hc with rfl | hc
  · exact hway.1
  obtain ⟨r, hread, rfl⟩ := Option.map_eq_some_iff.mp hplan
  have hbehind : (if (skipBlanks e.reverse).head? = some slash then [dotName] else []) = [] ∨
      (if (skipBlanks e.reverse).head? = some slash then [dotName] else []) = [dotName] ∧
        ((skipBlanks e.reverse).head? == some slash) = true := by
    by_cases hends : (skipBlanks e.reverse).head? = some slash
    · exact Or.inr ⟨if_pos hends, beq_iff_eq.mpr hends⟩
    · exact Or.inl (if_neg hends)
  refine lt_of_le_of_lt ?_ hway.2
  by_cases habs : p.head? = some slash
  · have hroot := pathSegments_behindRoot (head_skipSlashes p)
    rw [pathSegments_skipSlashes] at hroot
    unfold behindRoot rootName at hroot
    rw [if_pos habs] at hc hread
    dsimp only at hc
    rw [hroot] at hc
    simpa [habs] using length_walk_cwds_le hread hbehind st 1 rootPath c hc
  · rw [if_neg habs] at hc hread
    simpa [habs] using length_walk_cwds_le hread hbehind st _ _ c hc

theorem local_mkdir_fits_of_plan {w : Window} {path : List UInt8} {P : PathPlan}
    (hplan : editorPlan w.home.bytes (terminal_expand_home_path w.home.bytes path 128) = some P)
    (hway : WayFits w P.fromRoot P.steps) (st : FsState) : local_mkdir_fits st w path = true :=
  Bool.or_eq_true_iff.mpr (Or.inr (editor_fits_of_plan hplan hway st))

theorem store_fits_of_plan {w : Window} {name : List UInt8} {P : PathPlan}
    (hplan : fsPlan w.home.bytes name = some P) (hway : WayFits w P.fromRoot P.steps)
    (st : FsState) : store_fits st w name = true := by
  unfold store_fits resolve_fs_target_cwds
  refine Bool.or_eq_true_iff.mpr (Or.inr (List.all_eq_true.mpr fun c hc => ?_))
  rw [decide_eq_true_eq]
  unfold fsPlan at hplan
  dsimp only at hplan hc
  revert hplan hc
  generalize terminal_expand_home_path w.home.bytes name 64 = e
  generalize skipBlanks e = p
  intro hplan hc
  rcases List.mem_cons.mp hc with rfl | hc
  · exact hway.1
  by_cases hnil : p = []
  · rw [if_pos hnil] at hc
    cases hc
  rw [if_neg hnil] at hc hplan
  obtain ⟨r, hread, rfl⟩ := Option.map_eq_some_iff.mp hplan
  refine lt_of_le_of_lt ?_ hway.2
  by_cases habs : p.head? = some slash
  · rw [if_pos habs] at hc
    dsimp only at hc
    rw [root_start 1 rootPath (head_skipSlashes p), ite_self, ite_self,
      pathSegments_behindRoot (head_skipSlashes p), pathSegments_skipSlashes] at hc
    simpa [habs] using length_walk_cwds_le hread (Or.inl rfl) st 1 rootPath c (by simpa using hc)
  · rw [if_neg habs] at hc
    dsimp only at hc
    rw [root_start _ _ habs, pathSegments_behindRoot habs] at hc
    simpa [habs] using length_walk_cwds_le hread (Or.inl rfl) st _ _ c (by simpa using hc)

end

/-! ## Visits -/

/-- The copy comes to directory `b` of the source with the path `q`, whose names are `names`. -/
inductive CopyVisits (disk : Disk) (src : Nat) (dst : List UInt8) (way : List (List UInt8)) :
    Nat → List UInt8 → List (List UInt8) → Prop
  | root : CopyVisits disk src dst way src dst way
  | child {b : Nat} {q : List UInt8} {names : List (List UInt8)} {i : Fin DIR_SLOTS}
      {e : FileEntry} : CopyVisits disk src dst way b q names → SlotHas disk b i e → e.type = 1 →
      CopyVisits disk src dst way e.bno (childPath q e.nameStr) (names ++ [e.nameStr])

theorem CopyVisits.under {disk : Disk} {b x : Nat} {q q' : List UInt8}
    {names names' : List (List UInt8)} {i : Fin DIR_SLOTS} {e : FileEntry}
    (he : SlotHas disk b i e) (htype : e.type = 1)
    (h : CopyVisits disk e.bno (childPath q e.nameStr) (names ++ [e.nameStr]) x q' names') :
    CopyVisits disk b q names x q' names' := by
  induction h with
  | root => exact .child .root he htype
  | child _ hf ht ih => exact .child ih hf ht

/-- The path of an entry and the strings on the way fit their buffers, and the resolver that the copy
uses for it reads it as the names of the directory and the name of the entry. The load of a file does
not take its name for a path. -/
structure EntryReads (w : Window) (fromRoot : Bool) (q : List UInt8)
    (names : List (List UInt8)) (e : FileEntry) : Prop where
  fits : (childPath q e.nameStr).length < 128
  way : WayFits w fromRoot names
  dir : e.type = 1 → editorPlan w.home.bytes
      (terminal_expand_home_path w.home.bytes (childPath q e.nameStr) 128) =
    some ⟨fromRoot, names, e.nameStr⟩
  file : e.type ≠ 1 →
    fsPlan w.home.bytes (childPath q e.nameStr) = some ⟨fromRoot, names, e.nameStr⟩
  source : e.type ≠ 1 → usesResolve e.nameStr = false

/-- A directory of the source whose names are names of paths, each once, all inside the block, and
whose paths are read as they are meant. -/
structure VisitOk (disk : Disk) (w : Window) (fromRoot : Bool) (b : Nat) (q : List UInt8)
    (names : List (List UInt8)) : Prop where
  inside : ∀ d, dirOf disk b = some d → NamesInside (DirBlock.ofDisk d).entries
  reads : ∀ i e, SlotHas disk b i e → EntryReads w fromRoot q names e

theorem slash_mem_childPath {q : List UInt8} (hq : q ≠ []) (name : List UInt8) :
    slash ∈ childPath q name := by
  unfold childPath
  by_cases hlast : q.getLast? = some slash
  · rw [if_neg fun h => h.2 hlast]
    exact List.mem_append_left _ (List.mem_of_getLast? hlast)
  · rw [if_pos ⟨hq, hlast⟩]
    simp

/-! ## The height of a tree -/

/-- No directory is more than `n` levels below `b`. -/
def HeightLe (disk : Disk) : Nat → Nat → Prop
  | 0, _ => False
  | n + 1, b => ∀ c, DirChild disk b c → HeightLe disk n c

theorem HeightLe.mono {disk : Disk} {n m b : Nat} (h : HeightLe disk n b) (hle : n ≤ m) :
    HeightLe disk m b := by
  induction n generalizing m b with
  | zero => exact h.elim
  | succ n ih =>
    obtain ⟨m, rfl⟩ : ∃ k, m = k + 1 := ⟨m - 1, by omega⟩
    exact fun c hc => ih (h c hc) (by omega)

theorem TreeDisk.exists_height {U : Nat → Prop} {disk : Disk} (h : TreeDisk U disk) {bound : Nat}
    (hU : ∀ b, U b → b < bound) {b : Nat} (hb : IsDir disk b) : ∃ n, HeightLe disk n b := by
  have hlt : ∀ x : { x // IsDir disk x }, x.val < bound + 2 := by
    rintro ⟨x, hx⟩
    rcases h.live_cases (Or.inl hx) with rfl | hu
    · dsimp only
      omega
    · have := hU x hu
      dsimp only
      omega
  have : Finite { x // IsDir disk x } :=
    Finite.of_injective (fun x => (⟨x.val, hlt x⟩ : Fin (bound + 2))) fun x y hxy =>
      Subtype.ext (Fin.mk.inj hxy)
  let below : { x // IsDir disk x } → { x // IsDir disk x } → Prop := fun c p =>
    Relation.TransGen (Edge disk) p.val c.val
  have htrans : IsTrans { x // IsDir disk x } below := ⟨fun _ _ _ hab hbc => hbc.trans hab⟩
  have hirr : Std.Irrefl below := ⟨fun x hx => h.no_cycle x.property hx⟩
  have hwf : WellFounded below := Finite.wellFounded_of_trans_of_irrefl below
  suffices key : ∀ x : { x // IsDir disk x }, ∃ n, HeightLe disk n x.val from key ⟨b, hb⟩
  intro x
  induction x using hwf.induction with
  | _ x ih =>
    -- a height for each slot, and above them all their supremum
    have hslot : ∀ i : Fin DIR_SLOTS, ∃ n, ∀ e, SlotHas disk x.val i e → e.type = 1 →
        HeightLe disk n e.bno := by
      intro i
      by_cases hex : ∃ e, SlotHas disk x.val i e ∧ e.type = 1
      · obtain ⟨e, he, ht⟩ := hex
        have hchild : DirChild disk x.val e.bno := ⟨i, e, he, ht, rfl⟩
        obtain ⟨n, hn⟩ := ih ⟨e.bno, h.isDir_child x.property hchild⟩
          (.single (h.edge_of_dirChild x.property hchild))
        exact ⟨n, fun f hf _ => he.det hf ▸ hn⟩
      · exact ⟨0, fun e he ht => absurd ⟨e, he, ht⟩ hex⟩
    choose height hheight using hslot
    refine ⟨Finset.univ.sup height + 1, ?_⟩
    rintro c ⟨i, e, he, ht, rfl⟩
    exact (hheight i e he ht).mono (Finset.le_sup (Finset.mem_univ i))

section

variable [BuildConfig] {st : FsState} {w : Window} {D b src : Nat} {disk0 : Disk}
  {fromRoot : Bool} {names : List (List UInt8)} {q leaf : List UInt8}

/-! ## What the calls of a copy resolve -/

def planStart (w : Window) (fromRoot : Bool) : Nat := if fromRoot then 1 else orRoot w.cwd_bno

def Leads (disk : Disk) (w : Window) (fromRoot : Bool) (names : List (List UInt8)) (D : Nat) :
    Prop :=
  names.foldlM (stepName disk) (planStart w fromRoot) = some D

omit [BuildConfig] in
theorem Leads.snoc {disk : Disk} {c : Nat} {name : List UInt8}
    (h : Leads disk w fromRoot names D) (hc : stepName disk D name = some c) :
    Leads disk w fromRoot (names ++ [name]) c := by
  unfold Leads at h ⊢
  rw [List.foldlM_append, h]
  change (stepName disk D name).bind _ = _
  rw [hc]
  rfl

omit [BuildConfig] in
theorem find_plan (disk : Disk) (w : Window) (fromRoot : Bool) (names : List (List UInt8))
    (leaf : List UInt8) : PathPlan.find disk w.cwd_bno ⟨fromRoot, names, leaf⟩ =
      (names.foldlM (stepName disk) (planStart w fromRoot)).map fun b => (orRoot b, leaf) := rfl

theorem mkdirTarget_plan
    (hplan : editorPlan w.home.bytes (terminal_expand_home_path w.home.bytes q 128) =
      some ⟨fromRoot, names, leaf⟩) : mkdirTarget st w q =
      (names.foldlM (stepName st.disk) (planStart w fromRoot)).map fun b => (orRoot b, leaf) := by
  rw [mkdirTarget_eq, hplan, Option.bind_some, find_plan, Option.map_map]
  congr 1
  funext b
  simp [orRoot_of_ne_zero (orRoot_ne_zero b)]

theorem Leads.mkdirTarget (h : Leads st.disk w fromRoot names D) (hD : D ≠ 0)
    (hplan : editorPlan w.home.bytes (terminal_expand_home_path w.home.bytes q 128) =
      some ⟨fromRoot, names, leaf⟩) : mkdirTarget st w q = some (D, leaf) := by
  unfold Leads at h
  rw [mkdirTarget_plan hplan, h, Option.map_some, orRoot_of_ne_zero hD]

theorem file_target_plan (hplan : fsPlan w.home.bytes q = some ⟨fromRoot, names, leaf⟩)
    (huses : usesResolve q = true) (b : Nat) : (file_target st w q b).2 =
      (names.foldlM (stepName st.disk) (planStart w fromRoot)).map fun b => (orRoot b, leaf) := by
  have hres := resolve_fs_target_plan st w q
  rw [hplan, Option.bind_some, find_plan] at hres
  unfold file_target
  rw [if_pos huses]
  rcases hcall : resolve_fs_target st w q with ⟨st1, _ | ⟨dir_bno, cwd, leaf'⟩⟩
  · rw [hcall] at hres
    rw [← hres]
    rfl
  · rw [hcall] at hres
    obtain ⟨c, hc, heq⟩ := Option.map_eq_some_iff.mp hres.symm
    obtain ⟨h1, h2⟩ := Prod.mk.inj heq
    dsimp only at h1 h2 ⊢
    rw [hc, Option.map_some, ← h1, ← h2, orRoot_of_ne_zero (orRoot_ne_zero c)]

theorem copy_source_target {name : List UInt8} (hplain : usesResolve name = false) :
    (file_target st (copyWindow b name) name (copyWindow b name).cwd_bno).2 = some (b, name) := by
  unfold file_target copyWindow
  simp [hplain]

theorem load_entry_state (hr : st.fs_alloc_ready = true) (w : Window) (name : List UInt8) :
    (load_entry st w name).1 = st := by
  unfold load_entry
  rw [file_target_eq hr]
  rcases (file_target st w name w.cwd_bno).2 with _ | ⟨P, leaf⟩
  · rfl
  dsimp only
  rw [load_current_dir_of_ready hr]
  rcases dirOf st.disk P with _ | d
  · rfl
  rw [Option.map_some]
  dsimp only
  rcases find_entry_index (DirBlock.ofDisk d) leaf (some 0) with _ | i
  · rfl
  · rfl

/-! ## What the copy reads of the source -/

theorem Kept.dirOf (h : Kept disk0 st src) (hb : Forest.Below (Edge disk0) src b) :
    dirOf st.disk b = dirOf disk0 b :=
  dirOf_congr (h.same b hb)

theorem Kept.load {U : Nat → Prop} (h : Kept disk0 st src) (htree : TreeDisk U disk0)
    (hb : IsDir disk0 b) (hbelow : Forest.Below (Edge disk0) src b) {i : Fin DIR_SLOTS}
    {e : FileEntry} (he : SlotHas disk0 b i e) (n : Nat) :
    load_loop st.disk n e.bno = load_loop disk0 n e.bno := by
  obtain ⟨l, hl, -⟩ := htree.sound.chain hb he
  refine load_loop_congr hl (fun x hx => h.same x (hbelow.tail ?_)) n
  exact ⟨hb, i, e, he, hl.onChain hx⟩

theorem load_source {U : Nat → Prop} (h : Kept disk0 st src) (htree : TreeDisk U disk0)
    (hb : IsDir disk0 b) (hbelow : Forest.Below (Edge disk0) src b) {d : DiskDir}
    (hd : vibeos.fs.dirOf disk0 b = some d) (hnames : NamesInside (DirBlock.ofDisk d).entries)
    {i : Fin DIR_SLOTS} {e : FileEntry} (he : SlotHas disk0 b i e)
    (hsource : usesResolve e.nameStr = false) {malloc : Nat → Bool} {buf : List UInt8}
    (hload : load_file_bytes_alloc malloc st (copyWindow b e.nameStr) e.nameStr = (0, buf)) :
    load_loop disk0 e.size e.bno = buf := by
  rw [load_file_bytes_alloc_eq, copy_source_target hsource] at hload
  dsimp only at hload
  unfold loadAllocAt fileAt at hload
  rw [h.dirOf hbelow, hd] at hload
  dsimp only at hload
  rcases hfind : find_entry_index (DirBlock.ofDisk d) e.nameStr (some 0) with _ | j
  · rw [hfind] at hload
    cases hload
  -- names stand once, so the entry found is the one of the slot
  obtain ⟨d', hd', hslot, hused⟩ := id he
  obtain rfl : d = d' := Option.some.inj (hd.symm.trans hd')
  obtain ⟨hjused, -, hjname⟩ := (find_entry_index_eq_some.mp hfind).1
  have hi := ofDisk_entries_of_lt d ⟨i.val, i.isLt.trans_le dir_slots_le⟩ i.isLt
  have hentry : (DirBlock.ofDisk d).entries j = e := by
    rw [hnames.unique j ⟨i.val, i.isLt.trans_le dir_slots_le⟩ hjused (by rw [hi, hslot]; exact hused)
      (by rw [hjname, hi, hslot]), hi, hslot]
  rw [hfind] at hload
  dsimp only at hload
  rw [hentry] at hload
  by_cases hmalloc : malloc (if e.size = 0 then 1 else e.size) = false
  · rw [if_pos hmalloc] at hload
    cases hload
  rw [if_neg hmalloc] at hload
  by_cases hzero : e.bno = 0
  · rw [if_pos hzero] at hload
    cases hload
    rw [hzero, load_loop, dif_pos (Or.inr rfl)]
  rw [if_neg hzero] at hload
  by_cases hlen : (load_loop st.disk e.size e.bno).length ≠ e.size
  · rw [if_pos hlen] at hload
    cases hload
  · rw [if_neg hlen] at hload
    rw [← h.load htree hb hbelow he]
    exact (Prod.mk.inj hload).2

end

end vibeos.fs
