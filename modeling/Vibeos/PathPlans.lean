-- What the two path walkers read in a path before they look at the disk: a plan. The walk follows
-- the plan on the disk, and two plans that differ are told apart by some disk.
import Vibeos.LoadSpecs
import Vibeos.PathNames

namespace vibeos.fs

/-! ## Plans -/

/-- A path as it is read: whether it starts in block 1 or in the working directory, the names that it
enters, where `..` goes up, and the last name. -/
structure PathPlan where
  fromRoot : Bool
  steps : List (List UInt8)
  leaf : List UInt8
deriving DecidableEq

/-- One step through the directories of a disk. -/
def stepName (disk : Disk) (b : Nat) (name : List UInt8) : Option Nat :=
  (dirOf disk b).bind fun d =>
    if name = dotdotName then some (orRoot d.parent_bno) else childOf d name

/-- The directory and the last name that a plan finds. -/
def PathPlan.find (disk : Disk) (cwd_bno : Nat) (P : PathPlan) : Option (Nat × List UInt8) :=
  (P.steps.foldlM (stepName disk) (if P.fromRoot then 1 else orRoot cwd_bno)).map fun b =>
    (orRoot b, P.leaf)

/-- The names of a path: those to enter, without `.`, and the last one, which `into` enters too. A
name of more than 19 bytes is refused. -/
def readNames (into : Bool) : List (List UInt8) → Option (List (List UInt8) × Option (List UInt8))
  | [] => some ([], none)
  | seg :: rest =>
    if 19 < seg.length then none
    else if seg = dotName then readNames into rest
    else if seg = dotdotName then (readNames into rest).map fun r => (seg :: r.1, r.2)
    else if rest = [] ∧ into = false then some ([], some seg)
    else (readNames into rest).map fun r => (seg :: r.1, r.2)

def rootName : List UInt8 := lit ['r', 'o', 'o', 't']

/-- A first name `root` stands for the root itself. -/
def dropRoot : List (List UInt8) → List (List UInt8)
  | [] => []
  | seg :: rest => if seg = rootName then rest else seg :: rest

/-- What `resolve_fs_target` reads in a path. -/
def fsPlan (home input : List UInt8) : Option PathPlan :=
  let input := terminal_expand_home_path home input 64
  let p := skipBlanks input
  let segs := pathSegments [] p
  if p = [] then none
  else (readNames false (dropRoot segs)).map fun r =>
    ⟨p.head? = some slash ∨ segs.head? = some rootName, r.1, r.2.getD (input.take 19)⟩

/-- What `resolve_editor_target` reads in a path. -/
def editorPlan (home input : List UInt8) : Option PathPlan :=
  let expanded := terminal_expand_home_path home input 128
  let p := skipBlanks expanded
  let segs := pathSegments [] p
  let ends_with_slash := (skipBlanks expanded.reverse).head? == some slash
  if p = [] then none
  else (readNames ends_with_slash (if p.head? = some slash then dropRoot segs else segs)).map
    fun r => ⟨p.head? = some slash, r.1, r.2.getD []⟩

/-! ## The walk follows the plan -/

section

variable [BuildConfig]

theorem walk_follows (into : Bool) (st : FsState) (b : Nat) (cwd : List UInt8)
    (segs : List (List UInt8)) :
    (walk into st b cwd segs).2.map (fun e => (e.bno, e.leaf)) =
      (readNames into segs).bind fun r =>
        (r.1.foldlM (stepName st.disk) b).map fun d => (orRoot d, r.2) := by
  induction segs generalizing st b cwd with
  | nil => rfl
  | cons seg rest ih =>
    have hready := ensure_ready_disk st
    -- the step is part of the rest of the plan
    have hmap : ∀ o : Option (List (List UInt8) × Option (List UInt8)),
        ((o.map fun r => (seg :: r.1, r.2)).bind fun r =>
          (r.1.foldlM (stepName st.disk) b).map fun d => (orRoot d, r.2)) =
        (stepName st.disk b seg).bind fun b' => o.bind fun r =>
          (r.1.foldlM (stepName st.disk) b').map fun d => (orRoot d, r.2) := by
      intro o
      cases o with
      | none => cases stepName st.disk b seg <;> rfl
      | some r =>
        simp only [Option.map_some, Option.bind_some, List.foldlM_cons]
        cases stepName st.disk b seg <;> rfl
    unfold walk readNames
    rw [load_current_dir_eq]
    split
    · rfl
    split
    · exact ih _ _ _
    split
    · rename_i hup
      rw [hmap, stepName]
      cases dirOf st.disk b with
      | none => rfl
      | some d =>
        simp only [Option.map_some, Option.bind_some, if_pos hup]
        rw [ih, hready]
        rfl
    split
    · rfl
    rename_i hup _
    rw [hmap, stepName]
    cases dirOf st.disk b with
    | none => rfl
    | some d =>
      simp only [Option.map_some, Option.bind_some, if_neg hup, childOf]
      cases find_entry_index (DirBlock.ofDisk d) seg (some 1) with
      | none => rfl
      | some i =>
        simp only [Option.map_some, Option.bind_some]
        rw [ih, hready]

omit [BuildConfig] in
theorem pathSegments_eq (cur p : List UInt8) :
    pathSegments cur p =
      (if cur ++ p.takeWhile (· != slash) = [] then [] else [cur ++ p.takeWhile (· != slash)]) ++
        pathSegments [] (p.dropWhile (· != slash)) := by
  induction p generalizing cur with
  | nil => simp [pathSegments]
  | cons c p ih =>
    by_cases hc : c = slash
    · subst hc
      rw [List.takeWhile_cons_of_neg (by simp), List.dropWhile_cons_of_neg (by simp),
        List.append_nil]
      simp only [pathSegments, if_true]
      split <;> rfl
    · have hgo : (c != slash) = true := by simpa using hc
      have htake : (c :: p).takeWhile (· != slash) = c :: p.takeWhile (· != slash) :=
        List.takeWhile_cons_of_pos hgo
      have hdrop : (c :: p).dropWhile (· != slash) = p.dropWhile (· != slash) :=
        List.dropWhile_cons_of_pos hgo
      rw [htake, hdrop, pathSegments, if_neg hc, ih]
      simp

omit [BuildConfig] in
theorem pathSegments_skipSlashes (p : List UInt8) :
    pathSegments [] (skipSlashes p) = pathSegments [] p := by
  induction p with
  | nil => rfl
  | cons c p ih =>
    by_cases hc : c = slash
    · subst hc
      have hskip : skipSlashes (slash :: p) = skipSlashes p :=
        List.dropWhile_cons_of_pos (beq_self_eq_true slash)
      rw [hskip, ih]
      rfl
    · have hstay : skipSlashes (c :: p) = c :: p :=
        List.dropWhile_cons_of_neg (by simpa using hc)
      rw [hstay]

omit [BuildConfig] in
theorem head_skipSlashes (p : List UInt8) : (skipSlashes p).head? ≠ some slash := by
  intro h
  have hstop := List.head?_dropWhile_not (· == slash) p
  unfold skipSlashes at h
  rw [h] at hstop
  exact absurd hstop (by decide)

/-- The path behind a first name `root`. -/
def behindRoot (p : List UInt8) : List UInt8 :=
  if lit ['r', 'o', 'o', 't', '/'] <+: p then p.drop 5
  else if p = rootName then [] else p

omit [BuildConfig] in
theorem head_pathSegments_root {p : List UInt8} (h : p.head? ≠ some slash) :
    (pathSegments [] p).head? = some rootName ↔
      lit ['r', 'o', 'o', 't', '/'] <+: p ∨ p = rootName := by
  constructor
  · intro hhead
    have hsplit := @List.takeWhile_append_dropWhile _ (· != slash) p
    rw [pathSegments_eq, List.nil_append] at hhead
    by_cases hw : p.takeWhile (· != slash) = []
    · -- a path that starts with no name is empty
      cases p with
      | nil => cases hhead
      | cons c p =>
        rw [List.takeWhile_eq_nil_iff] at hw
        have hc := hw (Nat.zero_lt_succ _)
        exact absurd (by simpa using hc) h
    · rw [if_neg hw, List.singleton_append, List.head?_cons, Option.some.injEq] at hhead
      rw [hhead] at hsplit
      cases hd : p.dropWhile (· != slash) with
      | nil =>
        rw [hd, List.append_nil] at hsplit
        exact Or.inr hsplit.symm
      | cons c rest =>
        have hc : c = slash := by
          have hstop := List.head?_dropWhile_not (· != slash) p
          rw [hd, List.head?_cons] at hstop
          simpa using hstop
        rw [hd, hc] at hsplit
        exact Or.inl ⟨rest, hsplit⟩
  · rintro (⟨rest, rfl⟩ | rfl)
    · rfl
    · rfl

omit [BuildConfig] in
theorem pathSegments_behindRoot {p : List UInt8} (h : p.head? ≠ some slash) :
    pathSegments [] (behindRoot p) = dropRoot (pathSegments [] p) := by
  unfold behindRoot
  by_cases hslash : lit ['r', 'o', 'o', 't', '/'] <+: p
  · rw [if_pos hslash]
    obtain ⟨rest, rfl⟩ := hslash
    rfl
  rw [if_neg hslash]
  by_cases hroot : p = rootName
  · rw [if_pos hroot, hroot]
    rfl
  rw [if_neg hroot]
  have hhead := mt (head_pathSegments_root h).mp (not_or.mpr ⟨hslash, hroot⟩)
  cases hs : pathSegments [] p with
  | nil => rfl
  | cons seg rest =>
    rw [hs, List.head?_cons, Option.some.injEq] at hhead
    rw [dropRoot, if_neg hhead]

theorem walk_end_follows (into : Bool) (st : FsState) (b : Nat) (cwd whole : List UInt8)
    (segs : List (List UInt8)) :
    (match walk into st b cwd segs with
      | (st, none) => (st, none)
      | (st, some e) => (st, some (e.bno, e.cwd, e.leaf.getD whole)) :
      FsState × Option (Nat × List UInt8 × List UInt8)).2.map (fun r => (r.1, r.2.2)) =
    (readNames into segs).bind fun r =>
      (r.1.foldlM (stepName st.disk) b).map fun d => (orRoot d, r.2.getD whole) := by
  have hwalk := walk_follows into st b cwd segs
  have hleaf := congrArg (Option.map fun r => (r.1, r.2.getD whole)) hwalk
  have hright : ((readNames into segs).bind fun r =>
      (r.1.foldlM (stepName st.disk) b).map fun d => (orRoot d, r.2)).map
        (fun r => (r.1, r.2.getD whole)) =
      (readNames into segs).bind fun r =>
        (r.1.foldlM (stepName st.disk) b).map fun d => (orRoot d, r.2.getD whole) := by
    cases readNames into segs with
    | none => rfl
    | some r =>
      rw [Option.bind_some, Option.bind_some, Option.map_map]
      rfl
  rw [hright] at hleaf
  rw [← hleaf]
  rcases walk into st b cwd segs with ⟨st', _ | e⟩
  · rfl
  · rfl

omit [BuildConfig] in
theorem root_start (b : Nat) (cwd : List UInt8) {q : List UInt8} (hq : q.head? ≠ some slash) :
    (if lit ['r', 'o', 'o', 't', '/'] <+: q then (1, rootPath, q.drop 5)
      else if q = lit ['r', 'o', 'o', 't'] then (1, rootPath, []) else (b, cwd, q)) =
    (if (pathSegments [] q).head? = some rootName then 1 else b,
      if (pathSegments [] q).head? = some rootName then rootPath else cwd, behindRoot q) := by
  have hroot := head_pathSegments_root hq
  unfold behindRoot
  by_cases hslash : lit ['r', 'o', 'o', 't', '/'] <+: q
  · have hfirst := hroot.mpr (Or.inl hslash)
    rw [if_pos hslash, if_pos hslash, if_pos hfirst, if_pos hfirst]
  rw [if_neg hslash, if_neg hslash]
  by_cases heq : q = rootName
  · have hfirst := hroot.mpr (Or.inr heq)
    rw [if_pos hfirst, if_pos hfirst, if_pos heq]
    exact if_pos heq
  · have hfirst := mt hroot.mp (not_or.mpr ⟨hslash, heq⟩)
    rw [if_neg hfirst, if_neg hfirst, if_neg heq]
    exact if_neg heq

theorem resolve_fs_target_plan (st : FsState) (w : Window) (input : List UInt8) :
    (resolve_fs_target st w input).2.map (fun r => (r.1, r.2.2)) =
      (fsPlan w.home.bytes input).bind fun P => P.find st.disk w.cwd_bno := by
  unfold resolve_fs_target fsPlan
  dsimp only
  generalize terminal_expand_home_path w.home.bytes input 64 = e
  generalize skipBlanks e = p
  by_cases hnil : p = []
  · rw [if_pos hnil, if_pos hnil]
    rfl
  rw [if_neg hnil, if_neg hnil, Option.bind_map]
  by_cases habs : p.head? = some slash
  · rw [if_pos habs]
    dsimp only
    rw [root_start 1 rootPath (head_skipSlashes p)]
    dsimp only
    apply (walk_end_follows false st _ _ (e.take 19) _).trans
    rw [pathSegments_behindRoot (head_skipSlashes p), pathSegments_skipSlashes, ite_self]
    simp only [Function.comp_def, PathPlan.find, habs, true_or, decide_true, if_true]
  · rw [if_neg habs]
    dsimp only
    rw [root_start (orRoot w.cwd_bno) (orRootPath w.cwd) habs]
    dsimp only
    apply (walk_end_follows false st _ _ (e.take 19) _).trans
    rw [pathSegments_behindRoot habs]
    simp only [Function.comp_def, PathPlan.find, habs, false_or, decide_eq_true_eq]

theorem resolve_editor_target_plan (st : FsState) (w : Window) (input : List UInt8) :
    (resolve_editor_target st w input).2.map (fun r => (r.1, r.2.2)) =
      (editorPlan w.home.bytes input).bind fun P => P.find st.disk w.cwd_bno := by
  unfold resolve_editor_target editorPlan
  dsimp only
  generalize terminal_expand_home_path w.home.bytes input 128 = e
  generalize skipBlanks e = p
  by_cases hnil : p = []
  · rw [if_pos hnil, if_pos hnil]
    rfl
  rw [if_neg hnil, if_neg hnil, Option.bind_map]
  by_cases habs : p.head? = some slash
  · have hroot := pathSegments_behindRoot (head_skipSlashes p)
    rw [pathSegments_skipSlashes] at hroot
    unfold behindRoot rootName at hroot
    rw [if_pos habs, if_pos habs]
    dsimp only
    apply (walk_end_follows _ st 1 rootPath [] _).trans
    rw [hroot]
    simp only [Function.comp_def, PathPlan.find, habs, decide_true, if_true]
  · rw [if_neg habs, if_neg habs]
    dsimp only
    apply (walk_end_follows _ st _ _ [] _).trans
    simp only [Function.comp_def, PathPlan.find, habs, decide_false, Bool.false_eq_true, if_false]

end

/-! ## The expansion as a cut -/

/-- The path with HOME for `~`, in a buffer without an end. -/
def wholePath (home src : List UInt8) : List UInt8 :=
  match src with
  | [] => []
  | c :: rest =>
    if c ≠ '~'.toUInt8 ∨ (rest ≠ [] ∧ rest.head? ≠ some slash) then src
    else
      let home := orRootPath home
      let rest := if rest.head? = some slash then rest.tail else rest
      let rest :=
        if home.getLast? = some slash ∧ rest.head? = some slash then rest.tail else rest
      (if home.getLast? ≠ some slash then home ++ [slash] else home) ++ rest

theorem orRootPath_ne_nil (s : List UInt8) : orRootPath s ≠ [] := by
  unfold orRootPath
  split
  · decide
  · assumption

theorem terminal_expand_home_path_eq (home src : List UInt8) (n : Nat) :
    terminal_expand_home_path home src n = (wholePath home src).take (n - 1) := by
  unfold terminal_expand_home_path wholePath
  cases src with
  | nil => exact List.take_nil.symm
  | cons c rest =>
    dsimp only
    by_cases hplain : c ≠ '~'.toUInt8 ∨ (rest ≠ [] ∧ rest.head? ≠ some slash)
    · rw [if_pos hplain, if_pos hplain]
    rw [if_neg hplain, if_neg hplain]
    have hne := orRootPath_ne_nil home
    generalize orRootPath home = home at hne ⊢
    generalize (if rest.head? = some slash then rest.tail else rest) = rest
    by_cases hroom : n - 1 ≤ home.length
    · -- HOME fills the buffer
      have hlen : (home.take (n - 1)).length = n - 1 := by
        rw [List.length_take]
        omega
      rw [if_neg (fun h => absurd h.1.2 (by omega)), if_neg (fun h => absurd h.1.2 (by omega)), hlen,
        Nat.sub_self, List.take_zero, List.append_nil, List.take_append_of_le_length]
      · split
        · rw [List.take_append_of_le_length hroom]
        · rfl
      · split
        · rw [List.length_append]
          omega
        · exact hroom
    · have htake : home.take (n - 1) = home := List.take_of_length_le (by omega)
      have hlt : home.length < n - 1 := by omega
      simp only [htake, ne_eq, hne, not_false_eq_true, hlt, and_self, true_and]
      have hfits : (if ¬ home.getLast? = some slash then home ++ [slash] else home).length ≤ n - 1 := by
        split
        · rw [List.length_append, List.length_singleton]
          omega
        · omega
      rw [List.take_append, List.take_of_length_le hfits]

/-! ## Plans told apart -/

/-- A directory with one entry in it, a directory `name`. -/
def oneEntry (name : List UInt8) (bno : Nat) : FileEntry :=
  ⟨copy_name20 FileEntry.zero.name name, bno, 0, 0, 0, 7, 1⟩

/-- The directory for one step: the step leads to block `next`, and no other step leads there. -/
def stepDir (name : List UInt8) (next away : Nat) : DiskDir where
  parent_bno := if name = dotdotName then next else away
  slots i := if i.val = 0 ∧ name ≠ dotdotName then oneEntry name next else .zero
  edge := Bytes.zero EDGE_BYTES

/-- A disk with a directory for each of the steps, from block `base + 1` on, and no other
directory. -/
def stepsDisk (base : Nat) (steps : List (List UInt8)) : Disk := fun b =>
  match if b ≤ base then none else steps[b - base - 1]? with
  | none => .raw .zero
  | some name => .dir (stepDir name (b + 1) (base + steps.length + 2))

structure EntryName (name : List UInt8) : Prop where
  ne_nil : name ≠ []
  short : name.length ≤ 19
  nul_free : 0 ∉ name

theorem childOf_stepDir {name : List UInt8} (h : EntryName name) (hup : name ≠ dotdotName)
    (next away : Nat) (other : List UInt8) :
    childOf (stepDir name next away) other = if other = name then some next else none := by
  have hname : (oneEntry name next).nameStr = name := by
    unfold oneEntry FileEntry.nameStr
    rw [cstr_copy_name20 _ h.nul_free, List.take_of_length_le h.short]
  have h0 : (DirBlock.ofDisk (stepDir name next away)).entries ⟨0, by decide⟩ = oneEntry name next := by
    rw [ofDisk_entries_of_lt _ _ (by decide)]
    exact if_pos ⟨rfl, hup⟩
  have hrest : ∀ j : Fin MAX_DIR_ENTRIES, j.val ≠ 0 →
      ((DirBlock.ofDisk (stepDir name next away)).entries j).type = 0 := by
    intro j hj
    by_cases hlt : j.val < DIR_SLOTS
    · rw [ofDisk_entries_of_lt _ _ hlt]
      exact congrArg FileEntry.type (if_neg fun hc => hj hc.1)
    · exact (ofDisk_entries_of_ge _ _ (Nat.not_lt.mp hlt)).2
  unfold childOf
  by_cases heq : other = name
  · have hfind : find_entry_index (DirBlock.ofDisk (stepDir name next away)) other (some 1) =
        some ⟨0, by decide⟩ := by
      rw [find_entry_index_eq_some, h0]
      refine ⟨⟨(FileEntry.inUse_iff _).mpr (by rw [hname]; exact h.ne_nil), ?_, ?_⟩, ?_⟩
      · rintro t ht
        cases ht
        rfl
      · rw [hname, heq]
      · intro j hj
        exact absurd hj (Nat.not_lt_zero _)
    rw [hfind, if_pos heq, Option.map_some, h0]
    rfl
  · rw [if_neg heq, Option.map_eq_none_iff, find_entry_index_eq_none]
    rintro j ⟨-, htype, hj⟩
    by_cases hj0 : j.val = 0
    · have : j = ⟨0, by decide⟩ := Fin.ext hj0
      rw [this, h0, hname] at hj
      exact heq hj.symm
    · have := htype 1 rfl
      rw [hrest j hj0] at this
      cases this

theorem childOf_stepDir_up (next away : Nat) (other : List UInt8) :
    childOf (stepDir dotdotName next away) other = none := by
  unfold childOf
  rw [Option.map_eq_none_iff, find_entry_index_eq_none]
  rintro j ⟨-, htype, -⟩
  have h1 := htype 1 rfl
  by_cases hlt : j.val < DIR_SLOTS
  · rw [ofDisk_entries_of_lt _ _ hlt] at h1
    have h0 : ((stepDir dotdotName next away).slots ⟨j.val, hlt⟩).type = 0 :=
      congrArg FileEntry.type (if_neg fun hc => hc.2 rfl)
    rw [h0] at h1
    cases h1
  · rw [(ofDisk_entries_of_ge _ _ (Nat.not_lt.mp hlt)).2] at h1
    cases h1

section

variable {base : Nat} {steps : List (List UInt8)}

theorem stepName_stepsDisk {k : Nat} {name : List UInt8} (h : steps[k]? = some name)
    (hname : EntryName name) (other : List UInt8) :
    stepName (stepsDisk base steps) (base + k + 1) other =
      if other = name then some (base + (k + 1) + 1)
      else if other = dotdotName then some (base + steps.length + 2) else none := by
  have hdir : dirOf (stepsDisk base steps) (base + k + 1) =
      some (stepDir name (base + k + 1 + 1) (base + steps.length + 2)) := by
    have hk : base + k + 1 - base - 1 = k := by omega
    unfold dirOf stepsDisk
    rw [if_neg (by omega), hk, h]
  rw [stepName, hdir, Option.bind_some]
  by_cases hup : name = dotdotName
  · rw [hup, childOf_stepDir_up]
    by_cases ho : other = dotdotName
    · rw [if_pos ho, if_pos ho]
      rfl
    · rw [if_neg ho, if_neg ho, if_neg ho]
  · rw [childOf_stepDir hname hup]
    by_cases ho : other = dotdotName
    · have hne : other ≠ name := fun hc => hup (hc.symm.trans ho)
      rw [if_pos ho, if_neg hne, if_pos ho]
      exact congrArg (fun b => some (orRoot b)) (if_neg hup)
    · rw [if_neg ho, if_neg ho]
      rfl

theorem stepName_stepsDisk_none {b : Nat} (h : b ≤ base ∨ base + steps.length < b)
    (other : List UInt8) : stepName (stepsDisk base steps) b other = none := by
  have hnone : (if b ≤ base then none else steps[b - base - 1]?) = none := by
    split
    · rfl
    · exact List.getElem?_eq_none (by omega)
  have hdir : dirOf (stepsDisk base steps) b = none := by
    unfold dirOf stepsDisk
    rw [hnone]
  rw [stepName, hdir]
  rfl

theorem foldlM_stepsDisk_away {b : Nat} (h : b ≤ base ∨ base + steps.length + 1 < b)
    (others : List (List UInt8)) :
    others.foldlM (stepName (stepsDisk base steps)) b ≠ some (base + steps.length + 1) := by
  cases others with
  | nil =>
    intro heq
    have hb : b = base + steps.length + 1 := Option.some.inj heq
    omega
  | cons other others =>
    rw [List.foldlM_cons, stepName_stepsDisk_none (by omega)]
    exact nofun

variable (h : ∀ name ∈ steps, EntryName name)

include h

theorem foldlM_stepsDisk :
    steps.foldlM (stepName (stepsDisk base steps)) (base + 1) = some (base + steps.length + 1) := by
  have key : ∀ pre suf, steps = pre ++ suf →
      suf.foldlM (stepName (stepsDisk base steps)) (base + pre.length + 1) =
        some (base + steps.length + 1) := by
    intro pre suf hsplit
    induction suf generalizing pre with
    | nil => rw [hsplit, List.append_nil, List.foldlM_nil]; rfl
    | cons name suf ih =>
      have hget : steps[pre.length]? = some name := by
        rw [hsplit, List.getElem?_append_right (Nat.le_refl _), Nat.sub_self, List.getElem?_cons_zero]
      have hnext := ih (pre ++ [name]) (by rw [hsplit, List.append_assoc]; rfl)
      rw [List.length_append, List.length_singleton] at hnext
      rw [List.foldlM_cons, stepName_stepsDisk hget (h name (List.mem_of_getElem? hget)), if_pos rfl]
      exact hnext
  exact key [] steps rfl

theorem foldlM_stepsDisk_ne {others : List (List UInt8)} (hne : others ≠ steps) :
    others.foldlM (stepName (stepsDisk base steps)) (base + 1) ≠
      some (base + steps.length + 1) := by
  have key : ∀ pre suf others, steps = pre ++ suf → others ≠ suf →
      others.foldlM (stepName (stepsDisk base steps)) (base + pre.length + 1) ≠
        some (base + steps.length + 1) := by
    intro pre suf others hsplit hne
    induction others generalizing pre suf with
    | nil =>
      rw [List.foldlM_nil]
      intro heq
      have hlen : base + pre.length + 1 = base + steps.length + 1 := Option.some.inj heq
      rw [hsplit, List.length_append] at hlen
      exact hne (List.length_eq_zero_iff.mp (by omega)).symm
    | cons other others ih =>
      rw [List.foldlM_cons]
      cases suf with
      | nil =>
        rw [List.append_nil] at hsplit
        rw [stepName_stepsDisk_none (by rw [hsplit]; omega)]
        exact nofun
      | cons name suf =>
        have hget : steps[pre.length]? = some name := by
          rw [hsplit, List.getElem?_append_right (Nat.le_refl _), Nat.sub_self,
            List.getElem?_cons_zero]
        rw [stepName_stepsDisk hget (h name (List.mem_of_getElem? hget))]
        by_cases hsame : other = name
        · have hnext := ih (pre ++ [name]) suf (by rw [hsplit, List.append_assoc]; rfl)
            (fun hc => hne (by rw [hsame, hc]))
          rw [List.length_append, List.length_singleton] at hnext
          rw [if_pos hsame]
          exact hnext
        rw [if_neg hsame]
        by_cases hup : other = dotdotName
        · -- a step up leads away
          rw [if_pos hup]
          exact foldlM_stepsDisk_away (Or.inr (Nat.lt_succ_self _)) others
        · rw [if_neg hup]
          exact nofun
  exact key [] steps others rfl hne

end

section

variable {base : Nat} {steps : List (List UInt8)} (h : ∀ name ∈ steps, EntryName name)

include h

theorem stepName_stepsDisk_ne_zero {b b' : Nat} {other : List UInt8}
    (hs : stepName (stepsDisk base steps) b other = some b') : b' ≠ 0 := by
  by_cases hout : b ≤ base ∨ base + steps.length < b
  · rw [stepName_stepsDisk_none hout] at hs
    cases hs
  · obtain ⟨k, rfl⟩ : ∃ k, b = base + k + 1 := ⟨b - base - 1, by omega⟩
    have hk : k < steps.length := by omega
    rw [stepName_stepsDisk (List.getElem?_eq_getElem hk) (h _ (List.getElem_mem hk))] at hs
    split at hs
    · cases hs
      exact Nat.succ_ne_zero _
    split at hs
    · cases hs
      exact Nat.succ_ne_zero _
    · cases hs

theorem foldlM_stepsDisk_ne_zero {b b' : Nat} (hb : b ≠ 0) {others : List (List UInt8)}
    (hs : others.foldlM (stepName (stepsDisk base steps)) b = some b') : b' ≠ 0 := by
  induction others generalizing b with
  | nil =>
    cases hs
    exact hb
  | cons other others ih =>
    rw [List.foldlM_cons, Option.bind_eq_bind] at hs
    obtain ⟨b1, h1, h2⟩ := Option.bind_eq_some_iff.mp hs
    exact ih (stepName_stepsDisk_ne_zero h h1) h2

end

/-- The names of a plan are names that an entry can have. -/
def PathPlan.Named (P : PathPlan) : Prop := ∀ name ∈ P.steps, EntryName name

theorem PathPlan.told_apart {P : PathPlan} (h : P.Named) (Q : PathPlan) :
    ∃ disk cwd_bno r, P.find disk cwd_bno = some r ∧ (Q.find disk cwd_bno = some r → Q = P) := by
  obtain ⟨fromRoot, steps, leaf⟩ := P
  obtain ⟨fromRoot', steps', leaf'⟩ := Q
  -- the plan of a working directory starts in block 2, away from the root
  refine ⟨stepsDisk (if fromRoot then 0 else 1) steps,
    if fromRoot then steps.length + 2 else 2,
    ((if fromRoot then 0 else 1) + steps.length + 1, leaf), ?_, ?_⟩
  · have hfind := @foldlM_stepsDisk (if fromRoot then 0 else 1) steps h
    cases fromRoot
    · simp only [find, Bool.false_eq_true, if_false, orRoot_of_ne_zero (Nat.succ_ne_zero 1)] at *
      rw [hfind, Option.map_some, orRoot_of_ne_zero (Nat.succ_ne_zero _)]
    · simp only [find, if_true] at *
      rw [hfind, Option.map_some, orRoot_of_ne_zero (Nat.succ_ne_zero _)]
  · intro hfind
    obtain ⟨b, hb, heq⟩ := Option.map_eq_some_iff.mp hfind
    obtain ⟨hlast, hleaf⟩ := Prod.mk.inj heq
    dsimp only at hleaf
    have hstart : (if fromRoot' then 1 else
        orRoot (if fromRoot then steps.length + 2 else 2)) ≠ 0 := by
      split
      · decide
      · exact orRoot_ne_zero _
    rw [orRoot_of_ne_zero (foldlM_stepsDisk_ne_zero h hstart hb)] at hlast
    rw [hlast] at hb
    dsimp only at hb
    have hsteps : steps' = steps ∧ fromRoot' = fromRoot := by
      cases fromRoot <;> cases fromRoot'
      · refine ⟨?_, rfl⟩
        by_contra hne
        exact foldlM_stepsDisk_ne h hne hb
      · exact absurd hb (foldlM_stepsDisk_away (Or.inl (Nat.le_refl 1)) _)
      · simp only [if_true, Bool.false_eq_true, if_false, Nat.zero_add,
          orRoot_of_ne_zero (Nat.succ_ne_zero (steps.length + 1))] at hb
        refine absurd hb ?_
        have haway := @foldlM_stepsDisk_away 0 steps (steps.length + 2) (Or.inr (by omega)) steps'
        rwa [Nat.zero_add] at haway
      · refine ⟨?_, rfl⟩
        by_contra hne
        exact foldlM_stepsDisk_ne h hne hb
    rw [hsteps.1, hsteps.2, hleaf]

/-! ## The names of a plan -/

theorem readNames_steps {into : Bool} {segs : List (List UInt8)}
    {r : List (List UInt8) × Option (List UInt8)} (h : readNames into segs = some r) :
    ∀ name ∈ r.1, name ∈ segs ∧ name.length ≤ 19 := by
  induction segs generalizing r with
  | nil =>
    cases h
    exact nofun
  | cons seg rest ih =>
    have hrest : ∀ r', readNames into rest = some r' →
        ∀ name ∈ r'.1, name ∈ seg :: rest ∧ name.length ≤ 19 :=
      fun r' h' name hn => ⟨List.mem_cons_of_mem _ (ih h' name hn).1, (ih h' name hn).2⟩
    unfold readNames at h
    split at h
    · cases h
    rename_i hlen
    have hcons : (readNames into rest).map (fun r => (seg :: r.1, r.2)) = some r →
        ∀ name ∈ r.1, name ∈ seg :: rest ∧ name.length ≤ 19 := by
      intro hmap
      obtain ⟨r', h', rfl⟩ := Option.map_eq_some_iff.mp hmap
      intro name hn
      rcases List.mem_cons.mp hn with rfl | hn
      · exact ⟨List.mem_cons_self, Nat.not_lt.mp hlen⟩
      · exact hrest r' h' name hn
    split at h
    · exact hrest r h
    split at h
    · exact hcons h
    split at h
    · cases h
      exact nofun
    · exact hcons h

theorem readNames_leaf {segs : List (List UInt8)} {s : List UInt8} (hlast : segs.getLast? = some s)
    (hdot : s ≠ dotName) (hup : s ≠ dotdotName) {r : List (List UInt8) × Option (List UInt8)}
    (h : readNames false segs = some r) :
    r.2 = some s ∧ r.1 = segs.dropLast.filter (· ≠ dotName) := by
  induction segs generalizing r with
  | nil => cases hlast
  | cons seg rest ih =>
    unfold readNames at h
    cases rest with
    | nil =>
      obtain rfl : seg = s := Option.some.inj hlast
      split at h
      · cases h
      · rw [if_pos ⟨rfl, rfl⟩] at h
        cases h
        exact ⟨rfl, rfl⟩
    | cons seg' rest =>
      rw [List.getLast?_cons_cons] at hlast
      rw [List.dropLast_cons_of_ne_nil (List.cons_ne_nil _ _)]
      split at h
      · cases h
      split at h
      · rename_i hseg
        rw [List.filter_cons_of_neg (by simpa using hseg)]
        exact ih hlast h
      rename_i hseg
      have hkeep : (readNames false (seg' :: rest)).map (fun r => (seg :: r.1, r.2)) = some r →
          r.2 = some s ∧
            r.1 = (seg :: (seg' :: rest).dropLast).filter (· ≠ dotName) := by
        intro hmap
        obtain ⟨r', h', rfl⟩ := Option.map_eq_some_iff.mp hmap
        rw [List.filter_cons_of_pos (by simpa using hseg), (ih hlast h').2]
        exact ⟨(ih hlast h').1, rfl⟩
      split at h
      · exact hkeep h
      split at h
      · rename_i hend
        cases hend.1
      · exact hkeep h

theorem mem_of_mem_dropRoot {segs : List (List UInt8)} {name : List UInt8}
    (h : name ∈ dropRoot segs) : name ∈ segs := by
  unfold dropRoot at h
  split at h
  · exact h
  split at h
  · exact List.mem_cons_of_mem _ h
  · exact h

theorem named_of_readNames {into : Bool} {p : List UInt8} {segs : List (List UInt8)}
    {r : List (List UInt8) × Option (List UInt8)} (hp : 0 ∉ p)
    (hsegs : ∀ name ∈ segs, name ∈ pathSegments [] p) (h : readNames into segs = some r) :
    ∀ name ∈ r.1, EntryName name := by
  intro name hname
  obtain ⟨hmem, hshort⟩ := readNames_steps h name hname
  have hseg := hsegs name hmem
  refine ⟨(mem_pathSegments (by simp) hseg).1, hshort, fun h0 => ?_⟩
  exact (mem_of_mem_pathSegments h0 hseg).elim (by simp) hp

theorem nul_not_mem_skipBlanks {p : List UInt8} (h : 0 ∉ p) : 0 ∉ skipBlanks p :=
  fun h0 => h ((List.dropWhile_sublist _).subset h0)

theorem fsPlan_named {home input : List UInt8} (hhome : 0 ∉ home) (hinput : 0 ∉ input)
    {P : PathPlan} (h : fsPlan home input = some P) : P.Named := by
  have hp := nul_not_mem_skipBlanks (nul_not_mem_expand 64 hhome hinput)
  unfold fsPlan at h
  dsimp only at h
  split at h
  · cases h
  · obtain ⟨r, hr, rfl⟩ := Option.map_eq_some_iff.mp h
    exact named_of_readNames hp (fun _ => mem_of_mem_dropRoot) hr

theorem editorPlan_named {home input : List UInt8} (hhome : 0 ∉ home) (hinput : 0 ∉ input)
    {P : PathPlan} (h : editorPlan home input = some P) : P.Named := by
  have hp := nul_not_mem_skipBlanks (nul_not_mem_expand 128 hhome hinput)
  unfold editorPlan at h
  dsimp only at h
  split at h
  · cases h
  · obtain ⟨r, hr, rfl⟩ := Option.map_eq_some_iff.mp h
    refine named_of_readNames hp (fun name hn => ?_) hr
    split at hn
    · exact mem_of_mem_dropRoot hn
    · exact hn

end vibeos.fs
