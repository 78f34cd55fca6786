-- The two path resolvers against each other and against the rule of a path: the start, the
-- directories on the way, and the last name. `resolve_fs_target` reads 63 bytes of a path and takes a
-- first name `root` for the root, `resolve_editor_target` reads 127 bytes.
import Vibeos.PathPlans
import Vibeos.WindowDirs

namespace vibeos.fs

/-! ## The rule -/

def startsHome (input : List UInt8) : Bool :=
  match input with
  | [] => false
  | c :: rest => c == '~'.toUInt8 && (rest.isEmpty || rest.head? == some slash)

/-- The plan of a path by the rule: an absolute path and a path of HOME start in block 1, every name
but the last is a directory on the way, and the last one is the leaf. A path without a name has no
plan. -/
def rulePlan (home input : List UInt8) : Option PathPlan :=
  let p := skipBlanks (wholePath home input)
  let segs := pathSegments [] p
  let fromRoot : Bool := startsHome input || p.head? == some slash
  let names := if fromRoot then dropRoot segs else segs
  names.getLast?.map fun leaf => ⟨fromRoot, names.dropLast.filter (· ≠ dotName), leaf⟩

/-- The last name is a plain one, and a relative path does not start with `root`. -/
def PlainTarget (path : List UInt8) : Prop :=
  let p := skipBlanks path
  let segs := pathSegments [] p
  (p.head? = some slash ∨ segs.head? ≠ some rootName) ∧
    (skipBlanks path.reverse).head? ≠ some slash ∧
    ∃ leaf, (dropRoot segs).getLast? = some leaf ∧ leaf ≠ dotName ∧ leaf ≠ dotdotName

theorem dropRoot_of_head {segs : List (List UInt8)} (h : segs.head? ≠ some rootName) :
    dropRoot segs = segs := by
  cases segs with
  | nil => rfl
  | cons seg rest => exact if_neg fun hseg => h (congrArg some hseg)

theorem skipBlanks_ne_nil_of_segments {p : List UInt8} (h : dropRoot (pathSegments [] p) ≠ []) :
    p ≠ [] := by
  rintro rfl
  exact h rfl

section

variable {home input : List UInt8}

theorem fsPlan_eq_rulePlan (hlen : (wholePath home input).length ≤ 63)
    (hplain : PlainTarget (wholePath home input))
    (hhome : startsHome input = true →
      (skipBlanks (wholePath home input)).head? = some slash) :
    fsPlan home input = none ∨ fsPlan home input = rulePlan home input := by
  obtain ⟨hstart, -, leaf, hleaf, hdot, hup⟩ := hplain
  unfold fsPlan rulePlan
  rw [terminal_expand_home_path_eq, List.take_of_length_le hlen]
  dsimp only
  generalize wholePath home input = e at *
  generalize skipBlanks e = p at *
  have hp : p ≠ [] := skipBlanks_ne_nil_of_segments fun hnil => by rw [hnil] at hleaf; cases hleaf
  rw [if_neg hp]
  cases hr : readNames false (dropRoot (pathSegments [] p)) with
  | none => exact Or.inl rfl
  | some r =>
    obtain ⟨h1, h2⟩ := readNames_leaf hleaf hdot hup hr
    refine Or.inr ?_
    by_cases habs : p.head? = some slash
    · simp only [habs, beq_self_eq_true, Bool.or_true, if_true, hleaf, Option.map_some, h1, h2,
        Option.getD_some, true_or, decide_true]
    · have hrel := hstart.resolve_left habs
      have hno : startsHome input = false := by
        cases hs : startsHome input with
        | false => rfl
        | true => exact absurd (hhome hs) habs
      rw [dropRoot_of_head hrel] at hleaf h2
      simp only [hno, habs, hrel, hleaf, h1, h2, Bool.false_or, beq_eq_false_iff_ne.mpr habs,
        Bool.false_eq_true, if_false, Option.map_some, Option.getD_some, or_self, decide_false]

theorem fsPlan_eq_editorPlan (hlen : (wholePath home input).length ≤ 63)
    (hplain : PlainTarget (wholePath home input)) :
    fsPlan home input = editorPlan home input := by
  obtain ⟨hstart, hslash, leaf, hleaf, hdot, hup⟩ := hplain
  unfold fsPlan editorPlan
  rw [terminal_expand_home_path_eq, terminal_expand_home_path_eq, List.take_of_length_le hlen,
    List.take_of_length_le (Nat.le_trans hlen (by decide))]
  dsimp only
  generalize wholePath home input = e at *
  have hinto : ((skipBlanks e.reverse).head? == some slash) = false := beq_eq_false_iff_ne.mpr hslash
  rw [hinto]
  generalize skipBlanks e = p at *
  have hp : p ≠ [] := skipBlanks_ne_nil_of_segments fun hnil => by rw [hnil] at hleaf; cases hleaf
  rw [if_neg hp, if_neg hp]
  have hnames : (if p.head? = some slash then dropRoot (pathSegments [] p) else pathSegments [] p) =
      dropRoot (pathSegments [] p) := by
    split
    · rfl
    · rename_i habs
      exact (dropRoot_of_head (hstart.resolve_left habs)).symm
  have hroot : decide (p.head? = some slash ∨ (pathSegments [] p).head? = some rootName) =
      decide (p.head? = some slash) :=
    decide_eq_decide.mpr (or_iff_left_of_imp fun hr => (hstart.resolve_right fun hn => hn hr))
  rw [hnames]
  cases hr : readNames false (dropRoot (pathSegments [] p)) with
  | none => rfl
  | some r =>
    obtain ⟨h1, -⟩ := readNames_leaf hleaf hdot hup hr
    simp only [Option.map_some, h1, Option.getD_some, hroot]

end

/-! ## All disks -/

section

variable [BuildConfig]

/-- The resolver rejects the path, or finds what the rule finds. -/
def TargetRight (st : FsState) (w : Window) (input : List UInt8) : Prop :=
  ∀ r, (resolve_fs_target st w input).2 = some r →
    ((rulePlan w.home.bytes input).bind fun P => P.find st.disk w.cwd_bno) = some (r.1, r.2.2)

/-- Both resolvers fail, or both find the same directory and the same last name. -/
def ResolversAgree (st : FsState) (w : Window) (input : List UInt8) : Prop :=
  (resolve_fs_target st w input).2.map (fun r => (r.1, r.2.2)) =
    (resolve_editor_target st w input).2.map (fun r => (r.1, r.2.2))

/-- A state of the file system with this disk. -/
def stateOf (disk : Disk) : FsState := ⟨disk, [], fun _ => false, 60, true, hint_start⟩

theorem target_right_iff_plan (home input : CString) :
    (∀ st w, w.home = home → TargetRight st w input.bytes) ↔
      fsPlan home.bytes input.bytes = none ∨
        fsPlan home.bytes input.bytes = rulePlan home.bytes input.bytes := by
  constructor
  · intro h
    cases hP : fsPlan home.bytes input.bytes with
    | none => exact Or.inl rfl
    | some P =>
      refine Or.inr ?_
      have hnamed := fsPlan_named home.nul_free input.nul_free hP
      have hright : ∀ disk cwd_bno r, P.find disk cwd_bno = some r →
          ((rulePlan home.bytes input.bytes).bind fun Q => Q.find disk cwd_bno) = some r := by
        intro disk cwd_bno r hr
        have hres := resolve_fs_target_plan (stateOf disk) ⟨cwd_bno, [], home⟩ input.bytes
        rw [hP, Option.bind_some] at hres
        obtain ⟨r', hr', heq⟩ := Option.map_eq_some_iff.mp (hres.trans hr)
        have := h (stateOf disk) ⟨cwd_bno, [], home⟩ rfl r' hr'
        rwa [heq] at this
      cases hQ : rulePlan home.bytes input.bytes with
      | none =>
        obtain ⟨disk, cwd_bno, r, hr, -⟩ := PathPlan.told_apart hnamed P
        have := hright disk cwd_bno r hr
        rw [hQ] at this
        cases this
      | some Q =>
        obtain ⟨disk, cwd_bno, r, hr, hsame⟩ := PathPlan.told_apart hnamed Q
        have := hright disk cwd_bno r hr
        rw [hQ, Option.bind_some] at this
        rw [hsame this]
  · rintro h st w rfl r hr
    have hres := resolve_fs_target_plan st w input.bytes
    rw [hr, Option.map_some] at hres
    rcases h with h | h
    · rw [h] at hres
      cases hres
    · rw [← h]
      exact hres.symm

theorem resolvers_agree_iff_plan (home input : CString) :
    (∀ st w, w.home = home → ResolversAgree st w input.bytes) ↔
      fsPlan home.bytes input.bytes = editorPlan home.bytes input.bytes := by
  constructor
  · intro h
    have hfind : ∀ disk cwd_bno,
        ((fsPlan home.bytes input.bytes).bind fun P => P.find disk cwd_bno) =
          (editorPlan home.bytes input.bytes).bind fun Q => Q.find disk cwd_bno := by
      intro disk cwd_bno
      have hst := h (stateOf disk) ⟨cwd_bno, [], home⟩ rfl
      unfold ResolversAgree at hst
      rw [resolve_fs_target_plan, resolve_editor_target_plan] at hst
      exact hst
    cases hP : fsPlan home.bytes input.bytes with
    | none =>
      cases hQ : editorPlan home.bytes input.bytes with
      | none => rfl
      | some Q =>
        obtain ⟨disk, cwd_bno, r, hr, -⟩ :=
          PathPlan.told_apart (editorPlan_named home.nul_free input.nul_free hQ) Q
        have := hfind disk cwd_bno
        rw [hP, hQ, Option.bind_some, hr] at this
        cases this
    | some P =>
      have hnamed := fsPlan_named home.nul_free input.nul_free hP
      cases hQ : editorPlan home.bytes input.bytes with
      | none =>
        obtain ⟨disk, cwd_bno, r, hr, -⟩ := PathPlan.told_apart hnamed P
        have := hfind disk cwd_bno
        rw [hP, hQ, Option.bind_some, hr] at this
        cases this
      | some Q =>
        obtain ⟨disk, cwd_bno, r, hr, hsame⟩ := PathPlan.told_apart hnamed Q
        have := hfind disk cwd_bno
        rw [hP, hQ, Option.bind_some, Option.bind_some, hr] at this
        rw [hsame this.symm]
  · rintro h st w rfl
    unfold ResolversAgree
    rw [resolve_fs_target_plan, resolve_editor_target_plan, h]

/-- Exactly which paths `resolve_fs_target` resolves by the rule in every window and on every disk. A
plain path of at most 63 bytes is one. -/
theorem fs_target_follows_rule_iff (home input : CString) :
    ((∀ st w, w.home = home → TargetRight st w input.bytes) ↔
      fsPlan home.bytes input.bytes = none ∨
        fsPlan home.bytes input.bytes = rulePlan home.bytes input.bytes) ∧
    ((wholePath home.bytes input.bytes).length ≤ 63 → PlainTarget (wholePath home.bytes input.bytes) →
      (startsHome input.bytes = true →
        (skipBlanks (wholePath home.bytes input.bytes)).head? = some slash) →
      ∀ st w, w.home = home → TargetRight st w input.bytes) :=
  ⟨target_right_iff_plan home input, fun hlen hplain hhome =>
    (target_right_iff_plan home input).mpr (fsPlan_eq_rulePlan hlen hplain hhome)⟩

/-- Exactly on which paths the two resolvers agree in every window and on every disk. A plain path of
at most 63 bytes is one. -/
theorem resolvers_agree_iff (home input : CString) :
    ((∀ st w, w.home = home → ResolversAgree st w input.bytes) ↔
      fsPlan home.bytes input.bytes = editorPlan home.bytes input.bytes) ∧
    ((wholePath home.bytes input.bytes).length ≤ 63 → PlainTarget (wholePath home.bytes input.bytes) →
      ∀ st w, w.home = home → ResolversAgree st w input.bytes) :=
  ⟨resolvers_agree_iff_plan home input, fun hlen hplain =>
    (resolvers_agree_iff_plan home input).mpr (fsPlan_eq_editorPlan hlen hplain)⟩

end

/-! ## Two paths that go wrong -/

section

attribute [local instance] fpgaBuild

def underRoot : List UInt8 := lit ['r', 'o', 'o', 't', '/', 'f']

/-- A file of the root behind 63 slashes. -/
def manySlashes : List UInt8 := List.replicate 63 slash ++ lit ['f']

theorem no_root_found :
    PathPlan.find (format blankSystem).st.disk (fs_reset_window_cwd (blankSystem.wins 0)).cwd_bno
      ⟨false, [rootName], lit ['f']⟩ = none := by
  have hstep : stepName (format blankSystem).st.disk 1 rootName = none := by decide +kernel
  change Option.map _ (stepName (format blankSystem).st.disk 1 rootName >>= _) = none
  rw [hstep]
  rfl

theorem fsPlan_underRoot : fsPlan [] underRoot = some ⟨true, [], lit ['f']⟩ := by decide

/-- In a window at the root, the directory `root` of `root/f` is not there, and the resolver gives
the root itself; and the name behind 63 slashes is lost. -/
theorem root_prefix_misread :
    ∃ st w, WindowOk st.disk w ∧ ¬ TargetRight st w underRoot ∧ ¬ TargetRight st w manySlashes := by
  have hw := windowOk_root (sysInv_format blankSystem).inv.treeDisk (blankSystem.wins 0)
  refine ⟨_, _, hw, fun h => ?_, fun h => ?_⟩
  · have hres := resolve_fs_target_plan (format blankSystem).st
      (fs_reset_window_cwd (blankSystem.wins 0)) underRoot
    have hplan : fsPlan (fs_reset_window_cwd (blankSystem.wins 0)).home.bytes underRoot =
        some ⟨true, [], lit ['f']⟩ := fsPlan_underRoot
    have hrule : rulePlan (fs_reset_window_cwd (blankSystem.wins 0)).home.bytes underRoot =
        some ⟨false, [rootName], lit ['f']⟩ := by decide
    rw [hplan, Option.bind_some] at hres
    obtain ⟨r, hr, -⟩ := Option.map_eq_some_iff.mp hres
    have hfind := h r hr
    rw [hrule, Option.bind_some, no_root_found] at hfind
    cases hfind
  · have hres := resolve_fs_target_plan (format blankSystem).st
      (fs_reset_window_cwd (blankSystem.wins 0)) manySlashes
    have hplan : fsPlan (fs_reset_window_cwd (blankSystem.wins 0)).home.bytes manySlashes =
        some ⟨true, [], List.replicate 19 slash⟩ := by decide
    have hrule : rulePlan (fs_reset_window_cwd (blankSystem.wins 0)).home.bytes manySlashes =
        some ⟨true, [], lit ['f']⟩ := by decide
    rw [hplan, Option.bind_some] at hres
    obtain ⟨r, hr, heq⟩ := Option.map_eq_some_iff.mp hres
    have hfind := h r hr
    rw [hrule, Option.bind_some, heq] at hfind
    exact absurd hfind (by decide)

/-- In a window at the root one resolver finds `root/f` in the root, and the other fails. -/
theorem root_prefix_disagrees :
    ∃ st w, WindowOk st.disk w ∧ ¬ ResolversAgree st w underRoot := by
  have hw := windowOk_root (sysInv_format blankSystem).inv.treeDisk (blankSystem.wins 0)
  refine ⟨_, _, hw, fun h => ?_⟩
  have hplan : fsPlan (fs_reset_window_cwd (blankSystem.wins 0)).home.bytes underRoot =
      some ⟨true, [], lit ['f']⟩ := fsPlan_underRoot
  have heditor : editorPlan (fs_reset_window_cwd (blankSystem.wins 0)).home.bytes underRoot =
      some ⟨false, [rootName], lit ['f']⟩ := by decide
  unfold ResolversAgree at h
  rw [resolve_fs_target_plan, resolve_editor_target_plan, hplan, heditor, Option.bind_some,
    Option.bind_some, no_root_found] at h
  cases h

end

end vibeos.fs
