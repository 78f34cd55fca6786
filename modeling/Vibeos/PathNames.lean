-- The names that come out of the resolvers: which bytes they have, how long they
-- are, and when a name is one that a path can never give.
import Vibeos.OpSpecs

namespace vibeos.fs

/-! ## The expansion of HOME -/

theorem mem_terminal_expand_home_path {home src : List UInt8} {n : Nat} {c : UInt8}
    (h : c ∈ terminal_expand_home_path home src n) :
    c ∈ home ∨ c ∈ src ∨ c = slash ∨ c ∈ rootPath := by
  have hhome : c ∈ orRootPath home → c ∈ home ∨ c ∈ rootPath := by
    unfold orRootPath
    split
    · exact Or.inr
    · exact Or.inl
  unfold terminal_expand_home_path at h
  dsimp only at h
  split at h
  · simp at h
  rename_i x rest
  split at h
  · exact Or.inr (Or.inl (List.mem_of_mem_take h))
  rcases List.mem_append.mp h with h | h
  · -- the value of HOME, with a slash behind it
    have hc : c ∈ (orRootPath home).take (n - 1) ∨ c = slash := by
      split at h
      · rcases List.mem_append.mp h with h | h
        · exact Or.inl h
        · exact Or.inr (List.mem_singleton.mp h)
      · exact Or.inl h
    rcases hc with hc | hc
    · rcases hhome (List.mem_of_mem_take hc) with hc | hc
      · exact Or.inl hc
      · exact Or.inr (Or.inr (Or.inr hc))
    · exact Or.inr (Or.inr (Or.inl hc))
  · -- the rest of the path
    refine Or.inr (Or.inl (List.mem_cons_of_mem _ ?_))
    have h1 := List.mem_of_mem_take h
    have htail : ∀ {l : List UInt8}, c ∈ l.tail → c ∈ l := fun hl => List.mem_of_mem_tail hl
    split at h1
    · split at h1
      · exact htail (htail h1)
      · exact htail h1
    · split at h1
      · exact htail h1
      · exact h1

theorem nul_not_mem_expand {home src : List UInt8} (n : Nat) (hh : 0 ∉ home) (hs : 0 ∉ src) :
    0 ∉ terminal_expand_home_path home src n := by
  intro h
  rcases mem_terminal_expand_home_path h with h | h | h | h
  · exact hh h
  · exact hs h
  · exact absurd h (by decide)
  · exact absurd h (by decide)

/-! ## The last name of a path -/

/-- A name that a path can have: not empty, at most 19 bytes, without a slash, and neither
`.` nor `..`. -/
structure PathName (s : List UInt8) : Prop where
  ne_nil : s ≠ []
  short : s.length ≤ 19
  no_slash : slash ∉ s
  ne_dot : s ≠ dotName
  ne_dotdot : s ≠ dotdotName

section

variable [BuildConfig] {st st' : FsState}

theorem walk_leaf {into : Bool} {b : Nat} {cwd : List UInt8} {segs : List (List UInt8)}
    {e : WalkEnd} {s : List UInt8} (h : walk into st b cwd segs = (st', some e))
    (hs : e.leaf = some s) :
    s ∈ segs ∧ s.length ≤ 19 ∧ s ≠ dotName ∧ s ≠ dotdotName := by
  have hcons : ∀ {x : List UInt8} {rest : List (List UInt8)},
      (s ∈ rest ∧ s.length ≤ 19 ∧ s ≠ dotName ∧ s ≠ dotdotName) →
      s ∈ x :: rest ∧ s.length ≤ 19 ∧ s ≠ dotName ∧ s ≠ dotdotName :=
    fun h => ⟨List.mem_cons_of_mem _ h.1, h.2⟩
  induction segs generalizing st b cwd with
  | nil =>
    cases h
    cases hs
  | cons seg rest ih =>
    unfold walk at h
    rw [load_current_dir_eq] at h
    split at h
    · cases h
    rename_i hlen
    split at h
    · exact hcons (ih h)
    rename_i hdot
    split at h
    · rcases hd : dirOf st.disk b with _ | d <;> rw [hd] at h
      · cases h
      · exact hcons (ih h)
    rename_i hdotdot
    split at h
    · cases h
      cases hs
      exact ⟨List.mem_cons_self, by omega, hdot, hdotdot⟩
    rcases hd : dirOf st.disk b with _ | d <;> rw [hd] at h
    · cases h
    · simp only [Option.map_some] at h
      split at h
      · cases h
      · exact hcons (ih h)

theorem pathName_of_walk {into : Bool} {b : Nat} {cwd p : List UInt8} {e : WalkEnd}
    {s : List UInt8} (h : walk into st b cwd (pathSegments [] p) = (st', some e))
    (hs : e.leaf = some s) : PathName s ∧ ∀ c ∈ s, c ∈ p := by
  obtain ⟨h1, h2, h3, h4⟩ := walk_leaf h hs
  obtain ⟨h5, h6⟩ := mem_pathSegments (by simp) h1
  refine ⟨⟨h5, h2, h6, h3, h4⟩, fun c hc => ?_⟩
  exact (mem_of_mem_pathSegments hc h1).resolve_left (by simp)

omit [BuildConfig] in
theorem mem_of_mem_behind_root {p q : List UInt8} {c : UInt8}
    (h : c ∈ if lit ['r', 'o', 'o', 't', '/'] <+: p then p.drop 5
      else if p = lit ['r', 'o', 'o', 't'] then [] else p) (hp : p ⊆ q) : c ∈ q := by
  split at h
  · exact hp (List.mem_of_mem_drop h)
  split at h
  · cases h
  · exact hp h

theorem resolve_fs_target_leaf {w : Window} {input cwd leaf : List UInt8} {b : Nat}
    (h : resolve_fs_target st w input = (st', some (b, cwd, leaf))) :
    (∀ c ∈ leaf, c ∈ terminal_expand_home_path w.home.bytes input 64) ∧
      (PathName leaf ∨ leaf = (terminal_expand_home_path w.home.bytes input 64).take 19) := by
  unfold resolve_fs_target at h
  dsimp only at h
  split at h
  · cases h
  split at h
  · cases h
  · rename_i st1 e hwalk
    cases h
    rcases hl : e.leaf with _ | s
    · exact ⟨fun c hc => List.mem_of_mem_take hc, Or.inr rfl⟩
    · obtain ⟨h1, h2⟩ := pathName_of_walk hwalk hl
      refine ⟨fun c hc => ?_, Or.inl h1⟩
      -- what is left of the path after the blanks, the slashes and `root`
      have hp := h2 c hc
      simp only [apply_ite Prod.snd] at hp
      split at hp
      · exact mem_of_mem_behind_root hp
          (List.Subset.trans (List.dropWhile_subset _) (List.dropWhile_subset _))
      · exact mem_of_mem_behind_root hp (List.dropWhile_subset _)

theorem resolve_fs_target_leaf_short {w : Window} {input cwd leaf : List UInt8} {b : Nat}
    (h : resolve_fs_target st w input = (st', some (b, cwd, leaf))) : leaf.length ≤ 19 := by
  rcases (resolve_fs_target_leaf h).2 with h1 | rfl
  · exact h1.short
  · rw [List.length_take]
    omega

theorem resolve_fs_target_leaf_ne {w : Window} {input cwd leaf : List UInt8} {st' : FsState}
    {b : Nat} (h : resolve_fs_target st w input = (st', some (b, cwd, leaf))) : leaf ≠ [] := by
  rcases (resolve_fs_target_leaf h).2 with hl | rfl
  · exact hl.ne_nil
  · intro hnil
    rw [List.take_eq_nil_iff] at hnil
    unfold resolve_fs_target at h
    simp [hnil.resolve_left (by decide), skipBlanks] at h

theorem resolve_editor_target_leaf {w : Window} {input cwd leaf : List UInt8} {b : Nat}
    (h : resolve_editor_target st w input = (st', some (b, cwd, leaf))) (hne : leaf ≠ []) :
    PathName leaf ∧ ∀ c ∈ leaf, c ∈ terminal_expand_home_path w.home.bytes input 128 := by
  unfold resolve_editor_target at h
  dsimp only at h
  split at h
  · cases h
  split at h
  · cases h
  · rename_i st1 e hwalk
    cases h
    rcases hl : e.leaf with _ | s
    · rw [hl] at hne
      exact absurd rfl hne
    · obtain ⟨h1, h2⟩ := pathName_of_walk hwalk hl
      refine ⟨h1, fun c hc => ?_⟩
      have hp := h2 c hc
      split at hp
      · exact mem_of_mem_behind_root hp
          (List.Subset.trans (List.dropWhile_subset _) (List.dropWhile_subset _))
      · exact List.dropWhile_subset _ hp

theorem file_target_leaf {w : Window} {name leaf : List UInt8} {b P : Nat} (hnul : 0 ∉ name)
    (h : (file_target st w name b).2 = some (P, leaf)) :
    0 ∉ leaf ∧ ((usesResolve name = false ∧ leaf = name ∧ P = b) ∨
      (usesResolve name = true ∧ leaf.length ≤ 19)) := by
  unfold file_target at h
  split at h
  · rename_i hu
    split at h
    · cases h
    · rename_i hres
      cases h
      refine ⟨fun h0 => ?_, Or.inr ⟨hu, resolve_fs_target_leaf_short hres⟩⟩
      exact nul_not_mem_expand 64 w.home.nul_free hnul ((resolve_fs_target_leaf hres).1 0 h0)
  · rename_i hu
    cases h
    exact ⟨hnul, Or.inl ⟨by simpa using hu, rfl, rfl⟩⟩

theorem MovePlan.leaf_ok {w : Window} {src dst : CString} {S : Nat} {sleaf : List UInt8}
    {dS dD : DiskDir} {si : Fin MAX_DIR_ENTRIES} {dest : MoveDest}
    (p : MovePlan st w src.bytes dst.bytes S sleaf dS si dest dD) :
    0 ∉ dest.leaf ∧ dest.leaf ≠ [] := by
  have hleaf : ∀ {input : CString} {b cwd leaf}, resolve_fs_target st w
      (input.bytes.dropWhile (· == ' '.toUInt8)) = (st, some (b, cwd, leaf)) →
      0 ∉ leaf ∧ leaf ≠ [] := by
    intro input b cwd leaf hres
    refine ⟨fun h0 => ?_, resolve_fs_target_leaf_ne hres⟩
    refine nul_not_mem_expand 64 w.home.nul_free (fun hm => ?_) ((resolve_fs_target_leaf hres).1 0 h0)
    exact input.nul_free ((List.dropWhile_sublist _).mem hm)
  obtain ⟨_, hsrc⟩ := p.source
  obtain ⟨_, _, _, hdst, _, ⟨_, he, _⟩ | ⟨_, _, _, _, _, _, he, _⟩⟩ := p.target
  · exact he ▸ hleaf hdst
  · exact he ▸ hleaf hsrc

end

end vibeos.fs
