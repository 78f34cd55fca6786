-- Stores that fail. A store that finds no slot changes nothing; one that meets a
-- full disk half way keeps the blocks that it took, and nothing refers to them.
import Vibeos.AllocInv
import Vibeos.LoadSpecs

namespace vibeos.fs

section

variable [BuildConfig] {st st' : FsState}

/-! ## States that are not mounted yet -/

theorem ensure_ready_ensure_ready (st : FsState) :
    ensure_ready (ensure_ready st) = ensure_ready st :=
  ensure_ready_of_ready (ready_ensure_ready st)

theorem walk_ensure_ready (into : Bool) (st : FsState) (b : Nat) (cwd : List UInt8)
    (segs : List (List UInt8)) :
    ensure_ready (walk into st b cwd segs).1 = ensure_ready st := by
  induction segs generalizing st b cwd with
  | nil => rfl
  | cons seg rest ih =>
    unfold walk
    rw [load_current_dir_eq]
    split
    · rfl
    split
    · exact ih _ _ _
    split
    · rcases dirOf st.disk b with _ | d
      · exact ensure_ready_ensure_ready st
      · exact (ih _ _ _).trans (ensure_ready_ensure_ready st)
    split
    · rfl
    rcases dirOf st.disk b with _ | d
    · exact ensure_ready_ensure_ready st
    · simp only [Option.map_some]
      split
      · exact ensure_ready_ensure_ready st
      · exact (ih _ _ _).trans (ensure_ready_ensure_ready st)

theorem file_target_ensure_ready (st : FsState) (w : Window) (name : List UInt8) (b : Nat) :
    ensure_ready (file_target st w name b).1 = ensure_ready st := by
  unfold file_target
  split
  · have hres : ensure_ready (resolve_fs_target st w name).1 = ensure_ready st := by
      unfold resolve_fs_target
      dsimp only
      split
      · rfl
      split
      · rename_i h
        exact (congrArg (fun r => ensure_ready r.1) h).symm.trans (walk_ensure_ready _ _ _ _ _)
      · rename_i h
        exact (congrArg (fun r => ensure_ready r.1) h).symm.trans (walk_ensure_ready _ _ _ _ _)
    split <;> rename_i h <;> rw [h] at hres <;> exact hres
  · rfl

theorem file_target_of_disk (hd : st'.disk = st.disk) (w : Window) (name : List UInt8) (b : Nat) :
    (file_target st' w name b).2 = (file_target st w name b).2 := by
  refine file_target_of_resolve ?_ b
  unfold resolve_fs_target
  dsimp only
  split
  · rfl
  · split <;> rename_i h1 <;> split <;> rename_i h2 <;>
      have heq := (congrArg Prod.snd h1).symm.trans
        ((walk_same_disk hd _ _ _ _).trans (congrArg Prod.snd h2)) <;>
      cases heq <;> rfl

theorem load_file_bytes_of_disk (hd : st'.disk = st.disk) (w : Window) (name : List UInt8)
    (n : Nat) : load_file_bytes st' w name n = load_file_bytes st w name n := by
  rw [load_file_bytes_eq, load_file_bytes_eq, file_target_of_disk hd, hd]

theorem store_blocks_ensure_ready (st : FsState) (data : List UInt8) :
    store_blocks (ensure_ready st) data = store_blocks st data := by
  have hballoc : balloc (ensure_ready st) = balloc st := by
    unfold balloc
    rw [ensure_ready_ensure_ready]
  unfold store_blocks
  split
  · rw [hballoc]
  · rename_i hdata
    rw [store_loop, dif_neg hdata, hballoc]
    conv_rhs => rw [store_loop, dif_neg hdata]

/-! ## Free blocks -/

theorem fs_usage_info_congr (h : ∀ b, (ensure_ready st').fs_block_map b =
    (ensure_ready st).fs_block_map b) : fs_usage_info st' = fs_usage_info st := by
  unfold fs_usage_info
  simp only [h]

theorem Grown.free_lt {l t : List Nat} {ws : List (Nat × Block)}
    (g : Grown (ensure_ready st) st' l t ws) (hl : l ≠ []) :
    (fs_usage_info st').2 < (fs_usage_info st).2 := by
  obtain ⟨b, hb⟩ := List.exists_mem_of_ne_nil l hl
  obtain ⟨_, hlt, hclear⟩ := g.fresh b hb
  have hle : (List.range FS_MAX_BLOCKS).countP (fun i => (ensure_ready st).fs_block_map i) ≤
      FS_MAX_BLOCKS := by
    have := @List.countP_le_length _ (fun i => (ensure_ready st).fs_block_map i)
      (List.range FS_MAX_BLOCKS)
    rwa [List.length_range] at this
  have hle' : (List.range FS_MAX_BLOCKS).countP (fun i => (ensure_ready st').fs_block_map i) ≤
      FS_MAX_BLOCKS := by
    have := @List.countP_le_length _ (fun i => (ensure_ready st').fs_block_map i)
      (List.range FS_MAX_BLOCKS)
    rwa [List.length_range] at this
  have hmore : (List.range FS_MAX_BLOCKS).countP (fun i => (ensure_ready st).fs_block_map i) <
      (List.range FS_MAX_BLOCKS).countP (fun i => (ensure_ready st').fs_block_map i) := by
    rw [ensure_ready_of_ready g.ready]
    -- cut the range at the new block
    obtain ⟨xs, ys, hsplit⟩ := List.append_of_mem (List.mem_range.mpr hlt)
    have hmono : ∀ zs : List Nat, zs.countP (fun i => (ensure_ready st).fs_block_map i) ≤
        zs.countP (fun i => st'.fs_block_map i) := fun zs =>
      List.countP_mono_left fun x _ hx => (g.map x).mpr (Or.inl hx)
    rw [hsplit, List.countP_append, List.countP_append, List.countP_cons, List.countP_cons,
      hclear, (g.map b).mpr (Or.inr hb)]
    have := hmono xs
    have := hmono ys
    simp only [Bool.false_eq_true, if_false, if_true]
    omega
  unfold fs_usage_info
  dsimp only
  omega

/-! ## Atomicity -/

/-- What a failed store owes: the directory blocks, all loads, and the number of free
blocks. -/
structure Unchanged (st st' : FsState) : Prop where
  dirs : ∀ b, dirOf st'.disk b = dirOf st.disk b
  loads : ∀ w name n, load_file_bytes st' w name n = load_file_bytes st w name n
  free : (fs_usage_info st').2 = (fs_usage_info st).2

theorem unchanged_of_disk (hd : st'.disk = st.disk)
    (hmap : ∀ b, (ensure_ready st').fs_block_map b = (ensure_ready st).fs_block_map b) :
    Unchanged st st' where
  dirs := fun b => by rw [hd]
  loads := load_file_bytes_of_disk hd
  free := by rw [fs_usage_info_congr hmap]

/-- The store fails before it takes a block, or there is no block that it can take, or there
are enough. -/
def TakesAllOrNone (st : FsState) (w : Window) (name data : List UInt8) : Prop :=
  ∀ P leaf, (file_target st w name (orRoot w.cwd_bno)).2 = some (P, leaf) →
    StoreRefused st P leaf ∨ freeAhead (ensure_ready st) = 0 ∨
      storeNeeds data.length ≤ freeAhead (ensure_ready st)

theorem store_into_of_refused {P : Nat} {leaf data : List UInt8} {now : Nat} {rc : Int}
    (href : StoreRefused st P leaf) (h : store_into st P leaf data now = some (rc, st')) :
    st' = st := by
  unfold store_into at h
  split at h
  · cases h
    rfl
  · rename_i d hd
    obtain ⟨e, he⟩ := href d hd
    simp only [he, Option.some.injEq, Prod.mk.injEq] at h
    exact h.2.symm

theorem store_into_ensure_ready {P : Nat} {leaf : List UInt8} (hslot : ¬ StoreRefused st P leaf)
    (data : List UInt8) (now : Nat) :
    store_into (ensure_ready st) P leaf data now = store_into st P leaf data now := by
  unfold store_into
  rw [ensure_ready_disk, store_blocks_ensure_ready]
  split
  · rename_i hd
    refine absurd (fun d hd' => ?_) hslot
    rw [hd] at hd'
    cases hd'
  · rename_i d hd
    dsimp only
    rcases hs : store_slot (DirBlock.ofDisk d) leaf with e | ⟨idx, old⟩
    · refine absurd (fun d' hd' => ?_) hslot
      rw [hd] at hd'
      cases hd'
      exact ⟨e, hs⟩
    · rfl

omit [BuildConfig] in
theorem storeRefused_congr {P : Nat} {leaf : List UInt8} (hd : st'.disk = st.disk) :
    StoreRefused st' P leaf ↔ StoreRefused st P leaf := by
  unfold StoreRefused
  rw [hd]

theorem store_into_leaks {P : Nat} {leaf data : List UInt8} (now : Nat)
    (hr : st.fs_alloc_ready = true) (hslot : ¬ StoreRefused st P leaf)
    (hsome : freeAhead st ≠ 0) (hfew : freeAhead st < storeNeeds data.length) :
    ∃ st', store_into st P leaf data now = some (-4, st') ∧
      (fs_usage_info st').2 < (fs_usage_info st).2 := by
  have hslot' : ∃ d, dirOf st.disk P = some d ∧
      ∀ rc, store_slot (DirBlock.ofDisk d) leaf ≠ .error rc := by
    simpa [StoreRefused] using hslot
  obtain ⟨d, hd, hok⟩ := hslot'
  obtain ⟨l, ws, hg, ⟨_, _, hlen, _⟩ | ⟨hnone, _, hfull⟩⟩ := store_blocks_spec data hr
  · have := hg.room
    omega
  · refine ⟨(store_blocks st data).1, ?_, ?_⟩
    · rcases hs : store_slot (DirBlock.ofDisk d) leaf with e | ⟨idx, old⟩
      · exact absurd hs (hok e)
      · rcases hb : store_blocks st data with ⟨mid, r⟩
        rw [hb] at hnone
        cases hnone
        simp [store_into, hd, hs, hb]
    · have hl : l ≠ [] := by
        rintro rfl
        have := hg.room
        simp only [List.length_nil] at this
        omega
      rw [← ensure_ready_of_ready hr] at hg
      simpa [ensure_ready_of_ready hr] using hg.free_lt hl

/-- A store that fails leaves everything as it was exactly when it takes no block, or there
are enough. -/
theorem store_error_atomic_iff (st : FsState) (w : Window) (name data : List UInt8) (now : Nat) :
    (∀ rc st', store_file_bytes st w name data now = some (rc, st') → rc ≠ 0 →
      Unchanged st st') ↔ TakesAllOrNone st w name data := by
  have hdisk := file_target_disk st w name (orRoot w.cwd_bno)
  have hready := file_target_ensure_ready st w name (orRoot w.cwd_bno)
  unfold store_file_bytes TakesAllOrNone
  generalize file_target st w name (orRoot w.cwd_bno) = target at hdisk hready ⊢
  obtain ⟨s1, t⟩ := target
  dsimp only at hdisk hready ⊢
  constructor
  · rintro hall P leaf rfl
    by_contra hn
    push Not at hn
    obtain ⟨hslot, hsome, hfew⟩ := hn
    rw [← storeRefused_congr hdisk] at hslot
    have hslot' : ¬ StoreRefused (ensure_ready s1) P leaf := by
      rwa [storeRefused_congr (ensure_ready_disk s1)]
    rw [← hready] at hsome hfew
    obtain ⟨st', hs, hlt⟩ := store_into_leaks now (ready_ensure_ready s1) hslot' hsome hfew
    rw [store_into_ensure_ready hslot] at hs
    have hfree := (hall (-4) st' hs (by decide)).free
    have hinfo : fs_usage_info (ensure_ready s1) = fs_usage_info st :=
      fs_usage_info_congr fun b => by rw [ensure_ready_ensure_ready, hready]
    rw [hinfo, hfree] at hlt
    exact lt_irrefl _ hlt
  · intro hcond rc st' hs hrc
    rcases t with _ | ⟨P, leaf⟩
    · cases hs
      exact unchanged_of_disk hdisk fun b => by rw [hready]
    dsimp only at hs
    by_cases href : StoreRefused s1 P leaf
    · cases store_into_of_refused href hs
      exact unchanged_of_disk hdisk fun b => by rw [hready]
    rw [← store_into_ensure_ready href, hready] at hs
    have href' : ¬ StoreRefused st P leaf := by rwa [← storeRefused_congr hdisk]
    rcases store_into_cases (ready_ensure_ready st) hs with ⟨_, _, h1⟩ |
      ⟨_, _, l, ws, g, hshort, hfull⟩ | ⟨h0, _⟩
    · exact absurd ((storeRefused_congr (ensure_ready_disk st)).mp h1) href'
    · -- the disk is full: no block was taken
      have hroom := g.room
      have hl : l = [] := by
        rw [← List.length_eq_zero_iff]
        rcases hcond P leaf rfl with h1 | h1 | h1
        · exact absurd h1 href'
        · omega
        · omega
      subst hl
      refine unchanged_of_disk ?_ fun b => ?_
      · funext x
        rw [g.disk_eq List.not_mem_nil, ensure_ready_disk]
      · rw [ensure_ready_of_ready g.ready, Bool.eq_iff_iff, g.map]
        simp
    · exact absurd h0 hrc

end

section

attribute [local instance] fpgaBuild

theorem blank_slot : ¬ StoreRefused (format blankSystem).st 1 (lit ['f']) := by
  intro href
  obtain ⟨rc, hrc⟩ := href (emptyDir 1).toDisk (write_dir_disk_same _ _ _)
  have hok : (store_slot (DirBlock.ofDisk (emptyDir 1).toDisk) (lit ['f'])).toOption.isSome =
      true := by decide +kernel
  rw [hrc] at hok
  cases hok

theorem blank_room : freeAhead (format blankSystem).st < storeNeeds
    (List.replicate (452 * FS_DATA_PAYLOAD + 1) (7 : UInt8)).length := by
  rw [List.length_replicate]
  decide +kernel

/-- A file of 453 blocks on a fresh disk: the store fails and the disk is full. -/
theorem store_error_leaks : ∃ st', store_file_bytes (format blankSystem).st (blankSystem.wins 0)
    (lit ['f']) (List.replicate (452 * FS_DATA_PAYLOAD + 1) 7) 1 = some (-4, st') ∧
    ¬ Unchanged (format blankSystem).st st' := by
  obtain ⟨st', hs, hlt⟩ := store_into_leaks 1 rfl blank_slot (by decide +kernel) blank_room
  refine ⟨st', ?_, fun h => ?_⟩
  · rw [store_file_bytes_eq rfl]
    exact hs
  · rw [h.free] at hlt
    exact lt_irrefl _ hlt

end

end vibeos.fs
