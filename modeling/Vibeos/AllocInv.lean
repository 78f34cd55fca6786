-- The allocator invariant: it ties the bitmap, the hint and the tree on the
-- disk together, and every operation keeps it, also when it fails half way and
-- also from a window whose directory has been removed by another window.
-- So between mounts no block that the root reaches is handed out again.
import Vibeos.OpEffects

namespace vibeos.fs

open LinkChain

section

variable [BuildConfig] {st st' mid : FsState} {T T' U U' : Nat → Prop}

/-- A block outside of the reserved ones whose bit is set. -/
def Used (st : FsState) (b : Nat) : Prop :=
  60 ≤ b ∧ b < FS_MAX_BLOCKS ∧ st.fs_block_map b = true

/-- The invariant. `T` is the set of the blocks that were handed out since the format,
with the root; a window can stand in any of them, also in one that has been freed. -/
structure Inv (T : Nat → Prop) (st : FsState) : Prop where
  ready : st.fs_alloc_ready = true
  low : ∀ i < 60, st.fs_block_map i = true
  hint : HintOk st
  root_mem : T 1
  root_dir : ∃ d, dirOf st.disk 1 = some d ∧ d.parent_bno = 1
  range : ∀ {b}, T b → b = 1 ∨ (60 ≤ b ∧ b < FS_MAX_BLOCKS)
  used_mem : ∀ {b}, Used st b → T b
  parent_mem : ∀ {P d}, T P → dirOf st.disk P = some d → d.parent_bno ≠ 0 ∧ T d.parent_bno
  sound : Sound T (Used st) st.disk
  parented : Parented T st.disk

theorem Inv.ne_zero (h : Inv T st) {b : Nat} (hb : T b) : b ≠ 0 := by
  rcases h.range hb with rfl | ⟨h1, _⟩
  · decide
  · omega

theorem Inv.child_used (h : Inv T st) {P C : Nat} (hP : T P) (hC : DirChild st.disk P C) :
    Used st C := by
  have hC0 : C ≠ 0 := by
    obtain ⟨i, e, he, ht, rfl⟩ := hC
    exact (h.parented hP he ht).1
  obtain ⟨i, ho⟩ := hC.owns hC0
  exact h.sound.owned hP ho

theorem Inv.closed (h : Inv T st) : Closed T st.disk where
  root := h.root_mem
  parent := by
    intro P d hP hd
    obtain ⟨h1, h2⟩ := h.parent_mem hP hd
    rwa [orRoot_of_ne_zero h1]
  child := fun hP hC => h.used_mem (h.child_used hP hC)

theorem Inv.isDir_mem (h : Inv T st) {b : Nat} (hb : IsDir st.disk b) : T b := by
  replace hb := hb.1
  induction hb with
  | refl => exact h.root_mem
  | tail _ hC ih => exact h.closed.child ih hC

/-! ## Every call keeps the invariant -/

theorem Inv.of_dirs (h : Inv T st) (hready : st'.fs_alloc_ready = true) (hhint : HintOk st')
    (hmap : ∀ b, st'.fs_block_map b = true → st.fs_block_map b = true)
    (hlow : ∀ b < 60, st.fs_block_map b = true → st'.fs_block_map b = true)
    (hdir : ∀ {Q d'}, dirOf st'.disk Q = some d' → ∃ d0, dirOf st.disk Q = some d0 ∧
      (d'.parent_bno = d0.parent_bno ∨ (d'.parent_bno ≠ 0 ∧ T d'.parent_bno)))
    (hroot : ∀ {d0}, dirOf st.disk 1 = some d0 →
      ∃ d', dirOf st'.disk 1 = some d' ∧ d'.parent_bno = d0.parent_bno)
    (hsound : Sound T (Used st') st'.disk) (hp : Parented T st'.disk) : Inv T st' where
  ready := hready
  low := fun i hi => hlow i hi (h.low i hi)
  hint := hhint
  root_mem := h.root_mem
  root_dir := by
    obtain ⟨d, h1, h2⟩ := h.root_dir
    obtain ⟨d', h3, h4⟩ := hroot h1
    exact ⟨d', h3, h4.trans h2⟩
  range := h.range
  used_mem := fun ⟨h1, h2, h3⟩ => h.used_mem ⟨h1, h2, hmap _ h3⟩
  parent_mem := by
    intro P d' hP hd
    obtain ⟨d0, hd0, he | he⟩ := hdir hd
    · exact he ▸ h.parent_mem hP hd0
    · exact he
  sound := hsound
  parented := hp

theorem Inv.grown (h : Inv T st) {l : List Nat} {ws : List (Nat × Block)}
    (g : Grown st st' l l ws) : Inv (fun b => T b ∨ b ∈ l) st' := by
  have hdir : ∀ {Q d}, dirOf st'.disk Q = some d → Q ∉ l ∧ dirOf st.disk Q = some d := by
    intro Q d hd
    have hl : Q ∉ l := by
      intro hl
      rw [g.dirOf_eq_none hl] at hd
      cases hd
    exact ⟨hl, by rwa [dirOf_congr (g.disk_eq hl)] at hd⟩
  have hslot : ∀ {Q j f}, SlotHas st'.disk Q j f → Q ∉ l ∧ SlotHas st.disk Q j f := by
    rintro Q j f ⟨d, hd, hf⟩
    exact ⟨(hdir hd).1, d, (hdir hd).2, hf⟩
  have hused : ∀ {b}, Used st b → b ∉ l := by
    intro b hb hl
    have := hb.2.2
    rw [(g.fresh b hl).2.2] at this
    cases this
  refine
    { ready := g.ready
      low := fun i hi => (g.map i).mpr (Or.inl (h.low i hi))
      hint := g.hint h.hint
      root_mem := Or.inl h.root_mem
      root_dir := ?_, range := ?_, used_mem := ?_, parent_mem := ?_, sound := ?_
      parented := ?_ }
  · obtain ⟨d, hd, hp⟩ := h.root_dir
    refine ⟨d, ?_, hp⟩
    rw [dirOf_congr (g.disk_eq fun hl => ?_), hd]
    have := (g.fresh 1 hl).1
    omega
  · rintro b (hb | hb)
    · exact h.range hb
    · exact Or.inr ⟨(g.fresh b hb).1, (g.fresh b hb).2.1⟩
  · rintro b ⟨h1, h2, h3⟩
    exact ((g.map b).mp h3).imp_left fun hm => h.used_mem ⟨h1, h2, hm⟩
  · rintro P d hP hd
    obtain ⟨hl, hd⟩ := hdir hd
    exact (h.parent_mem (hP.resolve_right hl) hd).imp_right Or.inl
  · refine h.sound.restrict (fun b hb => nextOf_congr (g.disk_eq (hused hb))) ?_
    intro Q j f hQ hf
    obtain ⟨hl, hf⟩ := hslot hf
    refine ⟨hQ.resolve_right hl, f, hf, rfl, fun b hb => ?_⟩
    obtain ⟨h1, h2, h3⟩ := h.sound.owned (hQ.resolve_right hl) ⟨f, hf, hb⟩
    exact ⟨h1, h2, (g.map b).mpr (Or.inl h3)⟩
  · intro Q j f hQ hf ht
    obtain ⟨hl, hf⟩ := hslot hf
    obtain ⟨g1, c, g2, g3⟩ := h.parented (hQ.resolve_right hl) hf ht
    have hb := hused (h.sound.owned (hQ.resolve_right hl) ⟨f, hf, .here g1⟩)
    exact ⟨g1, c, by rw [dirOf_congr (g.disk_eq hb), g2], g3⟩

theorem Inv.storeCommit (h : Inv T st) {P : Nat} {leaf data : List UInt8} {now : Nat}
    {d : DiskDir} {idx : Fin MAX_DIR_ENTRIES} {old : Option FileEntry} {first : Nat}
    {l lold : List Nat} {ws : List (Nat × Block)} (hP : T P)
    (c : StoreCommit st mid st' P leaf data now d idx old first l lold ws) :
    Inv (fun b => T b ∨ b ∈ l) st' where
  ready := by
    rw [c.final, freeAll_ready]
    exact c.grown.ready
  low := fun i hi => (c.map_after i).mpr ⟨Or.inl (h.low i hi), by omega⟩
  hint := by
    rw [c.final]
    exact freeAll_hintOk lold (c.grown.hint h.hint)
  root_mem := Or.inl h.root_mem
  root_dir := by
    obtain ⟨d1, hd, hp⟩ := h.root_dir
    by_cases hP1 : 1 = P
    · subst hP1
      rw [c.dir] at hd
      cases hd
      exact ⟨_, c.dir_after, hp⟩
    · refine ⟨d1, ?_, hp⟩
      rw [dirOf_congr (c.disk_eq (fun hl => ?_) hP1), hd]
      have := (c.grown.fresh 1 hl).1
      omega
  range := by
    rintro b (hb | hb)
    · exact h.range hb
    · exact Or.inr ⟨(c.grown.fresh b hb).1, (c.grown.fresh b hb).2.1⟩
  used_mem := by
    rintro b ⟨h1, h2, h3⟩
    exact ((c.map_after b).mp h3).1.imp_left fun hm => h.used_mem ⟨h1, h2, hm⟩
  parent_mem := by
    intro Q dq hQ hd
    obtain ⟨d0, hd0, he⟩ := c.dir_before hd
    rw [he]
    refine (h.parent_mem ?_ hd0).imp_right Or.inl
    rcases c.not_new_of_dir hd with hl | rfl
    · exact hQ.resolve_right hl
    · exact hP
  sound := by
    refine c.sound h.sound (fun b hb => hb.2.2) hP id ?_
    rintro b (hb | hb) hn
    · exact ⟨hb.1, hb.2.1, (c.map_after b).mpr ⟨Or.inl hb.2.2, fun hl => hn hl.1⟩⟩
    · exact ⟨(c.grown.fresh b hb).1, (c.grown.fresh b hb).2.1,
        (c.map_after b).mpr ⟨Or.inr hb, fun hl => hn hl.1⟩⟩
  parented := c.parented h.sound (fun b hb => hb.2.2) hP h.parented id

theorem Inv.removeCommit (h : Inv T st) {P : Nat} {name : List UInt8} {d : DiskDir}
    {idx : Fin MAX_DIR_ENTRIES} {l : List Nat} (hP : T P)
    (c : RemoveCommit st st' P name d idx l) : Inv T st' := by
  refine h.of_dirs ?_ ?_ (fun b hb => ((c.map_after b).mp hb).1) ?_ ?_ ?_ ?_ ?_
  · rw [c.final, freeAll_ready]
    exact h.ready
  · rw [c.final]
    exact freeAll_hintOk l h.hint
  · exact fun b hb hm => (c.map_after b).mpr ⟨hm, by omega⟩
  · intro Q d' hd
    rw [c.dirOf_after] at hd
    split at hd
    · rename_i hQ
      cases hd
      exact ⟨d, hQ ▸ c.dir, Or.inl rfl⟩
    · exact ⟨d', hd, Or.inl rfl⟩
  · intro d0 hd
    rw [c.dirOf_after]
    split
    · rename_i hP1
      rw [hP1, c.dir] at hd
      cases hd
      exact ⟨_, rfl, rfl⟩
    · exact ⟨d0, hd, rfl⟩
  · refine c.sound h.sound hP id fun {b} hb hn => ?_
    exact ⟨hb.1, hb.2.1, (c.map_after b).mpr ⟨hb.2.2, fun hl => hn hl.1⟩⟩
  · exact c.parented h.parented id

theorem Inv.mkdirCommit (h : Inv T st) {w : Window} {path : List UInt8} {now P : Nat}
    {leaf : List UInt8} {d : DiskDir} {idx : Fin MAX_DIR_ENTRIES} {nb : Nat} (hP : T P)
    (c : MkdirCommit st mid st' w path now P leaf d idx nb) :
    Inv (fun b => T b ∨ b = nb) st' where
  ready := by
    rw [c.final]
    exact c.alloc.ready
  low := fun i hi => (c.map_after i).mpr (Or.inl (h.low i hi))
  hint := by
    rw [c.final]
    exact c.alloc.hintOk h.hint
  root_mem := Or.inl h.root_mem
  root_dir := by
    obtain ⟨d1, hd, hp⟩ := h.root_dir
    rw [c.dirOf_after]
    split
    · have := c.alloc.ge_sixty
      omega
    split
    · rename_i hP1
      rw [hP1, c.dir] at hd
      cases hd
      exact ⟨_, rfl, hp⟩
    · exact ⟨d1, hd, hp⟩
  range := by
    rintro b (hb | rfl)
    · exact h.range hb
    · exact Or.inr ⟨c.alloc.ge_sixty, c.alloc.lt⟩
  used_mem := by
    rintro b ⟨h1, h2, h3⟩
    exact ((c.map_after b).mp h3).imp_left fun hm => h.used_mem ⟨h1, h2, hm⟩
  parent_mem := by
    intro Q dq hQ hd
    rw [c.dirOf_after] at hd
    split at hd
    · cases hd
      exact ⟨h.ne_zero hP, Or.inl hP⟩
    rename_i hQn
    split at hd
    · cases hd
      exact (h.parent_mem hP c.dir).imp_right Or.inl
    · exact (h.parent_mem (hQ.resolve_right hQn) hd).imp_right Or.inl
  sound := by
    refine c.sound h.sound (fun b hb => hb.2.2) id ?_
    rintro b (hb | rfl)
    · exact ⟨hb.1, hb.2.1, (c.map_after b).mpr (Or.inl hb.2.2)⟩
    · exact ⟨c.alloc.ge_sixty, c.alloc.lt, (c.map_after b).mpr (Or.inr rfl)⟩
  parented := c.parented h.sound (fun b hb => hb.2.2) h.parented id

theorem Inv.renamed (h : Inv T st) {S : Nat} {sleaf leaf : List UInt8} {dS : DiskDir}
    {si : Fin MAX_DIR_ENTRIES} {now : Nat} (hS : T S) (hd : dirOf st.disk S = some dS)
    (hfind : find_entry_index (DirBlock.ofDisk dS) sleaf none = some si) :
    Inv T (write_dir st S ((DirBlock.ofDisk dS).setEntry si
      (movedEntry ((DirBlock.ofDisk dS).entries si) leaf now))) := by
  have hslot : ∀ {Q j f}, SlotHas (write_dir st S ((DirBlock.ofDisk dS).setEntry si
      (movedEntry ((DirBlock.ofDisk dS).entries si) leaf now))).disk Q j f →
      ∃ e, SlotHas st.disk Q j e ∧ e.bno = f.bno ∧ e.type = f.type := by
    intro Q j f hf
    rcases (slotHas_write_dir hd).mp hf with ⟨rfl, h2, rfl, _⟩ | ⟨_, hf⟩
    · have hi : si.val < DIR_SLOTS := by
        rw [← h2]
        exact j.isLt
      have hj : j = ⟨si.val, hi⟩ := Fin.ext h2
      subst hj
      exact ⟨_, (slotHas_of_find hd hfind hi).1, rfl, rfl⟩
    · exact ⟨f, hf, rfl, rfl⟩
  refine h.of_dirs h.ready h.hint (fun b hb => hb) (fun b _ hb => hb) ?_ ?_ ?_ ?_
  · intro Q d' hd'
    rw [dirOf_write_dir] at hd'
    split at hd'
    · rename_i hQ
      cases hd'
      exact ⟨dS, hQ ▸ hd, Or.inl rfl⟩
    · exact ⟨d', hd', Or.inl rfl⟩
  · intro d0 hd0
    rw [dirOf_write_dir]
    split
    · rename_i hS1
      rw [hS1, hd] at hd0
      cases hd0
      exact ⟨_, rfl, rfl⟩
    · exact ⟨d0, hd0, rfl⟩
  · refine h.sound.restrict (fun b _ => nextOf_write_dir hd _ b) fun {Q j f} hQ hf => ?_
    obtain ⟨e, he, hb, _⟩ := hslot hf
    exact ⟨hQ, e, he, hb, fun b hb => h.sound.owned hQ ⟨e, he, hb⟩⟩
  · intro Q j f hQ hf ht
    obtain ⟨e, he, hb, hte⟩ := hslot hf
    obtain ⟨g1, c, g2, g3⟩ := h.parented hQ he (hte.trans ht)
    rw [hb] at g1 g2
    refine ⟨g1, ?_⟩
    rw [dirOf_write_dir]
    split
    · rename_i hS'
      rw [hS', hd] at g2
      cases g2
      exact ⟨_, rfl, g3⟩
    · exact ⟨c, g2, g3⟩

theorem Inv.crossed (h : Inv T st) {S D : Nat} {sleaf leaf : List UInt8} {dS dD : DiskDir}
    {si di : Fin MAX_DIR_ENTRIES} {now : Nat} (hTS : T S) (hTD : T D)
    (hS : dirOf st.disk S = some dS) (hD : dirOf st.disk D = some dD) (hSD : S ≠ D)
    (hfind : find_entry_index (DirBlock.ofDisk dS) sleaf none = some si) :
    Inv T (move_relink (crossWrites st S dS si D dD di leaf now)
      ((DirBlock.ofDisk dS).entries si) D) := by
  have hsame : ∀ b, (move_relink (crossWrites st S dS si D dD di leaf now)
      ((DirBlock.ofDisk dS).entries si) D).fs_block_map b = st.fs_block_map b := by
    intro b
    unfold move_relink
    split
    · split <;> rfl
    · rfl
  refine h.of_dirs ?_ ?_ (fun b hb => hsame b ▸ hb) (fun b _ hb => hsame b ▸ hb) ?_ ?_ ?_ ?_
  · unfold move_relink
    split
    · split <;> exact h.ready
    · exact h.ready
  · have := h.hint
    unfold move_relink
    split
    · split <;> exact this
    · exact this
  · intro Q d' hd'
    rw [dirOf_move_relink, Option.map_eq_some_iff] at hd'
    obtain ⟨d1, h1, rfl⟩ := hd'
    obtain ⟨d0, h2, h3⟩ := dir_of_crossWrites hS hD h1
    refine ⟨d0, h2, ?_⟩
    split
    · exact Or.inr ⟨h.ne_zero hTD, hTD⟩
    · exact Or.inl h3
  · intro d0 hd0
    obtain ⟨d', hd', hp⟩ := crossWrites_dir hS hD hd0
    rw [dirOf_move_relink, hd']
    refine ⟨_, rfl, ?_⟩
    dsimp only
    rw [if_neg]
    · exact hp
    · -- the moved block is in use, so it is not the root
      rintro ⟨ht, h0, _, h1⟩
      have hi : si.val < DIR_SLOTS := lt_of_type_ne_zero (by rw [ht]; decide)
      have := h.sound.owned hTS ⟨_, (slotHas_of_find hS hfind hi).1, .here h0⟩
      rw [← h1] at this
      exact absurd this.1 (by decide)
  · have hs : Sound T (Used st) (crossWrites st S dS si D dD di leaf now).disk :=
      sound_crossWrites hS hD hSD hfind h.sound hTS id id
    refine hs.restrict (fun b _ => nextOf_move_relink _ _ _ b) fun {Q j f} hQ hf => ?_
    rw [slotHas_move_relink] at hf
    refine ⟨hQ, f, hf, rfl, fun b hb => ?_⟩
    obtain ⟨h1, h2, h3⟩ := hs.owned hQ ⟨f, hf, hb⟩
    exact ⟨h1, h2, (hsame b).trans h3⟩
  · exact parented_move_relink hS hD hSD hfind h.sound h.parented hTS id fun hb => hb.2.1

/-! ## Runs -/

theorem inv_format (st : FsState) : Inv (· = 1) (fs_format_root st) := by
  have hdir : dirOf (fs_format_root st).disk 1 = some (emptyDir 1).toDisk :=
    write_dir_disk_same st 1 (emptyDir 1)
  have hno : ∀ {Q j f}, Q = 1 → ¬ SlotHas (fs_format_root st).disk Q j f := by
    rintro Q j f rfl ⟨d, hd, rfl, hf⟩
    rw [hdir] at hd
    cases hd
    simp [DirBlock.toDisk, emptyDir] at hf
  have hused : ∀ {b}, ¬ Used (fs_format_root st) b := by
    rintro b ⟨h1, _, h3⟩
    simp only [fs_format_root, reservedMap, decide_eq_true_eq] at h3
    omega
  exact
    { ready := rfl
      low := fun i hi => decide_eq_true hi
      hint := fun i hi _ _ => hi
      root_mem := rfl
      root_dir := ⟨_, hdir, rfl⟩
      range := fun hb => Or.inl hb
      used_mem := fun hb => absurd hb hused
      parent_mem := by
        rintro P d rfl hd
        rw [hdir] at hd
        cases hd
        exact ⟨by decide, rfl⟩
      sound :=
        { chain := fun hP hf => absurd hf (hno hP)
          unique := fun hP _ hf => absurd hf.choose_spec.1 (hno hP) }
      parented := fun hP hf => absurd hf (hno hP) }

omit [BuildConfig] in
theorem ofDisk_emptyDir (p : Nat) :
    (DirBlock.ofDisk (emptyDir p).toDisk).entries = fun _ => .zero := by
  funext i
  simp only [DirBlock.ofDisk, DirBlock.toDisk, emptyDir]
  split
  · rfl
  split
  · rfl
  · rfl

theorem file_target_eq (hr : st.fs_alloc_ready = true) (w : Window) (name : List UInt8)
    (b : Nat) : file_target st w name b = (st, (file_target st w name b).2) := by
  refine Prod.ext ?_ rfl
  unfold file_target
  split
  · rw [resolve_fs_target_eq hr]
    dsimp only
    split <;> rename_i h <;> exact (congrArg Prod.fst h).symm
  · rfl

theorem file_target_mem (hT : Closed T st.disk) {w : Window} (hw : T w.cwd_bno)
    {name leaf : List UInt8} {b P : Nat} (hb : T b)
    (h : (file_target st w name b).2 = some (P, leaf)) : T P := by
  unfold file_target at h
  split at h
  · split at h
    · cases h
    · rename_i hres
      cases h
      exact hT.orRoot (resolve_fs_target_mem hT hw hres)
  · cases h
    exact hb

theorem store_file_bytes_eq (hr : st.fs_alloc_ready = true) (w : Window)
    (name data : List UInt8) (now : Nat) :
    store_file_bytes st w name data now =
      match (file_target st w name (orRoot w.cwd_bno)).2 with
      | none => some (-1, st)
      | some (P, leaf) => store_into st P leaf data now := by
  unfold store_file_bytes
  rw [file_target_eq hr]
  rcases (file_target st w name (orRoot w.cwd_bno)).2 with _ | ⟨P, leaf⟩ <;> rfl

/-- The set of blocks grows, and a directory that is new in it is empty. -/
structure Grows (T T' : Nat → Prop) (disk : Disk) : Prop where
  mono : ∀ b, T b → T' b
  fresh : ∀ {b d}, T' b → dirOf disk b = some d →
    T b ∨ (DirBlock.ofDisk d).entries = fun _ => .zero

omit [BuildConfig] in
theorem Grows.refl (T : Nat → Prop) (disk : Disk) : Grows T T disk :=
  ⟨fun _ => id, fun h _ => Or.inl h⟩

/-- The invariant holds again, of a set of blocks that has grown. -/
def Keeps (T : Nat → Prop) (st' : FsState) : Prop := ∃ T', Inv T' st' ∧ Grows T T' st'.disk

theorem Inv.keeps (h : Inv T st) : Keeps T st := ⟨T, h, .refl T st.disk⟩

theorem Inv.store_into (h : Inv T st) {P : Nat} {leaf data : List UInt8} {now : Nat} {rc : Int}
    (hP : T P) (hs : store_into st P leaf data now = some (rc, st')) : Keeps T st' := by
  rcases store_into_cases h.ready hs with ⟨_, rfl, _⟩ | ⟨_, _, l, ws, hg, _⟩ |
    ⟨_, mid, d, idx, old, first, l, lold, ws, c⟩
  · exact h.keeps
  · refine ⟨_, h.grown hg, fun b hb => Or.inl hb, fun hb hd => Or.inl (hb.resolve_right ?_)⟩
    intro hl
    rw [hg.dirOf_eq_none hl] at hd
    cases hd
  · refine ⟨_, h.storeCommit hP c, fun b hb => Or.inl hb, fun hb hd => Or.inl ?_⟩
    rcases c.not_new_of_dir hd with hl | rfl
    · exact hb.resolve_right hl
    · exact hP

theorem Inv.store_file_bytes (h : Inv T st) {w : Window} (hw : T w.cwd_bno)
    {name data : List UInt8} {now : Nat} {rc : Int}
    (hs : store_file_bytes st w name data now = some (rc, st')) : Keeps T st' := by
  rw [store_file_bytes_eq h.ready] at hs
  rcases ht : (file_target st w name (orRoot w.cwd_bno)).2 with _ | ⟨P, leaf⟩
  · rw [ht] at hs
    cases hs
    exact h.keeps
  · rw [ht] at hs
    exact h.store_into (file_target_mem h.closed hw (h.closed.orRoot hw) ht) hs

theorem Inv.remove_entry_named (h : Inv T st) {w : Window} (hw : T w.cwd_bno)
    {name : List UInt8} {rc : Int} (hs : remove_entry_named st w name = some (rc, st')) :
    Keeps T st' := by
  rcases remove_cases h.ready hs with ⟨_, rfl⟩ | ⟨_, d, idx, l, c⟩
  · exact h.keeps
  · exact (h.removeCommit hw c).keeps

theorem Inv.local_mkdir_path (h : Inv T st) {w : Window} (hw : T w.cwd_bno)
    {path : List UInt8} {now : Nat} {rc : Int}
    (hs : local_mkdir_path st w path now = (rc, st')) : Keeps T st' := by
  rcases mkdir_cases h.ready hs with rfl | ⟨_, mid, P, leaf, d, idx, nb, c⟩
  · exact h.keeps
  · obtain ⟨p, cwd, rfl, hres⟩ := c.target
    have hP := h.closed.orRoot (resolve_editor_target_mem h.closed hw hres)
    refine ⟨_, h.mkdirCommit hP c, fun b hb => Or.inl hb, fun hb hd => hb.imp_right ?_⟩
    rintro rfl
    rw [c.dirOf_after, if_pos rfl] at hd
    cases hd
    exact ofDisk_emptyDir _

theorem Inv.movePlan_mem (h : Inv T st) {w : Window} (hw : T w.cwd_bno)
    {src dst sleaf : List UInt8} {S : Nat} {dS dD : DiskDir} {si : Fin MAX_DIR_ENTRIES}
    {dest : MoveDest} (p : MovePlan st w src dst S sleaf dS si dest dD) :
    T S ∧ T dest.dir_bno := by
  obtain ⟨_, hsrc⟩ := p.source
  obtain ⟨ddir, _, dleaf, hdst, _, hcase⟩ := p.target
  have hdd := resolve_fs_target_mem h.closed hw hdst
  refine ⟨resolve_fs_target_mem h.closed hw hsrc, ?_⟩
  rcases hcase with ⟨he, _⟩ | ⟨dd, j, ⟨_, _, hd⟩, hf, ht, he, _⟩
  · exact he ▸ hdd
  · have hj : j.val < DIR_SLOTS := lt_of_type_ne_zero (by rw [ht]; decide)
    rw [he]
    exact h.closed.child hdd ⟨_, _, (slotHas_of_find hd hf hj).1, ht, rfl⟩

theorem Inv.move_entry_named (h : Inv T st) {w : Window} (hw : T w.cwd_bno)
    {src dst : List UInt8} {now : Nat} {rc : Int}
    (hs : move_entry_named st w src dst now = (rc, st')) : Keeps T st' := by
  rcases move_cases h.ready hs with rfl | ⟨_, S, sleaf, dS, si, dest, dD, p, hw'⟩
  · exact h.keeps
  · obtain ⟨hTS, hTD⟩ := h.movePlan_mem hw p
    cases hw' with
    | rename _ _ => exact (h.renamed hTS p.src_dir p.src_find).keeps
    | cross di hSD _ _ => exact (h.crossed hTS hTD p.src_dir p.dst_dir hSD p.src_find).keeps

theorem Inv.cdWindow (h : Inv T st) {w w' : Window} (hw : T w.cwd_bno) {target : List UInt8}
    (hc : CdWindow st w target w') : T w'.cwd_bno := by
  cases hc with
  | same => exact hw
  | root => exact h.root_mem
  | parent hd => exact h.closed.parent hw hd
  | dir hres _ => exact h.closed.orRoot (resolve_editor_target_mem h.closed hw hres)
  | child hres hd hf =>
    have hp := h.closed.orRoot (resolve_editor_target_mem h.closed hw hres)
    exact h.closed.child hp (dirChild_of_find hd hf)

/-- The invariant of the system: every window stands in a block that was handed out. -/
structure SysInv (T : Nat → Prop) (s : System) : Prop where
  inv : Inv T s.st
  wins : ∀ i, T (s.wins i).cwd_bno

theorem sysInv_format (s : System) : SysInv (· = 1) (format s) := ⟨inv_format s.st, fun _ => rfl⟩

theorem SysInv.of_keeps {s : System} (h : SysInv T s) {st' : FsState} (hk : Keeps T st') :
    ∃ T', SysInv T' { s with st := st' } ∧ Grows T T' st'.disk := by
  obtain ⟨T', h1, h2⟩ := hk
  exact ⟨T', ⟨h1, fun i => h2.mono _ (h.wins i)⟩, h2⟩

theorem SysInv.step {s s' : System} (h : SysInv T s) {op : Op} (hs : step s op = some s') :
    ∃ T', SysInv T' s' ∧ Grows T T' s'.st.disk := by
  cases op with
  | store win name data now =>
    obtain ⟨⟨rc, st'⟩, h1, rfl⟩ := Option.map_eq_some_iff.mp hs
    exact h.of_keeps (h.inv.store_file_bytes (h.wins win) h1)
  | remove win name =>
    obtain ⟨⟨rc, st'⟩, h1, rfl⟩ := Option.map_eq_some_iff.mp hs
    exact h.of_keeps (h.inv.remove_entry_named (h.wins win) h1)
  | move win src dst now =>
    cases hs
    exact h.of_keeps (h.inv.move_entry_named (h.wins win) rfl)
  | mkdir win path now =>
    cases hs
    exact h.of_keeps (h.inv.local_mkdir_path (h.wins win) rfl)
  | cd win target =>
    obtain ⟨h1, h2⟩ := cd_cases h.inv.ready (s.wins win) target.bytes
    rw [step_cd, Option.some.injEq] at hs
    subst hs
    refine ⟨T, ⟨by rw [h1]; exact h.inv, fun i => ?_⟩, .refl T _⟩
    dsimp only
    by_cases hi : i = win
    · subst hi
      rw [Function.update_self]
      exact h.inv.cdWindow (h.wins i) h2
    · simpa [Function.update_of_ne hi] using h.wins i
  | setHome win value =>
    cases hs
    refine ⟨T, ⟨h.inv, fun i => ?_⟩, .refl T _⟩
    by_cases hi : i = win
    · subst hi
      simpa using h.wins i
    · simpa [Function.update_of_ne hi] using h.wins i

theorem SysInv.run {s s' : System} (h : SysInv T s) {ops : List Op} (hr : run s ops = some s') :
    ∃ T', SysInv T' s' := by
  induction ops generalizing s T with
  | nil =>
    cases hr
    exact ⟨T, h⟩
  | cons op ops ih =>
    obtain ⟨s1, h1, h2⟩ := Option.bind_eq_some_iff.mp hr
    obtain ⟨T1, h3, _⟩ := h.step h1
    exact ih h3 h2

theorem Reached.sysInv {s : System} (h : Reached s) : ∃ T, SysInv T s := by
  obtain ⟨s0, ops, hr⟩ := h
  exact (sysInv_format s0).run hr

/-! ## Every call returns -/

theorem Inv.chain_of_slot (h : Inv T st) {P : Nat} (hP : T P) {i : Fin DIR_SLOTS}
    {e : FileEntry} (he : SlotHas st.disk P i e) :
    ∃ l, Chain 0 (nextOf st.disk) e.bno l ∧ ∀ b ∈ l, b < 2 ^ 32 ∧ st.fs_block_map b = true := by
  obtain ⟨l, hl, hu⟩ := h.sound.chain hP he
  have := BuildConfig.word_fits
  exact ⟨l, hl, fun b hb => ⟨by have := (hu b hb).2.1; omega, (hu b hb).2.2⟩⟩

theorem SysInv.step_total {s : System} (h : SysInv T s) (op : Op) :
    ∃ s', vibeos.fs.step s op = some s' := by
  cases op with
  | store win name data now =>
    have htotal : ∃ r, vibeos.fs.store_file_bytes s.st (s.wins win) name.bytes data now =
        some r := by
      rw [store_file_bytes_eq h.inv.ready]
      rcases ht : (file_target s.st (s.wins win) name.bytes (orRoot (s.wins win).cwd_bno)).2
        with _ | ⟨P, leaf⟩
      · exact ⟨_, rfl⟩
      · have hP := file_target_mem h.inv.closed (h.wins win) (h.inv.closed.orRoot (h.wins win)) ht
        exact store_into_total h.inv.ready fun he => h.inv.chain_of_slot hP he
    obtain ⟨r, hr⟩ := htotal
    exact ⟨{ s with st := r.2 }, Option.map_eq_some_iff.mpr ⟨r, hr, rfl⟩⟩
  | remove win name =>
    obtain ⟨r, hr⟩ := @remove_entry_named_total _ s.st (s.wins win) name.bytes h.inv.ready
      fun he => (h.inv.chain_of_slot (h.wins win) he).imp fun l hl =>
        ⟨hl.1, fun b hb => (hl.2 b hb).1⟩
    exact ⟨{ s with st := r.2 }, Option.map_eq_some_iff.mpr ⟨r, hr, rfl⟩⟩
  | move win src dst now => exact ⟨_, rfl⟩
  | mkdir win path now => exact ⟨_, rfl⟩
  | cd win target => exact ⟨_, step_cd s win target⟩
  | setHome win value => exact ⟨_, rfl⟩

theorem SysInv.run_total {s : System} (h : SysInv T s) (ops : List Op) :
    ∃ s', vibeos.fs.run s ops = some s' := by
  induction ops generalizing s T with
  | nil => exact ⟨s, rfl⟩
  | cons op ops ih =>
    obtain ⟨s1, h1⟩ := h.step_total op
    obtain ⟨T1, h2, _⟩ := h.step h1
    obtain ⟨s', h3⟩ := ih h2
    exact ⟨s', Option.bind_eq_some_iff.mpr ⟨s1, h1, h3⟩⟩

end

/-- The blocks that block 1 reaches: through the entries in use of directory blocks and
through the links of data blocks, whatever the type of the entry says. -/
inductive ReachableBlock (disk : Disk) : Nat → Prop
  | root : ReachableBlock disk 1
  | entry {P : Nat} {i : Fin DIR_SLOTS} {e : FileEntry} : ReachableBlock disk P →
      SlotHas disk P i e → e.bno ≠ 0 → ReachableBlock disk e.bno
  | link {b : Nat} : ReachableBlock disk b → nextOf disk b ≠ 0 →
      ReachableBlock disk (nextOf disk b)

theorem ReachableBlock.ne_zero {disk : Disk} {b : Nat} (h : ReachableBlock disk b) : b ≠ 0 := by
  cases h with
  | root => decide
  | entry _ _ h0 => exact h0
  | link _ h0 => exact h0

section

variable [BuildConfig] {st : FsState} {T : Nat → Prop}

/-- What the bitmap, the hint and the tree owe each other. -/
structure AllocSafe (st : FsState) : Prop where
  marked : ∀ {b}, ReachableBlock st.disk b → 60 ≤ b →
    b < FS_MAX_BLOCKS ∧ st.fs_block_map b = true
  chain_ends : ∀ {P i e}, ReachableBlock st.disk P → SlotHas st.disk P i e →
    ∃ l, Chain 0 (nextOf st.disk) e.bno l ∧ l.Nodup
  unshared : ∀ {P i Q j b}, ReachableBlock st.disk P → ReachableBlock st.disk Q →
    Owns st.disk P i b → Owns st.disk Q j b → P = Q ∧ i = j
  hint : ∀ i, 60 ≤ i → i < FS_MAX_BLOCKS → st.fs_block_map i = false → st.next_free_block ≤ i
  balloc_fresh : ¬ ReachableBlock st.disk (balloc st).1

theorem Inv.reachable (h : Inv T st) {b : Nat} (hb : ReachableBlock st.disk b) :
    b = 1 ∨ ∃ P i, T P ∧ Owns st.disk P i b := by
  have hmem : ∀ {b}, (b = 1 ∨ ∃ P i, T P ∧ Owns st.disk P i b) → T b := by
    rintro b (rfl | ⟨P, i, hP, ho⟩)
    · exact h.root_mem
    · exact h.used_mem (h.sound.owned hP ho)
  induction hb with
  | root => exact Or.inl rfl
  | @entry P i e _ he h0 ih => exact Or.inr ⟨P, i, hmem ih, e, he, .here h0⟩
  | @link b _ h0 ih =>
    rcases ih with rfl | ⟨P, i, hP, e, he, hc⟩
    · obtain ⟨d, hd, _⟩ := h.root_dir
      exact absurd (nextOf_of_dir hd) h0
    · exact Or.inr ⟨P, i, hP, e, he, hc.snoc h0⟩

theorem Inv.reachable_used (h : Inv T st) {b : Nat} (hb : ReachableBlock st.disk b) :
    b = 1 ∨ Used st b := by
  rcases h.reachable hb with rfl | ⟨P, i, hP, ho⟩
  · exact Or.inl rfl
  · exact Or.inr (h.sound.owned hP ho)

theorem Inv.reachable_mem (h : Inv T st) {b : Nat} (hb : ReachableBlock st.disk b) : T b := by
  rcases h.reachable_used hb with rfl | hb
  · exact h.root_mem
  · exact h.used_mem hb

theorem Inv.allocSafe (h : Inv T st) : AllocSafe st where
  marked := by
    intro b hb h60
    rcases h.reachable_used hb with rfl | ⟨_, h2, h3⟩
    · omega
    · exact ⟨h2, h3⟩
  chain_ends := by
    intro P i e hP he
    obtain ⟨l, hl, _⟩ := h.sound.chain (h.reachable_mem hP) he
    exact ⟨l, hl, hl.nodup⟩
  unshared := fun hP hQ h1 h2 => h.sound.unique (h.reachable_mem hP) (h.reachable_mem hQ) h1 h2
  hint := h.hint
  balloc_fresh := by
    intro hb
    rcases balloc_cases h.ready with ⟨he, _⟩ | ⟨b, st', he, ha⟩
    · rw [he] at hb
      exact hb.ne_zero rfl
    · rw [he] at hb
      rcases h.reachable_used hb with h1 | ⟨_, _, h3⟩
      · have := ha.ge_sixty
        simp only at h1
        omega
      · rw [ha.clear] at h3
        cases h3

/-- Allocation safety: every state that calls of any kind reach from a format. -/
theorem alloc_safe_of_reached {s : System} (h : Reached s) : AllocSafe s.st := by
  obtain ⟨T, hT⟩ := h.sysInv
  exact hT.inv.allocSafe

end

/-- A disk that was never written, with all windows at the root. -/
def blankSystem : System where
  st :=
    { disk := fun _ => .raw .zero, writes := [], fs_block_map := fun _ => false
      next_free_block := 60, fs_alloc_ready := false, hint_ge := hint_start }
  wins := fun _ => { cwd_bno := 1, cwd := rootPath, home := ⟨[], CString.nil⟩ }

section

attribute [local instance] fpgaBuild

theorem nul_free_a : 0 ∉ lit ['a'] := by decide
theorem nul_free_f : 0 ∉ lit ['f'] := by decide

/-- A run with a directory, a file of three blocks, a move into the directory, and a remove. -/
def sampleOps : List Op :=
  [.mkdir 0 ⟨lit ['a'], nul_free_a⟩ 1, .store 0 ⟨lit ['f'], nul_free_f⟩ (List.replicate 9000 7) 2,
    .move 0 ⟨lit ['f'], nul_free_f⟩ ⟨lit ['a'], nul_free_a⟩ 3, .remove 0 ⟨lit ['f'], nul_free_f⟩]

theorem alloc_safe_of_reached_sample :
    ∃ s, run (format blankSystem) sampleOps = some s ∧ AllocSafe s.st := by
  obtain ⟨s, hs⟩ := (sysInv_format blankSystem).run_total sampleOps
  exact ⟨s, hs, alloc_safe_of_reached ⟨blankSystem, sampleOps, hs⟩⟩

end

end vibeos.fs
