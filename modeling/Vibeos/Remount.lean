-- The bitmap after a reboot. The scan of the disk is depth-first and stops below
-- depth 32; up to there it finds exactly the blocks of the tree, below it finds
-- none, so the remount agrees with the tree when no directory lies deeper.
import Vibeos.BlockTree
import Vibeos.AllocInv
import Vibeos.Bitmap

namespace vibeos.fs

open LinkChain Marking

section

variable [BuildConfig] {U : Nat → Prop} {disk : Disk} {P Q b : Nat} {k n : Nat}

/-! ## The scan of one chain -/

theorem adds_fs_scan_chain {guard : Nat} {l : List Nat} (h : Chain 0 (nextOf disk) b l)
    (hl : ∀ x ∈ l, 60 ≤ x ∧ x < FS_MAX_BLOCKS) (hg : l.length ≤ guard) :
    Adds (fs_scan_chain disk guard b) (· ∈ l) := by
  have hnd := h.nodup
  induction h generalizing guard with
  | stop =>
    intro m _ x
    cases guard <;> simp [fs_scan_chain]
  | @cell b l hb ht ih =>
    intro m hm x
    obtain ⟨h60, hmax⟩ := hl b (by simp)
    have hclear := hm b (by simp)
    cases guard with
    | zero => simp at hg
    | succ guard =>
      have hfirst : ∀ y, Function.update m b true y = true ↔ m y = true ∨ y = b :=
        adds_update b m fun y hy => hy ▸ hclear
      have hend : nextOf disk b = 0 → (Function.update m b true x = true ↔
          m x = true ∨ x ∈ b :: l) := by
        intro h0
        rw [h0] at ht
        rw [ht.det .stop, hfirst, List.mem_singleton]
      rw [fs_scan_chain]
      rcases hblk : disk b with d | d | r <;>
        simp only [h60, hmax, Nat.not_le.mpr hmax, hclear, fs_block_is_used,
          fs_block_set_used, and_self, if_true, if_false, Bool.false_eq_true]
      · exact hend (by simp [nextOf, hblk])
      · have hnext : nextOf disk b = d.next_bno := by simp [nextOf, hblk]
        rw [hnext] at ht
        split
        · rename_i hstop
          refine hend (hnext.trans (hstop.resolve_right fun hself => ?_))
          -- a block that is its own successor is on no finite chain
          rw [hself] at ht
          cases ht with
          | stop => exact hb rfl
          | cell _ _ => exact (List.nodup_cons.mp hnd).1 (by simp)
        · rw [hnext] at ih
          have hrest := ih (fun y hy => hl y (List.mem_cons_of_mem _ hy)) (by simpa using hg)
            (List.nodup_cons.mp hnd).2
          rw [hrest (Function.update m b true) ?_ x, hfirst, List.mem_cons, or_assoc]
          intro y hy
          rw [Function.update_of_ne, hm y (List.mem_cons_of_mem _ hy)]
          rintro rfl
          exact (List.nodup_cons.mp hnd).1 hy
      · exact hend (by simp [nextOf, hblk])

/-! ## The blocks within a depth -/

/-- Block `b` belongs to the tree of directory `P`, at most `k` levels of directories down. -/
inductive Within (disk : Disk) : Nat → Nat → Nat → Prop
  | self {k P : Nat} : Within disk k P P
  | file {k P b : Nat} {i : Fin DIR_SLOTS} {e : FileEntry} : SlotHas disk P i e → e.type ≠ 1 →
      OnChain 0 (nextOf disk) e.bno b → Within disk k P b
  | dir {k P b : Nat} {i : Fin DIR_SLOTS} {e : FileEntry} : SlotHas disk P i e → e.type = 1 →
      Within disk k e.bno b → Within disk (k + 1) P b

/-- The part of it that lies below slot `i` of `P`. -/
inductive SlotWithin (disk : Disk) : Nat → Nat → Fin DIR_SLOTS → Nat → Prop
  | file {k P b : Nat} {i : Fin DIR_SLOTS} {e : FileEntry} : SlotHas disk P i e → e.type ≠ 1 →
      OnChain 0 (nextOf disk) e.bno b → SlotWithin disk k P i b
  | dir {k P b : Nat} {i : Fin DIR_SLOTS} {e : FileEntry} : SlotHas disk P i e → e.type = 1 →
      Within disk k e.bno b → SlotWithin disk (k + 1) P i b

omit [BuildConfig] in
theorem within_iff : Within disk k P b ↔ b = P ∨ ∃ i, SlotWithin disk k P i b := by
  constructor
  · intro h
    cases h with
    | self => exact Or.inl rfl
    | file he ht hc => exact Or.inr ⟨_, .file he ht hc⟩
    | dir he ht hw => exact Or.inr ⟨_, .dir he ht hw⟩
  · rintro (rfl | ⟨i, h⟩)
    · exact .self
    · cases h with
      | file he ht hc => exact .file he ht hc
      | dir he ht hw => exact .dir he ht hw

omit [BuildConfig] in
theorem TreeDisk.below_of_within (h : TreeDisk U disk) (hP : IsDir disk P)
    (hw : Within disk k P b) : Forest.Below (Edge disk) P b := by
  induction hw with
  | self => exact .refl
  | file he _ hc => exact .single ⟨hP, _, _, he, hc⟩
  | @dir k P b i e he ht _ ih =>
    have hc : DirChild disk P e.bno := ⟨i, e, he, ht, rfl⟩
    exact .head (h.edge_of_dirChild hP hc) (ih (h.isDir_child hP hc))

omit [BuildConfig] in
theorem TreeDisk.below_of_slotWithin (h : TreeDisk U disk) (hP : IsDir disk P)
    {i : Fin DIR_SLOTS} (hw : SlotWithin disk k P i b) :
    ∃ c, Owns disk P i c ∧ Forest.Below (Edge disk) c b := by
  cases hw with
  | file he ht hc => exact ⟨b, ⟨_, he, hc⟩, .refl⟩
  | @dir k P b i e he ht hw =>
    have hc : DirChild disk P e.bno := ⟨i, e, he, ht, rfl⟩
    exact ⟨e.bno, ⟨e, he, .here (h.child_ne_zero hP hc)⟩,
      h.below_of_within (h.isDir_child hP hc) hw⟩

/-! ## The scan of a directory -/

/-- The scan of one entry of a directory at depth `n`. -/
def scanEntry (disk : Disk) (db : DirBlock) (n : Nat) (i : Fin MAX_DIR_ENTRIES)
    (map : Nat → Bool) : Nat → Bool :=
  if ¬ (db.entries i).inUse then map
  else if (db.entries i).type = 1 then fs_scan_dir disk (db.entries i).bno (n + 1) map
  else fs_scan_chain disk FS_MAX_BLOCKS (db.entries i).bno map

theorem fs_scan_dir_eq {d : DiskDir} (hd : dirOf disk P = some d) (hP : P ≠ 0)
    (hmax : P < FS_MAX_BLOCKS) (hn : n ≤ 32) {map : Nat → Bool}
    (hmap : n = 0 ∨ map P = false) :
    fs_scan_dir disk P n map = (List.finRange MAX_DIR_ENTRIES).foldl
      (fun map i => scanEntry disk (DirBlock.ofDisk d) n i map) (Function.update map P true) := by
  rw [fs_scan_dir, dif_neg (by omega), if_neg]
  · rw [hd]
    simp only [fs_block_set_used, Nat.not_le.mpr hmax, if_false]
    rfl
  · rintro ⟨h0, hu⟩
    rcases hmap with h | h
    · omega
    · simp [fs_block_is_used, Nat.not_le.mpr hmax, h] at hu

theorem fs_scan_dir_deep {map : Nat → Bool} (hn : 32 < n) : fs_scan_dir disk P n map = map := by
  rw [fs_scan_dir, dif_pos (Or.inr (Or.inr hn))]

variable (h : TreeDisk U disk) (hU : ∀ {b}, U b → 60 ≤ b ∧ b < FS_MAX_BLOCKS)

include h hU

theorem adds_scanEntry {d : DiskDir} (hP : IsDir disk P) (hd : dirOf disk P = some d)
    (hdown : ∀ {C k'}, k = k' + 1 → DirChild disk P C →
      Adds (fs_scan_dir disk C (n + 1)) (Within disk k' C)) (hdeep : k = 0 → 32 ≤ n)
    (i : Fin MAX_DIR_ENTRIES) :
    Adds (scanEntry disk (DirBlock.ofDisk d) n i)
      fun b => ∃ hi : i.val < DIR_SLOTS, SlotWithin disk k P ⟨i.val, hi⟩ b := by
  have hslot : ∀ {hi : i.val < DIR_SLOTS} {e}, SlotHas disk P ⟨i.val, hi⟩ e →
      e = (DirBlock.ofDisk d).entries i ∧ e.inUse = true := by
    rintro hi e ⟨d', hd', he, hu⟩
    rw [hd] at hd'
    cases hd'
    exact ⟨by rw [ofDisk_entries_of_lt d i hi, he], hu⟩
  unfold scanEntry
  split
  · -- an entry that is not in use
    rename_i hu
    refine adds_id.congr fun b => ⟨False.elim, ?_⟩
    rintro ⟨hi, hw⟩
    cases hw with
    | file he _ _ => exact hu ((hslot he).1 ▸ (hslot he).2)
    | dir he _ _ => exact hu ((hslot he).1 ▸ (hslot he).2)
  rename_i hu
  rw [not_not] at hu
  split
  · rename_i ht
    have hi : i.val < DIR_SLOTS := lt_of_type_ne_zero (by rw [ht]; decide)
    have he : SlotHas disk P ⟨i.val, hi⟩ ((DirBlock.ofDisk d).entries i) :=
      ⟨d, hd, (ofDisk_entries_of_lt d i hi).symm, hu⟩
    cases k with
    | zero =>
      have hstop : fs_scan_dir disk ((DirBlock.ofDisk d).entries i).bno (n + 1) = fun m => m :=
        funext fun m => fs_scan_dir_deep (by have := hdeep rfl; omega)
      rw [hstop]
      refine adds_id.congr fun b => ⟨False.elim, ?_⟩
      rintro ⟨_, hw⟩
      cases hw with
      | file he' ht' _ => exact ht' ((hslot he').1 ▸ ht)
    | succ k =>
      refine (hdown rfl ⟨_, _, he, ht, rfl⟩).congr fun b => ⟨fun hw => ⟨hi, .dir he ht hw⟩, ?_⟩
      rintro ⟨_, hw⟩
      cases hw with
      | file he' ht' _ => exact absurd ht ((hslot he').1 ▸ ht')
      | dir he' _ hw => exact (hslot he').1 ▸ hw
  · rename_i ht
    rcases Nat.lt_or_ge i.val DIR_SLOTS with hi | hi
    · have he : SlotHas disk P ⟨i.val, hi⟩ ((DirBlock.ofDisk d).entries i) :=
        ⟨d, hd, (ofDisk_entries_of_lt d i hi).symm, hu⟩
      obtain ⟨l, hl, hlU⟩ := h.sound.chain hP he
      have hlen : l.length ≤ FS_MAX_BLOCKS := by
        have hsub : l ⊆ List.range FS_MAX_BLOCKS :=
          fun x hx => List.mem_range.mpr (hU (hlU x hx)).2
        have := (List.subperm_of_subset hl.nodup hsub).length_le
        rwa [List.length_range] at this
      refine (adds_fs_scan_chain hl (fun x hx => hU (hlU x hx)) hlen).congr fun b =>
        ⟨fun hb => ⟨hi, .file he ht (hl.onChain hb)⟩, ?_⟩
      rintro ⟨_, hw⟩
      cases hw with
      | file he' _ hc => exact hl.mem_of_onChain ((hslot he').1 ▸ hc)
      | dir he' ht' _ => exact absurd ((hslot he').1 ▸ ht') ht
    · -- behind the block there is no chain to scan
      rw [(ofDisk_entries_of_ge d i hi).1]
      refine (adds_fs_scan_chain .stop (by simp) (Nat.zero_le _)).congr fun b => ⟨by simp, ?_⟩
      rintro ⟨hi', _⟩
      omega

theorem adds_entries {d : DiskDir} (hP : IsDir disk P) (hd : dirOf disk P = some d)
    (hdown : ∀ {C k'}, k = k' + 1 → DirChild disk P C →
      Adds (fs_scan_dir disk C (n + 1)) (Within disk k' C)) (hdeep : k = 0 → 32 ≤ n) :
    Adds (fun map => (List.finRange MAX_DIR_ENTRIES).foldl
      (fun map i => scanEntry disk (DirBlock.ofDisk d) n i map) map)
      fun b => ∃ i, SlotWithin disk k P i b := by
  refine (adds_foldl (List.nodup_finRange MAX_DIR_ENTRIES)
    (fun i _ => adds_scanEntry h hU hP hd hdown hdeep i) ?_).congr fun b => ⟨?_, ?_⟩
  · rintro i j hij x ⟨hi, hw⟩ ⟨hj, hw'⟩
    obtain ⟨c, hc, hcx⟩ := h.below_of_slotWithin hP hw
    obtain ⟨c', hc', hcx'⟩ := h.below_of_slotWithin hP hw'
    refine h.slots_disjoint hP (fun he => hij (Fin.ext ?_)) hc hc' hcx hcx'
    simpa using he
  · rintro ⟨i, _, hi, hw⟩
    exact ⟨_, hw⟩
  · rintro ⟨i, hw⟩
    exact ⟨⟨i.val, Nat.lt_of_lt_of_le i.isLt dir_slots_le⟩, List.mem_finRange _, i.isLt, hw⟩

omit [BuildConfig] hU in
theorem not_slotWithin_self (hP : IsDir disk P) (i : Fin DIR_SLOTS) :
    ¬ SlotWithin disk k P i P := by
  intro hw
  obtain ⟨c, hc, hcP⟩ := h.below_of_slotWithin hP hw
  exact h.no_cycle hP (Relation.TransGen.head' ⟨hP, i, hc⟩ hcP)

theorem adds_dir_of_entries {d : DiskDir} (hP : IsDir disk P) (hPU : U P)
    (hd : dirOf disk P = some d) (hn : n ≤ 32)
    (hentries : Adds (fun map => (List.finRange MAX_DIR_ENTRIES).foldl
      (fun map i => scanEntry disk (DirBlock.ofDisk d) n i map) map)
      fun b => ∃ i, SlotWithin disk k P i b) :
    Adds (fs_scan_dir disk P n) (Within disk k P) := by
  have hall := ((adds_update P).comp hentries fun x hx ⟨i, hw⟩ =>
    not_slotWithin_self h hP i (hx ▸ hw)).congr fun b => within_iff.symm
  intro m hm x
  obtain ⟨h60, hmax⟩ := hU hPU
  rw [fs_scan_dir_eq hd (by omega) hmax hn (Or.inr (hm P .self))]
  exact hall m hm x

theorem adds_fs_scan_dir (hP : IsDir disk P) (hPU : U P) (hn : 0 < n) (hk : n + k = 32) :
    Adds (fs_scan_dir disk P n) (Within disk k P) := by
  induction k generalizing P n with
  | zero =>
    obtain ⟨d, hd⟩ := hP.2
    have hentries := @adds_entries _ U disk P 0 n h hU d hP hd (by simp) (by omega)
    exact adds_dir_of_entries h hU hP hPU hd (by omega) hentries
  | succ k ih =>
    obtain ⟨d, hd⟩ := hP.2
    refine adds_dir_of_entries h hU hP hPU hd (by omega) (adds_entries h hU hP hd ?_ (by omega))
    intro C k' hk' hC
    cases hk'
    obtain ⟨i, hi⟩ := hC.owns (h.child_ne_zero hP hC)
    exact ih (h.isDir_child hP hC) (h.sound.owned hP hi) (by omega) (by omega)

theorem fs_scan_dir_root (h1 : 1 < FS_MAX_BLOCKS) (b : Nat) :
    fs_scan_dir disk 1 0 reservedMap b = true ↔ b < 60 ∨ Within disk 32 1 b := by
  have h0 := h.isDir_root
  obtain ⟨d, hd⟩ := h0.2
  have hentries : Adds _ _ := @adds_entries _ U disk 1 32 0 h hU d h0 hd
    (fun {C k'} hk hC => by
      obtain ⟨i, hi⟩ := hC.owns (h.child_ne_zero h0 hC)
      exact adds_fs_scan_dir h hU (h.isDir_child h0 hC) (h.sound.owned h0 hi)
        (by omega) (by omega)) (by omega)
  have hroot : Function.update reservedMap 1 true = reservedMap := by
    rw [Function.update_eq_self_iff]
    rfl
  rw [fs_scan_dir_eq hd (by decide) h1 (by omega) (Or.inl rfl), hroot]
  rw [hentries reservedMap ?_ b, within_iff]
  · simp only [reservedMap, decide_eq_true_eq]
    constructor
    · rintro (h2 | h2)
      · exact Or.inl h2
      · exact Or.inr (Or.inr h2)
    · rintro (h2 | rfl | h2)
      · exact Or.inl h2
      · exact Or.inl (by decide)
      · exact Or.inr h2
  · -- no block below a slot of the root is reserved
    rintro x ⟨i, hw⟩
    obtain ⟨c, hc, hcx⟩ := h.below_of_slotWithin h0 hw
    have hx : 60 ≤ x := by
      rcases hcx.cases_tail with rfl | ⟨Q, _, hQ, j, hj⟩
      · exact (hU (h.sound.owned h0 hc)).1
      · exact (hU (h.sound.owned hQ hj)).1
    simp only [reservedMap, decide_eq_false_iff_not]
    omega

/-! ## Depth -/

omit [BuildConfig] h hU in
theorem within_of_dirAt (hd : DirAt disk n P) (hw : Within disk k P b) :
    Within disk (k + n) 1 b := by
  induction hd generalizing k with
  | root => exact hw
  | @child n P C _ hc ih =>
    obtain ⟨i, e, he, ht, rfl⟩ := hc
    have := ih (.dir he ht hw)
    rwa [show k + (n + 1) = k + 1 + n by omega]

omit [BuildConfig] hU in
theorem dirAt_of_within (hd : DirAt disk n P) (hw : Within disk k P b) (hb : IsDir disk b) :
    ∃ m ≤ n + k, DirAt disk m b := by
  induction hw generalizing n with
  | self => exact ⟨n, by omega, hd⟩
  | @file k P b i e he ht hc =>
    exact absurd hb (h.not_isDir_of_file (isDir_of_slotHas (below_of_dirAt hd) he) he ht hc)
  | @dir k P b i e he ht _ ih =>
    obtain ⟨m, hm, hmb⟩ := ih (hd.child ⟨i, e, he, ht, rfl⟩) hb
    exact ⟨m, by omega, hmb⟩

omit [BuildConfig] hU in
theorem within_of_live (hdepth : ∀ {n b}, DirAt disk n b → n ≤ k) (hb : Live disk b) :
    Within disk k 1 b := by
  have hmono : ∀ {n P x}, DirAt disk n P → Within disk (k - n) P x → Within disk k 1 x := by
    intro n P x hd hw
    have := within_of_dirAt hd hw
    rwa [Nat.sub_add_cancel (hdepth hd)] at this
  rcases hb with hb | ⟨P, i, hP, e, he, hc⟩
  · obtain ⟨n, hn⟩ := exists_dirAt hb.1
    exact hmono hn .self
  · obtain ⟨n, hn⟩ := exists_dirAt hP.1
    by_cases ht : e.type = 1
    · rw [h.onChain_dir hP he ht hc]
      exact hmono (hn.child ⟨i, e, he, ht, rfl⟩) .self
    · exact hmono hn (.file he ht hc)

/-! ## The remount -/

omit h hU in
theorem fs_rebuild_alloc_state_map (st : FsState) (h1 : (dirOf st.disk 1).isSome) :
    (fs_rebuild_alloc_state st).fs_block_map = fs_scan_dir st.disk 1 0 reservedMap := by
  unfold fs_rebuild_alloc_state
  obtain ⟨d, hd⟩ := Option.isSome_iff_exists.mp h1
  simp only [hd]

end

section

variable [BuildConfig] {st : FsState}

def ballocs (st : FsState) : Nat → FsState
  | 0 => st
  | n + 1 => (balloc (ballocs st n)).2

/-- The bitmap that a mount computes from the disk of `st` covers the tree, and no
allocation after it takes a block of the tree. -/
def RemountOk (st : FsState) : Prop :=
  (∀ b, Live st.disk b → (fs_rebuild_alloc_state st).fs_block_map b = true) ∧
    ∀ n, ¬ Live st.disk (balloc (ballocs (fs_rebuild_alloc_state st) n)).1

theorem ballocs_map {b : Nat} (hr : st.fs_alloc_ready = true) (hb : st.fs_block_map b = true)
    (n : Nat) : (ballocs st n).fs_alloc_ready = true ∧ (ballocs st n).fs_block_map b = true := by
  induction n with
  | zero => exact ⟨hr, hb⟩
  | succ n ih =>
    rcases balloc_cases ih.1 with ⟨he, _⟩ | ⟨c, st', he, ha⟩
    · rw [ballocs, he]
      exact ih
    · rw [ballocs, he]
      exact ⟨ha.ready, (ha.grown.map b).mpr (Or.inl ih.2)⟩

omit [BuildConfig] in
theorem TreeDisk.not_live_zero {U : Nat → Prop} {disk : Disk} (h : TreeDisk U disk) :
    ¬ Live disk 0 := by
  rintro (hd | ⟨P, i, _, _, _, hc⟩)
  · exact h.isDir_ne_zero hd rfl
  · exact hc.ne_nil rfl

theorem usage_free_eq {T : Nat → Prop} (h : Inv T st) : (fs_usage_info st).2 = freeAhead st := by
  have hused : ∀ i < st.next_free_block, i < FS_MAX_BLOCKS → st.fs_block_map i = true := by
    intro i hi hmax
    by_cases h60 : i < 60
    · exact h.low i h60
    · by_contra hclear
      have := h.hint i (by omega) hmax (by simpa using hclear)
      omega
  have hcount := List.length_eq_countP_add_countP (fun i => st.fs_block_map i)
    (l := List.range FS_MAX_BLOCKS)
  have hclear : (List.range FS_MAX_BLOCKS).countP (fun i => !st.fs_block_map i) = freeAhead st := by
    unfold freeAhead
    rcases Nat.le_total st.next_free_block FS_MAX_BLOCKS with hle | hge
    · have hsplit := List.range'_append_1 (s := 0) (m := st.next_free_block)
        (n := FS_MAX_BLOCKS - st.next_free_block)
      rw [Nat.zero_add, Nat.add_sub_cancel' hle, ← List.range_eq_range', ← List.range_eq_range'] at hsplit
      rw [← hsplit, List.countP_append, List.countP_eq_zero.mpr, Nat.zero_add]
      intro i hi
      have hlt := List.mem_range.mp hi
      simp [hused i hlt (by omega)]
    · rw [Nat.sub_eq_zero_of_le hge, List.range'_zero, List.countP_nil, List.countP_eq_zero]
      intro i hi
      have hlt := List.mem_range.mp hi
      simp [hused i (by omega) hlt]
  unfold fs_usage_info
  rw [ensure_ready_of_ready h.ready]
  dsimp only
  rw [List.length_range] at hcount
  simp at hcount hclear ⊢
  omega

theorem ballocs_taken (hready : ∀ n, (ballocs st n).fs_alloc_ready = true) {m n : Nat}
    (hmn : m < n) (hne : (balloc (ballocs st m)).1 ≠ 0) :
    (ballocs st n).fs_block_map (balloc (ballocs st m)).1 = true := by
  induction hmn with
  | refl =>
    rcases balloc_cases (hready m) with ⟨he, _⟩ | ⟨b, st', he, ha⟩
    · rw [he] at hne
      exact absurd rfl hne
    · rw [ballocs, he, ha.map]
      exact Function.update_self ..
  | @step n _ ih =>
    rcases balloc_cases (hready n) with ⟨he, _⟩ | ⟨c, st', he, ha⟩
    · rwa [ballocs, he]
    · rw [ballocs, he]
      exact (ha.grown.map _).mpr (Or.inl ih)

theorem freeAhead_ballocs (hready : ∀ n, (ballocs st n).fs_alloc_ready = true) (n : Nat) :
    freeAhead (ballocs st n) = freeAhead st - n := by
  induction n with
  | zero => rfl
  | succ n ih =>
    rcases balloc_cases (hready n) with ⟨he, hfull⟩ | ⟨b, st', he, ha⟩
    · have := freeAhead_eq_zero.mpr hfull
      rw [ballocs, he]
      dsimp only
      omega
    · have := ha.freeAhead_eq
      rw [ballocs, he]
      dsimp only
      omega

/-- As many blocks are counted free as calls of `balloc` in a row get: each another one, none of them
of the tree, and after them nothing. -/
theorem usage_counts_allocations {s : System} (h : Reached s) (n : Nat) :
    ((balloc (ballocs s.st n)).1 ≠ 0 ↔ n < (fs_usage_info s.st).2) ∧
      ¬ Live s.st.disk (balloc (ballocs s.st n)).1 ∧
      ∀ m < n, (balloc (ballocs s.st m)).1 ≠ 0 →
        (balloc (ballocs s.st n)).1 ≠ (balloc (ballocs s.st m)).1 := by
  obtain ⟨T, hT⟩ := h.sysInv
  have hkept {b : Nat} (hb : s.st.fs_block_map b = true) := ballocs_map hT.inv.ready hb
  have hready (n : Nat) := (hkept (hT.inv.low 0 (by decide)) n).1
  have hlive : ∀ b, Live s.st.disk b → s.st.fs_block_map b = true := by
    intro b hb
    rcases hT.inv.treeDisk.live_cases hb with rfl | hused
    · exact hT.inv.low 1 (by decide)
    · exact hused.2.2
  have hn := freeAhead_ballocs hready n
  rw [usage_free_eq hT.inv]
  rcases balloc_cases (hready n) with ⟨he, hfull⟩ | ⟨b, st', he, ha⟩
  · have := freeAhead_eq_zero.mpr hfull
    rw [he]
    refine ⟨by simp; omega, hT.inv.treeDisk.not_live_zero, fun m _ hm => Ne.symm hm⟩
  · have := ha.freeAhead_eq
    rw [he]
    refine ⟨iff_of_true ha.ne_zero (by omega), fun hb => ?_, fun m hmn hm => ?_⟩
    · have := (hkept (hlive b hb) n).2
      rw [ha.clear] at this
      cases this
    · rintro rfl
      have := ballocs_taken hready hmn hm
      rw [ha.clear] at this
      cases this

theorem rebuilt_map {U : Nat → Prop} (h : TreeDisk U st.disk)
    (hU : ∀ {b}, U b → 60 ≤ b ∧ b < FS_MAX_BLOCKS) (b : Nat) :
    (fs_rebuild_alloc_state st).fs_block_map b = true ↔ b < 60 ∨ Within st.disk 32 1 b := by
  obtain ⟨d, hd, _⟩ := h.root
  have := BuildConfig.reserved_lt
  rw [fs_rebuild_alloc_state_map st (by rw [hd]; rfl), fs_scan_dir_root h hU (by omega)]

theorem remountOk_iff {U : Nat → Prop} (h : TreeDisk U st.disk)
    (hU : ∀ {b}, U b → 60 ≤ b ∧ b < FS_MAX_BLOCKS) :
    RemountOk st ↔ ∀ n b, DirAt st.disk n b → n ≤ 32 := by
  constructor
  · rintro ⟨hmark, _⟩ n b hb
    have hdir := h.dirAt_isDir hb
    rcases (rebuilt_map h hU b).mp (hmark b (Or.inl hdir)) with h60 | hw
    · -- only the root is a reserved block
      cases hb with
      | root => omega
      | child hP hc =>
        obtain ⟨i, hi⟩ := hc.owns (h.child_ne_zero (h.dirAt_isDir hP) hc)
        have := (hU (h.sound.owned (h.dirAt_isDir hP) hi)).1
        omega
    · obtain ⟨m, hm, hmb⟩ := dirAt_of_within h .root hw hdir
      rw [h.dirAt_unique hb hmb]
      omega
  · intro hdepth
    have hmark : ∀ b, Live st.disk b → (fs_rebuild_alloc_state st).fs_block_map b = true :=
      fun b hb => (rebuilt_map h hU b).mpr (Or.inr (within_of_live h (hdepth _ _) hb))
    refine ⟨hmark, fun n hlive => ?_⟩
    have hready : (fs_rebuild_alloc_state st).fs_alloc_ready = true := by
      unfold fs_rebuild_alloc_state
      dsimp only
      split <;> rfl
    have hn := ballocs_map hready (hmark 1 (Or.inl h.isDir_root)) n
    rcases balloc_cases hn.1 with ⟨he, _⟩ | ⟨b, st', he, ha⟩
    · rw [he] at hlive
      exact h.not_live_zero hlive
    · rw [he] at hlive
      have := (ballocs_map hready (hmark b hlive) n).2
      rw [ha.clear] at this
      cases this

/-- Remount agreement: a state `st` that has the disk of a reached state, after a reboot or
not, mounts right if and only if no directory lies deeper than 32 levels. -/
theorem remount_agrees_iff_depth {s : System} (h : Reached s) (hst : st.disk = s.st.disk) :
    RemountOk st ↔ ∀ n b, DirAt s.st.disk n b → n ≤ 32 := by
  obtain ⟨T, hT⟩ := h.sysInv
  have htree := hT.inv.treeDisk
  rw [← hst] at htree ⊢
  exact remountOk_iff htree fun hb => ⟨hb.1, hb.2.1⟩

end

section

attribute [local instance] fpgaBuild

theorem usage_counts_sample : ∃ s, run (format blankSystem) sampleOps = some s ∧
    ((balloc (ballocs s.st 0)).1 ≠ 0 ↔ 0 < (fs_usage_info s.st).2) := by
  obtain ⟨s, hs⟩ := (sysInv_format blankSystem).run_total sampleOps
  exact ⟨s, hs, (usage_counts_allocations ⟨blankSystem, sampleOps, hs⟩ 0).1⟩

/-- 33 directories, each inside of the one before. -/
def nestedOps : List Op :=
  (List.replicate 33 [.mkdir 0 ⟨lit ['a'], nul_free_a⟩ 1, .cd 0 ⟨lit ['a'], nul_free_a⟩]).flatten

def nestedEnd : Option System := run (format blankSystem) nestedOps

/-- Block `n` of the nest is the only entry of the block before. -/
def nestedBlock : Nat → Nat
  | 0 => 1
  | n + 1 => 60 + n

theorem nested_entries : ∀ n : Fin 33, (nestedEnd.bind fun s =>
    (dirOf s.st.disk (nestedBlock n)).map fun d => ((d.slots ⟨0, by decide⟩).inUse,
      (d.slots ⟨0, by decide⟩).type, (d.slots ⟨0, by decide⟩).bno)) =
    some (true, 1, nestedBlock (n + 1)) := by
  decide +kernel

/-- The directory at depth 33 is free after a reboot. -/
theorem remount_loses_depth_33 : ∃ s, Reached s ∧ ¬ RemountOk s.st := by
  obtain ⟨s, hs⟩ : ∃ s, nestedEnd = some s :=
    (sysInv_format blankSystem).run_total nestedOps
  have hreached : Reached s := ⟨blankSystem, nestedOps, hs⟩
  refine ⟨s, hreached, fun hok => ?_⟩
  have hdepth : ∀ n, n ≤ 33 → DirAt s.st.disk n (nestedBlock n) := by
    intro n
    induction n with
    | zero => exact fun _ => .root
    | succ n ih =>
      intro hn
      refine (ih (by omega)).child ?_
      have he := nested_entries ⟨n, by omega⟩
      rw [hs, Option.bind_some, Option.map_eq_some_iff] at he
      obtain ⟨d, hd, he⟩ := he
      simp only [Prod.mk.injEq] at he
      exact ⟨⟨0, by decide⟩, _, ⟨d, hd, rfl, he.1⟩, he.2.1, he.2.2⟩
  obtain ⟨T, hT⟩ := hreached.sysInv
  have := (remountOk_iff hT.inv.treeDisk fun hb => ⟨hb.1, hb.2.1⟩).mp hok 33 _
    (hdepth 33 (by omega))
  omega

/-- Without deep directories: the sample run, after a reboot. -/
theorem remount_agrees_iff_depth_sample : ∃ s, run (format blankSystem) sampleOps = some s ∧
    (RemountOk { s.st with fs_alloc_ready := false } ↔
      ∀ n b, DirAt s.st.disk n b → n ≤ 32) := by
  obtain ⟨s, hs⟩ := (sysInv_format blankSystem).run_total sampleOps
  exact ⟨s, hs, remount_agrees_iff_depth ⟨blankSystem, sampleOps, hs⟩ rfl⟩

end

end vibeos.fs
