-- What the block loop of `store_file_bytes` leaves behind: a run of new blocks,
-- taken from clear bits only, that holds the data as a chain; and when the disk
-- is too full for it.
import Vibeos.AllocSpecs

namespace vibeos.fs

open LinkChain WriteLog

section

variable [BuildConfig] {st st' st'' : FsState} {b : Nat}

/-! ## The blocks ahead of the hint -/

/-- The number of clear bits that `balloc` can still reach. -/
def freeAhead (st : FsState) : Nat :=
  (List.range' st.next_free_block (FS_MAX_BLOCKS - st.next_free_block)).countP
    fun i => !st.fs_block_map i

theorem freeAhead_eq_zero : freeAhead st = 0 ↔
    ∀ j, st.next_free_block ≤ j → j < FS_MAX_BLOCKS → st.fs_block_map j = true := by
  simp only [freeAhead, List.countP_eq_zero, List.mem_range'_1]
  constructor
  · intro h j h1 h2
    simpa using h j ⟨h1, by omega⟩
  · intro h j hj
    simp [h j hj.1 (by omega)]

theorem Allocated.freeAhead_eq (h : Allocated st st' b) : freeAhead st = freeAhead st' + 1 := by
  have hge := h.ge
  have hlt := h.lt
  have hsplit : List.range' st.next_free_block (FS_MAX_BLOCKS - st.next_free_block) =
      List.range' st.next_free_block (b - st.next_free_block) ++
        b :: List.range' (b + 1) (FS_MAX_BLOCKS - (b + 1)) := by
    have hb : b = st.next_free_block + 1 * (b - st.next_free_block) := by omega
    have h2 : b :: List.range' (b + 1) (FS_MAX_BLOCKS - (b + 1)) =
        List.range' (st.next_free_block + 1 * (b - st.next_free_block))
          (FS_MAX_BLOCKS - b) := by
      rw [← hb, show FS_MAX_BLOCKS - b = (FS_MAX_BLOCKS - (b + 1)) + 1 by omega]
      rfl
    rw [h2, List.range'_append]
    congr 1
    omega
  have hbefore : (List.range' st.next_free_block (b - st.next_free_block)).countP
      (fun i => !st.fs_block_map i) = 0 := by
    rw [List.countP_eq_zero]
    intro j hj
    rw [List.mem_range'_1] at hj
    simp [h.first j hj.1 (by omega)]
  have hafter : (List.range' (b + 1) (FS_MAX_BLOCKS - (b + 1))).countP
      (fun i => !st'.fs_block_map i) =
      (List.range' (b + 1) (FS_MAX_BLOCKS - (b + 1))).countP (fun i => !st.fs_block_map i) := by
    apply List.countP_congr
    intro j hj
    rw [List.mem_range'_1] at hj
    rw [h.map, Function.update_of_ne (by omega)]
  simp only [freeAhead]
  rw [hsplit, h.next, hafter, List.countP_append, List.countP_cons, hbefore]
  simp [h.clear]

theorem freeAhead_mono (hhint : st'.next_free_block ≤ st.next_free_block)
    (hmap : ∀ i, st'.fs_block_map i = true → st.fs_block_map i = true) :
    freeAhead st ≤ freeAhead st' := by
  unfold freeAhead
  -- the old range is the end of the new one
  have hsub : (List.range' st.next_free_block (FS_MAX_BLOCKS - st.next_free_block)).Sublist
      (List.range' st'.next_free_block (FS_MAX_BLOCKS - st'.next_free_block)) := by
    obtain ⟨k, hk⟩ := Nat.exists_eq_add_of_le hhint
    rcases Nat.le_total FS_MAX_BLOCKS st.next_free_block with hmax | hmax
    · rw [Nat.sub_eq_zero_of_le hmax]
      exact List.nil_sublist _
    · have hlen : FS_MAX_BLOCKS - st'.next_free_block =
          k + (FS_MAX_BLOCKS - st.next_free_block) := by omega
      rw [hlen, ← List.range'_append_1, ← hk]
      exact List.sublist_append_right _ _
  refine le_trans (List.countP_mono_left fun i _ hi => ?_) hsub.countP_le
  have := hmap i
  revert this hi
  cases st'.fs_block_map i <;> cases st.fs_block_map i <;> simp

theorem freeAhead_le_bfree (st : FsState) (b : Nat) : freeAhead st ≤ freeAhead (bfree st b) := by
  refine freeAhead_mono ?_ fun i hi => ((bfree_map st b i).mp hi).1
  unfold bfree
  split
  · exact le_rfl
  · dsimp only
    split <;> omega

theorem freeAhead_le_freeAll (st : FsState) (l : List Nat) :
    freeAhead st ≤ freeAhead (freeAll st l) := by
  induction l generalizing st with
  | nil => exact le_rfl
  | cons b l ih => exact (freeAhead_le_bfree st b).trans (ih _)

/-! ## New blocks -/

/-- Blocks `l` have been allocated and written, and only the blocks of `touched` written,
none of them as a directory. -/
structure Grown (st st' : FsState) (l touched : List Nat) (ws : List (Nat × Block)) :
    Prop where
  nodup : l.Nodup
  fresh : ∀ b ∈ l, 60 ≤ b ∧ b < FS_MAX_BLOCKS ∧ st.fs_block_map b = false
  map : ∀ b, st'.fs_block_map b = true ↔ st.fs_block_map b = true ∨ b ∈ l
  hint : HintOk st → HintOk st'
  ready : st'.fs_alloc_ready = true
  logged : Logged st st' ws
  touched : ∀ w ∈ ws, w.1 ∈ touched
  written : ∀ b ∈ l, ∃ w ∈ ws, w.1 = b
  plain : ∀ w ∈ ws, ∀ d, w.2 ≠ .dir d
  room : freeAhead st = l.length + freeAhead st'

theorem Grown.refl (h : st.fs_alloc_ready = true) (t : List Nat) : Grown st st [] t [] where
  nodup := List.nodup_nil
  fresh := by simp
  map := by simp
  hint := id
  ready := h
  logged := .refl st
  touched := by simp
  written := by simp
  plain := by simp
  room := by simp

theorem Allocated.grown (h : Allocated st st' b) :
    Grown st st' [b] [b] [(b, .raw .zero)] where
  nodup := List.nodup_singleton b
  fresh := by
    intro x hx
    rw [List.mem_singleton] at hx
    subst hx
    exact ⟨h.ge_sixty, h.lt, h.clear⟩
  map := by
    intro x
    rw [h.map]
    by_cases hx : x = b
    · subst hx; simp
    · simp [hx]
  hint := h.hintOk
  ready := h.ready
  logged := h.logged
  touched := by simp
  written := by simp
  plain := by simp
  room := by rw [h.freeAhead_eq]; simp; omega

theorem Grown.mono {l t u : List Nat} {ws : List (Nat × Block)} (h : Grown st st' l t ws)
    (ht : t ⊆ u) : Grown st st' l u ws :=
  { h with touched := fun w hw => ht (h.touched w hw) }

theorem Grown.write {l t : List Nat} {ws : List (Nat × Block)} (h : Grown st st' l t ws)
    {x : Nat} (hx : x ∈ t) {v : Block} (hv : ∀ d, v ≠ .dir d) :
    Grown st (virtio_disk_write st' x v) l t (ws ++ [(x, v)]) where
  nodup := h.nodup
  fresh := h.fresh
  map := h.map
  hint := h.hint
  ready := h.ready
  logged := h.logged.trans (logged_write st' x v)
  touched := by
    intro w hw
    rcases List.mem_append.mp hw with hw | hw
    · exact h.touched w hw
    · rw [List.mem_singleton] at hw
      exact hw ▸ hx
  written := by
    intro b hb
    obtain ⟨w, hw, he⟩ := h.written b hb
    exact ⟨w, List.mem_append_left _ hw, he⟩
  plain := by
    intro w hw
    rcases List.mem_append.mp hw with hw | hw
    · exact h.plain w hw
    · rw [List.mem_singleton] at hw
      exact hw ▸ hv
  room := h.room

theorem Grown.trans {l l' t t' u : List Nat} {ws vs : List (Nat × Block)}
    (h : Grown st st' l t ws) (h' : Grown st' st'' l' t' vs) (ht : t ⊆ u) (ht' : t' ⊆ u) :
    Grown st st'' (l ++ l') u (ws ++ vs) where
  nodup := by
    refine List.nodup_append.mpr ⟨h.nodup, h'.nodup, ?_⟩
    rintro x hx y hy rfl
    have := (h'.fresh x hy).2.2
    rw [(h.map x).mpr (Or.inr hx)] at this
    cases this
  fresh := by
    intro x hx
    rcases List.mem_append.mp hx with hx | hx
    · exact h.fresh x hx
    · obtain ⟨h1, h2, h3⟩ := h'.fresh x hx
      refine ⟨h1, h2, ?_⟩
      rw [← Bool.not_eq_true] at h3 ⊢
      exact fun hm => h3 ((h.map x).mpr (Or.inl hm))
  map := by
    intro x
    rw [h'.map, h.map, List.mem_append]
    tauto
  hint := h'.hint ∘ h.hint
  ready := h'.ready
  logged := h.logged.trans h'.logged
  touched := by
    intro w hw
    rcases List.mem_append.mp hw with hw | hw
    · exact ht (h.touched w hw)
    · exact ht' (h'.touched w hw)
  written := by
    intro b hb
    rcases List.mem_append.mp hb with hb | hb
    · obtain ⟨w, hw, he⟩ := h.written b hb
      exact ⟨w, List.mem_append_left _ hw, he⟩
    · obtain ⟨w, hw, he⟩ := h'.written b hb
      exact ⟨w, List.mem_append_right _ hw, he⟩
  plain := by
    intro w hw
    rcases List.mem_append.mp hw with hw | hw
    · exact h.plain w hw
    · exact h'.plain w hw
  room := by rw [h.room, h'.room, List.length_append]; omega

theorem Grown.disk_eq {l t : List Nat} {ws : List (Nat × Block)} (h : Grown st st' l t ws)
    {x : Nat} (hx : x ∉ t) : st'.disk x = st.disk x := by
  rw [h.logged.disk]
  apply replay_of_not_mem
  rintro w hw rfl
  exact hx (h.touched w hw)

theorem Grown.dirOf_eq_none {l t : List Nat} {ws : List (Nat × Block)}
    (h : Grown st st' l t ws) {x : Nat} (hx : x ∈ l) : dirOf st'.disk x = none := by
  obtain ⟨w, hw, _, he⟩ := @replay_of_mem _ _ _ st.disk _ _ (h.written x hx)
  rcases hd : dirOf st'.disk x with _ | d
  · rfl
  · rw [dirOf_eq_some, h.logged.disk, he] at hd
    exact absurd hd (h.plain w hw d)

/-! ## A chain that holds data -/

/-- The chain of the blocks `l` from `b` holds the data, one payload a block. -/
inductive Stored (disk : Disk) : Nat → List Nat → List UInt8 → Prop
  | done : Stored disk 0 [] []
  | block {b n : Nat} {l : List Nat} {data : List UInt8} : b ≠ 0 → data ≠ [] →
      disk b = .data ⟨n, fillPayload (data.take FS_DATA_PAYLOAD)⟩ →
      Stored disk n l (data.drop FS_DATA_PAYLOAD) → Stored disk b (b :: l) data

section

omit [BuildConfig]

/-- The number of blocks that the data needs. -/
def blocksFor (n : Nat) : Nat := (n + (FS_DATA_PAYLOAD - 1)) / FS_DATA_PAYLOAD

theorem blocksFor_of_pos {n : Nat} (h : 0 < n) :
    blocksFor n = blocksFor (n - FS_DATA_PAYLOAD) + 1 := by
  unfold blocksFor
  simp only [FS_DATA_PAYLOAD, BSIZE]
  omega

theorem blocksFor_pos {n : Nat} (h : 0 < n) : 0 < blocksFor n := by
  rw [blocksFor_of_pos h]
  omega

variable {disk disk' : Disk} {l : List Nat} {data : List UInt8}

theorem Stored.chain (h : Stored disk b l data) : Chain 0 (nextOf disk) b l := by
  induction h with
  | done => exact .stop
  | @block b n l data hb _ hblk _ ih =>
    have hn : nextOf disk b = n := by simp [nextOf, hblk]
    exact .cell hb (hn ▸ ih)

theorem Stored.length_eq (h : Stored disk b l data) : l.length = blocksFor data.length := by
  induction h with
  | done => rfl
  | block _ hne _ _ ih =>
    rw [blocksFor_of_pos (List.length_pos_iff.mpr hne), List.length_cons, ih, List.length_drop]

theorem Stored.is_data (h : Stored disk b l data) : ∀ x ∈ l, ∃ d, disk x = .data d := by
  induction h with
  | done => simp
  | block _ _ hblk _ ih =>
    intro x hx
    rcases List.mem_cons.mp hx with rfl | hx
    · exact ⟨_, hblk⟩
    · exact ih x hx

theorem Stored.load_loop_eq (h : Stored disk b l data) :
    load_loop disk data.length b = data := by
  induction h with
  | done => rw [load_loop]; simp
  | @block b n l data hb hne hblk _ ih =>
    have hlen := List.length_pos_iff.mpr hne
    rw [load_loop, dif_neg (by omega)]
    have hchunk : (data.take FS_DATA_PAYLOAD).length = min data.length FS_DATA_PAYLOAD := by
      rw [List.length_take, Nat.min_comm]
    have hrest : data.length - min data.length FS_DATA_PAYLOAD =
        (data.drop FS_DATA_PAYLOAD).length := by
      rw [List.length_drop]; omega
    simp only [hblk]
    rw [← hchunk, take_fillPayload (by rw [hchunk]; omega), hchunk, hrest, ih]
    exact List.take_append_drop _ _

end

/-! ## The loop of a store -/

/-- From a last block `prev` on, the loop appends the rest of the data to the chain, or it
stops when no clear bit is left. The induction is on the length of the data. -/
theorem store_loop_spec (data : List UInt8) {first prev : Nat} {p : Bytes FS_DATA_PAYLOAD}
    (hr : st.fs_alloc_ready = true) (hp : prev ≠ 0) (hd : st.disk prev = .data ⟨0, p⟩)
    (hm : st.fs_block_map prev = true) :
    ∃ l ws, Grown st (store_loop st first prev data).1 l (prev :: l) ws ∧
      (((store_loop st first prev data).2 = some first ∧
        ∃ b, Stored (store_loop st first prev data).1.disk b l data ∧
          (store_loop st first prev data).1.disk prev = .data ⟨b, p⟩) ∨
      ((store_loop st first prev data).2 = none ∧ l.length < blocksFor data.length ∧
        freeAhead (store_loop st first prev data).1 = 0)) := by
  induction hn : data.length using Nat.strong_induction_on generalizing data st prev p with
  | _ n ih =>
    subst hn
    rcases List.eq_nil_or_concat' data with rfl | hne
    · rw [store_loop, dif_pos rfl]
      exact ⟨[], [], .refl hr _, Or.inl ⟨rfl, 0, .done, hd⟩⟩
    · replace hne : data ≠ [] := by
        obtain ⟨l, x, rfl⟩ := hne
        simp
      have hpos := List.length_pos_iff.mpr hne
      rw [store_loop, dif_neg hne]
      rcases balloc_cases hr with ⟨hb, hfull⟩ | ⟨b, st1, hb, ha⟩
      · rw [hb]
        exact ⟨[], [], .refl hr _, Or.inr ⟨rfl, blocksFor_pos hpos, freeAhead_eq_zero.mpr hfull⟩⟩
      · rw [hb]
        simp only [if_neg ha.ne_zero, ne_eq, hp, not_false_eq_true, if_true]
        have hbp : b ≠ prev := by
          rintro rfl
          rw [ha.clear] at hm
          cases hm
        -- the two writes of this turn: the new block, and the link of the one before
        generalize hchunk : fillPayload (data.take FS_DATA_PAYLOAD) = chunk
        generalize hst2 : virtio_disk_write st1 b (.data ⟨0, chunk⟩) = st2
        generalize hst3 : virtio_disk_write st2 prev ((st2.disk prev).setLink b) = st3
        have hg : ∃ ws, Grown st st3 [b] [prev, b] ws := by
          subst hst3 hst2
          have h0 : Grown st st1 [b] [prev, b] _ := ha.grown.mono (by simp)
          refine ⟨_, (h0.write (by simp) (by simp)).write (by simp) ?_⟩
          simp [virtio_disk_write, Function.update_of_ne hbp.symm, ha.disk, hd, Block.setLink]
        obtain ⟨ws, hg⟩ := hg
        have hdb : st3.disk b = .data ⟨0, chunk⟩ := by
          subst hst3 hst2
          simp [virtio_disk_write, Function.update_of_ne hbp]
        have hdp : st3.disk prev = .data ⟨b, p⟩ := by
          subst hst3 hst2
          simp [virtio_disk_write, Function.update_of_ne hbp.symm, ha.disk, hd, Block.setLink]
        have hdrop : (data.drop FS_DATA_PAYLOAD).length < data.length := by
          rw [List.length_drop]
          simp only [FS_DATA_PAYLOAD, BSIZE]
          omega
        obtain ⟨l, vs, hg', hres⟩ := ih _ hdrop (data.drop FS_DATA_PAYLOAD)
          hg.ready ha.ne_zero hdb ((hg.map b).mpr (by simp)) rfl
        have hprev : prev ∉ b :: l := by
          rintro h
          rcases List.mem_cons.mp h with h | h
          · exact hbp h.symm
          · have := (hg'.fresh prev h).2.2
            rw [(hg.map prev).mpr (Or.inl hm)] at this
            cases this
        refine ⟨b :: l, ws ++ vs, hg.trans hg' (by simp) (by simp), ?_⟩
        rcases hres with ⟨h1, b', h2, h3⟩ | ⟨h1, h2, h3⟩
        · refine Or.inl ⟨h1, b, ?_, (hg'.disk_eq hprev).trans hdp⟩
          exact .block ha.ne_zero hne (hchunk ▸ h3) h2
        · refine Or.inr ⟨h1, ?_, h3⟩
          rw [List.length_drop] at h2
          rw [blocksFor_of_pos hpos, List.length_cons]
          omega

omit [BuildConfig] in
theorem load_loop_congr {disk disk' : Disk} {l : List Nat} (h : Chain 0 (nextOf disk) b l)
    (hd : ∀ x ∈ l, disk' x = disk x) (n : Nat) : load_loop disk' n b = load_loop disk n b := by
  induction h generalizing n with
  | stop => rw [load_loop, load_loop]; simp
  | @cell b l hb _ ih =>
    rw [load_loop, load_loop]
    rcases Nat.eq_zero_or_pos n with rfl | hn
    · simp
    · simp only [hb, show n ≠ 0 by omega, or_self, dite_false, hd b (by simp)]
      rcases hblk : disk b with d | d | d
      · rfl
      · have hnext : nextOf disk b = d.next_bno := by simp [nextOf, hblk]
        simp only
        rw [← hnext, ih fun x hx => hd x (List.mem_cons_of_mem _ hx)]
      · rfl

/-- Blocks `l` from `first` on are a file with the given bytes. -/
structure FileBlocks (disk : Disk) (first : Nat) (l : List Nat) (data : List UInt8) : Prop where
  chain : Chain 0 (nextOf disk) first l
  is_data : ∀ x ∈ l, ∃ d, disk x = .data d
  ne_zero : first ≠ 0
  load : load_loop disk data.length first = data

/-- The blocks that a store of `n` bytes needs. -/
def storeNeeds (n : Nat) : Nat := max 1 (blocksFor n)

theorem store_blocks_spec (data : List UInt8) (hr : st.fs_alloc_ready = true) :
    ∃ l ws, Grown st (store_blocks st data).1 l l ws ∧
      ((∃ first, (store_blocks st data).2 = some first ∧ l.length = storeNeeds data.length ∧
        FileBlocks (store_blocks st data).1.disk first l data) ∨
      ((store_blocks st data).2 = none ∧ l.length < storeNeeds data.length ∧
        freeAhead (store_blocks st data).1 = 0)) := by
  unfold store_blocks
  split
  · -- an empty file gets one block without bytes
    rename_i hdata
    subst hdata
    rcases balloc_cases hr with ⟨hb, hfull⟩ | ⟨b, st1, hb, ha⟩
    · rw [hb]
      exact ⟨[], [], .refl hr _, Or.inr ⟨rfl, by decide, freeAhead_eq_zero.mpr hfull⟩⟩
    · rw [hb]
      simp only [if_neg ha.ne_zero]
      refine ⟨[b], _, ha.grown.write (by simp) (by simp), Or.inl ⟨b, rfl, rfl, ?_⟩⟩
      refine ⟨.cell ha.ne_zero ?_, ?_, ha.ne_zero, ?_⟩
      · simpa [nextOf, virtio_disk_write] using .stop
      · simp [virtio_disk_write]
      · rw [load_loop]; simp
  · rename_i hne
    have hpos := List.length_pos_iff.mpr hne
    have hneeds : storeNeeds data.length = blocksFor data.length :=
      Nat.max_eq_right (blocksFor_pos hpos)
    rw [hneeds, store_loop, dif_neg hne]
    rcases balloc_cases hr with ⟨hb, hfull⟩ | ⟨b, st1, hb, ha⟩
    · rw [hb]
      exact ⟨[], [], .refl hr _, Or.inr ⟨rfl, blocksFor_pos hpos, freeAhead_eq_zero.mpr hfull⟩⟩
    · rw [hb]
      simp only [if_neg ha.ne_zero, ne_eq, not_true_eq_false, if_false]
      generalize hchunk : fillPayload (data.take FS_DATA_PAYLOAD) = chunk
      generalize hst2 : virtio_disk_write st1 b (.data ⟨0, chunk⟩) = st2
      obtain ⟨ws, hg⟩ : ∃ ws, Grown st st2 [b] [b] ws := by
        subst hst2
        exact ⟨_, ha.grown.write (by simp) (by simp)⟩
      have hdb : st2.disk b = .data ⟨0, chunk⟩ := by
        subst hst2
        simp [virtio_disk_write]
      obtain ⟨l, vs, hg', hres⟩ := store_loop_spec (data.drop FS_DATA_PAYLOAD)
        hg.ready ha.ne_zero hdb ((hg.map b).mpr (by simp))
      refine ⟨b :: l, _, hg.trans hg' (by simp) (by simp), ?_⟩
      rw [blocksFor_of_pos hpos, List.length_cons]
      rcases hres with ⟨h1, b', h2, h3⟩ | ⟨h1, h2, h3⟩
      · have hs := Stored.block ha.ne_zero hne (hchunk ▸ h3) h2
        refine Or.inl ⟨b, h1, ?_, hs.chain, hs.is_data, ha.ne_zero, hs.load_loop_eq⟩
        rw [h2.length_eq, List.length_drop]
      · refine Or.inr ⟨h1, ?_, h3⟩
        rw [List.length_drop] at h2
        omega

/-! ## The store from the target directory on -/

/-- A store that returns 0 into directory `P`: new blocks `l` with the data, the entry at
slot `idx`, and the blocks `lold` of the file before it freed. `mid` is the state between
the last data write and the write of the directory. -/
structure StoreCommit (st mid st' : FsState) (P : Nat) (leaf data : List UInt8) (now : Nat)
    (d : DiskDir) (idx : Fin MAX_DIR_ENTRIES) (old : Option FileEntry) (first : Nat)
    (l lold : List Nat) (ws : List (Nat × Block)) : Prop where
  dir : dirOf st.disk P = some d
  slot : store_slot (DirBlock.ofDisk d) leaf = .ok (idx, old)
  grown : Grown st mid l l ws
  length_eq : l.length = storeNeeds data.length
  file : FileBlocks mid.disk first l data
  old_chain : Chain 0 (nextOf (write_dir mid P ((DirBlock.ofDisk d).setEntry idx
    (store_entry ((DirBlock.ofDisk d).entries idx) old leaf first data.length now))).disk)
    ((old.map FileEntry.bno).getD 0) lold
  final : st' = freeAll (write_dir mid P ((DirBlock.ofDisk d).setEntry idx
    (store_entry ((DirBlock.ofDisk d).entries idx) old leaf first data.length now))) lold

/-- The store finds no directory, or no slot in it. -/
def StoreRefused (st : FsState) (P : Nat) (leaf : List UInt8) : Prop :=
  ∀ d, dirOf st.disk P = some d → ∃ rc, store_slot (DirBlock.ofDisk d) leaf = .error rc

theorem store_into_cases {P : Nat} {leaf data : List UInt8} {now : Nat} {rc : Int}
    (hr : st.fs_alloc_ready = true) (h : store_into st P leaf data now = some (rc, st')) :
    (rc ≠ 0 ∧ st' = st ∧ StoreRefused st P leaf) ∨
    (rc = -4 ∧ ¬ StoreRefused st P leaf ∧ ∃ l ws, Grown st st' l l ws ∧
      l.length < storeNeeds data.length ∧ freeAhead st' = 0) ∨
    (rc = 0 ∧ ∃ mid d idx old first l lold ws,
      StoreCommit st mid st' P leaf data now d idx old first l lold ws) := by
  unfold store_into at h
  split at h
  · rename_i hd
    cases h
    refine Or.inl ⟨by decide, rfl, fun d hd' => ?_⟩
    rw [hd] at hd'
    cases hd'
  · rename_i d hd
    dsimp only at h
    rcases hs : store_slot (DirBlock.ofDisk d) leaf with e | ⟨idx, old⟩
    · rw [hs] at h
      cases h
      refine Or.inl ⟨?_, rfl, fun d' hd' => ?_⟩
      · unfold store_slot at hs
        split at hs
        · split at hs <;> cases hs
          decide
        · split at hs <;> cases hs
          decide
      · rw [hd] at hd'
        cases hd'
        exact ⟨_, hs⟩
    · rw [hs] at h
      dsimp only at h
      obtain ⟨l, ws, hg, hres⟩ := store_blocks_spec data hr
      rcases hres with ⟨first, h1, hlen, hf⟩ | ⟨h1, h2, h3⟩
      · rcases hb : store_blocks st data with ⟨mid, r⟩
        rw [hb] at h h1 hg hf
        dsimp only at h1 hg hf
        subst h1
        dsimp only at h
        refine Or.inr (Or.inr ?_)
        split at h
        · rw [Option.map_eq_some_iff] at h
          obtain ⟨st2, h2, h3⟩ := h
          cases h3
          obtain ⟨lold, hc, hfin⟩ := chain_of_fs_free_chain h2
          exact ⟨rfl, mid, d, idx, old, first, l, lold, ws, hd, hs, hg, hlen, hf, hc, hfin⟩
        · rename_i hz
          cases h
          refine ⟨rfl, mid, d, idx, old, first, l, [], ws, hd, hs, hg, hlen, hf, ?_, rfl⟩
          rw [not_not.mp hz]
          exact .stop
      · rcases hb : store_blocks st data with ⟨mid, r⟩
        rw [hb] at h h1 hg h3
        dsimp only at h1 hg h3
        subst h1
        dsimp only at h
        cases h
        refine Or.inr (Or.inl ⟨rfl, fun href => ?_, l, ws, hg, h2, h3⟩)
        obtain ⟨rc, hrc⟩ := href d hd
        rw [hs] at hrc
        cases hrc

theorem store_into_rc_zero {P : Nat} {leaf data : List UInt8} {now : Nat} {rc : Int}
    (hr : st.fs_alloc_ready = true) (h : store_into st P leaf data now = some (rc, st'))
    (hslot : ¬ StoreRefused st P leaf) (hroom : storeNeeds data.length ≤ freeAhead st) :
    rc = 0 := by
  rcases store_into_cases hr h with ⟨_, _, href⟩ | ⟨_, _, l, ws, hg, h1, h2⟩ | ⟨h0, _⟩
  · exact absurd href hslot
  · have := hg.room
    omega
  · exact h0

end

end vibeos.fs
