-- What the allocator does: one lemma for each of `balloc`, `bfree` and the walk
-- of `fs_free_chain`, and the laws of the block count of `fs_usage_info`.
import Vibeos.FsOps
import Vibeos.ByteMem

namespace vibeos.fs

open LinkChain WriteLog

section

variable [BuildConfig] {st st' : FsState} {b : Nat}

/-! ## The state of a mounted disk -/

theorem ensure_ready_of_ready (h : st.fs_alloc_ready = true) : ensure_ready st = st := by
  simp [ensure_ready, h]

theorem ready_ensure_ready (st : FsState) : (ensure_ready st).fs_alloc_ready = true := by
  unfold ensure_ready
  split
  · assumption
  · unfold fs_rebuild_alloc_state
    dsimp only
    split <;> rfl

@[simp]
theorem ensure_ready_disk (st : FsState) : (ensure_ready st).disk = st.disk := by
  unfold ensure_ready
  split
  · rfl
  · unfold fs_rebuild_alloc_state
    dsimp only
    split <;> rfl

theorem load_current_dir_eq (st : FsState) (b : Nat) :
    load_current_dir st b = (ensure_ready st, (dirOf st.disk b).map DirBlock.ofDisk) := by
  simp [load_current_dir]

theorem load_current_dir_of_ready (h : st.fs_alloc_ready = true) (b : Nat) :
    load_current_dir st b = (st, (dirOf st.disk b).map DirBlock.ofDisk) := by
  rw [load_current_dir_eq, ensure_ready_of_ready h]

/-- Every clear bit past the reserved blocks is at or above the hint. -/
def HintOk (st : FsState) : Prop :=
  ∀ i, 60 ≤ i → i < FS_MAX_BLOCKS → st.fs_block_map i = false → st.next_free_block ≤ i

structure Logged (st st' : FsState) (ws : List (Nat × Block)) : Prop where
  writes : st'.writes = st.writes ++ ws
  disk : st'.disk = replay st.disk ws

omit [BuildConfig] in
theorem Logged.refl (st : FsState) : Logged st st [] := ⟨by simp, rfl⟩

omit [BuildConfig] in
theorem Logged.trans {st'' : FsState} {ws vs : List (Nat × Block)} (h : Logged st st' ws)
    (h' : Logged st' st'' vs) : Logged st st'' (ws ++ vs) where
  writes := by rw [h'.writes, h.writes, List.append_assoc]
  disk := by rw [h'.disk, h.disk, replay_append]

omit [BuildConfig] in
theorem logged_write (st : FsState) (b : Nat) (v : Block) :
    Logged st (virtio_disk_write st b v) [(b, v)] := ⟨rfl, rfl⟩

/-- The state after the first `k` block writes of the call that took `st` to `st'`, and a
reboot: memory is lost, so the bitmap is not ready. -/
def crashed (st st' : FsState) (k : Nat) : FsState :=
  { st with
    disk := replay st.disk ((st'.writes.drop st.writes.length).take k)
    fs_alloc_ready := false }

omit [BuildConfig] in
theorem crashed_disk {ws : List (Nat × Block)} (h : st'.writes = st.writes ++ ws) (k : Nat) :
    (crashed st st' k).disk = replay st.disk (ws.take k) := by
  rw [crashed, h, List.drop_left]

/-! ## `balloc` -/

/-- What `balloc` changes when it hands out block `b`. -/
structure Allocated (st st' : FsState) (b : Nat) : Prop where
  ge : st.next_free_block ≤ b
  lt : b < FS_MAX_BLOCKS
  clear : st.fs_block_map b = false
  first : ∀ j, st.next_free_block ≤ j → j < b → st.fs_block_map j = true
  disk : st'.disk = Function.update st.disk b (.raw .zero)
  writes : st'.writes = st.writes ++ [(b, .raw .zero)]
  map : st'.fs_block_map = Function.update st.fs_block_map b true
  next : st'.next_free_block = b + 1
  ready : st'.fs_alloc_ready = true

theorem balloc_cases (h : st.fs_alloc_ready = true) :
    (balloc st = (0, st) ∧
      ∀ j, st.next_free_block ≤ j → j < FS_MAX_BLOCKS → st.fs_block_map j = true) ∨
    ∃ b st', balloc st = (b, st') ∧ Allocated st st' b := by
  unfold balloc
  rw [ensure_ready_of_ready h]
  unfold balloc_search
  split
  · rename_i i hi
    obtain ⟨h1, h2, h3, h4⟩ := firstClear_eq_some.mp hi
    exact Or.inr ⟨_, _, rfl, ⟨h1, h2, h3, h4, rfl, rfl, rfl, rfl, h⟩⟩
  · rename_i hn
    exact Or.inl ⟨rfl, firstClear_eq_none.mp hn⟩

theorem Allocated.ge_sixty (h : Allocated st st' b) : 60 ≤ b := by
  have := st.hint_ge
  have := h.ge
  omega

theorem Allocated.ne_zero (h : Allocated st st' b) : b ≠ 0 := by
  have := h.ge_sixty
  omega

theorem Allocated.hintOk (h : Allocated st st' b) (hs : HintOk st) : HintOk st' := by
  intro i hi hlt hc
  rw [h.map] at hc
  rw [h.next]
  have hib : i ≠ b := by
    rintro rfl
    simp at hc
  rw [Function.update_of_ne hib] at hc
  have hge := hs i hi hlt hc
  rcases Nat.lt_or_ge i b with hlt' | hge'
  · rw [h.first i hge hlt'] at hc
    exact absurd hc (by decide)
  · omega

theorem Allocated.logged (h : Allocated st st' b) :
    Logged st st' [(b, .raw .zero)] := ⟨h.writes, h.disk⟩

/-! ## `bfree` and `fs_free_chain` -/

def freeAll (st : FsState) (l : List Nat) : FsState := l.foldl bfree st

theorem bfree_disk (st : FsState) (b : Nat) : (bfree st b).disk = st.disk := by
  unfold bfree
  split <;> rfl

theorem bfree_writes (st : FsState) (b : Nat) : (bfree st b).writes = st.writes := by
  unfold bfree
  split <;> rfl

theorem bfree_ready (st : FsState) (b : Nat) :
    (bfree st b).fs_alloc_ready = st.fs_alloc_ready := by
  unfold bfree
  split <;> rfl

theorem bfree_map (st : FsState) (b i : Nat) : (bfree st b).fs_block_map i = true ↔
    st.fs_block_map i = true ∧ ¬ (i = b ∧ 60 ≤ i ∧ i < FS_MAX_BLOCKS) := by
  unfold bfree
  split
  · refine ⟨fun h => ⟨h, ?_⟩, fun h => h.1⟩
    omega
  · rename_i hb
    by_cases hi : i = b
    · subst hi
      simp only [Function.update_self, Bool.false_eq_true, true_and, false_iff, not_and]
      omega
    · simp [hi]

theorem bfree_hintOk (st : FsState) (b : Nat) (h : HintOk st) : HintOk (bfree st b) := by
  intro i hi hlt hc
  have hmap := bfree_map st b i
  unfold bfree at hc hmap ⊢
  split at hc
  · rename_i hb
    simp only [hb, dite_true]
    exact h i hi hlt hc
  · rename_i hb
    simp only [hb, dite_false] at hc ⊢
    by_cases hib : i = b
    · subst hib
      split <;> omega
    · rw [Function.update_of_ne hib] at hc
      have := h i hi hlt hc
      split <;> omega

theorem freeAll_disk (st : FsState) (l : List Nat) : (freeAll st l).disk = st.disk := by
  induction l generalizing st with
  | nil => rfl
  | cons b l ih => exact (ih (bfree st b)).trans (bfree_disk st b)

theorem freeAll_writes (st : FsState) (l : List Nat) : (freeAll st l).writes = st.writes := by
  induction l generalizing st with
  | nil => rfl
  | cons b l ih => exact (ih (bfree st b)).trans (bfree_writes st b)

theorem freeAll_ready (st : FsState) (l : List Nat) :
    (freeAll st l).fs_alloc_ready = st.fs_alloc_ready := by
  induction l generalizing st with
  | nil => rfl
  | cons b l ih => exact (ih (bfree st b)).trans (bfree_ready st b)

theorem freeAll_hintOk (l : List Nat) (h : HintOk st) : HintOk (freeAll st l) := by
  induction l generalizing st with
  | nil => exact h
  | cons b l ih => exact ih (bfree_hintOk st b h)

theorem freeAll_map (st : FsState) (l : List Nat) (i : Nat) :
    (freeAll st l).fs_block_map i = true ↔
      st.fs_block_map i = true ∧ ¬ (i ∈ l ∧ 60 ≤ i ∧ i < FS_MAX_BLOCKS) := by
  induction l generalizing st with
  | nil => simp [freeAll]
  | cons b l ih =>
    have hcons : freeAll st (b :: l) = freeAll (bfree st b) l := rfl
    rw [hcons, ih, bfree_map, List.mem_cons]
    grind

theorem fs_free_chain_loop_eq {fuel : Nat} {l : List Nat}
    (h : Chain 0 (nextOf st.disk) b l) (hf : l.length ≤ fuel) :
    fs_free_chain_loop fuel st b = some (freeAll st l) := by
  induction l generalizing st b fuel with
  | nil =>
    cases h
    cases fuel <;> rfl
  | cons c l ih =>
    cases h with
    | cell hb ht =>
      cases fuel with
      | zero => simp at hf
      | succ fuel =>
        rw [fs_free_chain_loop, if_neg hb]
        exact ih (by rw [bfree_disk]; exact ht) (by simpa using hf)

theorem chain_of_fs_free_chain_loop {fuel : Nat} (h : fs_free_chain_loop fuel st b = some st') :
    ∃ l, Chain 0 (nextOf st.disk) b l ∧ st' = freeAll st l := by
  induction fuel generalizing st b with
  | zero =>
    unfold fs_free_chain_loop at h
    split at h
    · rename_i hb
      subst hb
      exact ⟨[], .stop, (Option.some.inj h).symm⟩
    · cases h
  | succ fuel ih =>
    unfold fs_free_chain_loop at h
    split at h
    · rename_i hb
      subst hb
      exact ⟨[], .stop, (Option.some.inj h).symm⟩
    · rename_i hb
      obtain ⟨l, h1, h2⟩ := ih h
      rw [bfree_disk] at h1
      exact ⟨b :: l, .cell hb h1, h2⟩

theorem chain_of_fs_free_chain (h : fs_free_chain st b = some st') :
    ∃ l, Chain 0 (nextOf st.disk) b l ∧ st' = freeAll st l :=
  chain_of_fs_free_chain_loop h

theorem fs_free_chain_eq {l : List Nat} (h : Chain 0 (nextOf st.disk) b l)
    (hl : ∀ x ∈ l, x < 2 ^ 32) : fs_free_chain st b = some (freeAll st l) := by
  refine fs_free_chain_loop_eq h ?_
  have hsub : l ⊆ List.range (2 ^ 32) := fun x hx => List.mem_range.mpr (hl x hx)
  have := (List.subperm_of_subset h.nodup hsub).length_le
  rwa [List.length_range] at this

end

end vibeos.fs
