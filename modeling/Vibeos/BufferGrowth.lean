-- The two buffers that grow by doubling a 32-bit capacity. The loop of appfs_reserve never ends for
-- an empty buffer and a need above 2 ^ 31, nor does that of the source buffer.
import Vibeos.AppFsRuns
import Vibeos.JitSourceBuf

namespace vibeos.fs

open tcc_glue

/-! ## The doubling loop of appfs_reserve -/

/-- A turn of the loop that doubles `new_cap`. -/
def capTurn (cap need new_cap : Nat) : Nat ⊕ NewCap :=
  if new_cap < need then
    let new_cap := new_cap * 2 % 4294967296
    if new_cap < cap then .inr .refused else .inl new_cap
  else .inr (.cap new_cap)

/-- The loop of `appfs_reserve` ends, with success there is room for `need` bytes, and a failure
leaves the entry as it was. -/
structure ReserveGrows (h : Heap) (fd : app_fd_entry) (need : Nat) : Prop where
  ends : fd.cap < need → ∃ turns r,
    Loop (capTurn fd.cap need) (if fd.cap = 0 then 256 else fd.cap) turns r
  room : ∀ fd', appfs_reserve h fd need = .returns 0 fd' → need ≤ fd'.cap
  kept : ∀ rc fd', appfs_reserve h fd need = .returns rc fd' → rc ≠ 0 → fd' = fd

/-- The capacities that `appfs_reserve` gives. -/
def DoubledCap (cap : Nat) : Prop := cap = 0 ∨ ∃ k ≤ 23, cap = 256 * 2 ^ k

theorem loop_of_double_cap {cap need rounds new_cap : Nat}
    (h : double_cap cap need rounds new_cap ≠ .diverges) :
    ∃ turns, Loop (capTurn cap need) new_cap turns (double_cap cap need rounds new_cap) := by
  induction rounds generalizing new_cap with
  | zero => exact absurd rfl h
  | succ rounds ih =>
    rw [double_cap] at h ⊢
    by_cases hlt : new_cap < need
    · rw [if_pos hlt] at h ⊢
      dsimp only at h ⊢
      by_cases hwrap : new_cap * 2 % 4294967296 < cap
      · rw [if_pos hwrap]
        exact ⟨[], .leave (by rw [capTurn, if_pos hlt, if_pos hwrap])⟩
      · rw [if_neg hwrap] at h ⊢
        obtain ⟨turns, hloop⟩ := ih h
        exact ⟨new_cap :: turns, .turn (by rw [capTurn, if_pos hlt, if_neg hwrap]) hloop⟩
    · rw [if_neg hlt]
      exact ⟨[], .leave (if_neg hlt)⟩

theorem capTurn_zero {need : Nat} (c : Nat) (hc : c < need) :
    capTurn 0 need c = .inl (c * 2 % 4294967296) := by
  rw [capTurn, if_pos hc]
  exact if_neg (Nat.not_lt_zero _)

theorem need_le_of_double_cap {cap need rounds new_cap n : Nat}
    (h : double_cap cap need rounds new_cap = .cap n) : need ≤ n := by
  induction rounds generalizing new_cap with
  | zero => cases h
  | succ rounds ih =>
    rw [double_cap] at h
    split at h
    · dsimp only at h
      split at h
      · cases h
      · exact ih h
    · cases h
      omega

/-! ## The call -/

theorem reserve_room {h : Heap} {fd fd' : app_fd_entry} {need : Nat}
    (hret : appfs_reserve h fd need = .returns 0 fd') : need ≤ fd'.cap := by
  unfold appfs_reserve at hret
  split at hret
  · rename_i hle
    cases hret
    exact hle
  split at hret
  · cases hret
  · cases hret
  rename_i new_cap hnew
  split at hret
  · cases hret
  rename_i nbuf hmalloc
  split at hret
  · cases hret
  split at hret
  · cases hret
  rename_i buf hblit
  cases hret
  unfold blit at hblit
  split at hblit
  · rename_i hfits
    cases hblit
    have hneed := need_le_of_double_cap hnew
    have hlen := h.length_eq hmalloc
    unfold app_fd_entry.cap
    rw [length_overwrite (Nat.zero_le _)]
    omega
  · cases hblit

theorem reserve_kept {h : Heap} {fd fd' : app_fd_entry} {need : Nat} {rc : Int}
    (hret : appfs_reserve h fd need = .returns rc fd') (hrc : rc ≠ 0) : fd' = fd := by
  unfold appfs_reserve at hret
  split at hret
  · cases hret
    rfl
  split at hret
  · cases hret
    rfl
  · cases hret
  split at hret
  · cases hret
    rfl
  split at hret
  · cases hret
  split at hret
  · cases hret
  · cases hret
    exact absurd rfl hrc

theorem DoubledCap.start {cap : Nat} (h : DoubledCap cap) : ∃ k, 8 ≤ k ∧ k ≤ 31 ∧
    cap ≤ 2 ^ k ∧ (if cap = 0 then 256 else cap) = 2 ^ k := by
  rcases h with rfl | ⟨k, hk, rfl⟩
  · exact ⟨8, by decide, by decide, by decide, rfl⟩
  · have hpow : 256 * 2 ^ k = 2 ^ (8 + k) := by rw [Nat.pow_add]
    rw [hpow]
    exact ⟨8 + k, by omega, by omega, Nat.le_refl _, if_neg (Nat.two_pow_pos _).ne'⟩

theorem reserve_grows_iff (h : Heap) {fd : app_fd_entry} {need : Nat} (hcap : DoubledCap fd.cap) :
    ReserveGrows h fd need ↔ fd.cap ≠ 0 ∨ need ≤ 2147483648 := by
  obtain ⟨k, hk8, hk, hle, hstart⟩ := hcap.start
  constructor
  · intro hgrows
    by_contra hnot
    obtain ⟨hzero, hneed⟩ := not_or.mp hnot
    have hzero := not_not.mp hzero
    obtain ⟨turns, r, hloop⟩ := hgrows.ends (by omega)
    rw [hstart, hzero] at hloop
    exact doubling_never_ends capTurn_zero (by omega) hk hloop
  · intro hor
    refine ⟨fun _ => ?_, fun fd' => reserve_room, fun rc fd' => reserve_kept⟩
    rw [hstart]
    have hends : double_cap fd.cap need 33 (2 ^ k) ≠ .diverges := by
      rcases double_cap_spec need 33 hle hk (by omega) hor.symm with ⟨hd, -⟩ | ⟨j, -, -, -, hd⟩
      · rw [hd]
        exact nofun
      · rw [hd]
        exact nofun
    obtain ⟨turns, hloop⟩ := loop_of_double_cap hends
    exact ⟨turns, _, hloop⟩

/-! ## Both buffers -/

/-- From every capacity that they give, both buffers grow as they should exactly for the needs
that a doubled capacity can reach: 2 ^ 31 is the last power of two of a word. A buffer of an open
file that has a capacity notices that the word wraps. -/
theorem buffers_grow_iff [JitConfig] (h : Heap) (realloc : Nat → Bool) (fd : app_fd_entry)
    (buf : jit_source_buf) (need source_need : Nat) (hcap : DoubledCap fd.cap)
    (hsource : SourceCap buf.cap) :
    ReserveGrows h fd need ∧ SourceGrows realloc buf source_need ↔
      (fd.cap ≠ 0 ∨ need ≤ 2147483648) ∧ source_need ≤ 2147483648 :=
  and_congr (reserve_grows_iff h hcap) (source_grows_iff realloc hsource)

def freshEntry : app_fd_entry := ⟨APP_O_WRITE, 0, 0, [], 1, lit ['f'], rootPath⟩

/-- Four turns of one loop, and two of the other. -/
theorem buffers_grow_iff_fresh : ReserveGrows zeroHeap freshEntry 3000 ∧
    @SourceGrows ⟨true⟩ (fun _ => true) jit_source_buf.empty 3000 := by
  let _ : JitConfig := ⟨true⟩
  exact (buffers_grow_iff zeroHeap (fun _ => true) freshEntry _ 3000 3000 (Or.inl rfl)
    (Or.inl rfl)).mpr ⟨Or.inr (by decide), by decide⟩

/-- The first write to a new file asks for 2 ^ 31 + 1 bytes. -/
theorem large_write_never_ends : ¬ ReserveGrows zeroHeap freshEntry 2147483649 := by
  intro hgrows
  obtain ⟨turns, r, hloop⟩ := hgrows.ends (by decide)
  exact doubling_never_ends capTurn_zero (k := 8) (by decide) (by decide) hloop

end vibeos.fs
