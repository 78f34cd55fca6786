-- What the calls on the open files do: the growth of a buffer, the load of a file, and the
-- store of a buffer when its file is closed.
import Vibeos.AppFs
import Vibeos.ReadBack

namespace vibeos.fs

/-! ## Growth -/

/-- The sizes that a buffer can have. -/
def CapOk (cap : Nat) : Prop := cap = 0 ∨ ∃ k, 8 ≤ k ∧ k ≤ 30 ∧ cap = 2 ^ k

theorem CapOk.lt {cap : Nat} (h : CapOk cap) : cap < 2147483648 := by
  rcases h with h | ⟨k, _, hk, h⟩
  · omega
  · have : 2 ^ k ≤ 2 ^ 30 := Nat.pow_le_pow_right (by decide) hk
    omega

theorem double_cap_spec (need rounds : Nat) {cap k : Nat} (hcap : cap ≤ 2 ^ k) (hk : k ≤ 31)
    (hrounds : 32 ≤ rounds + k) (hneed : need ≤ 2147483648 ∨ cap ≠ 0) :
    (double_cap cap need rounds (2 ^ k) = .refused ∧ 2147483648 < need) ∨
      ∃ j, k ≤ j ∧ j ≤ 31 ∧ need ≤ 2 ^ j ∧ double_cap cap need rounds (2 ^ k) = .cap (2 ^ j) := by
  induction rounds generalizing k with
  | zero => omega
  | succ rounds ih =>
    rw [double_cap]
    by_cases hlt : 2 ^ k < need
    · rw [if_pos hlt]
      rcases Nat.lt_or_ge k 31 with hk31 | hk31
      · have hnext : 2 ^ k * 2 % 4294967296 = 2 ^ (k + 1) := by
          rw [← Nat.pow_succ]
          have : 2 ^ (k + 1) ≤ 2 ^ 31 := Nat.pow_le_pow_right (by decide) hk31
          exact Nat.mod_eq_of_lt (by omega)
        have hle : 2 ^ k ≤ 2 ^ (k + 1) := Nat.pow_le_pow_right (by decide) (Nat.le_succ k)
        simp only [hnext]
        rw [if_neg (by omega)]
        rcases ih (k := k + 1) (by omega) hk31 (by omega) with h | ⟨j, hkj, hj, hn, h⟩
        · exact Or.inl h
        · exact Or.inr ⟨j, by omega, hj, hn, h⟩
      · have hk' : k = 31 := by omega
        rw [hk'] at hlt ⊢
        have hcap0 : cap ≠ 0 := hneed.resolve_left (by omega)
        simp only [Nat.reducePow, Nat.reduceMul, Nat.reduceMod]
        rw [if_pos (by omega)]
        exact Or.inl ⟨rfl, by omega⟩
    · rw [if_neg hlt]
      exact Or.inr ⟨k, Nat.le_refl k, hk, by omega, rfl⟩

def contentsAt (disk : Disk) (P : Nat) (name : List UInt8) : Option (List UInt8) :=
  match fileAt disk P name with
  | .error _ => none
  | .ok e => some (load_loop disk e.size e.bno)

/-- An entry with the bytes of a file in its buffer. -/
structure Buffered (fd : app_fd_entry) (bytes : List UInt8) : Prop where
  size_le : fd.size ≤ fd.cap
  cap_ok : CapOk fd.cap
  bytes_eq : fd.buf.take fd.size = bytes

section

variable [BuildConfig] {st : FsState} {w : Window} {name : List UInt8}

/-- The descriptor starts without a load. -/
def OpensNew (flags : BitVec 32) : Bool :=
  hasFlag flags APP_O_WRITE && hasFlag flags (APP_O_CREAT ||| APP_O_TRUNC)

/-- The plain name that is opened, of a file that a buffer can be asked for. -/
def OpenFits (s : AppFs) (path : List UInt8) (flags : BitVec 32) : Prop :=
  ∀ P cwd name, (open_target s path).2 = some (P, cwd, name) →
    PlainName name ∧
    (OpensNew flags = false → ∀ e, fileAt s.st.disk P name = .ok e → e.size ≤ 2147483648)

theorem open_target_ne_zero {s : AppFs} {path : List UInt8} {P : Nat} {cwd name : List UInt8}
    (h : (open_target s path).2 = some (P, cwd, name)) : P ≠ 0 := by
  have hroot : ∃ b, P = orRoot b := by
    unfold open_target at h
    split at h
    · split at h
      · cases h
      · split at h
        · cases h
        · cases h
          exact ⟨_, rfl⟩
    · split at h
      · cases h
      · cases h
        exact ⟨_, rfl⟩
  obtain ⟨b, hb⟩ := hroot
  rw [hb]
  exact orRoot_ne_zero b

omit [BuildConfig] in
theorem appfs_find_fd_free {s : AppFs} {i : Fin APP_MAX_FDS} (h : appfs_find_fd s = some i) :
    s.fds i = none := by
  unfold appfs_find_fd at h
  rw [Fin.find?_eq_some_iff] at h
  exact Option.isNone_iff_eq_none.mp h.1

/-- The file has these bytes, for every load of it. -/
def HasBytes (st : FsState) (P : Nat) (name bytes : List UInt8) : Prop :=
  ∀ w : Window, w.cwd_bno = P → ∀ n, bytes.length ≤ n → load_file_bytes st w name n = (0, bytes)

theorem HasBytes.unique {P : Nat} {bytes bytes' : List UInt8} (h : HasBytes st P name bytes)
    (h' : HasBytes st P name bytes') : bytes = bytes' := by
  have h1 := h ⟨P, [], ⟨[], by simp⟩⟩ rfl (max bytes.length bytes'.length) (Nat.le_max_left _ _)
  have h2 := h' ⟨P, [], ⟨[], by simp⟩⟩ rfl (max bytes.length bytes'.length) (Nat.le_max_right _ _)
  rw [h1] at h2
  exact congrArg Prod.snd h2

/-- The buffer is stored when its file is closed. -/
def Stores (flags : BitVec 32) : Bool :=
  hasFlag flags APP_O_WRITE || hasFlag flags APP_O_CREAT || hasFlag flags APP_O_TRUNC

/-- The directory of an open file is in the tree, and the file has a slot inside its block. -/
structure CloseFits (st : FsState) (fd : app_fd_entry) : Prop where
  wellFormed : WellFormed st
  dir : IsDir st.disk fd.cwd_bno
  plain : PlainName fd.name
  slot : ∀ i, usedSlot st fd.cwd_bno fd.name = some i → SlotInside i

end

end vibeos.fs
