-- What the jobs hold as a ledger: descriptors are noted in `fds` and blocks in `kptrs`.
import Vibeos.Ledger
import Vibeos.JitLifeCycle

namespace vibeos.tcc_glue

open vibeos.fs

/-! ## Which descriptors a call opens and closes -/

section

variable [BuildConfig]

theorem appfs_open_fds {h : Heap} {s s' : AppFs} {path : CString} {flags : BitVec 32} {rc : Int}
    (hs : appfs_open h s path flags = .returns rc s') :
    (rc < 0 ∧ s'.fds = s.fds) ∨ ∃ (i : Fin APP_MAX_FDS) (fd : app_fd_entry),
      s.fds i = none ∧ rc = i + 3 ∧ s'.fds = Function.update s.fds i (some fd) := by
  unfold appfs_open at hs
  split at hs
  · cases hs
    exact Or.inl ⟨by decide, rfl⟩
  · rename_i i hfd
    have hfree := appfs_find_fd_free hfd
    split at hs
    · cases hs
      exact Or.inl ⟨by decide, rfl⟩
    · extract_lets fd w at hs
      split at hs
      · cases hs
        exact Or.inr ⟨i, _, hfree, rfl, rfl⟩
      · split at hs
        · cases hs
        · cases hs
        · extract_lets opened loaded emptied at hs
          have hsame : opened.fds = s.fds := rfl
          have hnew : ∀ fd, ((i : Int) + 3 < 0 ∧ (opened.install i fd).fds = s.fds) ∨
              ∃ (i' : Fin APP_MAX_FDS) (fd' : app_fd_entry), s.fds i' = none ∧
                (i : Int) + 3 = i' + 3 ∧
                (opened.install i fd).fds = Function.update s.fds i' (some fd') :=
            fun fd => Or.inr ⟨i, fd, hfree, rfl, rfl⟩
          clear_value opened loaded emptied
          split at hs
          · cases hs
            exact Or.inl ⟨by decide, hsame⟩
          · split at hs
            · split at hs
              · split at hs
                · split at hs
                  · cases hs
                    exact Or.inl ⟨by decide, hsame⟩
                  · cases hs
                    exact hnew _
                · cases hs
                · cases hs
              · cases hs
                exact hnew _
            · cases hs
              exact hnew _

end

def SameOpen (s s' : AppFs) : Prop := ∀ i, s'.fds i = none ↔ s.fds i = none

theorem SameOpen.of_fds {s s' : AppFs} (h : s'.fds = s.fds) : SameOpen s s' := by
  intro i
  rw [h]

theorem SameOpen.install {s : AppFs} {i : Fin APP_MAX_FDS} {fd fd' : app_fd_entry}
    (h : s.fds i = some fd) : SameOpen s (s.install i fd') := by
  intro i'
  simp only [AppFs.install]
  by_cases heq : i' = i
  · rw [heq, Function.update_self, h]
    simp
  · rw [Function.update_of_ne heq]

theorem appfs_read_open {s s' : AppFs} {fd rc : Int} {size : Nat} {bytes : List UInt8}
    (hs : appfs_read s fd size = .returns rc (s', bytes)) : SameOpen s s' := by
  unfold appfs_read at hs
  split at hs
  · cases hs
    exact SameOpen.of_fds rfl
  · rename_i i fd' hfd
    split at hs
    · cases hs
      exact SameOpen.of_fds rfl
    · split at hs
      · cases hs
        exact SameOpen.of_fds rfl
      · extract_lets remain chunk at hs
        split at hs
        · cases hs
          exact SameOpen.install (app_fd_eq hfd)
        · cases hs

theorem appfs_write_open {h : Heap} {s s' : AppFs} {fd rc : Int} {data : List UInt8}
    (hs : appfs_write h s fd data = .returns rc s') : SameOpen s s' := by
  unfold appfs_write at hs
  split at hs
  · cases hs
    exact SameOpen.of_fds rfl
  · rename_i i fd' hfd
    split at hs
    · cases hs
      exact SameOpen.of_fds rfl
    · dsimp only at hs
      split at hs
      · cases hs
      · cases hs
      · split at hs
        · cases hs
          exact SameOpen.of_fds rfl
        · split at hs
          · cases hs
          · cases hs
            exact SameOpen.install (app_fd_eq hfd)

theorem appfs_seek_open {h : Heap} {s s' : AppFs} {fd offset whence rc : Int}
    (hs : appfs_seek h s fd offset whence = .returns rc s') : SameOpen s s' := by
  unfold appfs_seek at hs
  split at hs
  · cases hs
    exact SameOpen.of_fds rfl
  · rename_i i fd' hfd
    split at hs
    · cases hs
      exact SameOpen.of_fds rfl
    · extract_lets base next at hs
      clear_value next
      split at hs
      · cases hs
        exact SameOpen.of_fds rfl
      · split at hs
        · split at hs
          · cases hs
            exact SameOpen.of_fds rfl
          · split at hs
            · cases hs
            · cases hs
            · split at hs
              · cases hs
                exact SameOpen.of_fds rfl
              · split at hs
                · cases hs
                · cases hs
                  exact SameOpen.install (app_fd_eq hfd)
        · cases hs
          exact SameOpen.install (app_fd_eq hfd)

def fdKey (fd : Int) : Option (Fin APP_MAX_FDS) :=
  if h : 3 ≤ fd ∧ fd < 3 + APP_MAX_FDS then some ⟨(fd - 3).toNat, fs.fd_index_lt h⟩ else none

theorem app_fd_key (s : AppFs) (fd : Int) :
    app_fd s fd = (fdKey fd).bind fun i => (s.fds i).map fun e => (i, e) := by
  unfold app_fd fdKey
  split
  · rfl
  · rfl

theorem fdKey_add (i : Fin APP_MAX_FDS) : fdKey (i + 3) = some i := by
  have hi := i.isLt
  unfold fdKey
  rw [dif_pos (by omega)]
  congr 1
  apply Fin.ext
  simp

theorem fdKey_eq {fd : Int} {i : Fin APP_MAX_FDS} (h : fdKey fd = some i) : fd = i + 3 := by
  unfold fdKey at h
  split at h
  · rename_i hrange
    cases h
    simp only
    omega
  · cases h

theorem fdKey_neg {fd : Int} (h : fd < 0) : fdKey fd = none := by
  unfold fdKey
  rw [dif_neg (by omega)]

theorem appfs_close_open [BuildConfig] {s s' : AppFs} {fd rc : Int} {now : Nat}
    (hs : appfs_close s fd now = .returns rc s') :
    (rc ≠ 0 ∧ s'.fds = s.fds) ∨ ∃ i, fdKey fd = some i ∧ s.fds i ≠ none ∧ rc = 0 ∧
      s'.fds = Function.update s.fds i none := by
  unfold appfs_close at hs
  rw [app_fd_key] at hs
  cases hkey : fdKey fd with
  | none =>
    rw [hkey] at hs
    cases hs
    exact Or.inl ⟨by decide, rfl⟩
  | some i =>
    rw [hkey, Option.bind_some] at hs
    cases hi : s.fds i with
    | none =>
      rw [hi] at hs
      cases hs
      exact Or.inl ⟨by decide, rfl⟩
    | some e =>
      rw [hi] at hs
      dsimp only [Option.map_some] at hs
      split at hs
      · split at hs
        · cases hs
        · split at hs
          · cases hs
          · split at hs
            · cases hs
              exact Or.inl ⟨by decide, rfl⟩
            · cases hs
              exact Or.inr ⟨i, rfl, by simp [hi], rfl, rfl⟩
      · cases hs
        exact Or.inr ⟨i, rfl, by simp [hi], rfl, rfl⟩

/-! ## The ledgers -/

def openerName : Option Opener → Option (Nat × Bool)
  | some (.job id noted) => some (id, noted)
  | _ => none

def blockKey (p : Nat) : Option Nat := if p = 0 then none else some p

/-- The descriptor in the rest of a call; one that was opened is the job's. -/
def fdPend : Pending → Option (Fin APP_MAX_FDS × Bool)
  | .opened fd => (fdKey fd).map (·, true)
  | .closing fd => (fdKey fd).map (·, false)
  | _ => none

def blockPend : Pending → Option (Nat × Bool)
  | .allocated p => (blockKey p).map (·, true)
  | .freeing p => (blockKey p).map (·, true)
  | _ => none

/-- A job uses its own descriptors and frees its own blocks. -/
def Access.Own : Access → Prop
  | .fd id opener => opener = none ∨ ∃ noted, opener = some (.job id noted)
  | .free id holder => holder = some id

section

variable [JitConfig]

namespace JitSys

variable {s s' : JitSys} {slot : Fin JIT_MAX_JOBS} {t id : Nat}

/-- The rest of the call that a job is in. -/
def pendingOf (s : JitSys) (k : Fin JIT_MAX_JOBS) : Option Pending :=
  if (s.jit_jobs k).state = .running then (s.tasks (s.jit_jobs k).task_id.toNat).call else none

def fdLedger (s : JitSys) : Ledger (Fin JIT_MAX_JOBS) (Fin APP_MAX_FDS) JIT_MAX_FDS where
  own i := openerName (s.opener i)
  name k := (s.jit_jobs k).id
  live k := (s.jit_jobs k).state = .running
  tab k j := fdKey ((s.jit_jobs k).fds j)
  pend k := (s.pendingOf k).bind fdPend

def blockLedger (s : JitSys) : Ledger (Fin JIT_MAX_JOBS) Nat JIT_MAX_KPTRS where
  own p := s.holder p
  name k := (s.jit_jobs k).id
  live k := (s.jit_jobs k).state = .running
  tab k j := blockKey ((s.jit_jobs k).kptrs j)
  pend k := (s.pendingOf k).bind blockPend

/-- The opener of a descriptor is known while it is open. -/
def Known (s : JitSys) : Prop := ∀ i, s.opener i = none ↔ s.fs.fds i = none

/-- Descriptors and blocks of jobs are held by jobs that run, and jobs use only their own. -/
structure Holds (s : JitSys) : Prop where
  fds : s.fdLedger.Kept
  blocks : s.blockLedger.Kept
  known : s.Known
  log : ∀ a ∈ s.log, a.Own

theorem Known.openerOf (h : s.Known) (fd : Int) :
    s.openerOf fd = (fdKey fd).bind s.opener := by
  unfold JitSys.openerOf
  rw [app_fd_key]
  cases fdKey fd with
  | none => rfl
  | some i =>
    simp only [Option.bind_some]
    cases hi : s.fs.fds i with
    | none => simp [(h i).mpr hi]
    | some e => simp

/-! ## Calls of the file system -/

theorem withFs_known (h : s.Known) (who : Opener) (fs : AppFs) : (s.withFs who fs).Known := by
  intro i
  simp only [withFs]
  cases hnew : fs.fds i with
  | none => simp
  | some e =>
    cases hold : s.fs.fds i with
    | none => simp
    | some e' =>
      have hne : s.opener i ≠ none := by
        rw [Ne, h i, hold]
        simp
      simp [hne]

theorem withFs_same (h : s.Known) (who : Opener) {fs : AppFs} (hs : SameOpen s.fs fs) :
    (s.withFs who fs).opener = s.opener := by
  funext i
  simp only [withFs]
  cases hnew : fs.fds i with
  | none => simp [(h i).mpr ((hs i).mp hnew)]
  | some e =>
    cases hold : s.fs.fds i with
    | none =>
      rw [(hs i).mpr hold] at hnew
      cases hnew
    | some e' => rfl

theorem withFs_opened (h : s.Known) (who : Opener) {fs : AppFs} {i : Fin APP_MAX_FDS}
    {e : app_fd_entry} (hfree : s.fs.fds i = none)
    (hs : fs.fds = Function.update s.fs.fds i (some e)) :
    (s.withFs who fs).opener = Function.update s.opener i (some who) := by
  funext i'
  simp only [withFs, hs]
  by_cases heq : i' = i
  · rw [heq, Function.update_self, Function.update_self, hfree]
  · rw [Function.update_of_ne heq, Function.update_of_ne heq]
    cases hold : s.fs.fds i' with
    | none => simp [(h i').mpr hold]
    | some e' => rfl

theorem withFs_closed (h : s.Known) (who : Opener) {fs : AppFs} {i : Fin APP_MAX_FDS}
    (hs : fs.fds = Function.update s.fs.fds i none) :
    (s.withFs who fs).opener = Function.update s.opener i none := by
  funext i'
  simp only [withFs, hs]
  by_cases heq : i' = i
  · rw [heq, Function.update_self, Function.update_self]
  · rw [Function.update_of_ne heq, Function.update_of_ne heq]
    cases hold : s.fs.fds i' with
    | none => simp [(h i').mpr hold]
    | some e' => rfl

end JitSys

end

end vibeos.tcc_glue
