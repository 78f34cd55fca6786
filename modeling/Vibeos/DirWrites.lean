-- What the calls write into directories: one entry at one slot of one directory,
-- and the empty directory of a mkdir. So a law that holds of the entries of one
-- directory, and that these writes keep, holds of all directories of a run.
import Vibeos.AllocInv

namespace vibeos.fs

section

variable [BuildConfig]

/-! ## The writes -/

/-- Call `op` on `s` can write entry `e` at slot `i` of directory `P`, which holds `d`. -/
inductive SlotWrite (s : System) : Op → Nat → DiskDir → Fin MAX_DIR_ENTRIES → FileEntry → Prop
  | store {win : Nat} {name : CString} {data : List UInt8} {now P : Nat} {leaf : List UInt8}
      {d : DiskDir} {i : Fin MAX_DIR_ENTRIES} {old : Option FileEntry} {first : Nat} :
      (file_target s.st (s.wins win) name.bytes (orRoot (s.wins win).cwd_bno)).2 =
        some (P, leaf) →
      dirOf s.st.disk P = some d → store_slot (DirBlock.ofDisk d) leaf = .ok (i, old) →
      storeNeeds data.length ≤ freeAhead s.st →
      SlotWrite s (.store win name data now) P d i
        (store_entry ((DirBlock.ofDisk d).entries i) old leaf first data.length now)
  | remove {win : Nat} {name : CString} {d : DiskDir} {i : Fin MAX_DIR_ENTRIES} :
      dirOf s.st.disk (s.wins win).cwd_bno = some d →
      find_entry_index (DirBlock.ofDisk d) name.bytes none = some i →
      SlotWrite s (.remove win name) (s.wins win).cwd_bno d i .zero
  | mkdir {win : Nat} {path : CString} {now : Nat} {mid st' : FsState} {P : Nat}
      {leaf : List UInt8} {d : DiskDir} {i : Fin MAX_DIR_ENTRIES} {nb : Nat} :
      MkdirCommit s.st mid st' (s.wins win) path.bytes now P leaf d i nb →
      SlotWrite s (.mkdir win path now) P d i (mkdirEntry leaf nb now)
  | rename {win : Nat} {src dst : CString} {now S : Nat} {sleaf : List UInt8} {dS dD : DiskDir}
      {i : Fin MAX_DIR_ENTRIES} {dest : MoveDest} :
      MovePlan s.st (s.wins win) src.bytes dst.bytes S sleaf dS i dest dD →
      S = dest.dir_bno → (dest.idx = none ∨ dest.idx = some i) →
      SlotWrite s (.move win src dst now) S dS i
        (movedEntry ((DirBlock.ofDisk dS).entries i) dest.leaf now)
  | clear {win : Nat} {src dst : CString} {now S : Nat} {sleaf : List UInt8} {dS dD : DiskDir}
      {i : Fin MAX_DIR_ENTRIES} {dest : MoveDest} :
      MovePlan s.st (s.wins win) src.bytes dst.bytes S sleaf dS i dest dD →
      S ≠ dest.dir_bno → SlotWrite s (.move win src dst now) S dS i .zero
  | arrive {win : Nat} {src dst : CString} {now S : Nat} {sleaf : List UInt8} {dS dD : DiskDir}
      {i j : Fin MAX_DIR_ENTRIES} {dest : MoveDest} :
      MovePlan s.st (s.wins win) src.bytes dst.bytes S sleaf dS i dest dD →
      S ≠ dest.dir_bno → dest.idx = none →
      find_free_entry_index (DirBlock.ofDisk dD) = some j →
      SlotWrite s (.move win src dst now) dest.dir_bno dD j
        (movedEntry ((DirBlock.ofDisk dS).entries i) dest.leaf now)

/-- A directory that holds `d'` after call `op`: it had these entries before, or got one of
the writes above, or is empty. -/
def FromWrite (s : System) (op : Op) (Q : Nat) (d' : DiskDir) : Prop :=
  (∃ d, dirOf s.st.disk Q = some d ∧
    (DirBlock.ofDisk d').entries = (DirBlock.ofDisk d).entries) ∨
  (∃ d i e, dirOf s.st.disk Q = some d ∧ SlotWrite s op Q d i e ∧
    (DirBlock.ofDisk d').entries = Function.update (DirBlock.ofDisk d).entries i (e.shownAt i)) ∨
  (DirBlock.ofDisk d').entries = fun _ => .zero

variable {s s' : System} {op : Op} {Q : Nat} {d' : DiskDir}

theorem FromWrite.same (h : dirOf s.st.disk Q = some d') : FromWrite s op Q d' :=
  Or.inl ⟨d', h, rfl⟩

theorem FromWrite.write {d : DiskDir} {i : Fin MAX_DIR_ENTRIES} {e : FileEntry}
    (hd : dirOf s.st.disk Q = some d) (hw : SlotWrite s op Q d i e) :
    FromWrite s op Q ((DirBlock.ofDisk d).setEntry i e).toDisk := by
  refine Or.inr (Or.inl ⟨d, i, e, hd, hw, ?_⟩)
  rw [ofDisk_toDisk_setEntry]
  rfl

theorem step_fromWrite (hr : s.st.fs_alloc_ready = true) (hs : step s op = some s')
    (hd : dirOf s'.st.disk Q = some d') : FromWrite s op Q d' := by
  cases op with
  | store win name data now =>
    obtain ⟨⟨rc, st'⟩, h1, rfl⟩ := Option.map_eq_some_iff.mp hs
    rw [store_file_bytes_eq hr] at h1
    rcases ht : (file_target s.st (s.wins win) name.bytes (orRoot (s.wins win).cwd_bno)).2
      with _ | ⟨P, leaf⟩
    · rw [ht] at h1
      cases h1
      exact .same hd
    rw [ht] at h1
    rcases store_into_cases hr h1 with ⟨_, rfl, _⟩ | ⟨_, _, l, ws, g, _⟩ |
      ⟨_, mid, d, idx, old, first, l, lold, ws, c⟩
    · exact .same hd
    · have hl : Q ∉ l := by
        intro hl
        rw [g.dirOf_eq_none hl] at hd
        cases hd
      exact .same ((dirOf_congr (g.disk_eq hl)).symm.trans hd)
    · have hroom : storeNeeds data.length ≤ freeAhead s.st := by
        rw [c.grown.room, c.length_eq]
        omega
      by_cases hQ : Q = P
      · subst hQ
        rw [c.dir_after] at hd
        cases hd
        exact .write c.dir (.store ht c.dir c.slot hroom)
      · have hl := (c.not_new_of_dir hd).resolve_right hQ
        exact .same ((dirOf_congr (c.disk_eq hl hQ)).symm.trans hd)
  | remove win name =>
    obtain ⟨⟨rc, st'⟩, h1, rfl⟩ := Option.map_eq_some_iff.mp hs
    rcases remove_cases hr h1 with ⟨_, rfl⟩ | ⟨_, d, idx, l, c⟩
    · exact .same hd
    · rw [c.dirOf_after] at hd
      split at hd
      · rename_i hQ
        subst hQ
        cases hd
        exact .write c.dir (.remove c.dir c.find)
      · exact .same hd
  | move win src dst now =>
    cases hs
    rcases hm : move_entry_named s.st (s.wins win) src.bytes dst.bytes now with ⟨rc, st'⟩
    rw [hm] at hd
    rcases move_cases hr hm with rfl | ⟨_, S, sleaf, dS, si, dest, dD, p, hw⟩
    · exact .same hd
    cases hw with
    | rename hSD hidx =>
      rw [dirOf_write_dir] at hd
      split at hd
      · rename_i hQ
        subst hQ
        cases hd
        exact .write p.src_dir (.rename p hSD hidx)
      · exact .same hd
    | cross di hSD hidx hfree =>
      rw [dirOf_move_relink, Option.map_eq_some_iff] at hd
      obtain ⟨d1, h1, h2⟩ := hd
      -- the parent link is no entry
      have hentries : (DirBlock.ofDisk d').entries = (DirBlock.ofDisk d1).entries := by
        rw [← h2]
        split <;> rfl
      rw [dirOf_crossWrites] at h1
      suffices FromWrite s (.move win src dst now) Q d1 by
        unfold FromWrite at this ⊢
        rwa [hentries]
      split at h1
      · rename_i hQ
        subst hQ
        cases h1
        exact .write p.dst_dir (.arrive p hSD hidx hfree)
      split at h1
      · rename_i hQ
        subst hQ
        cases h1
        exact .write p.src_dir (.clear p hSD)
      · exact .same h1
  | mkdir win path now =>
    cases hs
    rcases hm : local_mkdir_path s.st (s.wins win) path.bytes now with ⟨rc, st'⟩
    rw [hm] at hd
    rcases mkdir_cases hr hm with rfl | ⟨_, mid, P, leaf, d, idx, nb, c⟩
    · exact .same hd
    rw [c.dirOf_after] at hd
    split at hd
    · cases hd
      exact Or.inr (Or.inr (ofDisk_emptyDir P))
    split at hd
    · rename_i hQ
      subst hQ
      cases hd
      exact .write c.dir (.mkdir c)
    · exact .same hd
  | cd win target =>
    rw [step_cd, Option.some.injEq] at hs
    subst hs
    rw [(cd_cases hr (s.wins win) target.bytes).1] at hd
    exact .same hd
  | setHome win value =>
    cases hs
    exact .same hd

/-! ## Laws of one directory -/

/-- The law `N` holds of the entries of all directories among the blocks `T`. -/
def DirsAll (N : (Fin MAX_DIR_ENTRIES → FileEntry) → Prop) (T : Nat → Prop) (disk : Disk) : Prop :=
  ∀ {Q d}, T Q → dirOf disk Q = some d → N (DirBlock.ofDisk d).entries

theorem SysInv.step_dirsAll {N : (Fin MAX_DIR_ENTRIES → FileEntry) → Prop} {T : Nat → Prop}
    (h : SysInv T s) (hN : DirsAll N T s.st.disk) (hempty : N fun _ => .zero)
    (hwrite : ∀ {P d i e}, SlotWrite s op P d i e → N (DirBlock.ofDisk d).entries →
      N (Function.update (DirBlock.ofDisk d).entries i (e.shownAt i)))
    (hs : vibeos.fs.step s op = some s') : ∃ T', SysInv T' s' ∧ DirsAll N T' s'.st.disk := by
  obtain ⟨T', h', hg⟩ := h.step hs
  refine ⟨T', h', fun {Q d'} hQ hd => ?_⟩
  rcases hg.fresh hQ hd with hT | he
  · rcases step_fromWrite h.inv.ready hs hd with ⟨d, h1, h2⟩ | ⟨d, i, e, h1, h2, h3⟩ | h1
    · rw [h2]
      exact hN hT h1
    · rw [h3]
      exact hwrite h2 (hN hT h1)
    · rw [h1]
      exact hempty
  · rw [he]
    exact hempty

/-- All calls of a run meet a condition, each in the state where it is made. -/
def StepsOk (ok : System → Op → Prop) (s : System) : List Op → Prop
  | [] => True
  | op :: ops => ok s op ∧ ∀ s', step s op = some s' → StepsOk ok s' ops

theorem StepsOk.mono {ok ok' : System → Op → Prop} (himp : ∀ s op, ok s op → ok' s op) {s : System}
    {ops : List Op} (h : StepsOk ok s ops) : StepsOk ok' s ops := by
  induction ops generalizing s with
  | nil => trivial
  | cons op ops ih => exact ⟨himp s op h.1, fun s' hs => ih (h.2 s' hs)⟩

theorem dirsAll_of_run {N : (Fin MAX_DIR_ENTRIES → FileEntry) → Prop}
    {ok : System → Op → Prop} (hempty : N fun _ => .zero)
    (hwrite : ∀ {s op P d i e}, ok s op → SlotWrite s op P d i e → N (DirBlock.ofDisk d).entries →
      N (Function.update (DirBlock.ofDisk d).entries i (e.shownAt i)))
    {T : Nat → Prop} (h : SysInv T s) (hN : DirsAll N T s.st.disk) {ops : List Op}
    (hok : StepsOk ok s ops) (hr : run s ops = some s') :
    ∃ T', SysInv T' s' ∧ DirsAll N T' s'.st.disk := by
  induction ops generalizing s T with
  | nil =>
    cases hr
    exact ⟨T, h, hN⟩
  | cons op ops ih =>
    obtain ⟨s1, h1, h2⟩ := Option.bind_eq_some_iff.mp hr
    obtain ⟨T1, h3, h4⟩ := h.step_dirsAll hN hempty (fun hw hn => hwrite hok.1 hw hn) h1
    exact ih h3 h4 (hok.2 s1 h1) h2

theorem law_of_run {N : (Fin MAX_DIR_ENTRIES → FileEntry) → Prop} {ok : System → Op → Prop}
    (hempty : N fun _ => .zero)
    (hwrite : ∀ {s op P d i e}, ok s op → SlotWrite s op P d i e → N (DirBlock.ofDisk d).entries →
      N (Function.update (DirBlock.ofDisk d).entries i (e.shownAt i)))
    {s0 : System} {ops : List Op} (hok : StepsOk ok (format s0) ops)
    (hr : run (format s0) ops = some s) {P : Nat} {d : DiskDir} (hP : IsDir s.st.disk P)
    (hd : dirOf s.st.disk P = some d) : N (DirBlock.ofDisk d).entries := by
  have hroot : DirsAll N (· = 1) (format s0).st.disk := by
    rintro Q d rfl hd
    have : dirOf (format s0).st.disk 1 = some (emptyDir 1).toDisk :=
      write_dir_disk_same s0.st 1 (emptyDir 1)
    rw [this] at hd
    cases hd
    rw [ofDisk_emptyDir]
    exact hempty
  obtain ⟨T, h1, h2⟩ := dirsAll_of_run hempty hwrite (sysInv_format s0) hroot hok hr
  exact h2 (h1.inv.isDir_mem hP) hd

end

end vibeos.fs
