-- The tree on the disk: slots in use, the blocks that a slot owns, the
-- directories below the root, and the law that carries "no block is shared"
-- from one disk to the next when every slot has one origin.
import Vibeos.StoreSpecs
import Vibeos.Forest

namespace vibeos.fs

open LinkChain

/-! ## Slots -/

/-- Slot `i` of directory block `P` is in use and holds entry `e`. -/
def SlotHas (disk : Disk) (P : Nat) (i : Fin DIR_SLOTS) (e : FileEntry) : Prop :=
  ∃ d, dirOf disk P = some d ∧ d.slots i = e ∧ e.inUse = true

theorem SlotHas.det {disk : Disk} {P : Nat} {i : Fin DIR_SLOTS} {e f : FileEntry}
    (h : SlotHas disk P i e) (h' : SlotHas disk P i f) : e = f := by
  obtain ⟨d, h1, h2, _⟩ := h
  obtain ⟨d', h1', h2', _⟩ := h'
  rw [h1] at h1'
  cases h1'
  exact h2.symm.trans h2'

/-- Block `b` belongs to slot `i` of directory `P`: it is on the chain of its entry. -/
def Owns (disk : Disk) (P : Nat) (i : Fin DIR_SLOTS) (b : Nat) : Prop :=
  ∃ e, SlotHas disk P i e ∧ OnChain 0 (nextOf disk) e.bno b

/-- The blocks of the slots of the directories `T` are on finite chains, all satisfy `U`,
and none belongs to two slots. -/
structure Sound (T U : Nat → Prop) (disk : Disk) : Prop where
  chain : ∀ {P i e}, T P → SlotHas disk P i e →
    ∃ l, Chain 0 (nextOf disk) e.bno l ∧ ∀ b ∈ l, U b
  unique : ∀ {P i Q j b}, T P → T Q → Owns disk P i b → Owns disk Q j b → P = Q ∧ i = j

/-- A directory entry of the directories `T` names a directory block, whose parent link
names the directory of the entry. -/
def Parented (T : Nat → Prop) (disk : Disk) : Prop :=
  ∀ {P i e}, T P → SlotHas disk P i e → e.type = 1 →
    e.bno ≠ 0 ∧ ∃ c, dirOf disk e.bno = some c ∧ c.parent_bno = P

theorem Sound.owned {T U : Nat → Prop} {disk : Disk} (h : Sound T U disk) {P b : Nat}
    {i : Fin DIR_SLOTS} (hP : T P) (hb : Owns disk P i b) : U b := by
  obtain ⟨e, he, hc⟩ := hb
  obtain ⟨l, hl, hu⟩ := h.chain hP he
  exact hu b (hl.mem_of_onChain hc)

/-- The law of origins. Every slot of the new disk either comes from one slot of the old
disk, with the same chain, or is the one new slot, whose chain is of new blocks. -/
theorem Sound.transport {T T' U U' : Nat → Prop} {disk disk' : Disk} (h : Sound T U disk)
    (origin : Nat × Fin DIR_SLOTS → Option (Nat × Fin DIR_SLOTS))
    (hlink : ∀ b, U b → nextOf disk' b = nextOf disk b)
    (hold : ∀ {Q j f P i}, T' Q → SlotHas disk' Q j f → origin (Q, j) = some (P, i) →
      T P ∧ ∃ e, SlotHas disk P i e ∧ e.bno = f.bno ∧
        ∀ b, OnChain 0 (nextOf disk) e.bno b → U' b)
    (hinj : ∀ {Q j f Q' j' f' o}, T' Q → SlotHas disk' Q j f → T' Q' → SlotHas disk' Q' j' f' →
      origin (Q, j) = some o → origin (Q', j') = some o → (Q, j) = (Q', j'))
    (hnew : ∀ {Q j f}, T' Q → SlotHas disk' Q j f → origin (Q, j) = none →
      ∃ l, Chain 0 (nextOf disk') f.bno l ∧ ∀ b ∈ l, U' b ∧ ¬ U b)
    (hone : ∀ {Q j f Q' j' f'}, T' Q → SlotHas disk' Q j f → T' Q' → SlotHas disk' Q' j' f' →
      origin (Q, j) = none → origin (Q', j') = none → (Q, j) = (Q', j')) :
    Sound T' U' disk' := by
  -- the chain of an old slot, seen on the new disk
  have hchain : ∀ {Q j f P i}, T' Q → SlotHas disk' Q j f → origin (Q, j) = some (P, i) →
      ∃ l, Chain 0 (nextOf disk') f.bno l ∧ ∀ b ∈ l, Owns disk P i b ∧ U b ∧ U' b := by
    intro Q j f P i hQ hf ho
    obtain ⟨hP, e, he, hbno, hu'⟩ := hold hQ hf ho
    obtain ⟨l, hl, hu⟩ := h.chain hP he
    rw [hbno] at hl hu'
    refine ⟨l, hl.congr fun b hb => hlink b (hu b hb), fun b hb => ⟨⟨e, he, ?_⟩, hu b hb, ?_⟩⟩
    · rw [hbno]; exact hl.onChain hb
    · exact hu' b (hl.onChain hb)
  constructor
  · intro Q j f hQ hf
    rcases ho : origin (Q, j) with _ | ⟨P, i⟩
    · obtain ⟨l, hl, hu⟩ := hnew hQ hf ho
      exact ⟨l, hl, fun b hb => (hu b hb).1⟩
    · obtain ⟨l, hl, hu⟩ := hchain hQ hf ho
      exact ⟨l, hl, fun b hb => (hu b hb).2.2⟩
  · rintro Q j Q' j' b hQ hQ' ⟨f, hf, hb⟩ ⟨f', hf', hb'⟩
    suffices (Q, j) = (Q', j') by
      exact ⟨congrArg Prod.fst this, congrArg Prod.snd this⟩
    rcases ho : origin (Q, j) with _ | ⟨P, i⟩ <;> rcases ho' : origin (Q', j') with _ | ⟨P', i'⟩
    · exact hone hQ hf hQ' hf' ho ho'
    · -- a new block is not an old one
      obtain ⟨l, hl, hu⟩ := hnew hQ hf ho
      obtain ⟨l', hl', hu'⟩ := hchain hQ' hf' ho'
      exact absurd (hu' b (hl'.mem_of_onChain hb')).2.1 (hu b (hl.mem_of_onChain hb)).2
    · obtain ⟨l, hl, hu⟩ := hchain hQ hf ho
      obtain ⟨l', hl', hu'⟩ := hnew hQ' hf' ho'
      exact absurd (hu b (hl.mem_of_onChain hb)).2.1 (hu' b (hl'.mem_of_onChain hb')).2
    · obtain ⟨l, hl, hu⟩ := hchain hQ hf ho
      obtain ⟨l', hl', hu'⟩ := hchain hQ' hf' ho'
      obtain ⟨rfl, rfl⟩ := h.unique (hold hQ hf ho).1 (hold hQ' hf' ho').1
        (hu b (hl.mem_of_onChain hb)).1 (hu' b (hl'.mem_of_onChain hb')).1
      exact hinj hQ hf hQ' hf' ho ho'

theorem Sound.restrict {T T' U U' : Nat → Prop} {disk disk' : Disk} (h : Sound T U disk)
    (hlink : ∀ b, U b → nextOf disk' b = nextOf disk b)
    (hslot : ∀ {Q j f}, T' Q → SlotHas disk' Q j f → T Q ∧ ∃ e, SlotHas disk Q j e ∧
      e.bno = f.bno ∧ ∀ b, OnChain 0 (nextOf disk) e.bno b → U' b) : Sound T' U' disk' := by
  refine h.transport some hlink ?_ ?_ ?_ ?_
  · intro Q j f P i hQ hf ho
    cases ho
    exact hslot hQ hf
  · intro Q j f Q' j' f' o _ _ _ _ ho ho'
    exact Option.some.inj (ho.trans ho'.symm)
  · intro Q j f _ _ ho
    cases ho
  · intro Q j f Q' j' f' _ _ _ _ ho
    cases ho

/-! ## The slots after a write of a directory -/

/-- The slots of a directory whose buffer was written back with a new entry `e` at `idx`:
the new entry, when `idx` lies inside the block and `e` is in use, and the others as before. -/
theorem slots_of_setEntry {d : DiskDir} {idx : Fin MAX_DIR_ENTRIES} {e : FileEntry}
    {j : Fin DIR_SLOTS} :
    ((DirBlock.ofDisk d).setEntry idx e).toDisk.slots j =
      if j.val = idx.val then e else d.slots j := by
  rcases Nat.lt_or_ge idx.val DIR_SLOTS with hi | hi
  · rw [toDisk_setEntry_of_lt d idx e hi]
    simp only [DiskDir.setSlot]
    by_cases hj : j.val = idx.val
    · rw [if_pos hj, show j = ⟨idx.val, hi⟩ from Fin.ext hj, Function.update_self]
    · rw [if_neg hj, Function.update_of_ne fun he => hj (by rw [he])]
  · rw [toDisk_setEntry_of_ge d idx e hi, if_neg (by have := j.isLt; omega)]

theorem slotHas_write_same {disk : Disk} {P : Nat} {d : DiskDir} {idx : Fin MAX_DIR_ENTRIES}
    {e f : FileEntry} {j : Fin DIR_SLOTS}
    (hd : dirOf disk P = some ((DirBlock.ofDisk d).setEntry idx e).toDisk) :
    SlotHas disk P j f ↔ (j.val = idx.val ∧ f = e ∧ e.inUse = true) ∨
      (j.val ≠ idx.val ∧ d.slots j = f ∧ f.inUse = true) := by
  unfold SlotHas
  rw [hd]
  simp only [Option.some.injEq, exists_eq_left', slots_of_setEntry]
  by_cases hj : j.val = idx.val
  · simp only [hj, if_true, true_and, ne_eq, not_true_eq_false, false_and, or_false]
    constructor
    · rintro ⟨rfl, h⟩
      exact ⟨rfl, h⟩
    · rintro ⟨rfl, h⟩
      exact ⟨rfl, h⟩
  · simp [hj]

theorem slotHas_congr {disk disk' : Disk} {P : Nat} {i : Fin DIR_SLOTS} {e : FileEntry}
    (h : disk' P = disk P) : SlotHas disk' P i e ↔ SlotHas disk P i e := by
  unfold SlotHas dirOf
  rw [h]

theorem dirOf_congr {disk disk' : Disk} {P : Nat} (h : disk' P = disk P) :
    dirOf disk' P = dirOf disk P := by
  unfold dirOf
  rw [h]

theorem nextOf_congr {disk disk' : Disk} {P : Nat} (h : disk' P = disk P) :
    nextOf disk' P = nextOf disk P := by
  unfold nextOf
  rw [h]

theorem write_dir_disk_same (st : FsState) (P : Nat) (db : DirBlock) :
    dirOf (write_dir st P db).disk P = some db.toDisk := by
  simp [write_dir, virtio_disk_write, dirOf]

theorem write_dir_disk_ne (st : FsState) {P x : Nat} (db : DirBlock) (h : x ≠ P) :
    (write_dir st P db).disk x = st.disk x := by
  simp [write_dir, virtio_disk_write, Function.update_of_ne h]

/-! ## Directories below the root -/

/-- Directory `P` has an entry in use of type 1 for block `C`. -/
def DirChild (disk : Disk) (P C : Nat) : Prop := ∃ i e, SlotHas disk P i e ∧ e.type = 1 ∧ e.bno = C

/-- `b` is the block of a directory that is reachable from block 1. -/
def IsDir (disk : Disk) (b : Nat) : Prop :=
  Forest.Below (DirChild disk) 1 b ∧ ∃ d, dirOf disk b = some d

/-- Block `b` belongs to the tree: a directory of the tree, or on the chain of an entry of
one of its directories. -/
def Live (disk : Disk) (b : Nat) : Prop := IsDir disk b ∨ ∃ P i, IsDir disk P ∧ Owns disk P i b

theorem DirChild.owns {disk : Disk} {P C : Nat} (h : DirChild disk P C) (hC : C ≠ 0) :
    ∃ i, Owns disk P i C := by
  obtain ⟨i, e, he, _, rfl⟩ := h
  exact ⟨i, e, he, .here hC⟩

/-- A set of blocks that holds block 1 and is closed under parent links and directory
entries: the walks of `resolve_fs_target` stay in it. -/
structure Closed (T : Nat → Prop) (disk : Disk) : Prop where
  root : T 1
  parent : ∀ {P d}, T P → dirOf disk P = some d → T (orRoot d.parent_bno)
  child : ∀ {P C}, T P → DirChild disk P C → T C

theorem Closed.orRoot {T : Nat → Prop} {disk : Disk} (h : Closed T disk) {b : Nat} (hb : T b) :
    T (orRoot b) := by
  unfold vibeos.fs.orRoot
  split
  · exact h.root
  · exact hb

theorem slotHas_of_find {disk : Disk} {P : Nat} {d : DiskDir} {name : List UInt8}
    {i : Fin MAX_DIR_ENTRIES} {f : Option Nat} (hd : dirOf disk P = some d)
    (h : find_entry_index (DirBlock.ofDisk d) name f = some i) (hi : i.val < DIR_SLOTS) :
    SlotHas disk P ⟨i.val, hi⟩ ((DirBlock.ofDisk d).entries i) ∧
      ((DirBlock.ofDisk d).entries i).nameStr = name := by
  obtain ⟨⟨h1, _, h3⟩, _⟩ := find_entry_index_eq_some.mp h
  exact ⟨⟨d, hd, (ofDisk_entries_of_lt d i hi).symm, h1⟩, h3⟩

theorem slotHas_entry {disk : Disk} {P : Nat} {d : DiskDir} {j : Fin DIR_SLOTS}
    {i : Fin MAX_DIR_ENTRIES} {e : FileEntry} (hd : dirOf disk P = some d)
    (he : SlotHas disk P j e) (hj : j.val = i.val) :
    e = (DirBlock.ofDisk d).entries i ∧ e.inUse = true := by
  obtain ⟨d', hd', rfl, hused⟩ := he
  cases hd.symm.trans hd'
  rw [ofDisk_entries_of_lt d i (hj ▸ j.isLt)]
  exact ⟨congrArg d.slots (Fin.ext hj), hused⟩

theorem lt_of_type_ne_zero {d : DiskDir} {i : Fin MAX_DIR_ENTRIES}
    (h : ((DirBlock.ofDisk d).entries i).type ≠ 0) : i.val < DIR_SLOTS := by
  by_contra hge
  exact h (ofDisk_entries_of_ge d i (by omega)).2

theorem dirChild_of_find {disk : Disk} {P : Nat} {d : DiskDir} {name : List UInt8}
    {i : Fin MAX_DIR_ENTRIES} (hd : dirOf disk P = some d)
    (h : find_entry_index (DirBlock.ofDisk d) name (some 1) = some i) :
    DirChild disk P ((DirBlock.ofDisk d).entries i).bno := by
  obtain ⟨⟨_, h2, _⟩, _⟩ := find_entry_index_eq_some.mp h
  have ht := h2 1 rfl
  have hi := lt_of_type_ne_zero (by rw [ht]; decide)
  exact ⟨_, _, (slotHas_of_find hd h hi).1, ht, rfl⟩

/-! ## Walks on a mounted disk -/

section

variable [BuildConfig] {st : FsState}

theorem walk_state (hr : st.fs_alloc_ready = true) (into : Bool) (bno : Nat)
    (cwd : List UInt8) (segs : List (List UInt8)) : (walk into st bno cwd segs).1 = st := by
  induction segs generalizing bno cwd with
  | nil => rfl
  | cons seg rest ih =>
    unfold walk
    rw [load_current_dir_of_ready hr]
    dsimp only
    split
    · rfl
    split
    · exact ih _ _
    split
    · rcases dirOf st.disk bno with _ | d
      · rfl
      · exact ih _ _
    split
    · rfl
    rcases dirOf st.disk bno with _ | d
    · rfl
    · simp only [Option.map_some]
      split
      · rfl
      · exact ih _ _

theorem walk_mem {T : Nat → Prop} (hT : Closed T st.disk) {into : Bool} {bno : Nat}
    {cwd : List UInt8} {segs : List (List UInt8)} {st' : FsState} {e : WalkEnd} (hb : T bno)
    (h : walk into st bno cwd segs = (st', some e)) : T e.bno := by
  induction segs generalizing st bno cwd with
  | nil =>
    cases h
    exact hT.orRoot hb
  | cons seg rest ih =>
    have hT' : Closed T (ensure_ready st).disk := by rwa [ensure_ready_disk]
    unfold walk at h
    rw [load_current_dir_eq] at h
    split at h
    · cases h
    split at h
    · exact ih hT hb h
    split at h
    · rcases hd : dirOf st.disk bno with _ | d
      · rw [hd] at h
        cases h
      · rw [hd] at h
        exact ih hT' (hT.parent hb hd) h
    split at h
    · cases h
      exact hT.orRoot hb
    rcases hd : dirOf st.disk bno with _ | d
    · rw [hd] at h
      cases h
    · rw [hd] at h
      simp only [Option.map_some] at h
      split at h
      · cases h
      · rename_i idx hf
        exact ih hT' (hT.child hb (dirChild_of_find hd hf)) h

omit [BuildConfig] in
theorem resolved_fst {α : Type} (r : FsState × Option WalkEnd) (f : WalkEnd → α) :
    (match r with
      | (st, none) => (st, none)
      | (st, some e) => (st, some (f e))).1 = r.1 := by
  obtain ⟨st, _ | e⟩ := r
  · rfl
  · rfl

theorem resolve_fs_target_state (hr : st.fs_alloc_ready = true) (w : Window)
    (input : List UInt8) : (resolve_fs_target st w input).1 = st := by
  unfold resolve_fs_target
  dsimp only
  split
  · rfl
  · exact (resolved_fst _ _).trans (walk_state hr _ _ _ _)

theorem resolve_editor_target_state (hr : st.fs_alloc_ready = true) (w : Window)
    (input : List UInt8) : (resolve_editor_target st w input).1 = st := by
  unfold resolve_editor_target
  dsimp only
  split
  · rfl
  · exact (resolved_fst _ _).trans (walk_state hr _ _ _ _)

theorem resolve_fs_target_mem {T : Nat → Prop} (hT : Closed T st.disk) {w : Window}
    (hw : T w.cwd_bno) {input cwd leaf : List UInt8} {st' : FsState} {b : Nat} (h : resolve_fs_target st w input = (st', some (b, cwd, leaf))) :
    T b := by
  unfold resolve_fs_target at h
  dsimp only at h
  split at h
  · cases h
  split at h
  · cases h
  · rename_i hwalk
    cases h
    refine walk_mem hT ?_ hwalk
    split
    · split
      · exact hT.root
      split <;> exact hT.root
    · split
      · exact hT.root
      split
      · exact hT.root
      · exact hT.orRoot hw

theorem resolve_editor_target_mem {T : Nat → Prop} (hT : Closed T st.disk) {w : Window}
    (hw : T w.cwd_bno) {input cwd leaf : List UInt8} {st' : FsState} {b : Nat} (h : resolve_editor_target st w input = (st', some (b, cwd, leaf))) :
    T b := by
  unfold resolve_editor_target at h
  dsimp only at h
  split at h
  · cases h
  split at h
  · cases h
  · rename_i hwalk
    cases h
    refine walk_mem hT ?_ hwalk
    split
    · exact hT.root
    · exact hT.orRoot hw

end

end vibeos.fs
