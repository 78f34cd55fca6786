-- What a step of a copy changes, and what it leaves alone. A step writes names of directories: it
-- touches the blocks of these directories and of the files under the names. Trees without such
-- blocks stay as they are.
import Vibeos.CopyTree

namespace vibeos.fs

open LinkChain

/-! ## Trees that stay -/

section

variable {disk disk' other : Disk} {U : Nat → Prop} {b c n : Nat} {d : DiskDir} {e : FileEntry}

/-- Every block below `b` is the same on both disks. -/
def Frozen (disk disk' : Disk) (b : Nat) : Prop :=
  ∀ x, Forest.Below (Edge disk) b x → disk' x = disk x

theorem dirChild_of_mem (hd : dirOf disk b = some d) (he : e ∈ dirEntries d) (ht : e.type = 1) :
    DirChild disk b e.bno := by
  obtain ⟨i, rfl, hused⟩ := mem_dirEntries.mp he
  have hi : i.val < DIR_SLOTS := lt_of_type_ne_zero (by rw [ht]; decide)
  exact ⟨⟨i.val, hi⟩, _, ⟨d, hd, (ofDisk_entries_of_lt d i hi).symm, hused⟩, ht, rfl⟩

theorem TreeDisk.entry_chain (h : TreeDisk U disk) (hb : IsDir disk b) (hd : dirOf disk b = some d)
    (he : e ∈ dirEntries d) :
    ∃ l, Chain 0 (nextOf disk) e.bno l ∧ ∀ x ∈ l, Edge disk b x := by
  obtain ⟨i, rfl, hused⟩ := mem_dirEntries.mp he
  rcases Nat.lt_or_ge i.val DIR_SLOTS with hi | hi
  · have hslot : SlotHas disk b ⟨i.val, hi⟩ ((DirBlock.ofDisk d).entries i) :=
      ⟨d, hd, (ofDisk_entries_of_lt d i hi).symm, hused⟩
    obtain ⟨l, hl, -⟩ := h.sound.chain hb hslot
    exact ⟨l, hl, fun x hx => ⟨hb, _, _, hslot, hl.onChain hx⟩⟩
  · rw [(ofDisk_entries_of_ge d i hi).1]
    exact ⟨[], .stop, fun _ hx => absurd hx List.not_mem_nil⟩

theorem Frozen.load (h : Frozen disk disk' b) (htree : TreeDisk U disk) (hb : IsDir disk b)
    (hd : dirOf disk b = some d) (he : e ∈ dirEntries d) (n : Nat) :
    load_loop disk' n e.bno = load_loop disk n e.bno := by
  obtain ⟨l, hl, hmem⟩ := htree.entry_chain hb hd he
  exact load_loop_congr hl (fun x hx => h x (.single (hmem x hx))) n

theorem Frozen.dirChild (h : Frozen disk disk' b) (htree : TreeDisk U disk) (hb : IsDir disk b)
    (hc : DirChild disk b c) : Frozen disk disk' c ∧ IsDir disk c :=
  ⟨fun x hx => h x (.head (htree.edge_of_dirChild hb hc) hx), htree.isDir_child hb hc⟩

theorem Frozen.below_back (h : Frozen disk disk' b) (htree : TreeDisk U disk) (hb : IsDir disk b)
    (hc : Forest.Below (DirChild disk') b c) : Forest.Below (DirChild disk) b c := by
  induction hc with
  | refl => exact .refl
  | @tail a c _ hac ih =>
    obtain ⟨i, e, he, ht, hbno⟩ := hac
    exact ih.tail ⟨i, e, (slotHas_congr (h a (htree.below_edge hb ih))).mp he, ht, hbno⟩

theorem HasCopy.congr_right (h : HasCopy other disk n c b) (hf : Frozen disk disk' b)
    (htree : TreeDisk U disk) (hb : IsDir disk b) : HasCopy other disk' n c b := by
  induction n generalizing b c with
  | zero => trivial
  | succ n ih =>
    obtain ⟨d, d', hd, hd', hall⟩ := h
    refine ⟨d, d', hd, (dirOf_congr (hf b .refl)).trans hd', fun e he => ?_⟩
    obtain ⟨e', he', hname, htype, hsame⟩ := hall e he
    refine ⟨e', he', hname, htype, ?_⟩
    by_cases ht : e.type = 1
    · rw [if_pos ht] at hsame ⊢
      obtain ⟨hf', hdir⟩ := hf.dirChild htree hb (dirChild_of_mem hd' he' (htype.mpr ht))
      exact ih hsame hf' hdir
    · rw [if_neg ht] at hsame ⊢
      rw [hf.load htree hb hd' he', hsame]

theorem HasCopy.congr_left (h : HasCopy disk other n b c) (hf : Frozen disk disk' b)
    (htree : TreeDisk U disk) (hb : IsDir disk b) : HasCopy disk' other n b c := by
  induction n generalizing b c with
  | zero => trivial
  | succ n ih =>
    obtain ⟨d, d', hd, hd', hall⟩ := h
    refine ⟨d, d', (dirOf_congr (hf b .refl)).trans hd, hd', fun e he => ?_⟩
    obtain ⟨e', he', hname, htype, hsame⟩ := hall e he
    refine ⟨e', he', hname, htype, ?_⟩
    by_cases ht : e.type = 1
    · rw [if_pos ht] at hsame ⊢
      obtain ⟨hf', hdir⟩ := hf.dirChild htree hb (dirChild_of_mem hd he ht)
      exact ih hsame hf' hdir
    · rw [if_neg ht] at hsame ⊢
      rw [hf.load htree hb hd he, hsame]

end

/-! ## What a step writes -/

section

variable [BuildConfig] {st st1 st' : FsState} {T : Nat → Prop} {P D x c : Nat}
  {W W1 : Nat → List UInt8 → Prop}

/-- The root, or a block whose bit is set. -/
def Occupied (st : FsState) (b : Nat) : Prop := b = 1 ∨ Used st b

theorem Occupied.marked (h : Inv T st) (hx : Occupied st x) : st.fs_block_map x = true := by
  rcases hx with rfl | hx
  · exact h.low 1 (by decide)
  · exact hx.2.2

theorem Occupied.ne_zero (hx : Occupied st x) : x ≠ 0 := by
  rcases hx with rfl | ⟨hge, -⟩
  · decide
  · omega

theorem Inv.occupied (h : Inv T st) (hP : IsDir st.disk P) : Occupied st P :=
  h.treeDisk.live_cases (Or.inl hP)

theorem Inv.occupied_edge (h : Inv T st) (hx : Edge st.disk P x) : Occupied st x :=
  h.treeDisk.live_cases (Or.inr ⟨P, hx.2.imp fun _ hi => ⟨hx.1, hi⟩⟩)

/-- A block that writing the pairs of `W` may touch: the directory of a pair, or a block of the file
that has its name. -/
def Touched (disk : Disk) (W : Nat → List UInt8 → Prop) (x : Nat) : Prop :=
  (∃ name, W x name) ∨ ∃ P i e, W P e.nameStr ∧ SlotHas disk P i e ∧ e.type ≠ 1 ∧
    OnChain 0 (nextOf disk) e.bno x

/-- Only pairs of `W` have been written. The tree keeps its directories and their lookups, every
other block that was in use stays as it is, and so does every entry under another name. -/
structure Effect (W : Nat → List UInt8 → Prop) (st st' : FsState) : Prop where
  inside : ∀ {P name}, W P name → IsDir st.disk P
  dirs : ∀ {P}, IsDir st.disk P → IsDir st'.disk P
  steps : ∀ {P name c}, IsDir st.disk P → stepName st.disk P name = some c →
    stepName st'.disk P name = some c
  same : ∀ {x}, Occupied st x → ¬ Touched st.disk W x → st'.disk x = st.disk x ∧ Occupied st' x
  slots : ∀ {P i e}, IsDir st.disk P → ¬ W P e.nameStr →
    (SlotHas st'.disk P i e ↔ SlotHas st.disk P i e)
  back : ∀ {P i e x}, Occupied st x → ¬ Touched st.disk W x → IsDir st'.disk P →
    SlotHas st'.disk P i e → OnChain 0 (nextOf st'.disk) e.bno x →
    IsDir st.disk P ∧ SlotHas st.disk P i e ∧ OnChain 0 (nextOf st.disk) e.bno x

omit [BuildConfig] in
theorem Touched.mono {disk : Disk} (h : Touched disk W x) (hW : ∀ P name, W P name → W1 P name) :
    Touched disk W1 x := by
  rcases h with ⟨name, hx⟩ | ⟨P, i, e, hP, he⟩
  · exact Or.inl ⟨name, hW x name hx⟩
  · exact Or.inr ⟨P, i, e, hW P _ hP, he⟩

theorem Effect.refl (hW : ∀ P name, W P name → IsDir st.disk P) : Effect W st st where
  inside := fun h => hW _ _ h
  dirs := id
  steps := fun _ h => h
  same := fun hx _ => ⟨rfl, hx⟩
  slots := fun _ _ => Iff.rfl
  back := fun _ _ hP he hx => ⟨hP, he, hx⟩

theorem Effect.mono (h : Effect W st st') (hW : ∀ P name, W P name → W1 P name)
    (hin : ∀ P name, W1 P name → IsDir st.disk P) : Effect W1 st st' where
  inside := fun hP => hin _ _ hP
  dirs := h.dirs
  steps := h.steps
  same := fun hx hn => h.same hx fun ht => hn (ht.mono hW)
  slots := fun hP hn => h.slots hP fun hw => hn (hW _ _ hw)
  back := fun hx hn => h.back hx fun ht => hn (ht.mono hW)

theorem Effect.isDir_back (h : Effect W st st') (hinv : Inv T st) (hx : Occupied st x)
    (hn : ¬ Touched st.disk W x) (hdir : IsDir st'.disk x) : IsDir st.disk x := by
  rcases hdir.1.cases_tail with rfl | ⟨Q, hQ, i, e, he, ht, rfl⟩
  · exact hinv.treeDisk.isDir_root
  · obtain ⟨hQ', he', -⟩ := h.back hx hn (isDir_of_slotHas hQ he) he (.here hx.ne_zero)
    exact hinv.treeDisk.isDir_child hQ' ⟨i, e, he', ht, rfl⟩

theorem Effect.not_touched (h : Effect W st st1) (h' : Effect W1 st1 st') (hinv : Inv T st)
    (hW : ∀ P name, W1 P name → IsDir st.disk P → W P name) (hx : Occupied st x)
    (hn : ¬ Touched st.disk W x) : ¬ Touched st1.disk W1 x := by
  rintro (⟨name, hname⟩ | ⟨P, i, e, hP, he, ht, hon⟩)
  · exact hn (Or.inl ⟨name, hW x name hname (h.isDir_back hinv hx hn (h'.inside hname))⟩)
  · obtain ⟨hdir, he', hon'⟩ := h.back hx hn (h'.inside hP) he hon
    exact hn (Or.inr ⟨P, i, e, hW P _ hP hdir, he', ht, hon'⟩)

theorem Effect.trans (h : Effect W st st1) (h' : Effect W1 st1 st') (hinv : Inv T st)
    (hW : ∀ P name, W1 P name → IsDir st.disk P → W P name) : Effect W st st' where
  inside := h.inside
  dirs := fun hP => h'.dirs (h.dirs hP)
  steps := fun hP hs => h'.steps (h.dirs hP) (h.steps hP hs)
  same := by
    intro x hx hn
    obtain ⟨hsame, hx1⟩ := h.same hx hn
    obtain ⟨hsame', hx'⟩ := h'.same hx1 (h.not_touched h' hinv hW hx hn)
    exact ⟨hsame'.trans hsame, hx'⟩
  slots := fun hP hn =>
    (h'.slots (h.dirs hP) fun hw => hn (hW _ _ hw hP)).trans (h.slots hP hn)
  back := by
    intro P i e x hx hn hP he hon
    obtain ⟨hP1, he1, hon1⟩ := h'.back (h.same hx hn).2 (h.not_touched h' hinv hW hx hn) hP he hon
    exact h.back hx hn hP1 he1 hon1

theorem Effect.untouched (h : Effect W st st') (hinv : Inv T st) (hc : IsDir st.disk c)
    (hW : ∀ P name, W P name → ¬ Forest.Below (Edge st.disk) c P)
    (hx : Forest.Below (Edge st.disk) c x) : Occupied st x ∧ ¬ Touched st.disk W x := by
  have htree := hinv.treeDisk
  constructor
  · rcases hx.cases_tail with rfl | ⟨p, -, hp⟩
    · exact hinv.occupied hc
    · exact hinv.occupied_edge hp
  · rintro (⟨name, hname⟩ | ⟨P, i, e, hP, he, ht, hon⟩)
    · exact hW x name hname hx
    -- the file is one of a directory of `W`, and its owner would be below `c`
    have hPdir := h.inside hP
    rcases hx.cases_tail with rfl | ⟨p, hp, hpx⟩
    · exact htree.not_isDir_of_file hPdir he ht hon hc
    · obtain rfl := htree.unique_owner hpx ⟨hPdir, i, e, he, hon⟩
      exact hW p _ hP hp

theorem Effect.frozen (h : Effect W st st') (hinv : Inv T st) (hc : IsDir st.disk c)
    (hW : ∀ P name, W P name → ¬ Forest.Below (Edge st.disk) c P) :
    Frozen st.disk st'.disk c := by
  intro x hx
  obtain ⟨ho, hn⟩ := h.untouched hinv hc hW hx
  exact (h.same ho hn).1

/-! ## The source -/

/-- The tree below `src` of `disk0` is on the disk, and its blocks are in use. -/
structure Kept (disk0 : Disk) (st : FsState) (src : Nat) : Prop where
  occupied : ∀ x, Forest.Below (Edge disk0) src x → Occupied st x
  same : Frozen disk0 st.disk src
  dirs : ∀ x, Forest.Below (Edge disk0) src x → IsDir disk0 x → IsDir st.disk x

theorem Kept.effect {disk0 : Disk} {src : Nat} (h : Kept disk0 st src) (hsrc : IsDir disk0 src)
    (hinv : Inv T st) (heff : Effect W st st')
    (hW : ∀ P name, W P name → ¬ Forest.Below (Edge disk0) src P) : Kept disk0 st' src := by
  have hn : ∀ x, Forest.Below (Edge disk0) src x → ¬ Touched st.disk W x := by
    rintro x hx (⟨name, hname⟩ | ⟨P, i, e, hP, he, ht, hon⟩)
    · exact hW x name hname hx
    have hPdir := heff.inside hP
    rcases hx.cases_tail with rfl | ⟨p, hp, hpdir, j, f, hf, hfon⟩
    · exact hinv.treeDisk.not_isDir_of_file hPdir he ht hon (h.dirs _ .refl hsrc)
    -- the owner of the block in the source is its owner now
    have hslot : SlotHas st.disk p j f := (slotHas_congr (h.same p hp)).mpr hf
    have hchain : OnChain 0 (nextOf st.disk) f.bno x := hfon.congr fun y hy =>
      nextOf_congr (h.same y (hp.tail ⟨hpdir, j, f, hf, hy⟩))
    obtain ⟨rfl, -, -⟩ := hinv.treeDisk.type_eq (h.dirs p hp hpdir) hPdir hslot he hchain hon
    exact hW p _ hP hp
  constructor
  · exact fun x hx => (heff.same (h.occupied x hx) (hn x hx)).2
  · exact fun x hx => (heff.same (h.occupied x hx) (hn x hx)).1.trans (h.same x hx)
  · exact fun x hx hdir => heff.dirs (h.dirs x hx hdir)

end

end vibeos.fs
