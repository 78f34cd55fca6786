-- The names of the entries. A name always ends inside of its 20 bytes; that it
-- can be reached by a path, and belongs to one entry, holds as long as no call
-- writes a name that was cut, or that is no name of a path.
import Vibeos.DirWrites
import Vibeos.ReadBack
import Vibeos.PathNames

namespace vibeos.fs

section

variable [BuildConfig]

/-! ## Names that end -/

/-- The name of every entry of the tree ends inside of its 20 bytes. -/
def NamesEnd (disk : Disk) : Prop :=
  ∀ {P i e}, IsDir disk P → SlotHas disk P i e → e.nameStr.length ≤ 19

omit [BuildConfig] in
theorem cstr_copy_name20_length (dst : Bytes 20) (src : List UInt8) :
    (cstr (copy_name20 dst src).val).length ≤ 19 := by
  have hcut : cstr (copy_name20 dst src).val = cstr (src.take 19) := by
    unfold copy_name20 cstr
    rw [List.takeWhile_append]
    split
    · rename_i hlen
      rw [(List.takeWhile_prefix _).eq_of_length hlen]
      simp
    · rfl
  rw [hcut]
  calc (cstr (src.take 19)).length ≤ (src.take 19).length := (List.takeWhile_sublist _).length_le
    _ ≤ 19 := List.length_take_le 19 src

omit [BuildConfig] in
theorem FileEntry.shownAt_nameStr_length (e : FileEntry) (i : Fin MAX_DIR_ENTRIES) :
    (e.shownAt i).nameStr.length ≤ e.nameStr.length := by
  rcases Nat.lt_trichotomy i.val DIR_SLOTS with hi | hi | hi
  · rw [e.shownAt_of_lt hi]
  · rw [e.shownAt_edge_nameStr hi, List.length_take]
    exact Nat.min_le_right _ _
  · have := e.shownAt_behind hi
    rw [← Bool.not_eq_true, FileEntry.inUse_iff, not_not] at this
    simp [this]

theorem SlotWrite.nameStr_length {s : System} {op : Op} {P : Nat} {d : DiskDir}
    {i : Fin MAX_DIR_ENTRIES} {e : FileEntry} (h : SlotWrite s op P d i e) :
    e.nameStr.length ≤ 19 := by
  cases h with
  | store => exact cstr_copy_name20_length _ _
  | remove => decide
  | mkdir => exact cstr_copy_name20_length _ _
  | rename => exact cstr_copy_name20_length _ _
  | clear => decide
  | arrive => exact cstr_copy_name20_length _ _

theorem stepsOk_true (s : System) (ops : List Op) : StepsOk (fun _ _ => True) s ops := by
  induction ops generalizing s with
  | nil => trivial
  | cons op ops ih => exact ⟨trivial, fun s' _ => ih s'⟩

theorem Reached.namesEnd {s : System} (h : Reached s) : NamesEnd s.st.disk := by
  obtain ⟨s0, ops, hr⟩ := h
  intro P i e hP he
  obtain ⟨d, hd, rfl, _⟩ := he
  have hall : ∀ j, ((DirBlock.ofDisk d).entries j).nameStr.length ≤ 19 := by
    refine @law_of_run _ _ (fun entries => ∀ j, (entries j).nameStr.length ≤ 19) _
      (fun _ => Nat.zero_le 19) ?_ _ _ (stepsOk_true _ ops) hr _ _ hP hd
    intro s op P d i e _ hw hN j
    by_cases hj : j = i
    · subst hj
      rw [Function.update_self]
      exact (e.shownAt_nameStr_length j).trans hw.nameStr_length
    · rw [Function.update_of_ne hj]
      exact hN j
  have := hall ⟨i.val, Nat.lt_of_lt_of_le i.isLt dir_slots_le⟩
  rwa [ofDisk_entries_of_lt d _ i.isLt] at this

/-! ## Names of paths, and each once -/

/-- Every entry in use has a name that a path can have, and no two have the same. -/
structure EntryNames (entries : Fin MAX_DIR_ENTRIES → FileEntry) : Prop where
  valid : ∀ i, (entries i).inUse = true → PathName (entries i).nameStr
  unique : ∀ i j, (entries i).inUse = true → (entries j).inUse = true →
    (entries i).nameStr = (entries j).nameStr → i = j

/-- The names of every directory of the tree. -/
def NamesValid (disk : Disk) : Prop :=
  ∀ {P d}, IsDir disk P → dirOf disk P = some d → EntryNames (DirBlock.ofDisk d).entries

/-- The law that runs keep: the names, and no entry behind the block. -/
structure NamesInside (entries : Fin MAX_DIR_ENTRIES → FileEntry) : Prop extends
    EntryNames entries where
  inside : ∀ i, (entries i).inUse = true → SlotInside i

section

omit [BuildConfig]

theorem namesInside_empty : NamesInside fun _ => .zero where
  valid := fun _ h => by simp at h
  unique := fun _ _ h => by simp at h
  inside := fun _ h => by simp at h

variable {entries : Fin MAX_DIR_ENTRIES → FileEntry} {i : Fin MAX_DIR_ENTRIES} {e : FileEntry}

theorem NamesInside.update_free (h : NamesInside entries) (he : e.nameStr = []) :
    NamesInside (Function.update entries i (e.shownAt i)) := by
  have hfree : (e.shownAt i).inUse = false := by
    rw [← Bool.not_eq_true, FileEntry.inUse_iff, not_not, ← List.length_eq_zero_iff]
    have := e.shownAt_nameStr_length i
    rw [he] at this
    simpa using this
  have hne : ∀ {j}, (Function.update entries i (e.shownAt i) j).inUse = true → j ≠ i := by
    rintro j hj rfl
    rw [Function.update_self, hfree] at hj
    cases hj
  constructor
  · constructor
    · intro j hj
      have hji := hne hj
      rw [Function.update_of_ne hji] at hj ⊢
      exact h.valid j hj
    · intro j k hj hk hjk
      have hji := hne hj
      have hki := hne hk
      rw [Function.update_of_ne hji] at hj hjk
      rw [Function.update_of_ne hki] at hk hjk
      exact h.unique j k hj hk hjk
  · intro j hj
    have hji := hne hj
    rw [Function.update_of_ne hji] at hj
    exact h.inside j hj

theorem NamesInside.update_named (h : NamesInside entries) (hi : SlotInside i)
    (hname : PathName e.nameStr)
    (hother : ∀ j, (entries j).inUse = true → (entries j).nameStr = e.nameStr → j = i) :
    NamesInside (Function.update entries i (e.shownAt i)) := by
  rw [e.shownAt_of_lt ((slotInside_iff _).mp hi)]
  constructor
  · constructor
    · intro j hj
      by_cases hji : j = i
      · rw [hji, Function.update_self]
        exact hname
      · rw [Function.update_of_ne hji] at hj ⊢
        exact h.valid j hj
    · intro j k hj hk hjk
      by_cases hji : j = i <;> by_cases hki : k = i
      · exact hji.trans hki.symm
      · rw [hji, Function.update_self, Function.update_of_ne hki] at hjk
        rw [Function.update_of_ne hki] at hk
        exact absurd (hother k hk hjk.symm) hki
      · rw [hki, Function.update_self, Function.update_of_ne hji] at hjk
        rw [Function.update_of_ne hji] at hj
        exact absurd (hother j hj hjk) hji
      · rw [Function.update_of_ne hji] at hj hjk
        rw [Function.update_of_ne hki] at hk hjk
        exact h.unique j k hj hk hjk
  · intro j hj
    by_cases hji : j = i
    · exact hji ▸ hi
    · rw [Function.update_of_ne hji] at hj
      exact h.inside j hj

theorem NamesInside.only_found {d : DiskDir} {name : List UInt8}
    (h : NamesInside (DirBlock.ofDisk d).entries)
    (hfind : find_entry_index (DirBlock.ofDisk d) name none = none ∨
      find_entry_index (DirBlock.ofDisk d) name none = some i) (j : Fin MAX_DIR_ENTRIES)
    (hj : ((DirBlock.ofDisk d).entries j).inUse = true)
    (hname : ((DirBlock.ofDisk d).entries j).nameStr = name) : j = i := by
  rcases hfind with hf | hf
  · exact absurd ⟨hj, fun t ht => by simp at ht, hname⟩ (find_entry_index_eq_none.mp hf j)
  · obtain ⟨h1, _, h2⟩ := (find_entry_index_eq_some.mp hf).1
    exact h.unique j i hj h1 (hname.trans h2.symm)

theorem cstr_pathName {b : Bytes 20} {s : List UInt8} (hs : PathName s) (hnul : 0 ∉ s) :
    cstr (copy_name20 b s).val = s := by
  rw [cstr_copy_name20 b hnul, List.take_of_length_le hs.short]

end

/-- The calls that write no bad name: what a store, a mkdir or a move is about to write is a
name of a path, at a slot inside the block, a name of a store that is cut at 19 bytes is
not there yet, and a move stays inside `src_cwd` and `dst_cwd`. -/
def NamesOk (s : System) : Op → Prop
  | .store win name data _ => ∀ P leaf d i,
    (file_target s.st (s.wins win) name.bytes (orRoot (s.wins win).cwd_bno)).2 =
      some (P, leaf) → dirOf s.st.disk P = some d → usedSlot s.st P leaf = some i →
    storeNeeds data.length ≤ freeAhead s.st → leaf ≠ [] → SlotInside i ∧
      PathName (leaf.take 19) ∧ (19 < leaf.length →
        find_entry_index (DirBlock.ofDisk d) (leaf.take 19) none = none)
  | .mkdir win path _ => ∀ P cwd leaf d i,
    (resolve_editor_target s.st (s.wins win)
      (terminal_expand_home_path (s.wins win).home.bytes path.bytes 128)).2 =
        some (P, cwd, leaf) → dirOf s.st.disk (orRoot P) = some d → leaf ≠ [] →
    find_entry_index (DirBlock.ofDisk d) leaf none = none →
    find_free_entry_index (DirBlock.ofDisk d) = some i → freeAhead s.st ≠ 0 → SlotInside i
  | .move win src dst _ => move_fits s.st (s.wins win) src.bytes dst.bytes = true ∧
    ∀ S sleaf dS si dest dD,
    MovePlan s.st (s.wins win) src.bytes dst.bytes S sleaf dS si dest dD →
    if S = dest.dir_bno then PathName dest.leaf
    else dest.idx = none → ∀ i, find_free_entry_index (DirBlock.ofDisk dD) = some i →
      SlotInside i ∧ PathName dest.leaf
  | _ => True

theorem SlotWrite.namesInside {s : System} {op : Op} {P : Nat} {d : DiskDir}
    {i : Fin MAX_DIR_ENTRIES} {e : FileEntry} (hok : NamesOk s op)
    (hw : SlotWrite s op P d i e) (h : NamesInside (DirBlock.ofDisk d).entries) :
    NamesInside (Function.update (DirBlock.ofDisk d).entries i (e.shownAt i)) := by
  cases hw with
  | @store win name data now _ leaf _ _ old first ht hd hslot hroom =>
    have hnul := (file_target_leaf name.nul_free ht).1
    have hname : (store_entry ((DirBlock.ofDisk d).entries i) old leaf first data.length
        now).nameStr = leaf.take 19 := store_entry_nameStr _ _ hnul _ _ _
    rcases Classical.em (leaf = []) with rfl | hne
    · exact h.update_free hname
    have hused : usedSlot s.st P leaf = some i := by
      simp [usedSlot, hd, hslot, Except.toOption]
    obtain ⟨hi, hvalid, hcut⟩ := hok P leaf d i ht hd hused hroom hne
    refine h.update_named hi (hname ▸ hvalid) ?_
    rw [hname]
    refine h.only_found ?_
    rcases Nat.lt_or_ge 19 leaf.length with hlen | hlen
    · exact Or.inl (hcut hlen)
    · rw [List.take_of_length_le hlen]
      rcases store_slot_ok hslot with ⟨_, hf, _⟩ | ⟨_, hf, _⟩
      · exact Or.inr hf
      · exact Or.inl hf
  | remove => exact h.update_free rfl
  | @mkdir win path now mid st' _ leaf _ _ nb c =>
    obtain ⟨p, cwd, rfl, hres⟩ := c.target
    obtain ⟨hleaf, hbytes⟩ := resolve_editor_target_leaf hres c.leaf_ne
    have hnul : 0 ∉ leaf := by
      intro h0
      have hw := (s.wins win).home.nul_free
      exact nul_not_mem_expand 128 hw (nul_not_mem_expand 128 hw path.nul_free) (hbytes 0 h0)
    have hname : (mkdirEntry leaf nb now).nameStr = leaf := cstr_pathName hleaf hnul
    have hother := @NamesInside.only_found i _ _ h (Or.inl c.absent)
    rw [← hname] at hleaf hother
    refine h.update_named ?_ hleaf hother
    refine hok p cwd leaf d i (by rw [hres]) c.dir c.leaf_ne c.absent c.free ?_
    rw [c.alloc.freeAhead_eq]
    omega
  | @rename win src dst now _ sleaf _ dD _ dest p hSD hidx =>
    have hleaf : PathName dest.leaf := by
      have := hok.2 _ _ _ _ _ _ p
      rwa [if_pos hSD] at this
    have hname : (movedEntry ((DirBlock.ofDisk d).entries i) dest.leaf now).nameStr =
        dest.leaf := cstr_pathName hleaf p.leaf_ok.1
    have hfind := p.dst_find
    have hdD := p.dst_dir
    rw [← hSD, p.src_dir] at hdD
    cases hdD
    have hother := h.only_found (hidx.imp hfind.trans hfind.trans)
    rw [← hname] at hleaf hother
    exact h.update_named (h.inside i (find_entry_index_eq_some.mp p.src_find).1.1) hleaf hother
  | clear => exact h.update_free rfl
  | @arrive win src dst now S sleaf dS _ si _ dest p hSD hidx hfree =>
    obtain ⟨hi, hleaf⟩ : SlotInside i ∧ PathName dest.leaf := by
      have := hok.2 _ _ _ _ _ _ p
      rw [if_neg hSD] at this
      exact this hidx i hfree
    have hname : (movedEntry ((DirBlock.ofDisk dS).entries si) dest.leaf now).nameStr =
        dest.leaf := cstr_pathName hleaf p.leaf_ok.1
    have hother := @NamesInside.only_found i _ _ h (Or.inl (p.dst_find.trans hidx))
    rw [← hname] at hleaf hother
    exact h.update_named hi hleaf hother

/-- In every run of calls that write no bad name, the names of all directories are valid and
unique. -/
theorem names_valid_of_steps {s0 s : System} {ops : List Op}
    (hok : StepsOk NamesOk (format s0) ops) (hr : run (format s0) ops = some s) :
    NamesValid s.st.disk := by
  intro P d hP hd
  exact (law_of_run namesInside_empty (fun hok hw h => hw.namesInside hok h) hok hr hP
    hd).toEntryNames

end

section

attribute [local instance] fpgaBuild

/-- A file that is stored and removed. -/
def sampleNames : List Op :=
  [.store 0 ⟨lit ['f'], nul_free_f⟩ [] 1, .remove 0 ⟨lit ['f'], nul_free_f⟩]

theorem names_valid_of_steps_sample :
    ∃ s, run (format blankSystem) sampleNames = some s ∧ NamesValid s.st.disk := by
  obtain ⟨s, hs⟩ := (sysInv_format blankSystem).run_total sampleNames
  refine ⟨s, hs, @names_valid_of_steps _ blankSystem s sampleNames
    ⟨?_, fun _ _ => ⟨trivial, fun _ _ => trivial⟩⟩ hs⟩
  intro P leaf d i ht _ hi _ _
  have htarget : (file_target (format blankSystem).st ((format blankSystem).wins 0) (lit ['f'])
      (orRoot ((format blankSystem).wins 0).cwd_bno)).2 = some (1, lit ['f']) := by decide
  cases htarget.symm.trans ht
  have hslot : usedSlot (format blankSystem).st 1 (lit ['f']) = some ⟨0, by decide⟩ := by
    decide +kernel
  cases hslot.symm.trans hi
  exact ⟨by decide, ⟨by decide, by decide, by decide, by decide, by decide⟩,
    fun h => absurd h (by decide)⟩

/-- A store under the name `.` makes an entry that no path can name. -/
theorem names_invalid_after_dot : ∃ s, Reached s ∧ ¬ NamesValid s.st.disk := by
  have hrun : ((run (format blankSystem) [.store 0 ⟨dotName, by decide⟩ [] 1]).bind fun s =>
      (dirOf s.st.disk 1).map fun d => ((DirBlock.ofDisk d).entries ⟨0, by decide⟩).nameStr) =
      some dotName := by decide +kernel
  obtain ⟨s, hs, hd⟩ := Option.bind_eq_some_iff.mp hrun
  obtain ⟨d, hd, hname⟩ := Option.map_eq_some_iff.mp hd
  refine ⟨s, ⟨blankSystem, _, hs⟩, fun h => ?_⟩
  have hvalid := (h ⟨.refl, d, hd⟩ hd).valid ⟨0, by decide⟩ (by
    rw [FileEntry.inUse_iff, hname]
    decide)
  exact hvalid.ne_dot hname

end

end vibeos.fs
