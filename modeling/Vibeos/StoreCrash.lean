-- Crash consistency of a store. All writes but the last go to blocks that the
-- tree does not have; the last one is the directory. So a crash shows the old
-- files, or the new entry: and only what that entry hides can go wrong.
import Vibeos.DirNames

namespace vibeos.fs

open LinkChain WriteLog

section

variable [BuildConfig] {st st' st1 mid : FsState} {P : Nat} {leaf : List UInt8}

/-! ## What a store owes after a crash -/

/-- What `load_file_bytes` gives for a file with the contents `data`. -/
def loadOf (data : List UInt8) (max_size : Nat) : Int × List UInt8 :=
  if max_size < data.length then (-3, []) else (0, data)

def FileThere (st : FsState) (w : Window) (name : List UInt8) : Prop :=
  ∃ P leaf e, (file_target st w name w.cwd_bno).2 = some (P, leaf) ∧
    fileAt st.disk P leaf = .ok e

/-- After every prefix of the writes of a store, the name has its old contents, or none as
before, or all of the new ones; and every other file has its old contents. -/
structure StoreCrashSafe (st st' : FsState) (w : Window) (name data : List UInt8) : Prop where
  own : ∀ k, (∀ n, load_file_bytes (crashed st st' k) w name n = load_file_bytes st w name n) ∨
    ∀ n, load_file_bytes (crashed st st' k) w name n = loadOf data n
  others : ∀ k w' name', IsDir st.disk w'.cwd_bno → FileThere st w' name' →
    (file_target st w' name' w'.cwd_bno).2 ≠ (file_target st w name w.cwd_bno).2 →
    ∀ n, load_file_bytes (crashed st st' k) w' name' n = load_file_bytes st w' name' n

/-! ## The states in which a store goes wrong -/

/-- A name of more than 19 bytes takes a slot before the file that has its first 19 bytes as
name, and that file has other contents. -/
def Shadows (st : FsState) (P : Nat) (leaf data : List UInt8) : Prop :=
  ∃ d idx j, dirOf st.disk P = some d ∧ usedSlot st P leaf = some idx ∧ SlotInside idx ∧
    19 < leaf.length ∧ find_entry_index (DirBlock.ofDisk d) (leaf.take 19) (some 0) = some j ∧
    idx < j ∧ ∃ n, loadAt st.disk P (leaf.take 19) n ≠ loadOf data n

/-- A new name of at most 8 bytes takes the slot at the edge of the block, which keeps the
name and not the rest of the entry. -/
def LostAtEdge (st : FsState) (P : Nat) (leaf data : List UInt8) : Prop :=
  ∃ d idx, dirOf st.disk P = some d ∧ usedSlot st P leaf = some idx ∧ idx.val = DIR_SLOTS ∧
    leaf ≠ [] ∧ leaf.length ≤ EDGE_BYTES ∧ data ≠ [] ∧
    find_entry_index (DirBlock.ofDisk d) leaf none = none

/-- The store has room for the data and is one of the two above. -/
def StoreClobbers (st : FsState) (w : Window) (name data : List UInt8) : Prop :=
  ∃ P leaf, (file_target st w name w.cwd_bno).2 = some (P, leaf) ∧
    storeNeeds data.length ≤ freeAhead st ∧
    (Shadows st P leaf data ∨ LostAtEdge st P leaf data)

/-! ## Loads on a disk with the same directories -/

theorem load_file_bytes_of_sameWalk {U : Nat → Prop} (h : TreeDisk U st.disk)
    (hsame : ∀ {Q}, IsDir st.disk Q → SameWalk st.disk st1.disk Q) {w : Window}
    (hw : IsDir st.disk w.cwd_bno) (name : List UInt8) (n : Nat) :
    load_file_bytes st1 w name n = match (file_target st w name w.cwd_bno).2 with
      | none => (-1, [])
      | some (P, leaf) => loadAt st1.disk P leaf n := by
  have hload := load_file_bytes_eq st1 w name n
  rw [file_target_congr h.closed hsame (h.closed.orRoot hw)] at hload
  rcases ht : (file_target st w name w.cwd_bno).2 with _ | ⟨P, leaf⟩
  · rwa [ht] at hload
  · rwa [ht] at hload

theorem sameLoads_of_agree {U : Nat → Prop} (h : TreeDisk U st.disk)
    (hag : ∀ {b}, Live st.disk b → st1.disk b = st.disk b) {w : Window}
    (hw : IsDir st.disk w.cwd_bno) (name : List UInt8) : SameLoads st st1 w name := by
  refine sameLoads_of_tree h hw (fun {Q} hQ => ?_) (fun {Q leaf} _ hQ => ?_)
    (fun hb _ => hag hb)
  · obtain ⟨d, hd⟩ := hQ.2
    exact ⟨d, d, hd, (dirOf_congr (hag (Or.inl hQ))).trans hd, rfl, fun _ => rfl⟩
  · unfold fileAt
    rw [dirOf_congr (hag (Or.inl hQ))]

section

variable {data : List UInt8} {now : Nat} {d : DiskDir} {idx : Fin MAX_DIR_ENTRIES}
  {old : Option FileEntry} {first : Nat} {l lold : List Nat} {ws : List (Nat × Block)}

theorem Grown.sameLoads {t : List Nat} (g : Grown st mid l t ws) (htl : t ⊆ l)
    (h : WellFormed st) {k : Nat} (hdisk : st1.disk = replay st.disk (ws.take k)) {w : Window}
    (hw : IsDir st.disk w.cwd_bno) (name : List UInt8) : SameLoads st st1 w name := by
  refine sameLoads_of_agree h.tree (fun {b} hb => ?_) hw name
  rw [hdisk]
  refine replay_take_of_not_mem k ?_
  rintro v hv rfl
  exact g.not_mem_of_live h hb (htl (g.touched v hv))

omit [BuildConfig] in
theorem store_entry_shown_nameStr (e : FileEntry) (hnul : 0 ∉ leaf) :
    let new := (store_entry e old leaf first data.length now).shownAt idx
    (idx.val < DIR_SLOTS → new.nameStr = leaf.take 19) ∧
      (idx.val = DIR_SLOTS → new.nameStr = leaf.take EDGE_BYTES) ∧
      (DIR_SLOTS < idx.val → new.inUse = false) := by
  have hname := store_entry_nameStr e old hnul first data.length now
  refine ⟨fun hi => ?_, fun hi => ?_, fun hi => FileEntry.shownAt_behind _ hi⟩
  · rw [FileEntry.shownAt_of_lt _ hi, hname]
  · rw [FileEntry.shownAt_edge_nameStr _ hi, hname, List.take_take]
    rfl

omit [BuildConfig] in
theorem store_entry_shown_matches (e : FileEntry) {name : List UInt8} :
    ((store_entry e old leaf first data.length now).shownAt idx).Matches name (some 0) ↔
      name ≠ [] ∧
        ((store_entry e old leaf first data.length now).shownAt idx).nameStr = name := by
  constructor
  · rintro ⟨h1, _, rfl⟩
    exact ⟨(FileEntry.inUse_iff _).mp h1, rfl⟩
  · rintro ⟨h1, rfl⟩
    refine ⟨(FileEntry.inUse_iff _).mpr h1, fun t ht => ?_, rfl⟩
    cases ht
    exact store_entry_shown_type _ _

variable (c : StoreCommit st mid st' P leaf data now d idx old first l lold ws)

include c

theorem StoreCommit.writes_eq : st'.writes = st.writes ++ (ws ++ [(P, .dir
    ((DirBlock.ofDisk d).setEntry idx (store_entry ((DirBlock.ofDisk d).entries idx) old leaf
      first data.length now)).toDisk)]) := by
  rw [c.final, freeAll_writes, ← List.append_assoc, ← c.grown.logged.writes]
  rfl

theorem StoreCommit.disk_replay : st'.disk = replay st.disk (ws ++ [(P, .dir
    ((DirBlock.ofDisk d).setEntry idx (store_entry ((DirBlock.ofDisk d).entries idx) old leaf
      first data.length now)).toDisk)]) := by
  rw [replay_append, ← c.grown.logged.disk, c.final, freeAll_disk]
  rfl

theorem StoreCommit.crashed_cases (k : Nat) :
    (crashed st st' k).disk = replay st.disk (ws.take k) ∨ (crashed st st' k).disk = st'.disk := by
  rw [crashed_disk c.writes_eq, c.disk_replay]
  exact (take_append_singleton ws _ k).imp (congrArg _) (congrArg _)

theorem StoreCommit.crashed_all : (crashed st st' (ws.length + 1)).disk = st'.disk := by
  rw [crashed_disk c.writes_eq, c.disk_replay, List.take_of_length_le (by simp)]

theorem StoreCommit.loadAt_of_fileAt (h : WellFormed st) (hP : IsDir st.disk P) {Q : Nat}
    {name : List UInt8} (hQ : IsDir st.disk Q)
    (hf : fileAt st'.disk Q name = fileAt st.disk Q name) (n : Nat) :
    loadAt st'.disk Q name n = loadAt st.disk Q name n := by
  refine (loadAt_congr hf fun e he => ?_).1 n
  obtain ⟨m, hm, hlive⟩ := h.tree.file_chain hQ he
  exact load_loop_congr hm (fun x hx => c.blocks_frame h hP (hlive x hx).1 (hlive x hx).2) e.size

theorem StoreCommit.loadAt_shown (h : WellFormed st) (hP : IsDir st.disk P) {name : List UInt8}
    (hf : fileAt st'.disk P name = .ok ((store_entry ((DirBlock.ofDisk d).entries idx) old leaf
      first data.length now).shownAt idx)) (n : Nat) :
    loadAt st'.disk P name n = if idx.val < DIR_SLOTS then loadOf data n else (0, []) := by
  unfold loadAt
  rw [hf]
  dsimp only
  split
  · rename_i hlt
    split
    · rename_i hi
      rw [FileEntry.shownAt_of_lt _ hi] at hlt
      rw [loadOf, if_pos (by simpa [store_entry] using hlt)]
    · rename_i hi
      rw [(FileEntry.shownAt_of_ge _ (by omega)).2.1] at hlt
      omega
  · rename_i hlt
    split
    · rename_i hi
      rw [FileEntry.shownAt_of_lt _ hi] at hlt ⊢
      rw [loadOf, if_neg (by simpa [store_entry] using hlt)]
      exact congrArg (Prod.mk 0) (c.load_self h hP)
    · rename_i hi
      rw [(FileEntry.shownAt_of_ge _ (by omega)).2.1, load_loop, dif_pos (Or.inl rfl)]

/-! ## The name itself -/

omit [BuildConfig] c in
theorem find_long_name (hend : NamesEnd st.disk) (hP : IsDir st.disk P)
    (hd : dirOf st.disk P = some d) (hlen : 19 < leaf.length) (f : Option Nat) :
    find_entry_index (DirBlock.ofDisk d) leaf f = none := by
  rw [find_entry_index_eq_none]
  rintro j ⟨h1, _, rfl⟩
  rcases Nat.lt_or_ge j.val DIR_SLOTS with hj | hj
  · have := hend hP ⟨d, hd, (ofDisk_entries_of_lt d j hj).symm, h1⟩
    omega
  · have := (ofDisk_nameStr_of_ge d j hj).1
    simp only [EDGE_BYTES, BSIZE, entryOffset, sizeofFileEntry, DIR_SLOTS] at this
    omega

theorem StoreCommit.fileAt_of_not_matches
    (hold : ¬ ((DirBlock.ofDisk d).entries idx).Matches leaf (some 0))
    (hnew : ¬ ((store_entry ((DirBlock.ofDisk d).entries idx) old leaf first data.length
      now).shownAt idx).Matches leaf (some 0)) :
    fileAt st'.disk P leaf = fileAt st.disk P leaf := by
  obtain ⟨d', hd', _, hdb⟩ := c.dir_shown
  unfold fileAt
  rw [hd', c.dir]
  simp only [hdb, find_setEntry_of_not_matches hold hnew]
  rcases hf : find_entry_index (DirBlock.ofDisk d) leaf (some 0) with _ | i
  · rfl
  · have hidx : i ≠ idx := by
      rintro rfl
      exact hold (find_entry_index_eq_some.mp hf).1
    simp [DirBlock.setEntry, Function.update_of_ne hidx]

theorem StoreCommit.own_cases (h : WellFormed st) (hend : NamesEnd st.disk)
    (hP : IsDir st.disk P) (hnul : 0 ∉ leaf) (hedge : ¬ LostAtEdge st P leaf data) :
    (∀ n, loadAt st'.disk P leaf n = loadAt st.disk P leaf n) ∨
      ∀ n, loadAt st'.disk P leaf n = loadOf data n := by
  obtain ⟨hin, hat, hbehind⟩ := @store_entry_shown_nameStr leaf data now idx old first
    ((DirBlock.ofDisk d).entries idx) hnul
  have hsame : ¬ ((DirBlock.ofDisk d).entries idx).Matches leaf (some 0) →
      ¬ ((store_entry ((DirBlock.ofDisk d).entries idx) old leaf first data.length
        now).shownAt idx).Matches leaf (some 0) →
      ∀ n, loadAt st'.disk P leaf n = loadAt st.disk P leaf n := fun h1 h2 =>
    c.loadAt_of_fileAt h hP hP (c.fileAt_of_not_matches h1 h2)
  -- an empty name answers no lookup
  rcases Classical.em (leaf = []) with hnil | hnil
  · refine Or.inl (hsame (fun hm => ?_) fun hm => (store_entry_shown_matches _).mp hm |>.1 hnil)
    exact (FileEntry.inUse_iff _).mp hm.1 (hm.2.2.trans hnil)
  rcases Nat.lt_trichotomy idx.val DIR_SLOTS with hi | hi | hi
  · rcases Nat.lt_or_ge 19 leaf.length with hlen | hlen
    · -- a long name is not found, before and after
      have hnone := find_long_name hend hP c.dir hlen (some 0)
      refine Or.inl (hsame (fun hm => find_entry_index_eq_none.mp hnone idx hm) fun hm => ?_)
      have := ((store_entry_shown_matches _).mp hm).2
      rw [hin hi] at this
      rw [← this, List.length_take] at hlen
      omega
    · have hself := c.fileAt_new ((store_entry_shown_matches _).mpr
        ⟨hnil, by rw [hin hi, List.take_of_length_le hlen]⟩) c.slot_first
      refine Or.inr fun n => ?_
      rw [c.loadAt_shown h hP hself, if_pos hi]
  · rcases Nat.lt_or_ge EDGE_BYTES leaf.length with hlen | hlen
    · refine Or.inl (hsame (fun hm => ?_) fun hm => ?_)
      · have := (ofDisk_nameStr_of_ge d idx (by omega)).1
        rw [hm.2.2] at this
        omega
      · have := ((store_entry_shown_matches _).mp hm).2
        rw [hat hi] at this
        rw [← this, List.length_take] at hlen
        omega
    · have hself := c.fileAt_new ((store_entry_shown_matches _).mpr
        ⟨hnil, by rw [hat hi, List.take_of_length_le hlen]⟩) c.slot_first
      have hload : ∀ n, loadAt st'.disk P leaf n = (0, []) := fun n => by
        rw [c.loadAt_shown h hP hself, if_neg (by omega)]
      rcases Classical.em (data = []) with rfl | hdata
      · exact Or.inr fun n => by simp [hload, loadOf]
      · -- the name was there already: the edge shows an empty file, before and after
        have hfound : ∃ i, find_entry_index (DirBlock.ofDisk d) leaf none = some i := by
          rw [← Option.isSome_iff_exists, Option.isSome_iff_ne_none]
          exact fun hn => hedge ⟨d, idx, c.dir, c.usedSlot_eq, hi, hnil, hlen, hdata, hn⟩
        obtain ⟨i, hfound⟩ := hfound
        have hidx : i = idx := by
          rcases store_slot_ok c.slot with ⟨_, hf, _⟩ | ⟨_, hf, _⟩
          · rw [hfound] at hf
            exact Option.some.inj hf
          · rw [hfound] at hf
            cases hf
        subst hidx
        have hge := ofDisk_entries_of_ge d i (by omega)
        have hm := (find_entry_index_eq_some.mp hfound).1
        have hf0 : find_entry_index (DirBlock.ofDisk d) leaf (some 0) = some i := by
          refine find_entry_index_eq_some.mpr ⟨⟨hm.1, fun t ht => ?_, hm.2.2⟩, c.slot_first⟩
          cases ht
          exact hge.2
        refine Or.inl fun n => ?_
        have hold : fileAt st.disk P leaf = .ok ((DirBlock.ofDisk d).entries i) :=
          fileAt_eq_ok.mpr ⟨d, i, c.dir, hf0, rfl⟩
        have hsize : ((DirBlock.ofDisk d).entries i).size = 0 := by
          simp only [DirBlock.ofDisk, hi, lt_irrefl, dite_false, if_true]
          rfl
        rw [hload, loadAt, hold]
        dsimp only
        rw [hsize, if_neg (Nat.not_lt_zero n), load_loop, dif_pos (Or.inl rfl)]
  · refine Or.inl (hsame (fun hm => ?_) fun hm => ?_)
    · have hused := hm.1
      rw [(ofDisk_nameStr_of_ge d idx (by omega)).2 hi] at hused
      cases hused
    · have hused := hm.1
      rw [hbehind hi] at hused
      cases hused

/-! ## The other files -/

theorem StoreCommit.other_same (h : WellFormed st) (hP : IsDir st.disk P) (hnul : 0 ∉ leaf)
    (hshadow : ¬ Shadows st P leaf data) {Q : Nat} {name : List UInt8} {e : FileEntry}
    (hQ : IsDir st.disk Q) (hne : ¬ (Q = P ∧ name = leaf)) (he : fileAt st.disk Q name = .ok e)
    (n : Nat) : loadAt st'.disk Q name n = loadAt st.disk Q name n := by
  obtain ⟨hin, hat, hbehind⟩ := @store_entry_shown_nameStr leaf data now idx old first
    ((DirBlock.ofDisk d).entries idx) hnul
  by_cases hcase : Q = P ∧ ((store_entry ((DirBlock.ofDisk d).entries idx) old leaf first
      data.length now).shownAt idx).Matches name (some 0)
  · -- the new entry shows the name of the file: the file is found first, or it is shadowed
    obtain ⟨rfl, hm⟩ := hcase
    have hname : name ≠ leaf := fun hl => hne ⟨rfl, hl⟩
    obtain ⟨d0, j, hd0, hj, rfl⟩ := fileAt_eq_ok.mp he
    rw [c.dir] at hd0
    cases hd0
    have hjm := find_entry_index_eq_some.mp hj
    have hjne : j ≠ idx := by
      rintro rfl
      exact c.slot_free (Or.inr hname) hjm.1
    have hbefore : j < idx → loadAt st'.disk Q name n = loadAt st.disk Q name n := by
      intro hlt
      refine c.loadAt_of_fileAt h hP hQ ?_ n
      obtain ⟨d', hd', _, hdb⟩ := c.dir_shown
      rw [he, fileAt_eq_ok]
      refine ⟨d', j, hd', ?_, by rw [hdb]; simp [DirBlock.setEntry, Function.update_of_ne hjne]⟩
      rw [hdb, find_entry_index_eq_some]
      refine ⟨by simpa [DirBlock.setEntry, Function.update_of_ne hjne] using hjm.1, ?_⟩
      intro i hi
      have hine : i ≠ idx := Fin.ne_of_lt (lt_trans hi hlt)
      simpa [DirBlock.setEntry, Function.update_of_ne hine] using hjm.2 i hi
    rcases Nat.lt_trichotomy idx.val DIR_SLOTS with hi | hi | hi
    · rcases lt_or_gt_of_ne hjne with hlt | hgt
      · exact hbefore hlt
      · have hnm := ((store_entry_shown_matches _).mp hm).2
        rw [hin hi] at hnm
        have hlen : 19 < leaf.length := by
          by_contra hle
          rw [List.take_of_length_le (by omega)] at hnm
          exact hname hnm.symm
        have hnew := c.fileAt_new hm fun i hilt => hjm.2 i (lt_trans hilt hgt)
        rw [c.loadAt_shown h hP hnew, if_pos hi]
        by_contra hdiff
        subst hnm
        exact hshadow ⟨d, idx, j, c.dir, c.usedSlot_eq, (slotInside_iff _).mpr hi, hlen, hj, hgt,
          n, fun heq => hdiff heq.symm⟩
    · -- behind the edge no file is found
      refine hbefore (lt_of_le_of_ne ?_ hjne)
      by_contra hgt
      have hlt : idx.val < j.val := not_le.mp hgt
      have hused := hjm.1.1
      rw [(ofDisk_nameStr_of_ge d j (by omega)).2 (by omega)] at hused
      cases hused
    · have hused := hm.1
      rw [hbehind hi] at hused
      cases hused
  · refine c.loadAt_of_fileAt h hP hQ (c.fileAt_frame h hQ fun hQP => ⟨fun hl => ?_, fun hm => ?_⟩) n
    · exact hne ⟨hQP, hl⟩
    · exact hcase ⟨hQP, hm⟩

theorem StoreCommit.load_crashed (h : WellFormed st) {k : Nat}
    (hk : (crashed st st' k).disk = st'.disk) {w : Window} (hw : IsDir st.disk w.cwd_bno)
    (name : List UInt8) (n : Nat) : load_file_bytes (crashed st st' k) w name n =
      match (file_target st w name w.cwd_bno).2 with
      | none => (-1, [])
      | some (Q, leaf) => loadAt st'.disk Q leaf n := by
  rw [load_file_bytes_of_sameWalk h.tree (fun hQ => hk ▸ c.sameWalk h hQ) hw, hk]

end

/-! ## The two directions -/

variable {w : Window} {name data : List UInt8} {now : Nat}

theorem storeCrashSafe_of_not_clobbers (h : WellFormed st) (hend : NamesEnd st.disk)
    (hw : IsDir st.disk w.cwd_bno) (hnul : 0 ∉ name) (hn : ¬ StoreClobbers st w name data)
    {rc : Int} (hs : store_file_bytes st w name data now = some (rc, st')) :
    StoreCrashSafe st st' w name data := by
  have hquiet : (∀ k w' name', IsDir st.disk w'.cwd_bno →
      SameLoads st (crashed st st' k) w' name') → StoreCrashSafe st st' w name data :=
    fun hq => ⟨fun k => Or.inl (hq k w name hw).1, fun k w' name' hw' _ _ => (hq k w' name' hw').1⟩
  rw [store_file_bytes_eq h.ready, orRoot_of_ne_zero (h.tree.isDir_ne_zero hw)] at hs
  rcases ht : (file_target st w name w.cwd_bno).2 with _ | ⟨P, leaf⟩
  · rw [ht] at hs
    cases hs
    apply hquiet
    intro k w' name' hw'
    exact sameLoads_of_agree h.tree (fun _ => by simp [crashed]) hw' name'
  rw [ht] at hs
  have hP := file_target_mem h.tree.closed hw hw ht
  rcases store_into_cases h.ready hs with ⟨_, rfl, _⟩ | ⟨_, _, l, ws, hg, _⟩ |
    ⟨_, mid, d, idx, old, first, l, lold, ws, c⟩
  · apply hquiet
    intro k w' name' hw'
    exact sameLoads_of_agree h.tree (fun _ => by simp [crashed]) hw' name'
  · apply hquiet
    intro k w' name' hw'
    exact hg.sameLoads (List.Subset.refl l) h (crashed_disk hg.logged.writes k) hw' name'
  · have hnul' := (file_target_leaf hnul ht).1
    have hbad : ¬ (Shadows st P leaf data ∨ LostAtEdge st P leaf data) :=
      fun hb => hn ⟨P, leaf, ht, c.room_le, hb⟩
    rw [not_or] at hbad
    constructor
    · intro k
      rcases c.crashed_cases k with hk | hk
      · exact Or.inl (c.grown.sameLoads (List.Subset.refl l) h hk hw name).1
      · simp only [c.load_crashed h hk hw, load_file_bytes_eq, ht]
        exact c.own_cases h hend hP hnul' hbad.2
    · intro k w' name' hw' hthere hne n
      rcases c.crashed_cases k with hk | hk
      · exact (c.grown.sameLoads (List.Subset.refl l) h hk hw' name').1 n
      · obtain ⟨Q, leaf', e, ht', he⟩ := hthere
        rw [c.load_crashed h hk hw', load_file_bytes_eq, ht']
        refine c.other_same h hP hnul' hbad.1 (file_target_mem h.tree.closed hw' hw' ht') ?_ he n
        rintro ⟨rfl, rfl⟩
        exact hne (ht'.trans ht.symm)

theorem StoreCommit.not_safe_of_shadows {P : Nat} {leaf : List UInt8} {d : DiskDir}
    {idx : Fin MAX_DIR_ENTRIES} {old : Option FileEntry} {first : Nat} {l lold : List Nat}
    {ws : List (Nat × Block)}
    (c : StoreCommit st mid st' P leaf data now d idx old first l lold ws) (h : WellFormed st)
    (hw : IsDir st.disk w.cwd_bno) (hnul : 0 ∉ name)
    (ht : (file_target st w name w.cwd_bno).2 = some (P, leaf)) (hb : Shadows st P leaf data) :
    ¬ StoreCrashSafe st st' w name data := by
  intro hsafe
  obtain ⟨d', i, j, hd, hi, hin, hlen, hj, hij, n, hdiff⟩ := hb
  rw [c.dir] at hd
  cases hd
  rw [c.usedSlot_eq] at hi
  cases hi
  obtain ⟨hnul', ⟨hu, rfl, rfl⟩ | ⟨_, hle⟩⟩ := file_target_leaf hnul ht
  · rw [slotInside_iff] at hin
    have hjm := find_entry_index_eq_some.mp hj
    -- the short name is no path either
    have hu' : usesResolve (leaf.take 19) = false := by
      rcases leaf with _ | ⟨a, rest⟩
      · simp at hlen
      · simp only [usesResolve, List.take_succ_cons, List.head?_cons, Bool.or_eq_false_iff,
          List.contains_eq_mem, decide_eq_false_iff_not] at hu ⊢
        refine ⟨fun hm => hu.1 ?_, hu.2⟩
        rw [← List.take_succ_cons] at hm
        exact List.mem_of_mem_take hm
    have ht' : (file_target st w (leaf.take 19) w.cwd_bno).2 =
        some (w.cwd_bno, leaf.take 19) := by simp [file_target, hu']
    have hne : leaf.take 19 ≠ leaf := by
      intro he
      have := congrArg List.length he
      rw [List.length_take] at this
      omega
    have hold : FileThere st w (leaf.take 19) :=
      ⟨_, _, _, ht', fileAt_eq_ok.mpr ⟨d, j, c.dir, hj, rfl⟩⟩
    have hnil : leaf.take 19 ≠ [] := by
      rw [Ne, List.take_eq_nil_iff, not_or]
      refine ⟨by decide, ?_⟩
      rintro rfl
      simp at hlen
    have hnew := c.fileAt_new ((store_entry_shown_matches _).mpr
      ⟨hnil, (store_entry_shown_nameStr _ hnul').1 hin⟩) fun i hi => hjm.2 i (lt_trans hi hij)
    have hsame := hsafe.others (ws.length + 1) w (leaf.take 19) hw hold
      (by rw [ht', ht]; simp [hne]) n
    rw [c.load_crashed h c.crashed_all hw, load_file_bytes_eq, ht'] at hsame
    dsimp only at hsame
    rw [c.loadAt_shown h hw hnew, if_pos hin] at hsame
    exact hdiff hsame.symm
  · omega

theorem StoreCommit.not_safe_of_edge {P : Nat} {leaf : List UInt8} {d : DiskDir}
    {idx : Fin MAX_DIR_ENTRIES} {old : Option FileEntry} {first : Nat} {l lold : List Nat}
    {ws : List (Nat × Block)}
    (c : StoreCommit st mid st' P leaf data now d idx old first l lold ws) (h : WellFormed st)
    (hw : IsDir st.disk w.cwd_bno) (hnul : 0 ∉ name)
    (ht : (file_target st w name w.cwd_bno).2 = some (P, leaf)) (hb : LostAtEdge st P leaf data) :
    ¬ StoreCrashSafe st st' w name data := by
  intro hsafe
  obtain ⟨d', i, hd, hi, hedge, hnil, hlen, hdata, hnone⟩ := hb
  rw [c.dir] at hd
  cases hd
  rw [c.usedSlot_eq] at hi
  cases hi
  have hnul' := (file_target_leaf hnul ht).1
  have hP := file_target_mem h.tree.closed hw hw ht
  have hself := c.fileAt_new ((store_entry_shown_matches _).mpr ⟨hnil, by
    rw [(store_entry_shown_nameStr _ hnul').2.1 hedge, List.take_of_length_le hlen]⟩) c.slot_first
  have hnone' : find_entry_index (DirBlock.ofDisk d) leaf (some 0) = none := by
    rw [find_entry_index_eq_none] at hnone ⊢
    exact fun j hj => hnone j ⟨hj.1, fun t ht => by simp at ht, hj.2.2⟩
  have hload : ∀ n, loadAt st'.disk P leaf n = (0, []) := by
    intro n
    rw [c.loadAt_shown h hP hself, if_neg (by omega)]
  have hown := hsafe.own (ws.length + 1)
  simp only [c.load_crashed h c.crashed_all hw, load_file_bytes_eq, ht, hload] at hown
  rcases hown with hown | hown
  · have := hown 0
    simp only [loadAt, fileAt, c.dir, hnone'] at this
    cases this
  · have := hown data.length
    rw [loadOf, if_neg (lt_irrefl _)] at this
    exact hdata (Prod.mk.inj this).2.symm

theorem StoreClobbers.not_safe (h : WellFormed st) (hw : IsDir st.disk w.cwd_bno)
    (hnul : 0 ∉ name) (hc : StoreClobbers st w name data) (now : Nat) :
    ∃ st', store_file_bytes st w name data now = some (0, st') ∧
      ¬ StoreCrashSafe st st' w name data := by
  obtain ⟨P, leaf, ht, hroom, hb⟩ := hc
  have hP := file_target_mem h.tree.closed hw hw ht
  have hslot : ∃ i, usedSlot st P leaf = some i := by
    rcases hb with ⟨_, i, _, _, hi, _⟩ | ⟨_, i, _, hi, _⟩ <;> exact ⟨i, hi⟩
  obtain ⟨i, hi⟩ := hslot
  obtain ⟨st', hs⟩ := h.store_into_ok hP now (not_storeRefused_of_usedSlot hi) hroom
  refine ⟨st', ?_, ?_⟩
  · rw [store_file_bytes_eq h.ready, orRoot_of_ne_zero (h.tree.isDir_ne_zero hw), ht]
    exact hs
  · rcases store_into_cases h.ready hs with ⟨h0, _⟩ | ⟨h4, _⟩ |
      ⟨_, mid, d, idx, old, first, l, lold, ws, c⟩
    · exact absurd rfl h0
    · cases h4
    · rcases hb with hb | hb
      · exact c.not_safe_of_shadows h hw hnul ht hb
      · exact c.not_safe_of_edge h hw hnul ht hb

/-- Crash consistency of a store holds exactly when the entry that it writes neither hides
another file nor lies at the edge of the block. -/
theorem store_crash_safe_iff (h : WellFormed st) (hend : NamesEnd st.disk)
    (hw : IsDir st.disk w.cwd_bno) (hnul : 0 ∉ name) (data : List UInt8) (now : Nat) :
    (∀ rc st', store_file_bytes st w name data now = some (rc, st') →
      StoreCrashSafe st st' w name data) ↔ ¬ StoreClobbers st w name data := by
  constructor
  · intro hsafe hc
    obtain ⟨st', hs, hn⟩ := hc.not_safe h hw hnul now
    exact hn (hsafe 0 st' hs)
  · intro hn rc st' hs
    exact storeCrashSafe_of_not_clobbers h hend hw hnul hn hs

end

section

attribute [local instance] fpgaBuild

/-- The first store after a format is safe. -/
theorem store_crash_safe_iff_first :
    ¬ StoreClobbers (format blankSystem).st (blankSystem.wins 0) (lit ['f']) (lit ['h', 'i']) ∧
    ∀ rc st', store_file_bytes (format blankSystem).st (blankSystem.wins 0) (lit ['f'])
      (lit ['h', 'i']) 1 = some (rc, st') →
      StoreCrashSafe (format blankSystem).st st' (blankSystem.wins 0) (lit ['f'])
        (lit ['h', 'i']) := by
  have hreached : Reached (format blankSystem) := ⟨blankSystem, [], rfl⟩
  have hsafe : ¬ StoreClobbers (format blankSystem).st (blankSystem.wins 0) (lit ['f'])
      (lit ['h', 'i']) := by
    rintro ⟨P, leaf, ht, _, hb⟩
    have htarget : (file_target (format blankSystem).st (blankSystem.wins 0) (lit ['f'])
        (blankSystem.wins 0).cwd_bno).2 = some (1, lit ['f']) := by decide
    cases htarget.symm.trans ht
    rcases hb with ⟨_, _, _, _, _, _, hlen, _⟩ | ⟨_, i, _, hi, hedge, _⟩
    · exact absurd hlen (by decide)
    · have hslot : usedSlot (format blankSystem).st 1 (lit ['f']) = some ⟨0, by decide⟩ := by
        decide +kernel
      cases hslot.symm.trans hi
      exact absurd hedge (by decide)
  exact ⟨hsafe, (store_crash_safe_iff hreached.wellFormed hreached.namesEnd
    hreached.wellFormed.tree.isDir_root (by decide) _ 1).mpr hsafe⟩

/-- Twenty letters, and a run after which the file of the first 19 of them lies behind a
free slot. -/
def longName : List UInt8 := List.replicate 20 'a'.toUInt8

def shadowOps : List Op :=
  [.store 0 ⟨lit ['x'], by decide⟩ [] 1, .store 0 ⟨longName.take 19, by decide⟩ [] 2,
    .remove 0 ⟨lit ['x'], by decide⟩]

/-- The store of the name with 20 letters hides the file. -/
theorem store_crash_hides_file : ∃ (st : FsState) (w : Window) (name data : List UInt8),
    WellFormed st ∧ NamesEnd st.disk ∧ IsDir st.disk w.cwd_bno ∧ 0 ∉ name ∧
    ∃ st', store_file_bytes st w name data 3 = some (0, st') ∧
      ¬ StoreCrashSafe st st' w name data := by
  have hrun : ((run (format blankSystem) shadowOps).bind fun s =>
      (dirOf s.st.disk 1).map fun d => (usedSlot s.st 1 longName,
        find_entry_index (DirBlock.ofDisk d) (longName.take 19) (some 0),
        ((DirBlock.ofDisk d).entries ⟨1, by decide⟩).size,
        (s.wins 0).cwd_bno, decide (storeNeeds 1 ≤ freeAhead s.st))) =
      some (some ⟨0, by decide⟩, some ⟨1, by decide⟩, 0, 1, true) := by decide +kernel
  obtain ⟨s, hs, hd⟩ := Option.bind_eq_some_iff.mp hrun
  obtain ⟨d, hd, hrun⟩ := Option.map_eq_some_iff.mp hd
  simp only [Prod.mk.injEq, decide_eq_true_eq] at hrun
  obtain ⟨hslot, hfind, hsize, hcwd, hroom⟩ := hrun
  have hreached : Reached s := ⟨blankSystem, shadowOps, hs⟩
  have hw : IsDir s.st.disk (s.wins 0).cwd_bno := hcwd ▸ hreached.wellFormed.tree.isDir_root
  have hshadow : Shadows s.st 1 longName [1] := by
    refine ⟨d, _, _, hd, hslot, by decide, by decide, hfind, by decide, 0, ?_⟩
    unfold loadAt
    rw [fileAt_eq_ok.mpr ⟨d, _, hd, hfind, rfl⟩]
    dsimp only
    rw [hsize]
    simp [loadOf]
  have hclobbers : StoreClobbers s.st (s.wins 0) longName [1] :=
    ⟨1, longName, by rw [hcwd]; rfl, hroom, Or.inl hshadow⟩
  exact ⟨s.st, s.wins 0, longName, [1], hreached.wellFormed, hreached.namesEnd, hw, by decide,
    hclobbers.not_safe hreached.wellFormed hw (by decide) 3⟩

end

end vibeos.fs
