-- The walks of fs.c over the links of a disk, as loops without a bound of their own. All but
-- fs_free_chain end on every disk.
import Vibeos.Loops
import Vibeos.FsOps
import Vibeos.AllocSpecs

namespace vibeos.fs

open LinkChain

section

variable [BuildConfig]

/-! ## The loops -/

def freeChainTurn (s : FsState × Nat) : (FsState × Nat) ⊕ FsState :=
  if s.2 ≠ 0 then .inl (bfree s.1 s.2, nextOf s.1.disk s.2) else .inr s.1

/-- The variables of `fs_scan_chain`, with the bitmap. -/
structure ChainScan where
  bno : Nat
  guard : Nat
  map : Nat → Bool

def scanChainTurn (disk : Disk) (s : ChainScan) : ChainScan ⊕ (Nat → Bool) :=
  if 60 ≤ s.bno ∧ s.bno < FS_MAX_BLOCKS ∧ s.guard < FS_MAX_BLOCKS then
    if fs_block_is_used s.map s.bno then .inr s.map
    else
      let map := fs_block_set_used s.map s.bno
      match disk s.bno with
      | .data d =>
        if d.next_bno = 0 ∨ d.next_bno = s.bno then .inr map
        else .inl ⟨d.next_bno, s.guard + 1, map⟩
      | _ => .inr map
  else .inr s.map

structure ChainLoad where
  remaining : Nat
  bno : Nat
  copied : List UInt8

/-- A turn of the loop of `load_file_bytes`. -/
def loadTurn (disk : Disk) (s : ChainLoad) : ChainLoad ⊕ List UInt8 :=
  if 0 < s.remaining ∧ s.bno ≠ 0 then
    match disk s.bno with
    | .data d =>
      let chunk := min s.remaining FS_DATA_PAYLOAD
      .inl ⟨s.remaining - chunk, d.next_bno, s.copied ++ d.data.val.take chunk⟩
    | b =>
      let chunk := min s.remaining BSIZE
      .inl ⟨s.remaining - chunk, 0, s.copied ++ b.bytes.take chunk⟩
  else .inr s.copied

/-- A turn of `fs_dir_is_ancestor`, with `child_bno` and `guard`. -/
def ancestorTurn (st : FsState) (ancestor_bno : Nat) (s : Nat × Nat) : (Nat × Nat) ⊕ Bool :=
  if s.1 ≠ 0 ∧ s.2 < 64 then
    if s.1 = ancestor_bno then .inr true
    else if s.1 = 1 then .inr false
    else
      match fs_load_dir_block st s.1 with
      | none => .inr false
      | some db => .inl (orRoot db.parent_bno, s.2 + 1)
  else .inr false

/-! ## The recursion -/

mutual

/-- A finished call `fs_scan_dir(bno, depth)`: the bitmap before and behind it. -/
inductive ScanDir (disk : Disk) : Nat → Nat → (Nat → Bool) → (Nat → Bool) → Prop
  | outside {bno depth map} : bno = 0 ∨ FS_MAX_BLOCKS ≤ bno ∨ 32 < depth →
      ScanDir disk bno depth map map
  | seen {bno depth map} : 0 < depth → fs_block_is_used map bno = true →
      ScanDir disk bno depth map map
  | other {bno depth map} : dirOf disk bno = none → ScanDir disk bno depth map map
  | dir {bno depth map map' d} : ¬ (bno = 0 ∨ FS_MAX_BLOCKS ≤ bno ∨ 32 < depth) →
      ¬ (0 < depth ∧ fs_block_is_used map bno = true) → dirOf disk bno = some d →
      ScanEntries disk (DirBlock.ofDisk d) depth (List.finRange MAX_DIR_ENTRIES)
        (fs_block_set_used map bno) map' →
      ScanDir disk bno depth map map'

/-- The finished loop of `fs_scan_dir` over the entries of a list. -/
inductive ScanEntries (disk : Disk) : DirBlock → Nat → List (Fin MAX_DIR_ENTRIES) →
    (Nat → Bool) → (Nat → Bool) → Prop
  | done {db depth map} : ScanEntries disk db depth [] map map
  | free {db depth i l map map'} : (db.entries i).inUse = false →
      ScanEntries disk db depth l map map' → ScanEntries disk db depth (i :: l) map map'
  | dir {db depth i l map map' map''} : (db.entries i).inUse = true → (db.entries i).type = 1 →
      ScanDir disk (db.entries i).bno (depth + 1) map map' →
      ScanEntries disk db depth l map' map'' → ScanEntries disk db depth (i :: l) map map''
  | file {db depth i l map map' map'' turns} : (db.entries i).inUse = true →
      (db.entries i).type ≠ 1 →
      Loop (scanChainTurn disk) ⟨(db.entries i).bno, 0, map⟩ turns map' →
      ScanEntries disk db depth l map' map'' → ScanEntries disk db depth (i :: l) map map''

end

/-! ## Ends -/

theorem scan_chain_ends (disk : Disk) (s : ChainScan) : ∃ turns, Loop (scanChainTurn disk) s turns
    (fs_scan_chain disk (FS_MAX_BLOCKS - s.guard) s.bno s.map) := by
  refine Loop.of_rank (fun s => FS_MAX_BLOCKS - s.guard)
    (fun s => fs_scan_chain disk (FS_MAX_BLOCKS - s.guard) s.bno s.map) ?_ ?_ s
  · intro s s' hturn
    unfold scanChainTurn at hturn
    split at hturn
    · rename_i hin
      obtain ⟨n, hn⟩ : ∃ n, FS_MAX_BLOCKS - s.guard = n + 1 :=
        ⟨FS_MAX_BLOCKS - s.guard - 1, by omega⟩
      split at hturn
      · cases hturn
      · rename_i hfree
        dsimp only at hturn
        split at hturn
        · rename_i d hd
          split at hturn
          · cases hturn
          · rename_i hnext
            cases hturn
            have hrest : FS_MAX_BLOCKS - (s.guard + 1) = n := by omega
            refine ⟨by dsimp only; omega, ?_⟩
            dsimp only
            rw [hn, hrest]
            conv_rhs => rw [fs_scan_chain, if_pos ⟨hin.1, hin.2.1⟩, if_neg hfree]
            rw [hd]
            dsimp only
            rw [if_neg hnext]
        · cases hturn
    · cases hturn
  · intro s r hturn
    unfold scanChainTurn at hturn
    split at hturn
    · rename_i hin
      obtain ⟨n, hn⟩ : ∃ n, FS_MAX_BLOCKS - s.guard = n + 1 :=
        ⟨FS_MAX_BLOCKS - s.guard - 1, by omega⟩
      rw [hn, fs_scan_chain, if_pos ⟨hin.1, hin.2.1⟩]
      split at hturn
      · rename_i hused
        cases hturn
        rw [if_pos hused]
      · rename_i hfree
        rw [if_neg hfree]
        dsimp only at hturn ⊢
        generalize disk s.bno = b at hturn ⊢
        cases b with
        | data d =>
          dsimp only at hturn ⊢
          split at hturn
          · rename_i hnext
            cases hturn
            exact if_pos hnext
          · cases hturn
        | dir d =>
          cases hturn
          rfl
        | raw r =>
          cases hturn
          rfl
    · rename_i hout
      cases hturn
      rcases hn : FS_MAX_BLOCKS - s.guard with _ | n
      · rfl
      · rw [fs_scan_chain, if_neg (by omega)]

omit [BuildConfig] in
theorem load_ends (disk : Disk) (s : ChainLoad) :
    ∃ turns, Loop (loadTurn disk) s turns (s.copied ++ load_loop disk s.remaining s.bno) := by
  refine Loop.of_rank (fun s => s.remaining)
    (fun s => s.copied ++ load_loop disk s.remaining s.bno) ?_ ?_ s
  · intro s s' hturn
    unfold loadTurn at hturn
    split at hturn
    · rename_i hin
      have hpayload : 0 < FS_DATA_PAYLOAD := by decide
      have hsize : 0 < BSIZE := by decide
      dsimp only at hturn
      split at hturn
      · rename_i d hd
        cases hturn
        refine ⟨by dsimp only; omega, ?_⟩
        dsimp only
        conv_rhs => rw [load_loop, dif_neg (by omega), hd]
        rw [List.append_assoc]
      · rename_i hother
        cases hturn
        refine ⟨by dsimp only; omega, ?_⟩
        dsimp only
        rw [load_loop, dif_pos (Or.inr rfl), List.append_nil]
        conv_rhs => rw [load_loop, dif_neg (by omega)]
        split
        · rename_i d hd
          exact absurd hd (hother d)
        · rfl
    · cases hturn
  · intro s r hturn
    unfold loadTurn at hturn
    split at hturn
    · dsimp only at hturn
      split at hturn <;> cases hturn
    · rename_i hout
      cases hturn
      rw [load_loop, dif_pos (by omega), List.append_nil]

theorem ancestor_ends (st : FsState) (ancestor_bno : Nat) (s : Nat × Nat) :
    ∃ turns, Loop (ancestorTurn st ancestor_bno) s turns
      (fs_dir_is_ancestor_loop st ancestor_bno (64 - s.2) s.1) := by
  refine Loop.of_rank (fun s => 64 - s.2)
    (fun s => fs_dir_is_ancestor_loop st ancestor_bno (64 - s.2) s.1) ?_ ?_ s
  · intro s s' hturn
    unfold ancestorTurn at hturn
    split at hturn
    · rename_i hin
      obtain ⟨n, hn⟩ : ∃ n, 64 - s.2 = n + 1 := ⟨64 - s.2 - 1, by omega⟩
      split at hturn
      · cases hturn
      rename_i hself
      split at hturn
      · cases hturn
      rename_i hroot
      split at hturn
      · cases hturn
      · rename_i db hdb
        cases hturn
        have hrest : 64 - (s.2 + 1) = n := by omega
        refine ⟨by dsimp only; omega, ?_⟩
        dsimp only
        rw [hn, hrest]
        conv_rhs => rw [fs_dir_is_ancestor_loop, if_neg hin.1, if_neg hself, if_neg hroot, hdb]
    · cases hturn
  · intro s r hturn
    unfold ancestorTurn at hturn
    split at hturn
    · rename_i hin
      obtain ⟨n, hn⟩ : ∃ n, 64 - s.2 = n + 1 := ⟨64 - s.2 - 1, by omega⟩
      rw [hn, fs_dir_is_ancestor_loop, if_neg hin.1]
      split at hturn
      · rename_i hself
        cases hturn
        exact if_pos hself
      rename_i hself
      rw [if_neg hself]
      split at hturn
      · rename_i hroot
        cases hturn
        exact if_pos hroot
      rename_i hroot
      rw [if_neg hroot]
      generalize fs_load_dir_block st s.1 = db at hturn ⊢
      cases db with
      | none =>
        cases hturn
        rfl
      | some db => cases hturn
    · rename_i hout
      cases hturn
      rcases hn : 64 - s.2 with _ | n
      · rfl
      · rw [fs_dir_is_ancestor_loop, if_pos (by omega)]

theorem scan_entries_end (disk : Disk) (db : DirBlock) (depth : Nat)
    (hdown : ∀ bno map, ScanDir disk bno (depth + 1) map (fs_scan_dir disk bno (depth + 1) map))
    (l : List (Fin MAX_DIR_ENTRIES)) (map : Nat → Bool) :
    ScanEntries disk db depth l map (l.foldl
      (fun map i =>
        if ¬ (db.entries i).inUse then map
        else if (db.entries i).type = 1 then fs_scan_dir disk (db.entries i).bno (depth + 1) map
        else fs_scan_chain disk FS_MAX_BLOCKS (db.entries i).bno map) map) := by
  induction l generalizing map with
  | nil => exact .done
  | cons i l ih =>
    rw [List.foldl_cons]
    by_cases huse : (db.entries i).inUse = true
    · rw [if_neg (not_not_intro huse)]
      by_cases htype : (db.entries i).type = 1
      · rw [if_pos htype]
        exact .dir huse htype (hdown _ _) (ih _)
      · rw [if_neg htype]
        obtain ⟨turns, hchain⟩ := scan_chain_ends disk ⟨(db.entries i).bno, 0, map⟩
        exact .file huse htype hchain (ih _)
    · rw [if_pos huse]
      exact .free (Bool.eq_false_iff.mpr huse) (ih _)

theorem scan_dir_ends (disk : Disk) (bno depth : Nat) (map : Nat → Bool) :
    ScanDir disk bno depth map (fs_scan_dir disk bno depth map) := by
  induction hn : 33 - depth using Nat.strongRecOn generalizing bno depth map with
  | ind n ih =>
    rw [fs_scan_dir]
    split
    · exact .outside ‹_›
    rename_i hout
    split
    · rename_i hseen
      exact .seen hseen.1 hseen.2
    rename_i hseen
    rcases hd : dirOf disk bno with _ | d
    · exact .other hd
    · exact .dir hout hseen hd (scan_entries_end disk _ depth
        (fun bno map => ih (33 - (depth + 1)) (by omega) bno (depth + 1) map rfl) _ _)

/-! ## The loop that frees a chain -/

theorem free_chain_runs {st : FsState} {bno : Nat} {l : List Nat}
    (h : Chain 0 (nextOf st.disk) bno l) : ∃ turns, Loop freeChainTurn (st, bno) turns
      (freeAll st l) ∧ turns.map Prod.snd = l := by
  induction l generalizing st bno with
  | nil =>
    cases h
    exact ⟨[], .leave (if_neg (by simp)), rfl⟩
  | cons b l ih =>
    cases h with
    | cell hb hrest =>
      have hdisk := bfree_disk st b
      obtain ⟨turns, hturns, hl⟩ := @ih (bfree st b) _ (by rwa [hdisk])
      exact ⟨(st, b) :: turns, .turn (if_pos hb) hturns, congrArg (b :: ·) hl⟩

theorem chain_of_free_chain {s : FsState × Nat} {turns : List (FsState × Nat)} {st' : FsState}
    (h : Loop freeChainTurn s turns st') :
    Chain 0 (nextOf s.1.disk) s.2 (turns.map Prod.snd) := by
  induction h with
  | @leave s r hr =>
    unfold freeChainTurn at hr
    split at hr
    · cases hr
    · rename_i hb
      rw [not_not.mp hb]
      exact .stop
  | @turn s s' l r ht _ ih =>
    unfold freeChainTurn at ht
    split at ht
    · rename_i hb
      cases ht
      dsimp only at ih
      rw [bfree_disk] at ih
      exact .cell hb ih
    · cases ht

/-! ## All walks -/

/-- The walks from any place of the disk end, and so does the loop that frees the chain from
`bno`, which asks the disk for its own blocks only and frees no other block. -/
structure WalksEnd (st : FsState) (bno : Nat) : Prop where
  free_chain : ∃ turns st', Loop freeChainTurn (st, bno) turns st' ∧
    (∀ s ∈ turns, s.2 < FS_MAX_BLOCKS) ∧
    ∀ b, st'.fs_block_map b ≠ st.fs_block_map b → 60 ≤ b ∧ b < FS_MAX_BLOCKS
  scan_chain : ∀ b map, ∃ turns, Loop (scanChainTurn st.disk) ⟨b, 0, map⟩ turns
    (fs_scan_chain st.disk FS_MAX_BLOCKS b map)
  scan_dir : ∀ b depth map, ScanDir st.disk b depth map (fs_scan_dir st.disk b depth map)
  load : ∀ size b, ∃ turns, Loop (loadTurn st.disk) ⟨size, b, []⟩ turns
    (load_loop st.disk size b)
  ancestor : ∀ a c, ∃ turns, Loop (ancestorTurn st a) (c, 0) turns (fs_dir_is_ancestor st a c)

/-- All walks end exactly on the chains that end and have their blocks on the disk: only
`fs_free_chain` needs it. -/
theorem walks_end_iff (st : FsState) (bno : Nat) : WalksEnd st bno ↔
    ∃ l, Chain 0 (nextOf st.disk) bno l ∧ ∀ b ∈ l, b < FS_MAX_BLOCKS := by
  constructor
  · rintro ⟨⟨turns, st', hturns, hblocks, -⟩, -⟩
    refine ⟨turns.map Prod.snd, chain_of_free_chain hturns, fun b hb => ?_⟩
    obtain ⟨s, hs, rfl⟩ := List.mem_map.mp hb
    exact hblocks s hs
  · rintro ⟨l, hchain, hblocks⟩
    obtain ⟨turns, hturns, hl⟩ := free_chain_runs hchain
    refine ⟨⟨turns, _, hturns, fun s hs => ?_, fun b hb => ?_⟩, fun b map => ?_,
      scan_dir_ends st.disk, fun size b => ?_, fun a c => ?_⟩
    · exact hblocks s.2 (hl ▸ List.mem_map_of_mem hs)
    · by_contra hout
      refine hb (Bool.eq_iff_iff.mpr ?_)
      rw [freeAll_map]
      exact and_iff_left fun h => hout h.2
    · exact scan_chain_ends st.disk ⟨b, 0, map⟩
    · exact load_ends st.disk ⟨size, b, []⟩
    · exact ancestor_ends st a (c, 0)

end

/-! ## A chain that comes back -/

section

attribute [local instance] fpgaBuild

/-- A disk on which every block links to block 60. -/
def cyclic : FsState where
  disk := fun _ => .data ⟨60, Bytes.zero FS_DATA_PAYLOAD⟩
  writes := []
  fs_block_map := fun _ => true
  next_free_block := 60
  fs_alloc_ready := true
  hint_ge := hint_start

theorem cyclic_never_freed : ¬ WalksEnd cyclic 60 := by
  rintro ⟨⟨turns, st', hturns, -⟩, -⟩
  refine Loop.not_of_stays (P := fun s => s.1.disk = cyclic.disk ∧ s.2 = 60) ?_ ⟨rfl, rfl⟩ hturns
  rintro ⟨st, b⟩ ⟨hdisk, rfl⟩
  refine ⟨_, if_pos (show (60 : Nat) ≠ 0 by decide), (bfree_disk st 60).trans hdisk, ?_⟩
  dsimp only at hdisk ⊢
  rw [hdisk]
  rfl

end

end vibeos.fs
