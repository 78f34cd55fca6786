-- The two loaders of fs.c walk the chain of a file alike, but only one of them compares the bytes
-- that it copied with the size of the entry. They agree on the files whose chain carries the size.
import Vibeos.AppFsSpecs

namespace vibeos.fs

section

variable [BuildConfig]

/-! ## Agreement -/

/-- The blocks from `bno` on carry `size` bytes: a data block its payload, and a block without the
data magic a whole block, behind which nothing follows. -/
inductive Carries (disk : Disk) : Nat → Nat → Prop
  | nothing {bno : Nat} : Carries disk 0 bno
  | data {size bno : Nat} {d : DataBlock} : bno ≠ 0 → disk bno = .data d →
      Carries disk (size - FS_DATA_PAYLOAD) d.next_bno → Carries disk size bno
  | other {size bno : Nat} : bno ≠ 0 → (∀ d, disk bno ≠ .data d) → size ≤ BSIZE →
      Carries disk size bno

def EntryOf (st : FsState) (w : Window) (name : List UInt8) (e : FileEntry) : Prop :=
  (load_entry st w name).2 = .ok e

/-- Both loaders succeed on the same files, with the same bytes, and with no fewer than the size
of the entry. -/
structure LoadersAgree (malloc : Nat → Bool) (st : FsState) (w : Window) (name : List UInt8)
    (max_size : Nat) : Prop where
  same : ∀ bytes, load_file_bytes st w name max_size = (0, bytes) ↔
    load_file_bytes_alloc malloc st w name = (0, bytes)
  whole : ∀ e bytes, EntryOf st w name e → load_file_bytes st w name max_size = (0, bytes) →
    e.size ≤ bytes.length
  whole_alloc : ∀ e bytes, EntryOf st w name e →
    load_file_bytes_alloc malloc st w name = (0, bytes) → e.size ≤ bytes.length

/-! ## The walk over the chain -/

omit [BuildConfig] in
theorem length_entry_bytes (e : FileEntry) : e.bytes.length = sizeofFileEntry := by
  simp [FileEntry.bytes, length_le32, le16, e.name.property, sizeofFileEntry]

omit [BuildConfig] in
theorem length_block_bytes (b : Block) : b.bytes.length = BSIZE := by
  cases b with
  | dir d =>
    have hslots : ((List.finRange DIR_SLOTS).flatMap fun i => (d.slots i).bytes).length =
        DIR_SLOTS * sizeofFileEntry := by
      rw [List.length_flatMap]
      simp [length_entry_bytes]
    simp only [Block.bytes, List.length_append, length_le32, hslots, d.edge.property]
    rfl
  | data d =>
    simp only [Block.bytes, List.length_append, length_le32, d.data.property]
    rfl
  | raw r => exact r.bytes.property

omit [BuildConfig] in
theorem load_loop_data {disk : Disk} {size bno : Nat} {d : DataBlock} (hsize : size ≠ 0)
    (hbno : bno ≠ 0) (hd : disk bno = .data d) :
    load_loop disk size bno = d.data.val.take (min size FS_DATA_PAYLOAD) ++
      load_loop disk (size - FS_DATA_PAYLOAD) d.next_bno := by
  have hrest : size - min size FS_DATA_PAYLOAD = size - FS_DATA_PAYLOAD := by omega
  rw [load_loop, dif_neg (by simp [hsize, hbno]), hd, ← hrest]

omit [BuildConfig] in
theorem load_loop_other {disk : Disk} {size bno : Nat} (hsize : size ≠ 0) (hbno : bno ≠ 0)
    (hother : ∀ d, disk bno ≠ .data d) :
    load_loop disk size bno = (disk bno).bytes.take (min size BSIZE) := by
  rw [load_loop, dif_neg (by simp [hsize, hbno])]
  split
  · rename_i d hd
    exact absurd hd (hother d)
  · rfl

omit [BuildConfig] in
theorem carries_iff (disk : Disk) (size bno : Nat) :
    Carries disk size bno ↔ size ≤ (load_loop disk size bno).length := by
  induction size using Nat.strong_induction_on generalizing bno with
  | _ size ih =>
    by_cases hsize : size = 0
    · subst hsize
      exact ⟨fun _ => Nat.zero_le _, fun _ => .nothing⟩
    by_cases hbno : bno = 0
    · subst hbno
      rw [load_loop_nil]
      constructor
      · intro h
        cases h with
        | nothing => exact absurd rfl hsize
        | data h0 _ _ => exact absurd rfl h0
        | other h0 _ _ => exact absurd rfl h0
      · exact fun h => absurd (Nat.le_zero.mp h) hsize
    by_cases hdata : ∃ d, disk bno = .data d
    · obtain ⟨d, hd⟩ := hdata
      have hpayload : 0 < FS_DATA_PAYLOAD := by decide
      have hrest := ih (size - FS_DATA_PAYLOAD) (by omega) d.next_bno
      have hlen : (load_loop disk size bno).length = min size FS_DATA_PAYLOAD +
          (load_loop disk (size - FS_DATA_PAYLOAD) d.next_bno).length := by
        rw [load_loop_data hsize hbno hd, List.length_append, List.length_take,
          d.data.property]
        omega
      rw [hlen]
      constructor
      · intro h
        cases h with
        | nothing => exact absurd rfl hsize
        | data _ hd' hnext =>
          cases hd.symm.trans hd'
          have := hrest.mp hnext
          omega
        | other _ hother _ => exact absurd hd (hother d)
      · exact fun h => .data hbno hd (hrest.mpr (by omega))
    · have hother : ∀ d, disk bno ≠ .data d := fun d hd => hdata ⟨d, hd⟩
      rw [load_loop_other hsize hbno hother, List.length_take, length_block_bytes]
      constructor
      · intro h
        cases h with
        | nothing => exact absurd rfl hsize
        | data _ hd _ => exact absurd hd (hother _)
        | other _ _ hfits => omega
      · exact fun h => .other hbno hother (by omega)

/-! ## The loaders -/

variable {malloc : Nat → Bool} {st : FsState} {w : Window} {name : List UInt8} {max_size : Nat}
  {e : FileEntry}

theorem load_file_bytes_of_entry (he : EntryOf st w name e) (hmax : e.size ≤ max_size) :
    load_file_bytes st w name max_size = (0, load_loop st.disk e.size e.bno) := by
  have hdisk := (load_entry_eq st w name).1
  unfold EntryOf at he
  unfold load_file_bytes
  rcases hl : load_entry st w name with ⟨st', r⟩
  rw [hl] at hdisk he
  dsimp only at hdisk he ⊢
  rw [he]
  dsimp only
  rw [if_neg (by omega), hdisk]

theorem load_file_bytes_alloc_of_entry (he : EntryOf st w name e) :
    load_file_bytes_alloc malloc st w name =
      if malloc (if e.size = 0 then 1 else e.size) = false then (-4, [])
      else if e.bno = 0 then (0, [])
      else if (load_loop st.disk e.size e.bno).length ≠ e.size then (-5, [])
      else (0, load_loop st.disk e.size e.bno) := by
  have hdisk := (load_entry_eq st w name).1
  unfold EntryOf at he
  unfold load_file_bytes_alloc
  rcases hl : load_entry st w name with ⟨st', r⟩
  rw [hl] at hdisk he
  dsimp only at hdisk he ⊢
  rw [he]
  dsimp only
  rw [hdisk]

theorem loaders_of_no_entry (h : ∀ e, ¬ EntryOf st w name e) :
    load_file_bytes st w name max_size = load_file_bytes_alloc malloc st w name := by
  unfold load_file_bytes load_file_bytes_alloc
  unfold EntryOf at h
  rcases hl : load_entry st w name with ⟨st', rc | e⟩
  · rfl
  · exact absurd (congrArg Prod.snd hl) (h e)

/-- The loaders agree on a file exactly when the heap has room for it and its chain carries the
size of its entry. -/
theorem loaders_agree_iff (malloc : Nat → Bool) (st : FsState) (w : Window) (name : List UInt8)
    (max_size : Nat) (hmax : ∀ e, EntryOf st w name e → e.size ≤ max_size) :
    LoadersAgree malloc st w name max_size ↔ ∀ e, EntryOf st w name e →
      malloc (if e.size = 0 then 1 else e.size) = true ∧ Carries st.disk e.size e.bno := by
  constructor
  · intro h e he
    have hload := load_file_bytes_of_entry he (hmax e he)
    have halloc := (h.same _).mp hload
    rw [load_file_bytes_alloc_of_entry he] at halloc
    refine ⟨?_, (carries_iff _ _ _).mpr (h.whole e _ he hload)⟩
    by_contra hmalloc
    rw [if_pos (Bool.eq_false_iff.mpr hmalloc)] at halloc
    exact absurd (Prod.mk.inj halloc).1 (by decide)
  · intro h
    by_cases hentry : ∃ e, EntryOf st w name e
    · obtain ⟨e, he⟩ := hentry
      obtain ⟨hmalloc, hcarries⟩ := h e he
      have hlen := (carries_iff _ _ _).mp hcarries
      have hle := length_load_loop_le st.disk e.size e.bno
      have hload := load_file_bytes_of_entry he (hmax e he)
      have halloc : load_file_bytes_alloc malloc st w name =
          (0, load_loop st.disk e.size e.bno) := by
        rw [load_file_bytes_alloc_of_entry he, if_neg (by rw [hmalloc]; decide),
          if_neg (by omega : ¬ (load_loop st.disk e.size e.bno).length ≠ e.size)]
        split
        · rename_i hbno
          rw [hbno, load_loop_nil]
        · rfl
      have hwhole : ∀ e' bytes, EntryOf st w name e' →
          ((0 : Int), load_loop st.disk e.size e.bno) = (0, bytes) → e'.size ≤ bytes.length := by
        intro e' bytes he' heq
        cases Except.ok.inj (he.symm.trans he')
        rw [← (Prod.mk.inj heq).2]
        exact hlen
      exact ⟨fun bytes => by rw [hload, halloc], fun e' bytes he' => by
        rw [hload]; exact hwhole e' bytes he', fun e' bytes he' => by
        rw [halloc]; exact hwhole e' bytes he'⟩
    · have hnone : ∀ e, ¬ EntryOf st w name e := fun e he => hentry ⟨e, he⟩
      exact ⟨fun bytes => by rw [loaders_of_no_entry hnone],
        fun e _ he => absurd he (hnone e), fun e _ he => absurd he (hnone e)⟩

end

section

attribute [local instance] fpgaBuild

/-- The entry of a file `f` whose data starts in block 60. -/
def fileF (size : Nat) : FileEntry :=
  { FileEntry.zero with name := copy_name20 (Bytes.zero 20) (lit ['f']), bno := 60, size := size }

/-- A directory with the file `f` only. -/
def oneBlockDir (size : Nat) : DiskDir :=
  ⟨0, fun i => if i.val = 0 then fileF size else .zero, Bytes.zero EDGE_BYTES⟩

/-- A root directory with the file `f` only, and one data block behind it. -/
def oneBlock (size : Nat) : FsState where
  disk := fun b =>
    if b = 1 then .dir (oneBlockDir size)
    else if b = 60 then .data ⟨0, Bytes.zero FS_DATA_PAYLOAD⟩
    else .raw .zero
  writes := []
  fs_block_map := reservedMap
  next_free_block := 60
  fs_alloc_ready := false
  hint_ge := hint_start

theorem entryOf_oneBlock (size : Nat) :
    EntryOf (oneBlock size) (blankSystem.wins 0) (lit ['f']) (fileF size) := by
  have htarget : (file_target (oneBlock size) (blankSystem.wins 0) (lit ['f']) 1).2 =
      some (1, lit ['f']) := rfl
  have hfind : find_entry_index (DirBlock.ofDisk (oneBlockDir size)) (lit ['f']) (some 0) =
      some ⟨0, by decide⟩ := by
    refine find_entry_index_eq_some.mpr ⟨⟨rfl, ?_, rfl⟩, fun j hj => absurd hj (Nat.not_lt_zero _)⟩
    rintro t ⟨⟩
    rfl
  unfold EntryOf
  rw [(load_entry_eq _ _ _).2, show (blankSystem.wins 0).cwd_bno = 1 from rfl, htarget]
  dsimp only
  unfold fileAt
  rw [show dirOf (oneBlock size).disk 1 = some (oneBlockDir size) from rfl]
  dsimp only
  rw [hfind]
  rfl

/-- A file of 3 bytes in a block. -/
theorem loaders_agree_iff_small :
    LoadersAgree (fun _ => true) (oneBlock 3) (blankSystem.wins 0) (lit ['f']) 4096 := by
  have hentry := entryOf_oneBlock 3
  have hown : ∀ e, EntryOf (oneBlock 3) (blankSystem.wins 0) (lit ['f']) e → e = fileF 3 :=
    fun e he => (Except.ok.inj (hentry.symm.trans he)).symm
  refine (loaders_agree_iff _ _ _ _ 4096 fun e he => ?_).mpr fun e he => ?_
  · rw [hown e he]
    decide
  · rw [hown e he]
    exact ⟨rfl, .data (by decide) rfl .nothing⟩

/-- The chain of a file of 5000 bytes ends behind its first block: one loader reports success with
4088 bytes, the other reports an error. -/
theorem short_chain_loads :
    load_file_bytes (oneBlock 5000) (blankSystem.wins 0) (lit ['f']) 5000 =
        (0, List.replicate 4088 0) ∧
      load_file_bytes_alloc (fun _ => true) (oneBlock 5000) (blankSystem.wins 0) (lit ['f']) =
        (-5, []) ∧
      ¬ LoadersAgree (fun _ => true) (oneBlock 5000) (blankSystem.wins 0) (lit ['f']) 5000 := by
  have hentry := entryOf_oneBlock 5000
  have hbytes : load_loop (oneBlock 5000).disk 5000 60 = List.replicate 4088 0 := by
    rw [load_loop_data (by decide) (by decide) (d := ⟨0, Bytes.zero FS_DATA_PAYLOAD⟩) rfl,
      load_loop_nil, List.append_nil]
    exact List.take_replicate
  have hload := load_file_bytes_of_entry hentry (Nat.le_refl 5000)
  have halloc := @load_file_bytes_alloc_of_entry _ (fun _ => true) _ _ _ _ hentry
  rw [show (fileF 5000).size = 5000 from rfl, show (fileF 5000).bno = 60 from rfl, hbytes]
    at hload halloc
  rw [List.length_replicate] at halloc
  refine ⟨hload, halloc, fun h => ?_⟩
  have hsame := (h.same _).mp hload
  rw [halloc] at hsame
  cases hsame

end

end vibeos.fs
