-- What the completion does with the names of a directory and with those of the server, and when its
-- buffers hold.
import Vibeos.TabWords

namespace vibeos.tab

open wget (ascii)
open ssh (Text COLS)
open terminal (Prompt Holds LINE_MAX OUT_BUF_SIZE word_start word_end)
open fs (slash cstr FsState DirBlock MAX_DIR_ENTRIES BuildConfig find_entry_index)
open Copy (into scan into_of_lt into_of_le into_bind_of_lt scan_cons scan_cons_of_le)

/-! ## A directory -/

/-- The entry is in use, and its name starts with the leaf. -/
def StartsWith (db : DirBlock) (leaf : Text) (i : Fin MAX_DIR_ENTRIES) : Prop :=
  (db.entries i).inUse = true ∧ leaf <+: (db.entries i).nameStr

section

variable {db : DirBlock} {leaf : Text} {i : Fin MAX_DIR_ENTRIES}

theorem mem_matching : i ∈ matching db leaf none ↔ StartsWith db leaf i := by
  unfold matching StartsWith
  rw [List.mem_filter, Option.all_none, Bool.and_true, Bool.and_eq_true, List.isPrefixOf_iff_prefix]
  exact and_iff_right (List.mem_finRange i)

theorem nodup_matching : (matching db leaf none).Nodup := (List.nodup_finRange _).filter _

theorem matching_eq_singleton (h : ∀ j, StartsWith db leaf j ↔ j = i) :
    matching db leaf none = [i] := by
  have hmem : ∀ j, j ∈ matching db leaf none ↔ j = i := fun j => mem_matching.trans (h j)
  apply List.perm_singleton.mp
  apply (List.perm_ext_iff_of_nodup nodup_matching (List.nodup_singleton i)).mpr
  exact fun j => (hmem j).trans List.mem_singleton.symm

theorem startsWith_iff (h : matching db leaf none = [i]) (j : Fin MAX_DIR_ENTRIES) :
    StartsWith db leaf j ↔ j = i := by
  rw [← mem_matching, h, List.mem_singleton]

theorem find_leaf_none (h : matching db leaf none = []) (type_filter : Option Nat) :
    find_entry_index db leaf type_filter = none := by
  rw [fs.find_entry_index_eq_none]
  rintro j ⟨huse, -, hname⟩
  have hmem : j ∈ matching db leaf none := mem_matching.mpr ⟨huse, by rw [hname]⟩
  rw [h] at hmem
  exact List.not_mem_nil hmem

theorem find_only (h : ∀ j, StartsWith db leaf j ↔ j = i) :
    (find_entry_index db (db.entries i).nameStr (some 1)).isSome ↔ (db.entries i).type = 1 := by
  obtain ⟨huse, hprefix⟩ := (h i).mpr rfl
  constructor
  · intro hsome
    obtain ⟨j, hj⟩ := Option.isSome_iff_exists.mp hsome
    obtain ⟨⟨hused, htype, hname⟩, -⟩ := fs.find_entry_index_eq_some.mp hj
    have hji : j = i := (h j).mp ⟨hused, by rw [hname]; exact hprefix⟩
    rw [← hji]
    exact htype 1 rfl
  · intro htype
    rw [← Option.ne_none_iff_isSome]
    intro hnone
    exact fs.find_entry_index_eq_none.mp hnone i
      ⟨huse, fun t ht => by rw [← Option.some.inj ht]; exact htype, rfl⟩

end

def names (db : DirBlock) (bno : Nat) (leaf : Text) : List Text :=
  ((matching db leaf none).map fun i => (db.entries i).nameStr) ++ virtual_names bno leaf none

/-- What the names are completed to. -/
def offer (db : DirBlock) (bno : Nat) (dir_part : Text) : List Text → Tab
  | [] => .declined
  | [name] => .replaced (dir_part ++ name ++
      if (find_entry_index db name (some 1)).isSome ∨ (bno = 1 ∧ name = ascii "sftpd") then [slash]
      else [])
  | _ :: _ :: _ => .listed

/-- The first of the names, which is copied, ends in its 20 bytes. -/
def FirstFits (found : List Text) : Prop := ∀ name ∈ found.head?, name.length < 20

theorem complete_in_listed (db : DirBlock) (bno : Nat) (dir_part : Text) :
    complete_in db bno dir_part [] none = some .listed := by
  unfold complete_in
  rw [if_pos rfl, into_bind_of_lt (length_list_dir db bno)]
  rfl

section

variable {db : DirBlock} {bno : Nat} {dir_part leaf : Text}

theorem matching_nil (h : names db bno leaf = []) : matching db leaf none = [] :=
  List.map_eq_nil_iff.mp (List.append_eq_nil_iff.mp h).1

theorem complete_in_none (hleaf : leaf ≠ []) (h : ¬ FirstFits (names db bno leaf)) :
    complete_in db bno dir_part leaf none = none := by
  unfold complete_in
  rw [if_neg hleaf]
  change (scan 20 (names db bno leaf) >>= _) = none
  cases hnames : names db bno leaf with
  | nil =>
    rw [hnames] at h
    exact absurd (fun name hname => (nomatch hname)) h
  | cons name rest =>
    rw [hnames] at h
    have hle : 20 ≤ name.length := by
      by_contra hlt
      apply h
      intro first hfirst
      cases hfirst
      exact Nat.not_le.mp hlt
    rw [scan_cons_of_le rest hle]
    rfl

theorem complete_in_eq (hdir : dir_part.length ≤ LINE_MAX + 1) (hleaf : leaf ≠ [])
    (h : FirstFits (names db bno leaf)) :
    complete_in db bno dir_part leaf none = some (offer db bno dir_part (names db bno leaf)) := by
  have hmax : LINE_MAX = 87 := rfl
  have hempty := @matching_nil db bno leaf
  unfold complete_in
  rw [if_neg hleaf]
  change (scan 20 (names db bno leaf) >>= _) = _
  generalize hnames : names db bno leaf = found at h hempty ⊢
  match found with
  | [] =>
    have hnone := find_leaf_none (hempty rfl) (some 1)
    change (if (find_entry_index db leaf (some 1)).isSome then _ else (some Tab.declined)) = _
    rw [hnone]
    rfl
  | [name] =>
    have hname : name.length < 20 := h name rfl
    have hsize : (dir_part ++ name).length < 159 := by
      rw [List.length_append]
      omega
    rw [scan_cons [] hname]
    change (into 160 dir_part >>= _) = _
    rw [into_bind_of_lt (by omega), into_bind_of_lt (show (dir_part ++ name).length < 160 by omega)]
    unfold offer
    dsimp only
    split
    · have hslash : (dir_part ++ name ++ [slash]).length < 160 := by
        rw [List.length_append, List.length_singleton]
        omega
      rw [into_bind_of_lt hslash]
      rfl
    · rw [List.append_nil]
      rfl
  | name :: other :: rest =>
    have hname : name.length < 20 := h name rfl
    rw [scan_cons (other :: rest) hname]
    have hlisting := length_dir_entries db (ascii "Possibilities:\n") leaf none (by decide)
    have hmany : (other :: rest).length + 1 > 1 := Nat.succ_lt_succ (Nat.succ_pos _)
    dsimp only [Option.bind_eq_bind, Option.bind_some]
    rw [if_pos hmany, into_of_lt (by omega)]
    rfl

end

/-! ## A local word -/

section

variable [BuildConfig] {st : FsState} {w : TabWindow} {word : Text}

/-- The directory of a word, with its block. -/
def localDir (st : FsState) (w : TabWindow) (word : Text) : Option (Nat × DirBlock) :=
  match target_dir st w (wordParts word).1 with
  | (_, none) => none
  | (st, some (b, _)) => (fs.load_current_dir st b).2.map fun db => (b, db)

/-- The buffers hold: the leaf has at most 31 characters, the path of the directory at most 127, and
the first name that starts with the leaf ends in its 20 bytes. -/
structure LocalSafe (st : FsState) (w : TabWindow) (word : Text) : Prop where
  leaf : (wordParts word).2.length < 32
  path : ∀ b cwd, (target_dir st w (wordParts word).1).2 = some (b, cwd) → cwd.length < 128
  first : ∀ b db, localDir st w word = some (b, db) → (wordParts word).2 ≠ [] →
    FirstFits (names db b (wordParts word).2)

/-- There is no such directory, or none of its names starts with the leaf. -/
def LocalDeclines (st : FsState) (w : TabWindow) (word : Text) : Prop :=
  ∀ b db, localDir st w word = some (b, db) →
    (wordParts word).2 ≠ [] ∧ names db b (wordParts word).2 = []

/-- What a directory does for the leaf of a word. -/
def localTab (word : Text) : Option (Nat × DirBlock) → Tab
  | none => .declined
  | some (b, db) =>
    if (wordParts word).2 = [] then .listed
    else offer db b (wordParts word).1 (names db b (wordParts word).2)

theorem localTab_declined :
    localTab word (localDir st w word) = .declined ↔ LocalDeclines st w word := by
  unfold LocalDeclines
  cases localDir st w word with
  | none => exact iff_of_true rfl fun b db h => (nomatch h)
  | some found =>
    obtain ⟨b, db⟩ := found
    unfold localTab
    dsimp only
    have hoffer : offer db b (wordParts word).1 (names db b (wordParts word).2) = .declined ↔
        names db b (wordParts word).2 = [] := by
      match names db b (wordParts word).2 with
      | [] => exact iff_of_true rfl rfl
      | [name] => exact iff_of_false (fun h => (nomatch h)) (fun h => (nomatch h))
      | _ :: _ :: _ => exact iff_of_false (fun h => (nomatch h)) (fun h => (nomatch h))
    by_cases hleaf : (wordParts word).2 = []
    · rw [if_pos hleaf]
      exact iff_of_false (fun h => (nomatch h)) fun h => (h b db rfl).1 hleaf
    · rw [if_neg hleaf, hoffer]
      constructor
      · intro h b' db' heq
        cases heq
        exact ⟨hleaf, h⟩
      · exact fun h => (h b db rfl).2

theorem target_dir_disk (st : FsState) (w : TabWindow) (dir_part : Text) :
    (target_dir st w dir_part).1.disk = st.disk := by
  unfold target_dir
  split
  · rfl
  · have hdisk := fs.resolve_editor_target_disk st w.dirs
      (fs.terminal_expand_home_path w.dirs.home.bytes dir_part 128)
    dsimp only
    split <;> rename_i h <;> rw [h] at hdisk <;> exact hdisk

theorem tab_complete_local_eq (hword : word.length ≤ LINE_MAX) (h : LocalSafe st w word) :
    ∃ st' : FsState, st'.disk = st.disk ∧
      tab_complete_local st w word none = some (st', localTab word (localDir st w word)) := by
  obtain ⟨hleaf, hpath, hfirst⟩ := h
  have hdir := length_dir_le word
  have htarget := target_dir_disk st w (wordParts word).1
  unfold tab_complete_local
  rw [split_word_eq hword, if_pos hleaf]
  unfold localDir at hfirst ⊢
  dsimp only [Option.bind_eq_bind, Option.bind_some]
  generalize htd : target_dir st w (wordParts word).1 = target at hpath hfirst htarget ⊢
  obtain ⟨st1, found⟩ := target
  cases found with
  | none => exact ⟨st1, htarget, rfl⟩
  | some found =>
    obtain ⟨b, cwd⟩ := found
    have hcwd := hpath b cwd rfl
    dsimp only at hfirst ⊢
    rw [into_of_lt hcwd]
    rw [fs.load_current_dir_eq] at hfirst ⊢
    have hready := (fs.ensure_ready_disk st1).trans htarget
    cases hd : fs.dirOf st1.disk b with
    | none => exact ⟨_, hready, rfl⟩
    | some d =>
      rw [hd] at hfirst
      refine ⟨_, hready, ?_⟩
      unfold localTab
      dsimp only [Option.map_some, Option.bind_some]
      by_cases hnil : (wordParts word).2 = []
      · rw [if_pos hnil, hnil, complete_in_listed]
        rfl
      · rw [if_neg hnil, complete_in_eq (by omega) hnil (hfirst b _ rfl hnil)]
        rfl

theorem tab_complete_local_none (hword : word.length ≤ LINE_MAX) (h : ¬ LocalSafe st w word) :
    tab_complete_local st w word none = none := by
  unfold tab_complete_local
  rw [split_word_eq hword]
  by_cases hleaf : (wordParts word).2.length < 32
  swap
  · rw [if_neg hleaf]
    rfl
  rw [if_pos hleaf]
  dsimp only [Option.bind_eq_bind, Option.bind_some]
  have hfail : ¬ ((∀ b cwd, (target_dir st w (wordParts word).1).2 = some (b, cwd) →
      cwd.length < 128) ∧ ∀ b db, localDir st w word = some (b, db) → (wordParts word).2 ≠ [] →
      FirstFits (names db b (wordParts word).2)) := fun hand => h ⟨hleaf, hand.1, hand.2⟩
  unfold localDir at hfail
  generalize htd : target_dir st w (wordParts word).1 = target at hfail ⊢
  obtain ⟨st1, found⟩ := target
  cases found with
  | none => exact absurd ⟨fun b cwd h => (nomatch h), fun b db h => (nomatch h)⟩ hfail
  | some found =>
    obtain ⟨b, cwd⟩ := found
    dsimp only at hfail ⊢
    by_cases hcwd : cwd.length < 128
    swap
    · rw [into_of_le (Nat.not_lt.mp hcwd)]
      rfl
    rw [into_of_lt hcwd]
    rw [fs.load_current_dir_eq] at hfail ⊢
    have hpath : ∀ b' cwd', some (b, cwd) = some (b', cwd') → cwd'.length < 128 := by
      intro b' cwd' heq
      cases heq
      exact hcwd
    cases hd : fs.dirOf st1.disk b with
    | none =>
      rw [hd] at hfail
      exact absurd ⟨hpath, fun b db h => (nomatch h)⟩ hfail
    | some d =>
      rw [hd] at hfail
      dsimp only [Option.map_some, Option.bind_some] at hfail ⊢
      have hfirst : ¬ ((wordParts word).2 ≠ [] →
          FirstFits (names (DirBlock.ofDisk d) b (wordParts word).2)) := by
        intro hfits
        refine hfail ⟨hpath, fun b' db' heq => ?_⟩
        cases heq
        exact hfits
      obtain ⟨hnil, hlong⟩ := Classical.not_imp.mp hfirst
      rw [complete_in_none hnil hlong]
      rfl

end

end vibeos.tab
