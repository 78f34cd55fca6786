-- The names of the server, and the two sources of names of `tab_complete_name` together: when the
-- buffers hold, and what is done with the word.
import Vibeos.TabNames

namespace vibeos.tab

open wget (ascii)
open ssh (Text COLS)
open terminal (Prompt LINE_MAX OUT_BUF_SIZE)
open fs (slash FsState DirBlock MAX_DIR_ENTRIES BuildConfig)
open Copy (into scan into_of_lt into_of_le into_bind_of_lt scan_cons)

/-! ## A remote word -/

/-- The directory part of a remote word, and its leaf. -/
def sftpParts (word : Text) : Text × Text :=
  match strrchr_split word with
  | some (dir, leaf) => if dir.length = 1 then (ascii "/sftpd/", []) else (dir, leaf)
  | none => (ascii "/sftpd/", [])

/-- A word below the mount point, other than the mount point. -/
def RemoteWord (word : Text) : Prop :=
  path_is_sftp word = true ∧ word ≠ ascii "/sftp" ∧ word ≠ ascii "/sftpd"

def remoteDir (word : Text) : Text := sftp_subpath (sftpParts word).1

/-- The listing of the directory of a remote word, if the server gives one with names. -/
def remoteList (remote : Remote) (word : Text) : Option Text :=
  match remote (remoteDir word) with
  | none => none
  | some names =>
    if ssh_client_sftp_ls names = ascii "(empty)" then none else some (ssh_client_sftp_ls names)

theorem remoteList_line {remote : Remote} {word list_out leaf line : Text}
    (h : remoteList remote word = some list_out) (hline : line ∈ lines_with list_out leaf) :
    (line.drop 2).length < 96 := by
  unfold remoteList at h
  split at h
  · cases h
  · split at h
    · cases h
    · cases h
      exact length_line_lt hline

/-- The buffers hold: the leaf has at most 63 characters, and what is shown of the listing fits
behind its title. -/
structure SftpSafe (remote : Remote) (word : Text) : Prop where
  leaf : RemoteWord word → (sftpParts word).2.length < 64
  listing : RemoteWord word → ∀ list_out, remoteList remote word = some list_out →
    (sftpParts word).2 = [] → (sftp_title ++ list_out).length < OUT_BUF_SIZE
  possible : RemoteWord word → ∀ list_out, remoteList remote word = some list_out →
    (sftpParts word).2 ≠ [] → 1 < (lines_with list_out (sftpParts word).2).length →
    (sftp_title ++ (lines_with list_out (sftpParts word).2).flatMap (· ++ [10])).length <
      OUT_BUF_SIZE

/-- The word is not remote, or the server lists names of which none starts with its leaf. -/
def SftpDeclines (remote : Remote) (word : Text) : Prop :=
  word ≠ ascii "/sftp" ∧ word ≠ ascii "/sftpd" ∧ (path_is_sftp word = true →
    ∃ list_out, remoteList remote word = some list_out ∧ (sftpParts word).2 ≠ [] ∧
      lines_with list_out (sftpParts word).2 = [])

/-- What the lines that start with a leaf are completed to. -/
def remoteOffer (list_out dir_part : Text) : List Text → Tab
  | [] => .declined
  | [line] => .replaced (dir_part ++ line.drop 2 ++
      if is_dir_line list_out (line.drop 2) then [slash] else [])
  | _ :: _ :: _ => .listed

def sftpTab (remote : Remote) (word : Text) : Tab :=
  if word = ascii "/sftp" ∨ word = ascii "/sftpd" then .replaced (word ++ [slash])
  else if !path_is_sftp word then .declined
  else
    match remoteList remote word with
    | none => .listed
    | some list_out =>
      if (sftpParts word).2 = [] then .listed
      else remoteOffer list_out (sftpParts word).1 (lines_with list_out (sftpParts word).2)

theorem sftpTab_declined {remote : Remote} {word : Text} :
    sftpTab remote word = .declined ↔ SftpDeclines remote word := by
  unfold sftpTab SftpDeclines
  by_cases hroot : word = ascii "/sftp" ∨ word = ascii "/sftpd"
  · rw [if_pos hroot]
    refine iff_of_false (fun h => (nomatch h)) fun h => ?_
    exact hroot.elim h.1 h.2.1
  rw [if_neg hroot]
  obtain ⟨h1, h2⟩ := not_or.mp hroot
  rw [← ne_eq] at h1 h2
  by_cases hsftp : path_is_sftp word = true
  swap
  · rw [if_pos (by simpa using hsftp)]
    exact iff_of_true rfl ⟨h1, h2, fun h => absurd h hsftp⟩
  rw [if_neg (by simpa using hsftp)]
  cases hlist : remoteList remote word with
  | none =>
    refine iff_of_false (fun h => (nomatch h)) fun h => ?_
    obtain ⟨_, h, -⟩ := h.2.2 hsftp
    cases h
  | some list_out =>
    dsimp only
    by_cases hnil : (sftpParts word).2 = []
    · rw [if_pos hnil]
      refine iff_of_false (fun h => (nomatch h)) fun h => ?_
      obtain ⟨_, _, hne, -⟩ := h.2.2 hsftp
      exact hne hnil
    rw [if_neg hnil]
    have hoffer : remoteOffer list_out (sftpParts word).1
        (lines_with list_out (sftpParts word).2) = .declined ↔
        lines_with list_out (sftpParts word).2 = [] := by
      match lines_with list_out (sftpParts word).2 with
      | [] => exact iff_of_true rfl rfl
      | [_] => exact iff_of_false (fun h => (nomatch h)) (fun h => (nomatch h))
      | _ :: _ :: _ => exact iff_of_false (fun h => (nomatch h)) (fun h => (nomatch h))
    rw [hoffer]
    constructor
    · exact fun h => ⟨h1, h2, fun _ => ⟨list_out, rfl, hnil, h⟩⟩
    · intro h
      obtain ⟨_, heq, -, hlines⟩ := h.2.2 hsftp
      cases heq
      exact hlines

section

variable {remote : Remote} {word : Text}

theorem length_sftpDir_le (h : word.length ≤ LINE_MAX) : (sftpParts word).1.length ≤ LINE_MAX := by
  unfold sftpParts
  split
  · next dir leaf hsplit =>
    have := length_of_split hsplit
    split
    · decide
    · dsimp only
      omega
  · decide

theorem sftp_split_eq (h : word.length ≤ LINE_MAX) :
    sftp_split word =
      if (sftpParts word).2.length < 64 then some (sftpParts word) else none := by
  have hmax : LINE_MAX = 87 := rfl
  cases hsplit : strrchr_split word with
  | none =>
    have hparts : sftpParts word = (ascii "/sftpd/", []) := by
      unfold sftpParts
      rw [hsplit]
    rw [hparts, sftp_split, hsplit]
    rfl
  | some parts =>
    have hdir := @length_of_split word parts.1 parts.2 hsplit
    by_cases hone : parts.1.length = 1
    · have hparts : sftpParts word = (ascii "/sftpd/", []) := by
        unfold sftpParts
        rw [hsplit]
        exact if_pos hone
      rw [hparts, sftp_split, hsplit]
      exact if_pos hone
    · have hparts : sftpParts word = parts := by
        unfold sftpParts
        rw [hsplit]
        exact if_neg hone
      rw [hparts, sftp_split, hsplit]
      dsimp only
      rw [if_neg hone]
      by_cases hleaf : parts.2.length < 64
      · rw [if_pos hleaf, into_bind_of_lt hleaf, List.take_of_length_le (by omega)]
        rfl
      · rw [if_neg hleaf, into_of_le (Nat.not_lt.mp hleaf)]
        rfl

theorem length_remoteDir (h : word.length ≤ LINE_MAX) : (remoteDir word).length < 128 := by
  have hdir := length_sftpDir_le h
  have hmax : LINE_MAX = 87 := rfl
  generalize hpath : (sftpParts word).1 = path at hdir
  have hdrop : ∀ k : Nat, (path.drop k).length < 128 := by
    intro k
    rw [List.length_drop]
    omega
  have htail : ∀ rest : Text, rest.length < 128 →
      (if rest.head? = some slash then rest.tail else rest).length < 128 := by
    intro rest hrest
    split
    · rw [List.length_tail]
      omega
    · exact hrest
  have hend : ∀ rest : Text, rest.length < 128 →
      (if rest = [] then ascii "." else rest).length < 128 := by
    intro rest hrest
    split
    · exact (by decide : (ascii ".").length < 128)
    · exact hrest
  unfold remoteDir sftp_subpath
  rw [hpath]
  split
  · omega
  · dsimp only
    apply hend
    apply htail
    split_ifs <;> exact hdrop _

theorem tab_complete_sftp_eq (hword : word.length ≤ LINE_MAX) (h : SftpSafe remote word) :
    tab_complete_sftp_name remote word = some (sftpTab remote word) := by
  obtain ⟨hleaf, hlisting, hpossible⟩ := h
  have hmax : LINE_MAX = 87 := rfl
  have hdir := length_sftpDir_le hword
  unfold tab_complete_sftp_name sftpTab
  by_cases hroot : word = ascii "/sftp" ∨ word = ascii "/sftpd"
  · rw [if_pos hroot, if_pos hroot]
    rcases hroot with rfl | rfl <;> rfl
  rw [if_neg hroot, if_neg hroot]
  obtain ⟨h1, h2⟩ := not_or.mp hroot
  by_cases hsftp : path_is_sftp word = true
  swap
  · rw [if_pos (by simpa using hsftp), if_pos (by simpa using hsftp)]
    rfl
  rw [if_neg (by simpa using hsftp), if_neg (by simpa using hsftp)]
  have hremote : RemoteWord word := ⟨hsftp, h1, h2⟩
  have hlines := @remoteList_line remote word
  specialize hlisting hremote
  specialize hpossible hremote
  rw [sftp_split_eq hword, if_pos (hleaf hremote)]
  dsimp only [Option.bind_eq_bind, Option.bind_some]
  change Option.bind (into 128 (remoteDir word)) _ = _
  rw [into_of_lt (length_remoteDir hword)]
  unfold remoteList at hlisting hpossible hlines ⊢
  dsimp only [Option.bind_some]
  cases hanswer : remote (remoteDir word) with
  | none => rfl
  | some names =>
    rw [hanswer] at hlisting hpossible hlines
    dsimp only at hlisting hpossible hlines ⊢
    generalize ssh_client_sftp_ls names = list_out at hlisting hpossible hlines ⊢
    by_cases hempty : list_out = ascii "(empty)"
    · rw [if_pos hempty, if_pos hempty]
      rfl
    rw [if_neg hempty] at hlisting hpossible hlines
    rw [if_neg hempty, if_neg hempty]
    specialize hlisting list_out rfl
    specialize hpossible list_out rfl
    dsimp only
    by_cases hnil : (sftpParts word).2 = []
    · rw [if_pos hnil, if_pos hnil, into_of_lt (hlisting hnil)]
      rfl
    rw [if_neg hnil, if_neg hnil]
    specialize hpossible hnil
    have hshort := fun line => @hlines list_out (sftpParts word).2 line rfl
    generalize lines_with list_out (sftpParts word).2 = lines at hpossible hshort ⊢
    match lines with
    | [] => rfl
    | [line] =>
      have hname := hshort line List.mem_cons_self
      have hsize : ((sftpParts word).1 ++ line.drop 2).length < 191 := by
        rw [List.length_append]
        omega
      rw [List.map_cons, List.map_nil, scan_cons [] hname]
      change Option.bind (into 192 (sftpParts word).1) _ = _
      rw [into_of_lt (show (sftpParts word).1.length < 192 by omega)]
      dsimp only [Option.bind_some]
      rw [into_of_lt (show ((sftpParts word).1 ++ line.drop 2).length < 192 by omega)]
      dsimp only [Option.bind_some]
      unfold remoteOffer
      dsimp only
      cases is_dir_line list_out (line.drop 2) with
      | true =>
        have hslash : ((sftpParts word).1 ++ line.drop 2 ++ [slash]).length < 192 := by
          rw [List.length_append, List.length_singleton]
          omega
        rw [if_pos rfl, if_pos rfl, into_of_lt hslash]
        rfl
      | false =>
        rw [if_neg Bool.false_ne_true, if_neg Bool.false_ne_true, List.append_nil]
        rfl
    | line :: other :: rest =>
      have hname := hshort line List.mem_cons_self
      have hmany : (List.map (·.drop 2) (other :: rest)).length + 1 > 1 :=
        Nat.succ_lt_succ (Nat.succ_pos _)
      rw [List.map_cons, scan_cons _ hname]
      dsimp only [Option.bind_some]
      rw [if_pos hmany, into_of_lt (hpossible (Nat.succ_lt_succ (Nat.succ_pos _)))]
      rfl

theorem tab_complete_sftp_none (hword : word.length ≤ LINE_MAX) (h : ¬ SftpSafe remote word) :
    tab_complete_sftp_name remote word = none := by
  have hremote : RemoteWord word := by
    by_contra hnot
    exact h ⟨fun hr => absurd hr hnot, fun hr => absurd hr hnot, fun hr => absurd hr hnot⟩
  obtain ⟨hsftp, h1, h2⟩ := hremote
  have hremote : RemoteWord word := ⟨hsftp, h1, h2⟩
  unfold tab_complete_sftp_name
  rw [if_neg (not_or.mpr ⟨h1, h2⟩), if_neg (by simpa using hsftp), sftp_split_eq hword]
  by_cases hleaf : (sftpParts word).2.length < 64
  swap
  · rw [if_neg hleaf]
    rfl
  rw [if_pos hleaf]
  dsimp only [Option.bind_eq_bind, Option.bind_some]
  change Option.bind (into 128 (remoteDir word)) _ = _
  rw [into_of_lt (length_remoteDir hword)]
  dsimp only [Option.bind_some]
  have hfail : ¬ ((∀ list_out, remoteList remote word = some list_out →
      (sftpParts word).2 = [] → (sftp_title ++ list_out).length < OUT_BUF_SIZE) ∧
      ∀ list_out, remoteList remote word = some list_out → (sftpParts word).2 ≠ [] →
      1 < (lines_with list_out (sftpParts word).2).length →
      (sftp_title ++ (lines_with list_out (sftpParts word).2).flatMap (· ++ [10])).length <
        OUT_BUF_SIZE) := fun hand => h ⟨fun _ => hleaf, fun _ => hand.1, fun _ => hand.2⟩
  have hlines := @remoteList_line remote word
  unfold remoteList at hfail hlines
  cases hanswer : remote (remoteDir word) with
  | none =>
    rw [hanswer] at hfail
    exact absurd ⟨fun _ h => (nomatch h), fun _ h => (nomatch h)⟩ hfail
  | some names =>
    rw [hanswer] at hfail hlines
    dsimp only at hfail hlines ⊢
    generalize ssh_client_sftp_ls names = list_out at hfail hlines ⊢
    by_cases hempty : list_out = ascii "(empty)"
    · rw [if_pos hempty] at hfail
      exact absurd ⟨fun _ h => (nomatch h), fun _ h => (nomatch h)⟩ hfail
    rw [if_neg hempty] at hfail hlines
    rw [if_neg hempty]
    by_cases hnil : (sftpParts word).2 = []
    · have hlong : OUT_BUF_SIZE ≤ (sftp_title ++ list_out).length := by
        by_contra hlt
        refine hfail ⟨fun out hout _ => ?_, fun _ _ hne => absurd hnil hne⟩
        cases hout
        exact Nat.not_le.mp hlt
      rw [if_pos hnil, into_of_le hlong]
      rfl
    rw [if_neg hnil]
    have hshort := fun line => @hlines list_out (sftpParts word).2 line rfl
    have hlong : 1 < (lines_with list_out (sftpParts word).2).length ∧ OUT_BUF_SIZE ≤
        (sftp_title ++ (lines_with list_out (sftpParts word).2).flatMap (· ++ [10])).length := by
      by_contra hnot
      refine hfail ⟨fun _ _ heq => absurd heq hnil, fun out hout _ hmany => ?_⟩
      cases hout
      by_contra hlt
      exact hnot ⟨hmany, Nat.not_lt.mp hlt⟩
    generalize lines_with list_out (sftpParts word).2 = lines at hshort hlong ⊢
    match lines with
    | [] => exact absurd hlong.1 (Nat.not_lt_zero 1)
    | [_] => exact absurd hlong.1 (lt_irrefl 1)
    | line :: other :: rest =>
      have hmany : (List.map (·.drop 2) (other :: rest)).length + 1 > 1 :=
        Nat.succ_lt_succ (Nat.succ_pos _)
      rw [List.map_cons, scan_cons _ (hshort line List.mem_cons_self)]
      dsimp only [Option.bind_some]
      rw [if_pos hmany, into_of_le hlong.2]
      rfl

end

/-! ## A call -/

section

variable [BuildConfig] {st st' : FsState} {w : TabWindow} {remote : Remote} {word : Text}

def NameSafe (st : FsState) (w : TabWindow) (remote : Remote) (word : Text) : Prop :=
  SftpSafe remote word ∧ (SftpDeclines remote word → LocalSafe st w word)

/-- Neither the server nor the directory has anything for the word. -/
def Declines (st : FsState) (w : TabWindow) (remote : Remote) (word : Text) : Prop :=
  SftpDeclines remote word ∧ LocalDeclines st w word

def nameTab (st : FsState) (w : TabWindow) (remote : Remote) (word : Text) : Tab :=
  if sftpTab remote word = .declined then localTab word (localDir st w word)
  else sftpTab remote word

theorem nameTab_declined : nameTab st w remote word = .declined ↔ Declines st w remote word := by
  unfold nameTab Declines
  rw [← sftpTab_declined]
  by_cases h : sftpTab remote word = .declined
  · rw [if_pos h, and_iff_right h]
    exact localTab_declined
  · rw [if_neg h]
    exact iff_of_false h fun hand => h hand.1

omit [BuildConfig] in
theorem sftp_stage (hword : word.length ≤ LINE_MAX) (h : SftpSafe remote word) :
    (if path_is_sftp word ∨ word = ascii "/sftp" ∨ word = ascii "/sftpd" then
      (tab_complete_sftp_name remote word).map fun tab => (st, tab)
    else some (st, .declined)) = some (st, sftpTab remote word) := by
  split
  · rw [tab_complete_sftp_eq hword h]
    rfl
  · rename_i hnot
    obtain ⟨hsftp, hroot⟩ := not_or.mp hnot
    unfold sftpTab
    rw [if_neg hroot, if_pos (by simpa using hsftp)]

omit [BuildConfig] in
theorem sftp_stage_none (hword : word.length ≤ LINE_MAX) (h : ¬ SftpSafe remote word) :
    (if path_is_sftp word ∨ word = ascii "/sftp" ∨ word = ascii "/sftpd" then
      (tab_complete_sftp_name remote word).map fun tab => (st, tab)
    else some (st, .declined)) = none := by
  split
  · rw [tab_complete_sftp_none hword h]
    rfl
  · rename_i hnot
    have hsftp : ¬ RemoteWord word := fun hr => hnot (Or.inl hr.1)
    exact absurd ⟨fun hr => absurd hr hsftp, fun hr => absurd hr hsftp,
      fun hr => absurd hr hsftp⟩ h

omit [BuildConfig] in
theorem orNext_some (st : FsState) (tab : Tab) (next : FsState → Option (FsState × Tab)) :
    orNext (some (st, tab)) next = if tab = .declined then next st else some (st, tab) := by
  cases tab <;> rfl

theorem tab_complete_name_eq (hword : word.length ≤ LINE_MAX) (h : NameSafe st w remote word) :
    ∃ st' : FsState, st'.disk = st.disk ∧
      tab_complete_name st w remote word none = some (st', nameTab st w remote word) := by
  unfold tab_complete_name nameTab
  rw [sftp_stage hword h.1, orNext_some]
  by_cases hdeclined : sftpTab remote word = .declined
  · rw [if_pos hdeclined, if_pos hdeclined]
    exact tab_complete_local_eq hword (h.2 (sftpTab_declined.mp hdeclined))
  · rw [if_neg hdeclined, if_neg hdeclined]
    exact ⟨st, rfl, rfl⟩

theorem tab_complete_name_none (hword : word.length ≤ LINE_MAX) (h : ¬ NameSafe st w remote word) :
    tab_complete_name st w remote word none = none := by
  unfold tab_complete_name
  by_cases hsftp : SftpSafe remote word
  · rw [sftp_stage hword hsftp, orNext_some]
    obtain ⟨hdeclined, hlocal⟩ := Classical.not_imp.mp fun himp => h ⟨hsftp, himp⟩
    rw [if_pos (sftpTab_declined.mpr hdeclined)]
    exact tab_complete_local_none hword hlocal
  · rw [sftp_stage_none hword hsftp]
    rfl

/-! The calls read the disk only. -/

theorem target_dir_congr (h : st'.disk = st.disk) (dir_part : Text) :
    (target_dir st' w dir_part).2 = (target_dir st w dir_part).2 := by
  unfold target_dir
  split
  · rfl
  · have hresolve := fs.resolve_editor_target_congr h w.dirs
      (fs.terminal_expand_home_path w.dirs.home.bytes dir_part 128)
    dsimp only
    generalize fs.resolve_editor_target st' w.dirs
      (fs.terminal_expand_home_path w.dirs.home.bytes dir_part 128) = r' at hresolve ⊢
    generalize fs.resolve_editor_target st w.dirs
      (fs.terminal_expand_home_path w.dirs.home.bytes dir_part 128) = r at hresolve ⊢
    obtain ⟨s1, e1⟩ := r'
    obtain ⟨s2, e2⟩ := r
    obtain rfl : e1 = e2 := hresolve
    cases e1 <;> rfl

theorem localDir_eq (st : FsState) (w : TabWindow) (word : Text) :
    localDir st w word = (target_dir st w (wordParts word).1).2.bind fun found =>
      (fs.dirOf st.disk found.1).map fun d => (found.1, DirBlock.ofDisk d) := by
  have hdisk := target_dir_disk st w (wordParts word).1
  unfold localDir
  generalize target_dir st w (wordParts word).1 = target at hdisk ⊢
  obtain ⟨st1, found⟩ := target
  cases found with
  | none => rfl
  | some found =>
    dsimp only at hdisk ⊢
    rw [fs.load_current_dir_eq, hdisk, Option.map_map]
    rfl

theorem localDir_congr (h : st'.disk = st.disk) : localDir st' w word = localDir st w word := by
  rw [localDir_eq, localDir_eq, target_dir_congr h, h]

theorem nameSafe_congr (h : st'.disk = st.disk) :
    NameSafe st' w remote word ↔ NameSafe st w remote word := by
  have hlocal : LocalSafe st' w word ↔ LocalSafe st w word := by
    constructor
    · rintro ⟨h1, h2, h3⟩
      exact ⟨h1, fun b cwd => by rw [← target_dir_congr h]; exact h2 b cwd,
        fun b db => by rw [← localDir_congr h]; exact h3 b db⟩
    · rintro ⟨h1, h2, h3⟩
      exact ⟨h1, fun b cwd => by rw [target_dir_congr h]; exact h2 b cwd,
        fun b db => by rw [localDir_congr h]; exact h3 b db⟩
  unfold NameSafe
  rw [hlocal]

end

end vibeos.tab
