-- For which lines, directories and servers Tab stays in its buffers and replaces the word of the
-- line by the one name that starts with it.
import Vibeos.TabCompleteFits

namespace vibeos.tab

open wget (ascii)
open ssh (Text COLS)
open terminal (Prompt LINE_MAX)
open fs (slash FsState DirBlock MAX_DIR_ENTRIES BuildConfig)
open Copy (scan_cons)

/-! ## Commands -/

theorem tab_complete_command_ne_none (word : Text) : tab_complete_command word ≠ none := by
  have hcmds : ∀ c ∈ cmds, c.length < COLS := by decide +kernel
  have hscan : ∃ found, Copy.scan COLS (cmds.filter fun c => word.isPrefixOf c) = some found := by
    have hfilter : ∀ c ∈ cmds.filter fun c => word.isPrefixOf c, c.length < COLS :=
      fun c hc => hcmds c (List.mem_filter.mp hc).1
    cases hnames : cmds.filter fun c => word.isPrefixOf c with
    | nil => exact ⟨_, rfl⟩
    | cons c rest =>
      rw [hnames] at hfilter
      exact ⟨_, scan_cons rest (hfilter c List.mem_cons_self)⟩
  obtain ⟨found, hfound⟩ := hscan
  unfold tab_complete_command
  rw [hfound]
  dsimp only [Option.bind_eq_bind, Option.bind_some]
  split
  · exact Option.some_ne_none _
  · split <;> exact Option.some_ne_none _

/-! ## One Tab -/

/-- `try_tab_complete` asks for a name in the first place. -/
def AsksFirst (w : TabWindow) (l : CommandLine) : Prop :=
  0 < l.start ∧ (takesPath w l.prompt = true ∨ isPath l.word = true)

instance (w : TabWindow) (l : CommandLine) : Decidable (AsksFirst w l) :=
  inferInstanceAs (Decidable (_ ∧ _))

/-- The text of the line after a word has been completed. -/
def lineAfter (l : CommandLine) (tab : Tab) : Text :=
  terminal.stringFrom (tab.apply l.prompt l.start l.stop).cmd_buf 0

/-- The line with the word replaced by the name of an entry. -/
def completedLine (l : CommandLine) (db : DirBlock) (i : Fin MAX_DIR_ENTRIES) : Text :=
  l.text.take l.start ++ ((wordParts l.word).1 ++ (db.entries i).nameStr ++
    if (db.entries i).type = 1 then [slash] else []) ++ l.text.drop l.stop

section

variable [BuildConfig]

/-- The calls of `tab_complete_name` at one Tab, each with the state and the server that it finds. -/
inductive Calls (st : FsState) (w : TabWindow) (first second : Remote) (l : CommandLine) :
    FsState → Remote → Prop where
  | first (inside : l.Inside) (asks : AsksFirst w l) : Calls st w first second l st first
  | alone (inside : l.Inside) (path : isPath l.word = true) (asks : ¬ AsksFirst w l) :
      Calls st w first second l st second
  | again {st' : FsState} (inside : l.Inside) (path : isPath l.word = true) (asks : AsksFirst w l)
      (declined : tab_complete_name st w first l.word none = some (st', .declined)) :
      Calls st w first second l st' second

/-- A call that gets to a local directory other than the root with a leaf replaces the word by the
only entry that starts with the leaf; if there is none or more than one, it leaves the prompt as it
was. -/
def Exact (st : FsState) (w : TabWindow) (remote : Remote) (l : CommandLine) : Prop :=
  ∀ b db, SftpDeclines remote l.word → localDir st w l.word = some (b, db) → b ≠ 1 →
    (wordParts l.word).2 ≠ [] →
    ∃ st' tab, tab_complete_name st w remote l.word none = some (st', tab) ∧
      (∀ i, (∀ j, StartsWith db (wordParts l.word).2 j ↔ j = i) →
        lineAfter l tab = completedLine l db i) ∧
      ((¬ ∃! i, StartsWith db (wordParts l.word).2 i) →
        tab.apply l.prompt l.start l.stop = l.prompt)

/-- No buffer is written behind its end, and each call is exact. -/
def TabRight (st : FsState) (w : TabWindow) (first second : Remote) (l : CommandLine) : Prop :=
  try_tab_complete st w first second l.prompt ≠ none ∧
    ∀ st' remote, Calls st w first second l st' remote → Exact st' w remote l

/-! ## When it is right -/

/-- The completed line is one that the prompt takes. -/
def LineFits (st : FsState) (w : TabWindow) (l : CommandLine) : Prop :=
  ∀ b db i, localDir st w l.word = some (b, db) → b ≠ 1 → (wordParts l.word).2 ≠ [] →
    (∀ j, StartsWith db (wordParts l.word).2 j ↔ j = i) → (completedLine l db i).length ≤ LINE_MAX

def NameFits (st : FsState) (w : TabWindow) (remote : Remote) (l : CommandLine) : Prop :=
  NameSafe st w remote l.word ∧ (SftpDeclines remote l.word → LineFits st w l)

def TabFits (st : FsState) (w : TabWindow) (first second : Remote) (l : CommandLine) : Prop :=
  l.Inside → (AsksFirst w l → NameFits st w first l) ∧
    (isPath l.word = true → (AsksFirst w l → Declines st w first l.word) → NameFits st w second l)

variable {st st' : FsState} {w : TabWindow} {first second remote : Remote} {l : CommandLine}

theorem lineFits_congr (h : st'.disk = st.disk) : LineFits st' w l ↔ LineFits st w l := by
  unfold LineFits
  rw [localDir_congr h]

omit [BuildConfig] in
theorem offer_only {db : DirBlock} {b : Nat} {leaf dir_part : Text} {i : Fin MAX_DIR_ENTRIES}
    (hb : b ≠ 1) (h : ∀ j, StartsWith db leaf j ↔ j = i) :
    offer db b dir_part (names db b leaf) = .replaced (dir_part ++ (db.entries i).nameStr ++
      if (db.entries i).type = 1 then [slash] else []) := by
  have hvirtual : virtual_names b leaf none = [] := if_neg fun hand => hb hand.1
  unfold names
  rw [matching_eq_singleton h, hvirtual, List.map_singleton, List.append_nil]
  have hfound := find_only h
  change Tab.replaced _ = Tab.replaced _
  apply congrArg fun ending => Tab.replaced (dir_part ++ (db.entries i).nameStr ++ ending)
  by_cases htype : (db.entries i).type = 1
  · rw [if_pos (Or.inl (hfound.mpr htype)), if_pos htype]
  · have hnot : ¬ ((fs.find_entry_index db (db.entries i).nameStr (some 1)).isSome = true ∨
        (b = 1 ∧ (db.entries i).nameStr = ascii "sftpd")) :=
      not_or.mpr ⟨fun hsome => htype (hfound.mp hsome), fun hand => hb hand.1⟩
    rw [if_neg hnot, if_neg htype]

omit [BuildConfig] in
theorem offer_else {db : DirBlock} {b : Nat} {leaf dir_part : Text} (hb : b ≠ 1)
    (h : ¬ ∃! i, StartsWith db leaf i) (p : Prompt) (token_start token_end : Nat) :
    (offer db b dir_part (names db b leaf)).apply p token_start token_end = p := by
  have hvirtual : virtual_names b leaf none = [] := if_neg fun hand => hb hand.1
  unfold names
  rw [hvirtual, List.append_nil]
  match hm : matching db leaf none with
  | [] => rfl
  | [i] =>
    refine absurd ⟨i, (startsWith_iff hm i).mpr rfl, fun j hj => ?_⟩ h
    exact (startsWith_iff hm j).mp hj
  | _ :: _ :: _ => rfl

omit [BuildConfig] in
theorem nul_not_mem_completed {word : Text} (h : 0 ∉ word) (db : DirBlock)
    (i : Fin MAX_DIR_ENTRIES) :
    0 ∉ (wordParts word).1 ++ (db.entries i).nameStr ++
      if (db.entries i).type = 1 then [slash] else [] := by
  intro hmem
  rcases List.mem_append.mp hmem with hmem | hmem
  · rcases List.mem_append.mp hmem with hmem | hmem
    · exact nul_not_mem_dir h hmem
    · exact fs.nul_not_mem_cstr _ hmem
  · split at hmem
    · exact absurd hmem (by decide)
    · exact List.not_mem_nil hmem

omit [BuildConfig] in
theorem lineAfter_completed (hin : l.Inside) (db : DirBlock) (i : Fin MAX_DIR_ENTRIES) :
    lineAfter l (.replaced ((wordParts l.word).1 ++ (db.entries i).nameStr ++
      if (db.entries i).type = 1 then [slash] else [])) = (completedLine l db i).take LINE_MAX :=
  CommandLine.apply_completion_line hin
    (nul_not_mem_completed (CommandLine.nul_not_mem_word hin) db i)

theorem nameTab_local {b : Nat} {db : DirBlock} (hdeclines : SftpDeclines remote l.word)
    (hdir : localDir st w l.word = some (b, db)) (hleaf : (wordParts l.word).2 ≠ []) :
    nameTab st w remote l.word =
      offer db b (wordParts l.word).1 (names db b (wordParts l.word).2) := by
  unfold nameTab
  rw [if_pos (sftpTab_declined.mpr hdeclines), hdir]
  exact if_neg hleaf

theorem exact_iff (hin : l.Inside) (h : NameSafe st w remote l.word) :
    Exact st w remote l ↔ (SftpDeclines remote l.word → LineFits st w l) := by
  obtain ⟨st1, -, hname⟩ := tab_complete_name_eq (CommandLine.length_word_le hin) h
  constructor
  · intro hexact hdeclines b db i hdir hb hleaf honly
    obtain ⟨st2, tab, htab, hline, -⟩ := hexact b db hdeclines hdir hb hleaf
    rw [hname] at htab
    cases htab
    have hafter := hline i honly
    rw [nameTab_local hdeclines hdir hleaf, offer_only hb honly, lineAfter_completed hin] at hafter
    rw [← hafter]
    exact List.length_take_le _ _
  · intro hfits b db hdeclines hdir hb hleaf
    refine ⟨st1, _, hname, fun i honly => ?_, fun hnone => ?_⟩
    · rw [nameTab_local hdeclines hdir hleaf, offer_only hb honly, lineAfter_completed hin]
      exact List.take_of_length_le (hfits hdeclines b db i hdir hb hleaf honly)
    · rw [nameTab_local hdeclines hdir hleaf]
      exact offer_else hb hnone _ _ _

theorem nameSafe_of_ne_none (hin : l.Inside)
    (h : tab_complete_name st w remote l.word none ≠ none) : NameSafe st w remote l.word := by
  by_contra hnot
  exact h (tab_complete_name_none (CommandLine.length_word_le hin) hnot)

theorem declines_of_name (hin : l.Inside)
    (h : tab_complete_name st w remote l.word none = some (st', .declined)) :
    Declines st w remote l.word ∧ st'.disk = st.disk := by
  have hsafe := nameSafe_of_ne_none hin (by rw [h]; exact Option.some_ne_none _)
  obtain ⟨st1, hdisk, hname⟩ := tab_complete_name_eq (CommandLine.length_word_le hin) hsafe
  rw [h] at hname
  injection hname with hpair
  injection hpair with hst htab
  exact ⟨nameTab_declined.mp htab.symm, hst ▸ hdisk⟩

omit [BuildConfig] in
theorem commands_ne_none (st : FsState) (l : CommandLine) :
    (if l.start < terminal.word_end l.prompt.cmd_buf l.prompt.edit_len 0 ∨ l.start = 0 then
      (tab_complete_command l.word).map fun tab => (st, tab)
    else some (st, Tab.declined)) ≠ none := by
  split
  · rw [ne_eq, Option.map_eq_none_iff]
    exact tab_complete_command_ne_none l.word
  · exact Option.some_ne_none _

theorem second_ne_none (hin : l.Inside) (next : FsState → Option (FsState × Tab))
    (hnext : ∀ st, next st ≠ none) :
    orNext (if isPath l.word then tab_complete_name st w second l.word none
      else some (st, .declined)) next ≠ none ↔
      (isPath l.word = true → NameSafe st w second l.word) := by
  by_cases hpath : isPath l.word = true
  · rw [if_pos hpath]
    by_cases hsafe : NameSafe st w second l.word
    · obtain ⟨st1, -, hname⟩ := tab_complete_name_eq (CommandLine.length_word_le hin) hsafe
      rw [hname, orNext_some]
      refine iff_of_true ?_ fun _ => hsafe
      split
      · exact hnext st1
      · exact Option.some_ne_none _
    · rw [tab_complete_name_none (CommandLine.length_word_le hin) hsafe]
      exact iff_of_false (fun h => h rfl) fun h => hsafe (h hpath)
  · rw [if_neg hpath, orNext_some, if_pos rfl]
    exact iff_of_true (hnext st) fun h => absurd h hpath

theorem try_ne_none_iff (hin : l.Inside) : try_tab_complete st w first second l.prompt ≠ none ↔
    (AsksFirst w l → NameSafe st w first l.word) ∧
    (isPath l.word = true → (AsksFirst w l → Declines st w first l.word) →
      NameSafe st w second l.word) := by
  unfold try_tab_complete
  rw [if_neg (Nat.not_lt.mpr hin)]
  change orNext (if AsksFirst w l then tab_complete_name st w first l.word none
    else some (st, .declined)) _ ≠ none ↔ _
  by_cases hasks : AsksFirst w l
  · rw [if_pos hasks]
    by_cases hsafe : NameSafe st w first l.word
    · obtain ⟨st1, hdisk, hname⟩ := tab_complete_name_eq (CommandLine.length_word_le hin) hsafe
      rw [hname, orNext_some]
      by_cases hdeclined : nameTab st w first l.word = .declined
      · rw [if_pos hdeclined]
        apply (second_ne_none hin _ fun st => commands_ne_none st l).trans
        rw [nameSafe_congr hdisk]
        constructor
        · exact fun h => ⟨fun _ => hsafe, fun hpath _ => h hpath⟩
        · exact fun h hpath => h.2 hpath fun _ => nameTab_declined.mp hdeclined
      · rw [if_neg hdeclined]
        refine iff_of_true (Option.some_ne_none _) ⟨fun _ => hsafe, fun _ hdecl => ?_⟩
        exact absurd (nameTab_declined.mpr (hdecl hasks)) hdeclined
    · rw [tab_complete_name_none (CommandLine.length_word_le hin) hsafe]
      exact iff_of_false (fun h => h rfl) fun h => hsafe (h.1 hasks)
  · rw [if_neg hasks, orNext_some, if_pos rfl]
    apply (second_ne_none hin _ fun st => commands_ne_none st l).trans
    constructor
    · exact fun h => ⟨fun h => absurd h hasks, fun hpath _ => h hpath⟩
    · exact fun h hpath => h.2 hpath fun h => absurd h hasks

/-- For every line, every cursor, every directory and every server: Tab stays in its buffers and
completes a local word exactly if and only if the word, its names and the completed line fit. -/
theorem tab_right_iff (st : FsState) (w : TabWindow) (first second : Remote) (l : CommandLine) :
    TabRight st w first second l ↔ TabFits st w first second l := by
  by_cases hin : l.Inside
  swap
  · refine iff_of_true ⟨?_, fun st' remote hcall => ?_⟩ fun h => absurd h hin
    · unfold try_tab_complete
      rw [if_pos (Nat.not_le.mp hin)]
      exact Option.some_ne_none _
    · cases hcall <;> exact absurd ‹l.Inside› hin
  constructor
  · rintro ⟨htry, hexact⟩ -
    obtain ⟨h1, h2⟩ := (try_ne_none_iff hin).mp htry
    refine ⟨fun hasks => ⟨h1 hasks, ?_⟩, fun hpath hdecl => ⟨h2 hpath hdecl, ?_⟩⟩
    · exact (exact_iff hin (h1 hasks)).mp (hexact st first (.first hin hasks))
    by_cases hasks : AsksFirst w l
    · -- the second call finds the disk that the first one found
      obtain ⟨st1, hdisk, hname⟩ :=
        tab_complete_name_eq (CommandLine.length_word_le hin) (h1 hasks)
      rw [nameTab_declined.mpr (hdecl hasks)] at hname
      have hcall := hexact st1 second (.again hin hpath hasks hname)
      have hsafe := (nameSafe_congr hdisk).mpr (h2 hpath hdecl)
      exact fun hs => (lineFits_congr hdisk).mp ((exact_iff hin hsafe).mp hcall hs)
    · exact (exact_iff hin (h2 hpath hdecl)).mp (hexact st second (.alone hin hpath hasks))
  · intro hfits
    obtain ⟨h1, h2⟩ := hfits hin
    refine ⟨(try_ne_none_iff hin).mpr ⟨fun h => (h1 h).1, fun hp hd => (h2 hp hd).1⟩, ?_⟩
    intro st' remote hcall
    cases hcall with
    | first inside asks => exact (exact_iff hin (h1 asks).1).mpr (h1 asks).2
    | alone inside path asks =>
      obtain ⟨hsafe, hline⟩ := h2 path fun h => absurd h asks
      exact (exact_iff hin hsafe).mpr hline
    | again inside path asks declined =>
      obtain ⟨hdecl, hdisk⟩ := declines_of_name hin declined
      obtain ⟨hsafe, hline⟩ := h2 path fun _ => hdecl
      have hsafe' := (nameSafe_congr hdisk).mpr hsafe
      exact (exact_iff hin hsafe').mpr fun hs => (lineFits_congr hdisk).mpr (hline hs)

end

/-! ## A leaf that is too long -/

def loadedLine (t : Text) (h : 0 ∉ t) : CommandLine where
  prompt := terminal.load_edit_buffer (terminal.Prompt.fresh []) t
  text := t.take LINE_MAX
  holds := terminal.holds_storeString _ fun hmem => h (List.mem_of_mem_take hmem)
  len := rfl
  fits := List.length_take_le _ _

def longLeaf : CommandLine :=
  loadedLine (ascii "cat " ++ List.replicate 32 'x'.toUInt8) (by decide)

/-- A disk of blank blocks, in the window that the system starts with. -/
def blankDisk : FsState := ⟨fun _ => .raw fs.RawBlock.zero, [], fun _ => false, 60, false, le_rfl⟩

def firstWindow : TabWindow := ⟨⟨1, fs.rootPath, ⟨[], fs.CString.nil⟩⟩, ⟨[], Nat.zero_le _⟩⟩

/-- Tab behind `cat` and a name of 32 characters writes behind the end of a buffer. -/
theorem long_leaf_overflows :
    ¬ @TabRight fs.qemuBuild blankDisk firstWindow (fun _ => none) (fun _ => none) longLeaf := by
  intro h
  have hin : longLeaf.Inside := le_refl _
  have hasks : AsksFirst firstWindow longLeaf := by decide
  obtain ⟨-, hlocal⟩ := ((@try_ne_none_iff fs.qemuBuild _ _ _ _ _ hin).mp h.1).1 hasks
  have hdeclines : SftpDeclines (fun _ => none) longLeaf.word :=
    ⟨by decide, by decide, fun hsftp => absurd hsftp (by decide)⟩
  obtain ⟨hleaf, -, -⟩ := hlocal hdeclines
  exact absurd hleaf (by decide)

end vibeos.tab
