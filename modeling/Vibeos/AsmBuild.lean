-- The first pass of the assembler finds in the text of a program its labels and its
-- statements, each with its number.
import Vibeos.AsmSource

namespace vibeos.asm

open vibeos.fs vibeos.wget vibeos.Rv32 vibeos.Labelled

/-! ## Characters -/

theorem asm_is_space_iff {c : UInt8} : asm_is_space c = true ↔ IsBlank c ∨ c = chr '\n' := by
  simp [asm_is_space, IsBlank, or_assoc]

theorem IsBlank.space {c : UInt8} (h : IsBlank c) : asm_is_space c = true :=
  asm_is_space_iff.mpr (Or.inl h)

theorem IsBlank.ne {c d : UInt8} (h : IsBlank c) (hd : ¬ IsBlank d) : c ≠ d := by
  intro hcd
  rw [hcd] at h
  exact hd h

theorem ident_char_ne {c d : UInt8} (h : asm_is_ident_char c = true)
    (hd : asm_is_ident_char d = false) : c ≠ d := by
  intro hcd
  rw [hcd, hd] at h
  cases h

theorem ident_char_not_space {c : UInt8} (h : asm_is_ident_char c = true) :
    asm_is_space c = false := by
  rw [Bool.eq_false_iff]
  intro hs
  rcases asm_is_space_iff.mp hs with (hc | hc | hc) | hc
  · exact ident_char_ne h (by decide) hc
  · exact ident_char_ne h (by decide) hc
  · exact ident_char_ne h (by decide) hc
  · exact ident_char_ne h (by decide) hc

theorem Token.not_space (t : Token) : ∀ c ∈ t.bytes, asm_is_space c = false := by
  intro c hc
  obtain ⟨hblank, _, _, hnl, _⟩ := t.chars c hc
  rw [Bool.eq_false_iff]
  intro hs
  rcases asm_is_space_iff.mp hs with h | h
  · exact hblank h
  · exact hnl h

theorem Token.not_sep (t : Token) : ∀ c ∈ t.bytes, asm_is_sep c = false := by
  intro c hc
  rw [asm_is_sep, t.not_space c hc, Bool.false_or]
  exact beq_false_of_ne (t.chars c hc).2.1

theorem Sep.sep (s : Sep) : ∀ c ∈ s.bytes, asm_is_sep c = true := by
  intro c hc
  rw [asm_is_sep, Bool.or_eq_true]
  rcases s.seps c hc with h | h
  · exact Or.inl h.space
  · exact Or.inr (beq_iff_eq.mpr h)

theorem Label.ident (l : Label) : ∀ c ∈ l.bytes, asm_is_ident_char c = true :=
  List.all_eq_true.mp l.chars

theorem Label.nonempty (l : Label) : l.bytes ≠ [] := by
  intro h
  have hstart := l.start
  rw [h] at hstart
  cases hstart

/-! ## Trimming -/

section

variable {α : Type} {p : α → Bool}

theorem rdropWhile_cons (c : α) (s : List α) :
    (c :: s).rdropWhile p =
      if s.rdropWhile p = [] then (if p c then [] else [c]) else c :: s.rdropWhile p := by
  induction s using List.reverseRecOn with
  | nil =>
    rw [List.rdropWhile_singleton, List.rdropWhile_nil, if_pos rfl]
  | append_singleton s d ih =>
    by_cases hd : p d = true
    · rw [← List.cons_append, List.rdropWhile_concat_pos _ _ _ hd, ih,
        List.rdropWhile_concat_pos _ _ _ hd]
    · rw [← List.cons_append, List.rdropWhile_concat_neg _ _ _ hd,
        List.rdropWhile_concat_neg _ _ _ hd, if_neg (by simp), List.cons_append]

theorem rdropWhile_append {c : α} (hc : p c = false) (x y : List α) :
    (x ++ c :: y).rdropWhile p = x ++ c :: y.rdropWhile p := by
  induction x with
  | nil =>
    rw [List.nil_append, List.nil_append, rdropWhile_cons, hc]
    split
    · rename_i h
      simp [h]
    · rfl
  | cons d x ih =>
    rw [List.cons_append, rdropWhile_cons, ih, if_neg (by simp), List.cons_append]

theorem dropWhile_rdropWhile (s : List α) :
    (s.rdropWhile p).dropWhile p = (s.dropWhile p).rdropWhile p := by
  induction s with
  | nil => simp
  | cons c s ih =>
    rw [rdropWhile_cons]
    by_cases hc : p c = true
    · rw [List.dropWhile_cons_of_pos hc, ← ih]
      split
      · rename_i h
        rw [h]
      · rw [List.dropWhile_cons_of_pos hc]
    · rw [List.dropWhile_cons_of_neg hc, rdropWhile_cons]
      split
      · rw [List.dropWhile_cons_of_neg hc]
      · rw [List.dropWhile_cons_of_neg hc]

end

theorem asm_trim_rdropWhile (s : List UInt8) : asm_trim (s.rdropWhile asm_is_space) = asm_trim s := by
  rw [asm_trim, dropWhile_rdropWhile, List.rdropWhile_idempotent, asm_trim]

theorem asm_trim_append {g : List UInt8} (hg : ∀ c ∈ g, IsBlank c) (s : List UInt8) :
    asm_trim (g ++ s) = asm_trim s := by
  rw [asm_trim, List.dropWhile_append_of_pos fun c hc => (hg c hc).space, asm_trim]

theorem asm_trim_append_gap {g : List UInt8} (hg : ∀ c ∈ g, IsBlank c) (s : List UInt8) :
    asm_trim (s ++ g) = asm_trim s := by
  have hdrop : (s ++ g).rdropWhile asm_is_space = s.rdropWhile asm_is_space := by
    induction g using List.reverseRecOn with
    | nil => rw [List.append_nil]
    | append_singleton g c ih =>
      rw [← List.append_assoc, List.rdropWhile_concat_pos _ _ _ (hg c (by simp)).space]
      exact ih fun d hd => hg d (by simp [hd])
  rw [← asm_trim_rdropWhile, hdrop, asm_trim_rdropWhile]

theorem asm_trim_self {s : List UInt8} (hhead : ∀ c, s.head? = some c → asm_is_space c = false)
    (hlast : ∀ c, s.getLast? = some c → asm_is_space c = false) : asm_trim s = s := by
  cases s with
  | nil => rfl
  | cons c s =>
    rw [asm_trim, List.dropWhile_cons_of_neg (by simp [hhead c rfl]), List.rdropWhile_eq_self_iff]
    intro hne
    rw [hlast _ (List.getLast?_eq_some_getLast hne)]
    exact Bool.false_ne_true

/-! ## Comments -/

theorem asm_strip_comment_append {s comment : List UInt8} (hs : NoComment s)
    (hc : CommentAfter s comment) : asm_strip_comment (s ++ comment) = s := by
  induction s with
  | nil =>
    rcases hc with hc | hc | ⟨hc, _⟩
    · rw [hc]
      rfl
    · cases comment with
      | nil => rfl
      | cons c rest =>
        rw [List.nil_append, asm_strip_comment, if_pos (Option.some.inj hc)]
    · obtain ⟨rest, rfl⟩ : ∃ rest, comment = chr '/' :: chr '/' :: rest :=
        ⟨comment.drop 2, by rw [← List.take_append_drop 2 comment, hc]; rfl⟩
      rw [List.nil_append, asm_strip_comment, if_neg (by decide), if_pos ⟨rfl, rfl⟩]
  | cons c s ih =>
    obtain ⟨hhash, hslash⟩ := hs
    have hne : c ≠ chr '#' := fun h => hhash (by simp [h])
    have htwo : ¬ (c = chr '/' ∧ (s ++ comment).head? = some (chr '/')) := by
      rintro ⟨hc1, hnext⟩
      cases s with
      | nil =>
        rcases hc with hc | hc | ⟨_, hc⟩
        · rw [hc] at hnext
          cases hnext
        · rw [List.nil_append, hc] at hnext
          exact absurd (Option.some.inj hnext) (by decide)
        · exact hc (by rw [hc1]; rfl)
      | cons d s =>
        exact (List.isChain_cons_cons.mp hslash).1 ⟨hc1, Option.some.inj hnext⟩
    rw [List.cons_append, asm_strip_comment, if_neg hne, if_neg htwo, ih]
    · exact ⟨fun h => hhash (by simp [h]), hslash.of_cons⟩
    · rcases hc with hc | hc | ⟨hc, hlast⟩
      · exact Or.inl hc
      · exact Or.inr (Or.inl hc)
      · refine Or.inr (Or.inr ⟨hc, ?_⟩)
        intro hs
        apply hlast
        cases s with
        | nil => cases hs
        | cons d s => rw [List.getLast?_cons_cons, hs]

/-! ## Labels -/

theorem Label.head_not_space (l : Label) (y : List UInt8) :
    ∀ c, (l.bytes ++ y).head? = some c → asm_is_space c = false := by
  intro c hc
  rw [List.head?_append_of_ne_nil _ l.nonempty] at hc
  exact ident_char_not_space (l.ident c (List.mem_of_head? hc))

theorem asm_trim_label (l : Label) : asm_trim l.bytes = l.bytes := by
  apply asm_trim_self
  · intro c hc
    exact ident_char_not_space (l.ident c (List.mem_of_head? hc))
  · intro c hc
    exact ident_char_not_space (l.ident c (List.mem_of_getLast? hc))

theorem asm_trim_label_append (l : Label) (y : List UInt8) :
    asm_trim (l.bytes ++ chr ':' :: y) = l.bytes ++ chr ':' :: y.rdropWhile asm_is_space := by
  have hdrop : (l.bytes ++ chr ':' :: y).dropWhile asm_is_space = l.bytes ++ chr ':' :: y := by
    have hhead := l.head_not_space (chr ':' :: y)
    cases h : l.bytes ++ chr ':' :: y with
    | nil => rfl
    | cons c s =>
      rw [h] at hhead
      exact List.dropWhile_cons_of_neg (by simp [hhead c rfl])
  rw [asm_trim, hdrop, rdropWhile_append (by decide)]

theorem asm_take_labels_of_not_mem (prog : asm_program) {s : List UInt8} (hs : chr ':' ∉ s) :
    asm_take_labels prog s = .ok (prog, s) := by
  have hall : s.takeWhile (fun c => decide (c ≠ chr ':')) = s := by
    rw [List.takeWhile_eq_self_iff]
    intro c hc
    simp only [decide_eq_true_eq]
    intro h
    rw [h] at hc
    exact hs hc
  rw [asm_take_labels]
  simp only
  rw [if_pos (by rw [hall])]

theorem asm_take_labels_cons (prog : asm_program) (l : Label) (y : List UInt8) :
    asm_take_labels prog (l.bytes ++ chr ':' :: y) =
      match asm_add_label prog l.bytes prog.count with
      | none => .error (ascii "asm: duplicate/too many labels")
      | some prog => asm_take_labels prog (asm_trim y) := by
  have hname : (l.bytes ++ chr ':' :: y).takeWhile (fun c => decide (c ≠ chr ':')) = l.bytes := by
    rw [List.takeWhile_append_of_pos, List.takeWhile_cons_of_neg (by simp), List.append_nil]
    intro c hc
    simp only [decide_eq_true_eq]
    exact ident_char_ne (l.ident c hc) (by decide)
  rw [asm_take_labels]
  simp only [hname]
  rw [if_neg (by simp), if_neg, asm_trim_label, if_neg l.nonempty]
  · have hrest : (l.bytes ++ chr ':' :: y).drop (l.bytes.length + 1) = y := by simp
    simp only [hrest]
    cases asm_add_label prog l.bytes prog.count with
    | none => rfl
    | some prog =>
      simp only
      split
      · rename_i h
        rw [h, asm_take_labels_of_not_mem _ (by simp)]
      · rfl
  · rintro (h | h | h)
    · exact h l.chars
    · exact l.nonempty h
    · exact h l.start

def addLabels (prog : asm_program) (names : List (List UInt8)) : Option asm_program :=
  names.foldlM (fun prog name => asm_add_label prog name prog.count) prog

theorem asm_take_labels_append (prog : asm_program) (ls : List (Label × Gap)) {s : List UInt8}
    (hcolon : chr ':' ∉ s) (htrim : asm_trim s = s) :
    asm_take_labels prog (asm_trim (labelsText ls ++ s)) =
      match addLabels prog (ls.map (·.1.bytes)) with
      | none => .error (ascii "asm: duplicate/too many labels")
      | some prog => .ok (prog, s) := by
  induction ls generalizing prog with
  | nil => simpa [labelsText, htrim, addLabels] using asm_take_labels_of_not_mem prog hcolon
  | cons l ls ih =>
    obtain ⟨l, g⟩ := l
    have htext : labelsText ((l, g) :: ls) ++ s =
        l.bytes ++ chr ':' :: (g.bytes ++ (labelsText ls ++ s)) := by
      simp [labelsText]
    rw [htext, asm_trim_label_append, asm_take_labels_cons, asm_trim_rdropWhile,
      asm_trim_append g.blank, List.map_cons, addLabels, List.foldlM_cons]
    cases asm_add_label prog l.bytes prog.count with
    | none => rfl
    | some prog => exact ih prog

/-! ## The table of labels -/

def entry (sym : List UInt8 × Nat) : asm_label_entry := ⟨copy_name20 (Bytes.zero 20) sym.1, sym.2⟩

/-- A name that a table entry holds as it is. -/
def Short (name : List UInt8) : Prop := name.length < 20 ∧ 0 ∉ name

theorem cstr_entry {sym : List UInt8 × Nat} (h : Short sym.1) : cstr (entry sym).name.val = sym.1 := by
  rw [entry, cstr_copy_name20 _ h.2]
  exact List.take_of_length_le (Nat.le_of_lt_succ h.1)

theorem asm_find_label_entries {prog : asm_program} {syms : List (List UInt8 × Nat)}
    (hprog : prog.labels = syms.map entry) (hshort : ∀ sym ∈ syms, Short sym.1)
    (name : List UInt8) : asm_find_label prog name = address name syms := by
  unfold asm_find_label
  rw [hprog]
  clear hprog
  induction syms with
  | nil => rfl
  | cons sym syms ih =>
    have hname := cstr_entry (hshort sym (by simp))
    have ih := ih fun sym h => hshort sym (by simp [h])
    rw [List.map_cons, List.find?_cons, hname, address]
    by_cases h : sym.1 = name
    · rw [h, if_pos rfl]
      simp [entry]
    · have hs : (sym.1 == name) = false := beq_false_of_ne h
      rw [hs, if_neg (Ne.symm h)]
      exact ih

theorem asm_add_label_entries {prog : asm_program} {syms : List (List UInt8 × Nat)}
    (hprog : prog.labels = syms.map entry) (hshort : ∀ sym ∈ syms, Short sym.1)
    (name : List UInt8) (pc : Nat) :
    asm_add_label prog name pc =
      if syms.length < ASM_MAX_LABELS ∧ name ∉ syms.map Prod.fst then
        some { prog with labels := (syms ++ [(name, pc)]).map entry }
      else none := by
  unfold asm_add_label
  rw [asm_find_label_entries hprog hshort, hprog, List.length_map]
  by_cases hlen : syms.length < ASM_MAX_LABELS
  · rw [if_neg (Nat.not_le.mpr hlen)]
    by_cases hname : name ∈ syms.map Prod.fst
    · rw [if_pos, if_neg (fun h => h.2 hname)]
      rw [Option.isSome_iff_ne_none]
      intro h
      exact address_eq_none.mp h hname
    · rw [address_eq_none.mpr hname, if_neg (by decide), if_pos ⟨hlen, hname⟩, List.map_append]
      rfl
  · rw [if_pos (Nat.not_lt.mp hlen), if_neg (fun h => hlen h.1)]

theorem addLabels_entries {prog : asm_program} {syms : List (List UInt8 × Nat)}
    (hprog : prog.labels = syms.map entry) (hshort : ∀ sym ∈ syms, Short sym.1)
    (hnodup : (syms.map Prod.fst).Nodup) (hle : syms.length ≤ ASM_MAX_LABELS)
    {names : List (List UInt8)} (hnames : ∀ name ∈ names, Short name) :
    addLabels prog names =
      if (syms.map Prod.fst ++ names).Nodup ∧ syms.length + names.length ≤ ASM_MAX_LABELS then
        some { prog with labels := (syms ++ names.map (·, prog.count)).map entry }
      else none := by
  induction names generalizing prog syms with
  | nil =>
    rw [if_pos ⟨by simpa using hnodup, hle⟩, List.map_nil, List.append_nil, ← hprog]
    rfl
  | cons name names ih =>
    rw [addLabels, List.foldlM_cons, asm_add_label_entries hprog hshort]
    by_cases hadd : syms.length < ASM_MAX_LABELS ∧ name ∉ syms.map Prod.fst
    · rw [if_pos hadd]
      have hnodup' : ((syms ++ [(name, prog.count)]).map Prod.fst).Nodup := by
        rw [List.map_append]
        exact List.nodup_append.mpr ⟨hnodup, by simp, by
          intro a ha b hb hab
          rw [hab, List.mem_singleton.mp hb] at ha
          exact hadd.2 ha⟩
      have hentries : ({ prog with labels := (syms ++ [(name, prog.count)]).map entry } :
          asm_program).labels = (syms ++ [(name, prog.count)]).map entry := rfl
      have := ih hentries
        (by
          intro sym hsym
          rcases List.mem_append.mp hsym with h | h
          · exact hshort sym h
          · rw [List.mem_singleton.mp h]
            exact hnames name (by simp))
        hnodup' (by simpa using Nat.succ_le_of_lt hadd.1) (fun n hn => hnames n (by simp [hn]))
      rw [Option.bind_eq_bind, Option.bind_some]
      refine this.trans ?_
      simp only [List.map_append, List.map_cons, List.map_nil, List.append_assoc,
        List.singleton_append, List.length_append, List.length_cons, List.length_nil,
        asm_program.count, Nat.zero_add, Nat.add_assoc, Nat.add_comm 1]
    · rw [if_neg hadd, if_neg]
      · rfl
      · rintro ⟨hn, hl⟩
        apply hadd
        refine ⟨by simp only [List.length_cons] at hl; omega, ?_⟩
        intro hmem
        exact (List.nodup_append.mp hn).2.2 name hmem name (by simp) rfl

/-! ## Statements -/

theorem argsText_append (args : List (Sep × Token)) (a : Sep × Token) :
    argsText (args ++ [a]) = argsText args ++ (a.1.bytes ++ a.2.bytes) := by
  simp [argsText]

theorem mem_argsText {args : List (Sep × Token)} {c : UInt8} (h : c ∈ argsText args) :
    ∃ a ∈ args, c ∈ a.1.bytes ∨ c ∈ a.2.bytes := by
  obtain ⟨a, ha, hc⟩ := List.mem_flatMap.mp h
  exact ⟨a, ha, List.mem_append.mp hc⟩

theorem Stmt.mem_text {st : Stmt} {c : UInt8} (h : c ∈ st.text) :
    (∃ t : Token, c ∈ t.bytes) ∨ IsBlank c ∨ c = chr ',' := by
  rcases List.mem_append.mp h with h | h
  · exact Or.inl ⟨st.op, h⟩
  · obtain ⟨a, _, hc | hc⟩ := mem_argsText h
    · exact Or.inr (a.1.seps c hc)
    · exact Or.inl ⟨a.2, hc⟩

theorem Stmt.head_text (st : Stmt) : st.text.head? = st.op.bytes.head? :=
  List.head?_append_of_ne_nil _ st.op.nonempty

theorem Stmt.text_ne_nil (st : Stmt) : st.text ≠ [] :=
  List.append_ne_nil_of_left_ne_nil st.op.nonempty _

theorem Stmt.getLast_text (st : Stmt) {c : UInt8} (h : st.text.getLast? = some c) :
    ∃ t : Token, c ∈ t.bytes := by
  obtain ⟨op, args⟩ := st
  induction args using List.reverseRecOn with
  | nil =>
    rw [Stmt.text, argsText, List.flatMap_nil, List.append_nil] at h
    exact ⟨op, List.mem_of_getLast? h⟩
  | append_singleton args a _ =>
    rw [Stmt.text, argsText_append, ← List.append_assoc, ← List.append_assoc,
      List.getLast?_append_of_ne_nil _ a.2.nonempty] at h
    exact ⟨a.2, List.mem_of_getLast? h⟩

theorem Stmt.asm_trim_text (st : Stmt) : asm_trim st.text = st.text := by
  apply asm_trim_self
  · intro c hc
    rw [st.head_text] at hc
    exact st.op.not_space c (List.mem_of_head? hc)
  · intro c hc
    obtain ⟨t, ht⟩ := st.getLast_text hc
    exact t.not_space c ht

theorem asm_trim_stmtText (stmt : Option Stmt) : asm_trim (stmtText stmt) = stmtText stmt := by
  cases stmt with
  | none => rfl
  | some st => exact st.asm_trim_text

theorem mem_stmtText {stmt : Option Stmt} {c : UInt8} (h : c ∈ stmtText stmt) :
    (∃ t : Token, c ∈ t.bytes) ∨ IsBlank c ∨ c = chr ',' := by
  cases stmt with
  | none => cases h
  | some st => exact st.mem_text h

theorem colon_not_mem_stmtText (stmt : Option Stmt) : chr ':' ∉ stmtText stmt := by
  intro h
  rcases mem_stmtText h with ⟨t, ht⟩ | h | h
  · exact (t.chars _ ht).2.2.1 rfl
  · exact absurd h (by decide)
  · exact absurd h (by decide)

/-! ## A line -/

theorem asm_trim_line (ln : SourceLine) :
    asm_trim (asm_strip_comment ln.text) =
      asm_trim (labelsText ln.labels ++ stmtText ln.stmt) := by
  rw [SourceLine.text, asm_strip_comment_append ln.no_comment ln.comment_after, lineText,
    asm_trim_append_gap ln.trail.blank, asm_trim_append ln.lead.blank]

theorem asm_build_line_eq (prog : asm_program) (line_no : Nat) (ln : SourceLine) :
    asm_build_line prog line_no ln.text =
      match addLabels prog ln.line.labels with
      | none => .error (ascii "asm: duplicate/too many labels")
      | some prog =>
        match ln.line.inst with
        | none => .ok prog
        | some st =>
          if prog.count ≥ ASM_MAX_LINES then .error (ascii "asm: program too large")
          else .ok { prog with
            insts := prog.insts ++ [st.text], line_nos := prog.line_nos ++ [line_no] } := by
  have htake := asm_take_labels_append prog ln.labels (colon_not_mem_stmtText ln.stmt)
    (asm_trim_stmtText ln.stmt)
  have hline : asm_build_line prog line_no ln.text = (do
      let r ← asm_take_labels prog (asm_trim (labelsText ln.labels ++ stmtText ln.stmt))
      if r.2 = [] then return r.1
      if r.2.head? = some (chr '.') then return r.1
      if r.1.count ≥ ASM_MAX_LINES then throw (ascii "asm: program too large")
      return { r.1 with insts := r.1.insts ++ [r.2], line_nos := r.1.line_nos ++ [line_no] }) := by
    rw [asm_build_line, asm_trim_line]
    simp only
    split
    · rename_i h
      rw [h, asm_take_labels_of_not_mem _ (by simp)]
      rfl
    · rfl
  rw [hline, htake, SourceLine.line]
  cases addLabels prog (ln.labels.map (·.1.bytes)) with
  | none => rfl
  | some prog =>
    cases ln.stmt with
    | none => rfl
    | some st =>
      have hdir : st.text.head? = some (chr '.') ↔ st.IsDirective := by
        rw [st.head_text]
        rfl
      by_cases h : st.IsDirective
      · have hnone : (some st).filter (fun st => !decide st.IsDirective) = none := by simp [h]
        rw [hnone]
        simp [stmtText, hdir, h, bind, Except.bind, pure, Except.pure]
      · simp only [stmtText, Option.map_some, Option.getD_some, bind, Except.bind, hdir, h,
          if_neg st.text_ne_nil, pure, Except.pure, throw, throwThe, MonadExceptOf.throw,
          Option.filter_some, decide_false, Bool.not_false, ↓reduceIte]

/-! ## The program -/

/-- The numbers of the lines with an instruction. -/
def lineNos : List SourceLine → Nat → List Nat
  | [], _ => []
  | ln :: rest, n => ln.line.inst.toList.map (fun _ => n) ++ lineNos rest (n + 1)

/-- What the first pass makes of a program. -/
def program (src : List SourceLine) : asm_program :=
  ⟨(code (lines src)).map Stmt.text, lineNos src 1, (symbols (lines src) 0).map entry⟩

@[simp]
theorem lines_append (pre here : List SourceLine) : lines (pre ++ here) = lines pre ++ lines here :=
  List.map_append

theorem lineNos_append (pre here : List SourceLine) (n : Nat) :
    lineNos (pre ++ here) n = lineNos pre n ++ lineNos here (n + pre.length) := by
  induction pre generalizing n with
  | nil => rfl
  | cons ln pre ih =>
    rw [List.cons_append, lineNos, lineNos, ih, List.append_assoc, List.length_cons]
    congr 3
    omega

theorem labels_append (pre here : List (Line (List UInt8) Stmt)) :
    labels (pre ++ here) = labels pre ++ labels here :=
  List.flatMap_append

@[simp]
theorem program_count (src : List SourceLine) : (program src).count = (code (lines src)).length :=
  List.length_map _

theorem program_append (pre : List SourceLine) (ln : SourceLine) :
    program (pre ++ [ln]) =
      { insts := (program pre).insts ++ ln.line.inst.toList.map Stmt.text
        line_nos := (program pre).line_nos ++ ln.line.inst.toList.map fun _ => pre.length + 1
        labels := (symbols (lines pre) 0 ++ ln.line.labels.map (·, (program pre).count)).map
          entry } := by
  have hline : lines [ln] = [ln.line] := rfl
  have hcode : code [ln.line] = ln.line.inst.toList := by
    rw [code_cons]
    exact List.append_nil _
  have hsyms (n : Nat) : symbols [ln.line] n = ln.line.labels.map (·, n) := List.append_nil _
  rw [program, lines_append, hline, code_append, hcode, symbols_append, hsyms, lineNos_append,
    List.map_append, program_count, Nat.zero_add]
  congr 2
  rw [lineNos, lineNos, List.append_nil, Nat.add_comm]

theorem Acceptable.nil : Acceptable [] := ⟨List.nodup_nil, Nat.zero_le _, Nat.zero_le _⟩

theorem Acceptable.of_append {pre here : List SourceLine} (h : Acceptable (pre ++ here)) :
    Acceptable pre := by
  obtain ⟨hnodup, hlabels, hinsts⟩ := h
  rw [lines_append] at hnodup hlabels hinsts
  rw [labels_append] at hnodup hlabels
  rw [code_append] at hinsts
  rw [List.length_append] at hlabels hinsts
  exact ⟨(List.nodup_append.mp hnodup).1, by omega, by omega⟩

def NamesShort (src : List SourceLine) : Prop := ∀ name ∈ labels (lines src), Short name

theorem lines_singleton (ln : SourceLine) : lines [ln] = [ln.line] := rfl

theorem labels_singleton (ln : Line (List UInt8) Stmt) : labels [ln] = ln.labels :=
  List.append_nil _

theorem code_singleton (ln : Line (List UInt8) Stmt) : code [ln] = ln.inst.toList := by
  rw [code_cons]
  exact List.append_nil _

theorem acceptable_append_iff {pre : List SourceLine} {ln : SourceLine} :
    Acceptable (pre ++ [ln]) ↔
      ((labels (lines pre) ++ ln.line.labels).Nodup ∧
        (labels (lines pre)).length + ln.line.labels.length ≤ ASM_MAX_LABELS) ∧
      (code (lines pre)).length + ln.line.inst.toList.length ≤ ASM_MAX_LINES := by
  constructor
  · rintro ⟨hnodup, hlabels, hinsts⟩
    rw [lines_append, lines_singleton] at hnodup hlabels hinsts
    rw [labels_append, labels_singleton] at hnodup hlabels
    rw [code_append, code_singleton, List.length_append] at hinsts
    rw [List.length_append] at hlabels
    exact ⟨⟨hnodup, hlabels⟩, hinsts⟩
  · rintro ⟨⟨hnodup, hlabels⟩, hinsts⟩
    refine ⟨?_, ?_, ?_⟩
    · rw [lines_append, lines_singleton, labels_append, labels_singleton]
      exact hnodup
    · rw [lines_append, lines_singleton, labels_append, labels_singleton, List.length_append]
      exact hlabels
    · rw [lines_append, lines_singleton, code_append, code_singleton, List.length_append]
      exact hinsts

theorem asm_build_line_program {pre : List SourceLine} {ln : SourceLine} (hpre : Acceptable pre)
    (hshort : NamesShort (pre ++ [ln])) :
    (Acceptable (pre ++ [ln]) →
      asm_build_line (program pre) (pre.length + 1) ln.text = .ok (program (pre ++ [ln]))) ∧
    (¬ Acceptable (pre ++ [ln]) →
      ∃ e, asm_build_line (program pre) (pre.length + 1) ln.text = .error e) := by
  have hfst := symbols_fst (lines pre) 0
  have hlen : (symbols (lines pre) 0).length = (labels (lines pre)).length := by
    rw [← hfst, List.length_map]
  have hshort' : ∀ name, name ∈ labels (lines pre) ∨ name ∈ ln.line.labels → Short name := by
    intro name h
    apply hshort
    rw [lines_append, lines_singleton, labels_append, labels_singleton]
    exact List.mem_append.mpr h
  have hentries : (program pre).labels = (symbols (lines pre) 0).map entry := rfl
  have hadd := addLabels_entries hentries
    (fun sym h => hshort' _ (Or.inl (hfst ▸ List.mem_map_of_mem h)))
    (hfst ▸ hpre.distinct) (hlen ▸ hpre.labels_le) (fun name (h : name ∈ ln.line.labels) => hshort' _ (Or.inr h))
  rw [hfst, hlen] at hadd
  rw [asm_build_line_eq, hadd, acceptable_append_iff, program_append]
  by_cases hlabels : (labels (lines pre) ++ ln.line.labels).Nodup ∧
      (labels (lines pre)).length + ln.line.labels.length ≤ ASM_MAX_LABELS
  · rw [if_pos hlabels]
    have hcount : ∀ ls, asm_program.count { program pre with labels := ls } =
        (code (lines pre)).length := fun ls => program_count pre
    cases ln.line.inst with
    | none =>
      refine ⟨fun _ => ?_, fun h => absurd ⟨hlabels, hpre.insts_le⟩ h⟩
      simp
    | some st =>
      simp only [hcount, Option.toList_some, List.length_singleton]
      constructor
      · intro h
        rw [if_neg (by have := h.2; omega)]
        rfl
      · intro h
        rw [if_pos]
        · exact ⟨_, rfl⟩
        · by_contra hlt
          exact h ⟨hlabels, by omega⟩
  · rw [if_neg hlabels]
    exact ⟨fun h => absurd h.1 hlabels, fun _ => ⟨_, rfl⟩⟩

/-! ## The text of the program -/

theorem asm_build_lines_append (prog : asm_program) (line_no : Nat) {x : List UInt8}
    (hx : chr '\n' ∉ x) (rest : List UInt8) :
    asm_build_lines prog line_no (x ++ chr '\n' :: rest) =
      (asm_build_line prog line_no x).bind fun prog => asm_build_lines prog (line_no + 1) rest := by
  have htake : (x ++ chr '\n' :: rest).takeWhile (fun c => decide (c ≠ chr '\n')) = x := by
    rw [List.takeWhile_append_of_pos, List.takeWhile_cons_of_neg (by simp), List.append_nil]
    intro c hc
    simp only [decide_eq_true_eq]
    intro h
    rw [h] at hc
    exact hx hc
  have hdrop : (x ++ chr '\n' :: rest).drop (x.length + 1) = rest := by simp
  cases h : x ++ chr '\n' :: rest with
  | nil => simp at h
  | cons c s =>
    rw [h] at htake hdrop
    rw [asm_build_lines]
    simp only [htake, hdrop]
    rfl

theorem asm_build_lines_last (prog : asm_program) (line_no : Nat) {x : List UInt8}
    (hx : chr '\n' ∉ x) : asm_build_lines prog line_no x = asm_build_line prog line_no x := by
  have htake : x.takeWhile (fun c => decide (c ≠ chr '\n')) = x := by
    rw [List.takeWhile_eq_self_iff]
    intro c hc
    simp only [decide_eq_true_eq]
    intro h
    rw [h] at hc
    exact hx hc
  cases x with
  | nil =>
    rw [asm_build_lines]
    rfl
  | cons c s =>
    rw [asm_build_lines]
    have hdrop : (c :: s).drop ((c :: s).length + 1) = [] := by simp
    simp only [htake, hdrop]
    cases asm_build_line prog line_no (c :: s) with
    | error e => rfl
    | ok prog =>
      simp only [bind, Except.bind]
      rw [asm_build_lines]

theorem IsBlank.inside {c : UInt8} (h : IsBlank c) : c ≠ chr '\n' ∧ c ≠ 0 :=
  ⟨h.ne (by decide), h.ne (by decide)⟩

theorem labelsText_inside {ls : List (Label × Gap)} {c : UInt8} (h : c ∈ labelsText ls) :
    c ≠ chr '\n' ∧ c ≠ 0 := by
  obtain ⟨l, _, hc⟩ := List.mem_flatMap.mp h
  rcases List.mem_append.mp hc with hc | hc
  · have hident := l.1.ident c hc
    exact ⟨ident_char_ne hident (by decide), ident_char_ne hident (by decide)⟩
  · rcases List.mem_cons.mp hc with hc | hc
    · rw [hc]
      decide
    · exact (l.2.blank c hc).inside

theorem stmtText_inside {stmt : Option Stmt} {c : UInt8} (h : c ∈ stmtText stmt) :
    c ≠ chr '\n' ∧ c ≠ 0 := by
  rcases mem_stmtText h with ⟨t, ht⟩ | h | h
  · exact (t.chars c ht).2.2.2
  · exact h.inside
  · rw [h]
    decide

theorem SourceLine.inside (ln : SourceLine) {c : UInt8} (h : c ∈ ln.text) :
    c ≠ chr '\n' ∧ c ≠ 0 := by
  simp only [SourceLine.text, lineText, List.mem_append] at h
  rcases h with ((h | h | h) | h) | h
  · exact (ln.lead.blank c h).inside
  · exact labelsText_inside h
  · exact stmtText_inside h
  · exact (ln.trail.blank c h).inside
  · exact ln.comment_chars c h

theorem sourceText_cons (ln next : SourceLine) (rest : List SourceLine) :
    sourceText (ln :: next :: rest) = ln.text ++ chr '\n' :: sourceText (next :: rest) := by
  simp [sourceText, List.intercalate]

theorem sourceText_singleton (ln : SourceLine) : sourceText [ln] = ln.text := by
  simp [sourceText, List.intercalate]

theorem nul_not_mem_sourceText (src : List SourceLine) : 0 ∉ sourceText src := by
  induction src with
  | nil => simp [sourceText]
  | cons ln rest ih =>
    cases rest with
    | nil =>
      rw [sourceText_singleton]
      exact fun h => (ln.inside h).2 rfl
    | cons next rest =>
      rw [sourceText_cons, List.mem_append, List.mem_cons]
      rintro (h | h | h)
      · exact (ln.inside h).2 rfl
      · exact absurd h (by decide)
      · exact ih h

theorem asm_build_lines_program {pre here : List SourceLine} (hpre : Acceptable pre)
    (hshort : NamesShort (pre ++ here)) :
    (Acceptable (pre ++ here) →
      asm_build_lines (program pre) (pre.length + 1) (sourceText here) =
        .ok (program (pre ++ here))) ∧
    (¬ Acceptable (pre ++ here) →
      ∃ e, asm_build_lines (program pre) (pre.length + 1) (sourceText here) = .error e) := by
  induction here generalizing pre with
  | nil =>
    rw [List.append_nil]
    refine ⟨fun _ => ?_, fun h => absurd hpre h⟩
    have hnil : sourceText [] = [] := rfl
    rw [hnil, asm_build_lines]
  | cons ln rest ih =>
    have happ : pre ++ ln :: rest = (pre ++ [ln]) ++ rest := by simp
    have hnl : chr '\n' ∉ ln.text := fun h => (ln.inside h).1 rfl
    rw [happ] at hshort ⊢
    have hhead : NamesShort (pre ++ [ln]) := by
      intro name h
      apply hshort name
      rw [lines_append, labels_append]
      exact List.mem_append_left _ h
    have hline := asm_build_line_program hpre hhead
    cases rest with
    | nil =>
      rw [List.append_nil, sourceText_singleton, asm_build_lines_last _ _ hnl]
      exact hline
    | cons next rest =>
      rw [sourceText_cons, asm_build_lines_append _ _ hnl]
      by_cases hacc : Acceptable (pre ++ [ln])
      · rw [hline.1 hacc]
        have hrest := ih hacc hshort
        rw [List.length_append] at hrest
        exact hrest
      · refine ⟨fun h => absurd h.of_append hacc, fun _ => ?_⟩
        obtain ⟨e, he⟩ := hline.2 hacc
        rw [he]
        exact ⟨e, rfl⟩

theorem asm_build_program_sourceText {src : List SourceLine} (hshort : NamesShort src) :
    (Acceptable src → asm_build_program (sourceText src) = .ok (program src)) ∧
    (¬ Acceptable src → ∃ e, asm_build_program (sourceText src) = .error e) := by
  have hcstr : cstr (sourceText src) = sourceText src := by
    rw [cstr, List.takeWhile_eq_self_iff]
    intro c hc
    rw [bne_iff_ne]
    intro h
    rw [h] at hc
    exact nul_not_mem_sourceText src hc
  rw [asm_build_program, hcstr]
  exact asm_build_lines_program Acceptable.nil hshort

end vibeos.asm
