-- The lines of a page in the browser (apps/netsurf/netsurf.c): the layout of a text into lines,
-- and the loop of netsurf_render_frame that draws the lines of a window.
import Vibeos.Loops
import Vibeos.Wget

namespace vibeos.netsurf

open vibeos.wget (ascii)

/-! ## The layout -/

/-- A row of `lines`: the bytes before its terminator. -/
abbrev Line := List UInt8

def MAX_LINES : Nat := 1024
def LINE_MAX : Nat := 255

/-- The loop of `ns_layout`, with room for `room` more lines. -/
def layout_lines : Nat → List UInt8 → List Line
  | 0, _ => []
  | _ + 1, [] => []
  | room + 1, c :: raw =>
    let line := (c :: raw).takeWhile (· ≠ 10)
    line.take LINE_MAX :: layout_lines room ((c :: raw).drop (line.length + 1))

/-- The lines that `ns_layout` leaves. There is always one. -/
structure Page where
  lines : List Line
  pos : 0 < lines.length
  count_le : lines.length ≤ MAX_LINES
  len_le : ∀ line ∈ lines, line.length ≤ LINE_MAX

theorem length_layout_lines (room : Nat) (raw : List UInt8) :
    (layout_lines room raw).length ≤ room := by
  induction room generalizing raw with
  | zero => simp [layout_lines]
  | succ room ih =>
    cases raw with
    | nil => simp [layout_lines]
    | cons c raw => simpa [layout_lines] using ih _

theorem line_layout_lines (room : Nat) (raw : List UInt8) :
    ∀ line ∈ layout_lines room raw, line.length ≤ LINE_MAX := by
  induction room generalizing raw with
  | zero => simp [layout_lines]
  | succ room ih =>
    cases raw with
    | nil => simp [layout_lines]
    | cons c raw =>
      simp only [layout_lines, List.forall_mem_cons, List.length_take]
      exact ⟨Nat.min_le_left _ _, ih _⟩

def ns_layout (raw : List UInt8) : Page :=
  if h : layout_lines MAX_LINES raw = [] then ⟨[[]], by decide, by decide, by decide⟩
  else
    { lines := layout_lines MAX_LINES raw
      pos := List.length_pos_of_ne_nil h
      count_le := length_layout_lines _ _
      len_le := line_layout_lines _ _ }

def Page.max_line_len (p : Page) : Nat := (p.lines.map List.length).foldl max 0

/-! ## Markers -/

/-- A byte of a line, or of its terminator. -/
def byte (line : Line) (k : Nat) : UInt8 := line.getD k 0

def ns_marker_is (line : Line) (marker : String) : Bool :=
  byte line 0 == 0x1d && (ascii marker).isPrefixOf line.tail

/-- A part of an input marker: it ends at a bar, at the terminator or where its buffer is
full. -/
def marker_part (p : Line) (max : Nat) : Line :=
  (p.takeWhile fun c => c ≠ 0 ∧ c ≠ 124).take (max - 1)

/-- `ns_parse_input_marker`: the type, the value and the name. -/
def ns_parse_input_marker (line : Line) : Option (Line × Line × Line) :=
  let p := line.drop 7
  let type := marker_part p 32
  let p := p.drop type.length
  if byte p 0 ≠ 124 then none
  else
    let p := p.tail
    let value := marker_part p 128
    let p := p.drop value.length
    if byte p 0 ≠ 124 then none
    else some (type, value, marker_part p.tail 64)

/-- Where the table that begins at `idx` ends: its end marker, or behind the last line. -/
def table_end (lines : List Line) (idx : Nat) : Nat :=
  idx + 1 + (lines.drop (idx + 1)).findIdx fun line => ns_marker_is line "TABLE_END"

/-! ## The loop -/

/-- What `netsurf_render_frame` reads of the window and of the page, apart from the geometry of
what it draws. -/
structure Frame where
  page : Page
  v_offset : Int
  ns_h_offset : Int
  wh : Int
  scale : Nat
  wrp_page : Bool
  image_ready : Bool

/-- Something that is drawn for a line. A table is drawn with its rows. -/
inductive Draw where
  | image (line : Nat) (ready : Bool)
  | table (line : Nat) (rows : List Nat)
  | input (line : Nat) (parts : Line × Line × Line)
  | textarea (line : Nat)
  | text (line : Nat)

def Draw.line : Draw → Nat
  | .image line _ | .table line _ | .input line _ | .textarea line | .text line => line

/-- The first line, after it is clamped to the page. -/
def Frame.first (f : Frame) : Nat := min f.v_offset.toNat (f.page.lines.length - 1)

def Frame.h_off (f : Frame) : Nat := min f.ns_h_offset.toNat f.page.max_line_len

/-- `vis`; nothing is drawn in a window without room below its bar. -/
def Frame.vis (f : Frame) : Nat :=
  if f.wh - 64 ≤ 0 then 0 else max 1 ((f.wh - 64).toNat / (18 * f.scale))

structure Scan where
  i : Nat
  form_inline_active : Bool
  drawn : List Draw

def Scan.skip (s : Scan) : Scan := { s with i := s.i + 1 }

def Scan.draw (s : Scan) (d : Draw) : Scan := { s with i := s.i + 1, drawn := s.drawn ++ [d] }

/-- The body of the loop for the line `idx`. -/
def render_line (f : Frame) (s : Scan) (idx : Nat) (line : Line) : Scan :=
  if byte line 0 = 0 ∧ s.form_inline_active then s.skip
  else if byte line 0 = 0x1f ∧ byte line 1 = 0 then s.draw (.image idx f.image_ready)
  else if ns_marker_is line "TABLE_BEGIN" then
    let stop := table_end f.page.lines idx
    let rows := (List.range' (idx + 1) (stop - (idx + 1))).filter fun j =>
      byte (f.page.lines.getD j []) 0 ≠ 0x1d
    { s with i := stop + 1, drawn := s.drawn ++ [.table idx rows] }
  else if ns_marker_is line "TABLE_END" then s.skip
  else if ns_marker_is line "INPUT|" then
    if f.wrp_page then s.skip
    else
      match ns_parse_input_marker line with
      | none => s.skip
      | some parts => s.draw (.input idx parts)
  else if ns_marker_is line "FORM_BEGIN" then
    if f.wrp_page then s.skip else { s.skip with form_inline_active := true }
  else if ns_marker_is line "FORM_END" then { s.skip with form_inline_active := false }
  else if ns_marker_is line "TEXTAREA_BEGIN" then
    if f.wrp_page then s.skip else s.draw (.textarea idx)
  else if ns_marker_is line "TEXTAREA_END" then s.skip
  else if f.h_off < (line.takeWhile (· ≠ 0)).length then s.draw (.text idx)
  else s.skip

/-- A turn of the loop. It leaves with what is drawn. -/
def turn (f : Frame) (s : Scan) : Scan ⊕ List Draw :=
  if f.vis ≤ s.i then .inr s.drawn
  else
    match f.page.lines[f.first + s.i]? with
    | none => .inr s.drawn
    | some line => .inl (render_line f s (f.first + s.i) line)

/-- The line loop of `netsurf_render_frame`: the lines that it visits, and what it draws. The
lines of a page that is an image are not drawn. -/
def render_lines (f : Frame) (visited : List Nat) (drawn : List Draw) : Prop :=
  if f.wrp_page then visited = [] ∧ drawn = []
  else ∃ states, Loop (turn f) ⟨0, false, []⟩ states drawn ∧
    visited = states.map fun s => f.first + s.i

/-! ## Tables -/

section

variable {lines : List Line} {b j idx : Nat}

def BeginsTable (lines : List Line) (b : Nat) : Prop :=
  ∃ line, lines[b]? = some line ∧ ns_marker_is line "TABLE_BEGIN" = true

/-- The line is in the block of a table, from its begin to its end marker. -/
def InTable (lines : List Line) (x : Nat) : Prop :=
  ∃ b, BeginsTable lines b ∧ b ≤ x ∧ x ≤ table_end lines b

theorem lt_table_end (lines : List Line) (b : Nat) : b < table_end lines b := by
  unfold table_end
  omega

theorem table_end_le (hb : b < lines.length) : table_end lines b ≤ lines.length := by
  have h : (lines.drop (b + 1)).findIdx (fun line => ns_marker_is line "TABLE_END") ≤ _ :=
    List.findIdx_le_length
  rw [List.length_drop] at h
  unfold table_end
  omega

theorem not_end_of_lt {line : Line} (hbj : b < j) (hj : j < table_end lines b)
    (hline : lines[j]? = some line) : ns_marker_is line "TABLE_END" = false := by
  unfold table_end at hj
  have hlt : j - (b + 1) <
      (lines.drop (b + 1)).findIdx fun line => ns_marker_is line "TABLE_END" := by omega
  have hnot := List.not_of_lt_findIdx hlt
  rw [List.getElem_drop] at hnot
  obtain ⟨hlt, hget⟩ := List.getElem?_eq_some_iff.mp hline
  have hplace : b + 1 + (j - (b + 1)) = j := by omega
  simp only [hplace, hget] at hnot
  exact hnot

theorem end_at_table_end {line : Line} (hline : lines[table_end lines b]? = some line) :
    ns_marker_is line "TABLE_END" = true := by
  obtain ⟨hlt, hget⟩ := List.getElem?_eq_some_iff.mp hline
  unfold table_end at hlt hget
  rw [← hget, ← List.getElem_drop]
  exact List.findIdx_getElem (p := fun line => ns_marker_is line "TABLE_END")
    (w := by rw [List.length_drop]; omega)

theorem table_end_mono {b' : Nat} (h : b ≤ b') (hb' : b' < lines.length) :
    table_end lines b ≤ table_end lines b' := by
  by_contra hlt
  have hle : table_end lines b ≤ _ := table_end_le (by omega)
  have hget : lines[table_end lines b']? = some lines[table_end lines b'] :=
    List.getElem?_eq_getElem (by omega)
  have hend := end_at_table_end hget
  rw [not_end_of_lt (b := b) (by have := lt_table_end lines b'; omega) (by omega) hget] at hend
  cases hend

end

/-! ## A turn of the loop -/

variable {f : Frame} {s s' : Scan} {idx : Nat} {line : Line}

theorem byte_zero_of_marker {marker : String} (h : ns_marker_is line marker = true) :
    byte line 0 = 0x1d := by
  unfold ns_marker_is at h
  simp only [Bool.and_eq_true, beq_iff_eq] at h
  exact h.1

theorem render_table (h : ns_marker_is line "TABLE_BEGIN" = true) :
    (render_line f s idx line).i = table_end f.page.lines idx + 1 ∧
      ∃ d : Draw, d.line = idx ∧ (render_line f s idx line).drawn = s.drawn ++ [d] := by
  have hbyte := byte_zero_of_marker h
  unfold render_line
  rw [if_neg (by simp [hbyte]), if_neg (by simp [hbyte]), if_pos h]
  exact ⟨rfl, .table idx _, rfl, rfl⟩

/-- What a turn over a line outside of a table does: the counter goes to the next line, and
something is drawn for the line or nothing is. -/
def Steps (s : Scan) (idx : Nat) (s' : Scan) : Prop :=
  s'.i = s.i + 1 ∧ ∃ ds : List Draw, s'.drawn = s.drawn ++ ds ∧ (ds.map Draw.line).Sublist [idx]

theorem steps_skip (s : Scan) (idx : Nat) : Steps s idx s.skip :=
  ⟨rfl, [], by simp [Scan.skip], by simp⟩

theorem steps_draw (s : Scan) (d : Draw) : Steps s d.line (s.draw d) :=
  ⟨rfl, [d], rfl, List.Sublist.refl _⟩

theorem steps_form (s : Scan) (idx : Nat) (active : Bool) :
    Steps s idx { s.skip with form_inline_active := active } := steps_skip s idx

theorem render_other (h : ns_marker_is line "TABLE_BEGIN" = false) :
    Steps s idx (render_line f s idx line) := by
  unfold render_line
  split
  · exact steps_skip s idx
  split
  · exact steps_draw s (.image idx f.image_ready)
  rw [if_neg (by simp [h])]
  split
  · exact steps_skip s idx
  split
  · split
    · exact steps_skip s idx
    split
    · exact steps_skip s idx
    · exact steps_draw s (.input idx _)
  split
  · split
    · exact steps_skip s idx
    · exact steps_form s idx true
  split
  · exact steps_form s idx false
  split
  · split
    · exact steps_skip s idx
    · exact steps_draw s (.textarea idx)
  split
  · exact steps_skip s idx
  split
  · exact steps_draw s (.text idx)
  · exact steps_skip s idx

/-- A turn that goes on, behind the line or behind the table. -/
structure Goes (f : Frame) (s s' : Scan) : Prop where
  vis : s.i < f.vis
  len : f.first + s.i < f.page.lines.length
  draws : ∃ ds : List Draw, s'.drawn = s.drawn ++ ds ∧ (ds.map Draw.line).Sublist [f.first + s.i]
  next : BeginsTable f.page.lines (f.first + s.i) ∧
      s'.i = table_end f.page.lines (f.first + s.i) + 1 ∨
    ¬ BeginsTable f.page.lines (f.first + s.i) ∧ s'.i = s.i + 1

theorem Goes.lt {s' : Scan} (h : Goes f s s') : s.i < s'.i := by
  have := lt_table_end f.page.lines (f.first + s.i)
  rcases h.next with ⟨_, hi⟩ | ⟨_, hi⟩ <;> omega

theorem turn_cases (f : Frame) (s : Scan) :
    ((f.vis ≤ s.i ∨ f.page.lines.length ≤ f.first + s.i) ∧ turn f s = .inr s.drawn) ∨
    ∃ s', turn f s = .inl s' ∧ Goes f s s' := by
  unfold turn
  by_cases hvis : f.vis ≤ s.i
  · exact Or.inl ⟨Or.inl hvis, if_pos hvis⟩
  rw [if_neg hvis]
  cases hline : f.page.lines[f.first + s.i]? with
  | none => exact Or.inl ⟨Or.inr (List.getElem?_eq_none_iff.mp hline), rfl⟩
  | some line =>
    have hlt := (List.getElem?_eq_some_iff.mp hline).1
    refine Or.inr ⟨_, rfl, ?_⟩
    cases hbegin : ns_marker_is line "TABLE_BEGIN" with
    | true =>
      obtain ⟨hi, d, hd, hdrawn⟩ := @render_table f s (f.first + s.i) _ hbegin
      exact ⟨by omega, hlt, ⟨[d], hdrawn, by simp [hd]⟩, Or.inl ⟨⟨line, hline, hbegin⟩, hi⟩⟩
    | false =>
      obtain ⟨hi, hdrawn⟩ := @render_other f s (f.first + s.i) _ hbegin
      refine ⟨by omega, hlt, hdrawn, Or.inr ⟨?_, hi⟩⟩
      rintro ⟨line', hline', hbegin'⟩
      rw [hline] at hline'
      cases hline'
      rw [hbegin] at hbegin'
      cases hbegin'

theorem goes_of_turn {s' : Scan} (h : turn f s = .inl s') : Goes f s s' := by
  rcases turn_cases f s with ⟨_, hleave⟩ | ⟨s'', hturn, hgoes⟩
  · rw [hleave] at h
    cases h
  · rw [hturn] at h
    cases h
    exact hgoes

theorem over_of_turn {drawn : List Draw} (h : turn f s = .inr drawn) :
    (f.vis ≤ s.i ∨ f.page.lines.length ≤ f.first + s.i) ∧ drawn = s.drawn := by
  rcases turn_cases f s with ⟨hover, hleave⟩ | ⟨s', hturn, _⟩
  · rw [hleave] at h
    cases h
    exact ⟨hover, rfl⟩
  · rw [hturn] at h
    cases h

/-! ## The lines that are visited -/

/-- What a loop over the lines of a window should do: it goes on from line to line, leaves no
line out that is in no table, draws each at most once, and goes on behind a table with the
line behind its end. -/
structure SkipsNothing (f : Frame) (visited : List Nat) (drawn : List Draw) : Prop where
  starts : ∀ x ∈ visited.head?, x = f.first
  increasing : visited.Pairwise (· < ·)
  once : (drawn.map Draw.line).Nodup ∧ ∀ d ∈ drawn, d.line ∈ visited
  leaves_none : ∀ x, f.first ≤ x → ¬ InTable f.page.lines x → (∃ y ∈ visited, x ≤ y) → x ∈ visited
  behind_table : visited.IsChain fun b y =>
    BeginsTable f.page.lines b → y = table_end f.page.lines b + 1
  goes_on : ∀ b ∈ visited.getLast?, BeginsTable f.page.lines b →
    min f.page.lines.length (f.first + f.vis) ≤ table_end f.page.lines b + 1

def visitedLines (f : Frame) (states : List Scan) : List Nat := states.map fun s => f.first + s.i

@[simp] theorem visitedLines_nil (f : Frame) : visitedLines f [] = [] := rfl

@[simp] theorem visitedLines_cons (f : Frame) (s : Scan) (states : List Scan) :
    visitedLines f (s :: states) = (f.first + s.i) :: visitedLines f states := rfl

theorem exists_loop (f : Frame) (s : Scan) : ∃ states drawn, Loop (turn f) s states drawn := by
  generalize hn : f.vis - s.i = n
  induction n using Nat.strongRecOn generalizing s with
  | ind n ih =>
    rcases turn_cases f s with ⟨_, hleave⟩ | ⟨s', hturn, hgoes⟩
    · exact ⟨[], _, .leave hleave⟩
    · have hlt := hgoes.lt
      have hvis := hgoes.vis
      obtain ⟨states, drawn, hloop⟩ := ih (f.vis - s'.i) (by omega) s' rfl
      exact ⟨s :: states, drawn, .turn hturn hloop⟩

theorem loop_grows {states : List Scan} {drawn : List Draw}
    (h : Loop (turn f) s states drawn) :
    (∀ x ∈ (visitedLines f states).head?, x = f.first + s.i) ∧
      (visitedLines f states).Pairwise (· < ·) ∧
      (∀ x ∈ visitedLines f states, f.first + s.i ≤ x) ∧
      ∃ ds : List Draw, drawn = s.drawn ++ ds ∧
        (ds.map Draw.line).Sublist (visitedLines f states) := by
  induction h with
  | leave hr =>
    cases (over_of_turn hr).2
    exact ⟨by simp, .nil, by simp, [], by simp, by simp⟩
  | turn ht _ ih =>
    rename_i s s₁ states r _
    have hlt := (goes_of_turn ht).lt
    obtain ⟨ds, hdrawn, hsub⟩ := (goes_of_turn ht).draws
    obtain ⟨_, hpair, hge, ds', hr, hsub'⟩ := ih
    rw [visitedLines_cons]
    refine ⟨by simp, ?_, ?_, ds ++ ds', by rw [hr, hdrawn, List.append_assoc], ?_⟩
    · refine List.pairwise_cons.mpr ⟨fun x hx => ?_, hpair⟩
      have := hge x hx
      omega
    · intro x hx
      rcases List.mem_cons.mp hx with rfl | hx
      · exact Nat.le_refl _
      · have := hge x hx
        omega
    · rw [List.map_append]
      exact hsub.append hsub'

/-- The page is not scrolled, or no table from the first line on ends inside of the window with
a line behind it. -/
def Unscrolled (f : Frame) : Prop :=
  f.first = 0 ∨ ∀ b, f.first ≤ b → BeginsTable f.page.lines b →
    min f.page.lines.length (f.first + f.vis) ≤ table_end f.page.lines b + 1

theorem loop_of_over {states : List Scan} {drawn : List Draw} (h : Loop (turn f) s states drawn)
    (hover : f.vis ≤ s.i ∨ f.page.lines.length ≤ f.first + s.i) : states = [] := by
  rcases turn_cases f s with ⟨_, hleave⟩ | ⟨_, _, hgoes⟩
  · exact (h.det (.leave hleave)).1
  · have := hgoes.vis
    have := hgoes.len
    omega

theorem over_of_loop {drawn : List Draw} (h : Loop (turn f) s [] drawn) :
    f.vis ≤ s.i ∨ f.page.lines.length ≤ f.first + s.i := by
  cases h with
  | leave hr => exact (over_of_turn hr).1

theorem loop_leaves_none (hf : Unscrolled f) {states : List Scan} {drawn : List Draw}
    (h : Loop (turn f) s states drawn) :
    (∀ x, f.first + s.i ≤ x → ¬ InTable f.page.lines x →
        (∃ y ∈ visitedLines f states, x ≤ y) → x ∈ visitedLines f states) ∧
      ((visitedLines f states).IsChain fun b y =>
        BeginsTable f.page.lines b → y = table_end f.page.lines b + 1) ∧
      ∀ b ∈ (visitedLines f states).getLast?, BeginsTable f.page.lines b →
        min f.page.lines.length (f.first + f.vis) ≤ table_end f.page.lines b + 1 := by
  induction h with
  | leave hr => simp
  | turn ht hrest ih =>
    rename_i s s₁ states r
    have hnext := (goes_of_turn ht).next
    rw [visitedLines_cons]
    obtain ⟨hleaves, hchain, hlast⟩ := ih
    obtain ⟨hhead, _, hge, _⟩ := loop_grows hrest
    -- behind a table the loop is over, or at the line behind the end
    have htable : BeginsTable f.page.lines (f.first + s.i) →
        states = [] ∨ f.first + s₁.i = table_end f.page.lines (f.first + s.i) + 1 := by
      intro hbegin
      rcases hnext with ⟨_, hi⟩ | ⟨hno, _⟩
      · rcases hf with hzero | hend
        · right
          omega
        · left
          have := hend _ (Nat.le_add_right _ _) hbegin
          exact loop_of_over hrest (by omega)
      · exact absurd hbegin hno
    refine ⟨fun x hx hout hy => ?_, ?_, ?_⟩
    · rcases Nat.eq_or_lt_of_le hx with rfl | hlt
      · exact List.mem_cons_self
      obtain ⟨y, hy, hxy⟩ := hy
      rcases List.mem_cons.mp hy with rfl | hy
      · omega
      have hne : states ≠ [] := by
        rintro rfl
        cases hy
      refine List.mem_cons_of_mem _ (hleaves x ?_ hout ⟨y, hy, hxy⟩)
      rcases hnext with ⟨hbegin, _⟩ | ⟨_, hi⟩
      · rcases htable hbegin with hnil | hplace
        · exact absurd hnil hne
        · have hbehind : ¬ x ≤ table_end f.page.lines (f.first + s.i) := fun hle =>
            hout ⟨_, hbegin, hx, hle⟩
          omega
      · omega
    · cases states with
      | nil => exact .singleton _
      | cons s₂ states =>
        rw [visitedLines_cons] at hchain ⊢
        refine List.isChain_cons_cons.mpr ⟨fun hbegin => ?_, hchain⟩
        have hplace := hhead (f.first + s₂.i) rfl
        rcases htable hbegin with hnil | htable
        · cases hnil
        · omega
    · cases states with
      | nil =>
        intro b hb hbegin
        obtain rfl : f.first + s.i = b := by simpa using hb
        have hover := over_of_loop hrest
        rcases hnext with ⟨_, hi⟩ | ⟨hno, _⟩
        · rcases hf with hzero | hend
          · omega
          · exact hend _ (Nat.le_add_right _ _) hbegin
        · exact absurd hbegin hno
      | cons s₂ states =>
        intro b hb
        exact hlast b (by simpa using hb)

theorem loop_skips (hfirst : f.first ≠ 0) {states : List Scan} {drawn : List Draw}
    (h : Loop (turn f) s states drawn)
    (hchain : (visitedLines f states).IsChain fun b y =>
      BeginsTable f.page.lines b → y = table_end f.page.lines b + 1)
    (hlast : ∀ b ∈ (visitedLines f states).getLast?, BeginsTable f.page.lines b →
      min f.page.lines.length (f.first + f.vis) ≤ table_end f.page.lines b + 1)
    {b : Nat} (hb : f.first + s.i ≤ b) (hbegin : BeginsTable f.page.lines b) :
    min f.page.lines.length (f.first + f.vis) ≤ table_end f.page.lines b + 1 := by
  induction h with
  | leave hr =>
    rename_i s r
    have := lt_table_end f.page.lines b
    have hover := over_of_loop (.leave hr)
    omega
  | turn ht hrest ih =>
    rename_i s s₁ states r
    have hnext := (goes_of_turn ht).next
    rw [visitedLines_cons] at hchain hlast
    obtain ⟨hhead, _⟩ := loop_grows hrest
    obtain ⟨line, hline, _⟩ := hbegin
    have hlt := (List.getElem?_eq_some_iff.mp hline).1
    rcases hnext with ⟨hfrom, hi⟩ | ⟨hno, hi⟩
    · -- a table at the line itself ends no later
      have hmono := @table_end_mono f.page.lines _ _ hb hlt
      cases states with
      | nil =>
        have := hlast (f.first + s.i) (by simp) hfrom
        omega
      | cons s₂ states =>
        have hplace := hhead (f.first + s₂.i) rfl
        rw [visitedLines_cons] at hchain
        have := (List.isChain_cons_cons.mp hchain).1 hfrom
        omega
    · have hne : f.first + s.i ≠ b := by
        rintro rfl
        exact hno ⟨line, hline, ‹_›⟩
      refine ih hchain.of_cons (fun c hc => ?_) (by omega)
      apply hlast c
      cases states with
      | nil => cases hc
      | cons s₂ states => simpa using hc

/-! ## When the loop skips nothing -/

theorem skips_nothing_iff {states : List Scan} {drawn : List Draw}
    (h : Loop (turn f) ⟨0, false, []⟩ states drawn) :
    SkipsNothing f (visitedLines f states) drawn ↔ Unscrolled f := by
  obtain ⟨hhead, hpair, _, ds, hdrawn, hsub⟩ := loop_grows h
  obtain rfl : drawn = ds := hdrawn
  constructor
  · intro hs
    by_cases hfirst : f.first = 0
    · exact Or.inl hfirst
    · exact Or.inr fun b hb hbegin =>
        loop_skips hfirst h hs.behind_table hs.goes_on (s := ⟨0, false, []⟩) hb hbegin
  · intro hf
    obtain ⟨hleaves, hchain, hlast⟩ := loop_leaves_none hf h
    exact {
      starts := hhead
      increasing := hpair
      once := ⟨hsub.nodup (hpair.imp Nat.ne_of_lt),
        fun d hd => hsub.subset (List.mem_map_of_mem hd)⟩
      leaves_none := hleaves
      behind_table := hchain
      goes_on := hlast }

theorem render_result (f : Frame) :
    ∃ visited drawn, render_lines f visited drawn ∧
      (SkipsNothing f visited drawn ↔ f.wrp_page = true ∨ Unscrolled f) := by
  unfold render_lines
  cases hwrp : f.wrp_page with
  | true =>
    refine ⟨[], [], ⟨rfl, rfl⟩, iff_of_true ?_ (Or.inl rfl)⟩
    constructor <;> simp
  | false =>
    obtain ⟨states, drawn, hloop⟩ := exists_loop f ⟨0, false, []⟩
    refine ⟨visitedLines f states, drawn, ⟨states, hloop, rfl⟩, ?_⟩
    simpa using skips_nothing_iff hloop

theorem render_det {visited visited' : List Nat} {drawn drawn' : List Draw}
    (h : render_lines f visited drawn) (h' : render_lines f visited' drawn') :
    visited = visited' ∧ drawn = drawn' := by
  unfold render_lines at h h'
  split at h
  · rename_i hwrp
    rw [if_pos hwrp] at h'
    exact ⟨h.1.trans h'.1.symm, h.2.trans h'.2.symm⟩
  · rename_i hwrp
    rw [if_neg hwrp] at h'
    obtain ⟨states, hloop, rfl⟩ := h
    obtain ⟨states', hloop', rfl⟩ := h'
    obtain ⟨rfl, rfl⟩ := hloop.det hloop'
    exact ⟨rfl, rfl⟩

/-- The loop ends, and skips nothing exactly where the page is not scrolled or no table ends
inside of the window with a line behind it; a page that is an image has no lines to draw. -/
theorem render_skips_nothing_iff (f : Frame) :
    ∃ visited drawn, render_lines f visited drawn ∧
      (∀ visited' drawn', render_lines f visited' drawn' →
        visited' = visited ∧ drawn' = drawn) ∧
      (SkipsNothing f visited drawn ↔ f.wrp_page = true ∨ Unscrolled f) := by
  obtain ⟨visited, drawn, hrender, hiff⟩ := render_result f
  exact ⟨visited, drawn, hrender, fun _ _ h => render_det h hrender, hiff⟩

/-- A table of one row behind the first line of a page, scrolled by one line. -/
def scrolledTable : Frame where
  page := ns_layout (ascii "a\n" ++ 0x1d :: ascii "TABLE_BEGIN\nr\n" ++
    0x1d :: ascii "TABLE_END\nb\nc\n")
  v_offset := 1
  ns_h_offset := 0
  wh := 244
  scale := 1
  wrp_page := false
  image_ready := false

/-- The line behind the table is skipped. -/
theorem scrolled_table_skips : ¬ ∀ f : Frame, ∃ visited drawn,
    render_lines f visited drawn ∧ SkipsNothing f visited drawn := by
  intro h
  obtain ⟨visited, drawn, hrender, hskips⟩ := h scrolledTable
  obtain ⟨visited', drawn', hrender', hiff⟩ := render_result scrolledTable
  obtain ⟨rfl, rfl⟩ := render_det hrender hrender'
  rcases hiff.mp hskips with hwrp | hzero | hend
  · cases hwrp
  · exact absurd hzero (by decide +kernel)
  · have hbegin : BeginsTable scrolledTable.page.lines 1 := by
      refine ⟨0x1d :: ascii "TABLE_BEGIN", ?_, ?_⟩ <;> decide +kernel
    have hle := hend 1 (by decide +kernel) hbegin
    exact absurd hle (by decide +kernel)

end vibeos.netsurf
