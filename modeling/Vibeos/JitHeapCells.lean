-- The block list of a JIT job as a cut of its bytes into cells: the loops of `umalloc`
-- and of the coalescing do to the cells what the first-fit operations say.
import Vibeos.FirstFit
import Vibeos.JitHeap

namespace vibeos.tcc_glue

open vibeos.Mem vibeos.FirstFit

/-! ## Block headers -/

section Headers

variable {m m' : Mem} {a b v : Nat}

theorem ublock_congr (h : ∀ y, b ≤ y → y < b + UBLOCK_SIZE → m' y = m y) :
    ublock m' b = ublock m b := by
  unfold UBLOCK_SIZE at h
  unfold ublock
  rw [readLE_congr fun i hi => h _ (by omega) (by omega),
    readLE_congr fun i hi => h _ (by omega) (by omega),
    readLE_congr fun i hi => h _ (by omega) (by omega),
    readLE_congr fun i hi => h _ (by omega) (by omega)]

theorem ublock_set_size (hv : v < 2 ^ 32) :
    ublock (set_size m b v) b = { ublock m b with size := v } := by
  unfold ublock set_size
  rw [readLE_writeLE_out (by omega), readLE_writeLE_of_lt hv, readLE_writeLE_out (by omega),
    readLE_writeLE_out (by omega)]

theorem ublock_set_free (hv : v < 2 ^ 32) :
    ublock (set_free m b v) b = { ublock m b with free := v } := by
  unfold ublock set_free
  rw [readLE_writeLE_out (by omega), readLE_writeLE_of_lt hv, readLE_writeLE_out (by omega),
    readLE_writeLE_out (by omega)]

theorem ublock_set_next (hv : v < 2 ^ 32) :
    ublock (set_next m b v) b = { ublock m b with next := v } := by
  unfold ublock set_next
  rw [readLE_writeLE_out (by omega), readLE_writeLE_of_lt hv, readLE_writeLE_out (by omega),
    readLE_writeLE_out (by omega)]

theorem set_size_out (h : a < b + 4 ∨ b + 8 ≤ a) : set_size m b v a = m a := writeLE_out h

theorem set_free_out (h : a < b + 8 ∨ b + 12 ≤ a) : set_free m b v a = m a := writeLE_out h

theorem set_next_out (h : a < b + 12 ∨ b + 16 ≤ a) : set_next m b v a = m a := writeLE_out h

def UBlock.Fits (u : UBlock) : Prop :=
  u.magic < 2 ^ 32 ∧ u.size < 2 ^ 32 ∧ u.free < 2 ^ 32 ∧ u.next < 2 ^ 32

theorem ublock_set_ublock {u : UBlock} (h : u.Fits) : ublock (set_ublock m b u) b = u := by
  unfold set_ublock
  rw [ublock_set_next h.2.2.2, ublock_set_free h.2.2.1, ublock_set_size h.2.1]
  unfold ublock
  rw [readLE_writeLE_of_lt h.1]

theorem set_ublock_out {u : UBlock} (h : a < b ∨ b + UBLOCK_SIZE ≤ a) :
    set_ublock m b u a = m a := by
  unfold UBLOCK_SIZE at h
  unfold set_ublock
  rw [set_next_out (by omega), set_free_out (by omega), set_size_out (by omega),
    writeLE_out (by omega)]

end Headers

/-! ## The list as cells -/

variable {m m' : Mem} {a x need rounds : Nat} {c : Cell} {cs ds : List Cell}

/-- Where a list of cells begins, 0 for the empty one. -/
def link (a : Nat) (cs : List Cell) : Nat := if cs = [] then 0 else a

/-- The header of a cell at `a` with the cells `cs` behind it. -/
def headerOf (a : Nat) (c : Cell) (cs : List Cell) : UBlock where
  magic := JIT_UHEAP_MAGIC
  size := c.size
  free := if c.free then 1 else 0
  next := link (a + UBLOCK_SIZE + c.size) cs

theorem free_headerOf : (headerOf a c cs).free ≠ 0 ↔ c.free = true := by
  unfold headerOf
  cases c.free <;> simp

/-- The memory has the headers of the cells from `a` on. -/
def Tiles (m : Mem) (a : Nat) : List Cell → Prop
  | [] => True
  | c :: cs => ublock m a = headerOf a c cs ∧ Tiles m (a + UBLOCK_SIZE + c.size) cs

theorem Tiles.congr (h : Tiles m a cs)
    (hsame : ∀ x c, At UBLOCK_SIZE a cs x c → ∀ y, x ≤ y → y < x + UBLOCK_SIZE → m' y = m y) :
    Tiles m' a cs := by
  induction cs generalizing a with
  | nil => trivial
  | cons c cs ih =>
    refine ⟨?_, ih h.2 fun x d hat => hsame x d (Or.inr hat)⟩
    rw [ublock_congr (hsame a c (Or.inl ⟨rfl, rfl⟩)), h.1]

theorem Tiles.congr_from (h : Tiles m a cs) (hsame : ∀ y, a ≤ y → m' y = m y) : Tiles m' a cs :=
  h.congr fun _ _ hat y hy _ => hsame y (Nat.le_trans hat.inside.1 hy)

theorem Tiles.header (h : Tiles m a cs) (hat : At UBLOCK_SIZE a cs x c) :
    (ublock m x).magic = JIT_UHEAP_MAGIC ∧ (ublock m x).size = c.size ∧
      (ublock m x).free = if c.free then 1 else 0 := by
  induction cs generalizing a with
  | nil => exact hat.elim
  | cons d cs ih =>
    rcases hat with ⟨rfl, rfl⟩ | hat
    · rw [h.1]
      exact ⟨rfl, rfl, rfl⟩
    · exact ih h.2 hat

theorem link_congr (a : Nat) (h : cs = [] ↔ ds = []) : link a cs = link a ds := by
  unfold link
  rw [if_congr h rfl rfl]

theorem link_cons (a : Nat) (c : Cell) (cs : List Cell) : link a (c :: cs) = a :=
  if_neg (List.cons_ne_nil c cs)

theorem Tiles.release (h : Tiles m a cs) (hat : At UBLOCK_SIZE a cs x c) :
    Tiles (set_free m x 1) a (release UBLOCK_SIZE x a cs) := by
  induction cs generalizing a with
  | nil => exact hat.elim
  | cons d cs ih =>
    unfold FirstFit.release
    split
    · rename_i hxa
      subst hxa
      refine ⟨?_, h.2.congr_from fun y hy => set_free_out (by unfold UBLOCK_SIZE at hy; omega)⟩
      rw [ublock_set_free (by omega), h.1]
      rfl
    · rename_i hxa
      have hlater := hat.resolve_left fun heq => hxa heq.1
      have hlo := hlater.inside.1
      refine ⟨?_, ih h.2 hlater⟩
      rw [ublock_congr fun y hy hy' => set_free_out (by omega), h.1]
      unfold headerOf
      congr 1
      apply link_congr
      cases cs with
      | nil => exact hlater.elim
      | cons e cs =>
        unfold FirstFit.release
        split <;> simp

/-! ## Taking a block -/

theorem take_block_whole (hhead : ublock m a = headerOf a c cs)
    (hcut : ¬ c.size - need > UBLOCK_SIZE + 8) : take_block m a need = set_free m a 0 := by
  unfold take_block
  simp only [hhead, headerOf]
  rw [if_neg hcut]

theorem take_block_cut (hhead : ublock m a = headerOf a c cs)
    (hcut : c.size - need > UBLOCK_SIZE + 8) (hn : a + UBLOCK_SIZE + need < 2 ^ 32) :
    take_block m a need =
      set_free (set_size (set_next (set_ublock m (a + UBLOCK_SIZE + need)
        (headerOf (a + UBLOCK_SIZE + need) ⟨c.size - need - UBLOCK_SIZE, true⟩ cs))
        a (a + UBLOCK_SIZE + need)) a need) a 0 := by
  have hlink : link (a + UBLOCK_SIZE + c.size) cs =
      link (a + UBLOCK_SIZE + need + UBLOCK_SIZE + (c.size - need - UBLOCK_SIZE)) cs := by
    congr 1
    omega
  unfold take_block
  simp only [hhead, headerOf, Nat.mod_eq_of_lt hn, hlink]
  rw [if_pos hcut]
  rfl

theorem headerOf_fits (hstop : a + UBLOCK_SIZE + c.size < 2 ^ 32) : (headerOf a c cs).Fits := by
  refine ⟨(by decide : JIT_UHEAP_MAGIC < 2 ^ 32), (by omega : c.size < 2 ^ 32), ?_, ?_⟩
  · unfold headerOf
    dsimp only
    split <;> omega
  · unfold headerOf link
    dsimp only
    split <;> omega

theorem Tiles.take_block (h : Tiles m a (c :: cs)) (hneed : need ≤ c.size)
    (hstop : a + UBLOCK_SIZE + c.size < 2 ^ 32) :
    Tiles (take_block m a need) a (cut UBLOCK_SIZE 8 need c ++ cs) ∧
      ∀ y, y < a ∨ a + UBLOCK_SIZE + c.size ≤ y → tcc_glue.take_block m a need y = m y := by
  obtain ⟨hhead, hrest⟩ := h
  unfold cut
  split
  · rename_i hcut
    simp only [List.cons_append, List.nil_append]
    have hn : a + UBLOCK_SIZE + need < 2 ^ 32 := by omega
    have hplace : a + UBLOCK_SIZE + need + UBLOCK_SIZE + (c.size - need - UBLOCK_SIZE) =
        a + UBLOCK_SIZE + c.size := by omega
    rw [take_block_cut hhead hcut hn]
    have hbehind : ∀ {m : Mem} {y}, a + UBLOCK_SIZE ≤ y →
        set_free (set_size (set_next m a (a + UBLOCK_SIZE + need)) a need) a 0 y = m y := by
      intro m y hy
      unfold UBLOCK_SIZE at hy
      rw [set_free_out (by omega), set_size_out (by omega), set_next_out (by omega)]
    refine ⟨⟨?_, ?_, ?_⟩, fun y hy => ?_⟩
    · rw [ublock_set_free (by omega), ublock_set_size (by omega), ublock_set_next hn,
        ublock_congr fun y hy hy' => set_ublock_out (Or.inl (by omega)), hhead]
      unfold headerOf
      rw [link_cons]
      rfl
    · rw [ublock_congr fun y hy _ => hbehind (by omega), ublock_set_ublock]
      refine headerOf_fits ?_
      rwa [hplace]
    · rw [hplace]
      refine hrest.congr_from fun y hy => ?_
      rw [hbehind (by omega), set_ublock_out (Or.inr (by omega))]
    · unfold UBLOCK_SIZE at *
      rw [set_free_out (by omega), set_size_out (by omega), set_next_out (by omega),
        set_ublock_out (by unfold UBLOCK_SIZE; omega)]
  · rename_i hcut
    rw [take_block_whole hhead hcut]
    refine ⟨⟨?_, ?_⟩, fun y hy => ?_⟩
    · rw [ublock_set_free (by omega), hhead]
      rfl
    · exact hrest.congr_from fun y hy => set_free_out (by unfold UBLOCK_SIZE at hy; omega)
    · unfold UBLOCK_SIZE at hy
      exact set_free_out (by omega)

theorem umalloc_loop_none (h : Tiles m a cs) (ha : 0 < a) (hrounds : cs.length < rounds)
    (htake : take UBLOCK_SIZE 8 need a cs = none) :
    umalloc_loop need rounds (link a cs) m = some (0, m) := by
  induction rounds generalizing a cs with
  | zero => omega
  | succ rounds ih =>
    cases cs with
    | nil => rfl
    | cons c cs =>
      obtain ⟨hhead, hrest⟩ := h
      unfold take at htake
      split at htake
      · exact nomatch htake
      · rename_i hnot
        have hskip : ¬ ((headerOf a c cs).free ≠ 0 ∧ (headerOf a c cs).size ≥ need) := by
          rwa [free_headerOf]
        unfold umalloc_loop
        rw [link_cons, if_neg (by omega), hhead, if_neg (fun hmagic => hmagic rfl), if_neg hskip]
        refine ih hrest (by omega) ?_ (Option.map_eq_none_iff.mp htake)
        simp only [List.length_cons] at hrounds
        omega

theorem umalloc_loop_some {r : Nat} (h : Tiles m a cs) (ha : 0 < a)
    (hrounds : cs.length < rounds) (hstop : stop UBLOCK_SIZE a cs < 2 ^ 32)
    (htake : take UBLOCK_SIZE 8 need a cs = some (r, ds)) :
    ∃ m', umalloc_loop need rounds (link a cs) m = some (r + UBLOCK_SIZE, m') ∧ Tiles m' a ds ∧
      ∀ c, At UBLOCK_SIZE a cs r c → ∀ y, y < r ∨ r + UBLOCK_SIZE + c.size ≤ y → m' y = m y := by
  induction rounds generalizing a cs ds with
  | zero => omega
  | succ rounds ih =>
    cases cs with
    | nil => exact nomatch htake
    | cons c cs =>
      obtain ⟨hhead, hrest⟩ := id h
      have hend : a + UBLOCK_SIZE + c.size ≤ stop UBLOCK_SIZE a (c :: cs) :=
        (at_head a c cs).inside.2
      unfold take at htake
      unfold umalloc_loop
      rw [link_cons, if_neg (by omega), hhead, if_neg (fun hmagic => hmagic rfl)]
      split at htake
      · rename_i hfits
        obtain ⟨rfl, rfl⟩ := Prod.mk.inj (Option.some.inj htake)
        obtain ⟨htiles, hframe⟩ := h.take_block hfits.2 (by omega)
        refine ⟨_, if_pos ⟨free_headerOf.mpr hfits.1, hfits.2⟩, htiles, fun d hat y hy => ?_⟩
        have hdc : d = c := At.eq_of_pos (by decide) hat (at_head a c cs)
        exact hframe y (hdc ▸ hy)
      · rename_i hnot
        have hskip : ¬ ((headerOf a c cs).free ≠ 0 ∧ (headerOf a c cs).size ≥ need) := by
          rwa [free_headerOf]
        obtain ⟨⟨q, es⟩, hmore, heq⟩ := Option.map_eq_some_iff.mp htake
        obtain ⟨rfl, rfl⟩ := Prod.mk.inj heq
        obtain ⟨c', hat, _⟩ := take_spec hmore
        have hlo := hat.inside.1
        obtain ⟨m', hloop, htiles, hframe⟩ := ih hrest (by omega)
          (by simp only [List.length_cons] at hrounds; omega) hstop hmore
        refine ⟨m', (if_neg hskip).trans hloop, ⟨?_, htiles⟩, fun d hd y hy => ?_⟩
        · rw [ublock_congr fun y hy hy' => hframe c' hat y (Or.inl (by omega)), hhead]
          unfold headerOf
          congr 1
          obtain ⟨hcs, hes⟩ := ne_nil_of_take hmore
          exact link_congr _ (iff_of_false hcs hes)
        · rcases hd with ⟨rfl, rfl⟩ | hd
          · exact absurd hlo (by unfold UBLOCK_SIZE; omega)
          · exact hframe d hd y hy

/-! ## Coalescing -/

/-- A byte of the size or next word of a free cell's header. -/
def Rewritten (a : Nat) (cs : List Cell) (y : Nat) : Prop :=
  ∃ x c, At UBLOCK_SIZE a cs x c ∧ c.free = true ∧
    (x + 4 ≤ y ∧ y < x + 8 ∨ x + 12 ≤ y ∧ y < x + 16)

theorem not_rewritten_of_buried {y i : Nat} (hy : Buried UBLOCK_SIZE a cs y)
    (hi : y ≤ i ∧ i < y + 4 ∨ y + 8 ≤ i ∧ i < y + 12) : ¬ Rewritten a cs i := by
  rintro ⟨z, d, hd, hdfree, hin⟩
  obtain ⟨x, c, hc, hfree, hplace⟩ := hy
  unfold UBLOCK_SIZE at *
  rcases hc.apart hd with ⟨rfl, rfl⟩ | hle | hle <;> omega

theorem not_rewritten_of_used {y i : Nat} (hat : At UBLOCK_SIZE a cs y c)
    (hused : c.free = false) (hlo : y ≤ i) (hhi : i < y + UBLOCK_SIZE + c.size) :
    ¬ Rewritten a cs i := by
  rintro ⟨z, e, he, hfree, hin⟩
  unfold UBLOCK_SIZE at *
  rcases he.apart hat with ⟨-, rfl⟩ | hle | hle
  · rw [hfree] at hused
    exact nomatch hused
  · omega
  · omega

theorem apart_of_buried {y i : Nat} (hy : Buried UBLOCK_SIZE a cs y)
    (hat : At UBLOCK_SIZE a cs x c) (hused : c.free = false) (hlo : y ≤ i)
    (hhi : i < y + UBLOCK_SIZE) : i < x + 8 ∨ x + 12 ≤ i := by
  obtain ⟨z, e, he, hfree, hplace⟩ := hy
  unfold UBLOCK_SIZE at *
  rcases he.apart hat with ⟨-, rfl⟩ | hle | hle
  · rw [hfree] at hused
    exact nomatch hused
  · omega
  · omega

theorem Tiles.join {d : Cell} (h : Tiles m a (c :: d :: cs)) (hc : c.free = true)
    (hstop : a + UBLOCK_SIZE + c.size + UBLOCK_SIZE + d.size < 2 ^ 32) :
    Tiles (set_next (set_size m a (c.size + UBLOCK_SIZE + d.size)) a
      (headerOf (a + UBLOCK_SIZE + c.size) d cs).next) a
      (⟨c.size + UBLOCK_SIZE + d.size, true⟩ :: cs) := by
  obtain ⟨hhead, -, hrest⟩ := h
  have hplace : a + UBLOCK_SIZE + (c.size + UBLOCK_SIZE + d.size) =
      a + UBLOCK_SIZE + c.size + UBLOCK_SIZE + d.size := by omega
  refine ⟨?_, ?_⟩
  · rw [ublock_set_next (headerOf_fits hstop).2.2.2, ublock_set_size (by omega), hhead]
    unfold headerOf
    dsimp only
    rw [hplace, hc]
  · rw [hplace]
    refine hrest.congr_from fun y hy => ?_
    unfold UBLOCK_SIZE at hy
    rw [set_next_out (by omega), set_size_out (by omega)]

theorem coalesce_loop_spec (h : Tiles m a (c :: cs)) (ha : 0 < a) (hrounds : cs.length < rounds)
    (hstop : stop UBLOCK_SIZE a (c :: cs) < 2 ^ 32) :
    ∃ m', coalesce_loop rounds a m = some m' ∧ Tiles m' a (mergeFrom UBLOCK_SIZE c cs) ∧
      ∀ y, ¬ Rewritten a (c :: cs) y → m' y = m y := by
  induction rounds generalizing m a c cs with
  | zero => omega
  | succ rounds ih =>
    unfold coalesce_loop
    cases cs with
    | nil =>
      refine ⟨m, if_pos (Or.inr ?_), h, fun y _ => rfl⟩
      rw [h.1]
      rfl
    | cons d cs =>
      obtain ⟨hhead, hnext, hrest⟩ := id h
      have hrounds' : cs.length < rounds := by
        simp only [List.length_cons] at hrounds
        omega
      have hend : a + UBLOCK_SIZE + c.size + UBLOCK_SIZE + d.size ≤
          stop UBLOCK_SIZE a (c :: d :: cs) := le_stop
      have hlink : (headerOf a c (d :: cs)).next = a + UBLOCK_SIZE + c.size := link_cons _ d cs
      rw [hhead, hlink, if_neg (by omega)]
      dsimp only
      rw [hnext]
      simp only [free_headerOf]
      by_cases hboth : c.free = true ∧ d.free = true
      · have hsize : ((headerOf a c (d :: cs)).size +
            (UBLOCK_SIZE + (headerOf (a + UBLOCK_SIZE + c.size) d cs).size)) % 2 ^ 32 =
            c.size + UBLOCK_SIZE + d.size := by
          unfold headerOf
          dsimp only
          rw [Nat.mod_eq_of_lt (by omega)]
          omega
        have hsame : ublock (set_size m a (c.size + UBLOCK_SIZE + d.size))
            (a + UBLOCK_SIZE + c.size) = headerOf (a + UBLOCK_SIZE + c.size) d cs := by
          rw [ublock_congr fun y hy _ => set_size_out (by unfold UBLOCK_SIZE at hy; omega), hnext]
        have hplace : a + UBLOCK_SIZE + (c.size + UBLOCK_SIZE + d.size) =
            a + UBLOCK_SIZE + c.size + UBLOCK_SIZE + d.size := by omega
        rw [if_pos hboth, hsize, hsame]
        obtain ⟨m', hloop, htiles, hframe⟩ := ih (h.join hboth.1 (by omega)) ha hrounds'
          (by simpa only [stop, hplace] using hstop)
        refine ⟨m', hloop, ?_, fun y hy => ?_⟩
        · unfold mergeFrom
          rwa [if_pos hboth]
        · have hout : ¬ (a + 4 ≤ y ∧ y < a + 8 ∨ a + 12 ≤ y ∧ y < a + 16) := fun hin =>
            hy ⟨a, c, at_head a c _, hboth.1, hin⟩
          rw [hframe y ?_, set_next_out (by omega), set_size_out (by omega)]
          rintro ⟨x, e, ⟨rfl, rfl⟩ | hat, hfree, hin⟩
          · exact hout hin
          · rw [hplace] at hat
            exact hy ⟨x, e, Or.inr (Or.inr hat), hfree, hin⟩
      · rw [if_neg hboth]
        obtain ⟨m', hloop, htiles, hframe⟩ := ih ⟨hnext, hrest⟩ (by omega) hrounds' hstop
        refine ⟨m', hloop, ?_, fun y hy => hframe y ?_⟩
        · unfold mergeFrom
          rw [if_neg hboth]
          refine ⟨?_, htiles⟩
          rw [ublock_congr fun y hy hy' => hframe y ?_, hhead]
          · unfold headerOf
            congr 1
            exact link_congr _ (iff_of_false (List.cons_ne_nil _ _) (mergeFrom_ne_nil _ _))
          · rintro ⟨x, e, hat, -, hor⟩
            have hlo := hat.inside.1
            omega
        · rintro ⟨x, e, hat, hrest⟩
          exact hy ⟨x, e, Or.inr hat, hrest⟩

end vibeos.tcc_glue
