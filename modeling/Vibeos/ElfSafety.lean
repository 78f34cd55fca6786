-- The safety of the ELF loader, and what it leaves in the application region: for every
-- image, each read is inside of the image, each write inside of the region.
import Vibeos.ElfLoad

namespace vibeos.app_runtime

open vibeos.Mem

def Span.Within (lo hi : Nat) (r : Span) : Prop := lo ≤ r.addr ∧ r.addr + r.len ≤ hi

/-- Program header `i` of the image at `buf`. -/
def segment (m : Mem) (buf i : Nat) : Elf32Phdr := phdr m (phdr_addr m buf i)

/-- The segment has address `x` in memory. -/
def Elf32Phdr.Covers (ph : Elf32Phdr) (x : Nat) : Prop :=
  ph.p_type = ELF32_PT_LOAD ∧ ph.p_vaddr ≤ x ∧ x < ph.p_vaddr + ph.p_memsz

/-- The byte that a segment puts at offset `k`: one of the file, or a zero behind it. -/
def Elf32Phdr.byte (ph : Elf32Phdr) (m : Mem) (buf k : Nat) : UInt8 :=
  if k < ph.p_filesz then m (buf + ph.p_offset + k) else 0

/-! ## The fields of the headers -/

section

variable {m m' : Mem} {a buf i lo hi : Nat}

theorem ehdr_lt (m : Mem) (a : Nat) :
    (ehdr m a).e_phnum < 2 ^ 16 ∧ (ehdr m a).e_phentsize < 2 ^ 16 :=
  ⟨readLE_lt m _ 2, readLE_lt m _ 2⟩

theorem ehdr_same (h : SameOutside lo hi m m') (ha : a + ELF32_EHDR_SIZE ≤ lo ∨ hi ≤ a) :
    ehdr m' a = ehdr m a := by
  simp only [ELF32_EHDR_SIZE] at ha
  unfold ehdr
  congr 1
  · refine List.map_congr_left fun i hi => h (a + i) ?_
    have := List.mem_range.mp hi
    omega
  all_goals exact h.readLE (by omega)

theorem phdr_same (h : SameOutside lo hi m m') (ha : a + ELF32_PHDR_SIZE ≤ lo ∨ hi ≤ a) :
    phdr m' a = phdr m a := by
  simp only [ELF32_PHDR_SIZE] at ha
  unfold phdr
  congr 1
  all_goals exact h.readLE (by omega)

end

/-! ## One round of the loop -/

variable [AppConfig] {buf size : Nat} {s₀ s s' : LoadState}

/-- What a state of the loader has kept of the state that it began with: what it read and
wrote since is inside of the image and of the application region. -/
structure Confined (buf size : Nat) (s₀ s : LoadState) : Prop where
  same : SameOutside APP_START APP_END s₀.mem s.mem
  reads : ∀ r ∈ s.reads, r ∈ s₀.reads ∨ r.Within buf (buf + size)
  writes : ∀ r ∈ s.writes, r ∈ s₀.writes ∨ r.Within APP_START APP_END
  entry : s.loaded_app_entry = s₀.loaded_app_entry

theorem Confined.refl (buf size : Nat) (s : LoadState) : Confined buf size s s :=
  ⟨SameOutside.refl _ _ _, fun _ => Or.inl, fun _ => Or.inl, rfl⟩

theorem Confined.trans {s₁ s₂ s₃ : LoadState} (h₁ : Confined buf size s₁ s₂)
    (h₂ : Confined buf size s₂ s₃) : Confined buf size s₁ s₃ where
  same := h₁.same.trans h₂.same
  reads := fun r hr => (h₂.reads r hr).elim (h₁.reads r) Or.inr
  writes := fun r hr => (h₂.writes r hr).elim (h₁.writes r) Or.inr
  entry := h₂.entry.trans h₁.entry

theorem Confined.read {r : Span} (hr : r.Within buf (buf + size)) :
    Confined buf size s { s with reads := r :: s.reads } where
  same := SameOutside.refl _ _ _
  reads := fun _ hr' => (List.mem_cons.mp hr').elim (fun h => Or.inr (h ▸ hr)) Or.inl
  writes := fun _ => Or.inl
  entry := rfl

theorem Confined.fail (h : Confined buf size s₀ s) (rc : Int) (hrc : rc ≠ 0) (out : String) :
    (s.fail rc out).1 ≠ 0 ∧ Confined buf size s₀ (s.fail rc out).2 :=
  ⟨hrc, { h with }⟩

/-- A segment that passed the checks of the loader. -/
structure Elf32Phdr.Fits (ph : Elf32Phdr) (size : Nat) : Prop where
  file : ph.p_offset + ph.p_filesz ≤ size
  filesz : ph.p_filesz ≤ ph.p_memsz
  start : APP_START ≤ ph.p_vaddr
  stop : ph.p_vaddr + ph.p_memsz ≤ APP_END

theorem place_spec (buf : Nat) {ph : Elf32Phdr} (h : ph.Fits size) (s : LoadState) :
    Confined buf size s (s.place buf ph) ∧
      (s.place buf ph).mem = patch s.mem ph.p_vaddr ph.p_memsz (ph.byte s.mem buf) := by
  obtain ⟨hfile, hsz, hstart, hstop⟩ := h
  have hend : APP_END < 2 ^ 32 := AppConfig.fits
  have hread : Span.Within buf (buf + size) ⟨buf + ph.p_offset, ph.p_filesz⟩ :=
    ⟨Nat.le_add_right _ _, by dsimp only; omega⟩
  have hcopy : Span.Within APP_START APP_END ⟨ph.p_vaddr, ph.p_filesz⟩ :=
    ⟨hstart, by dsimp only; omega⟩
  have hmod : (ph.p_vaddr + ph.p_filesz) % 2 ^ 32 = ph.p_vaddr + ph.p_filesz :=
    Nat.mod_eq_of_lt (by omega)
  have hmem : (s.place buf ph).mem = patch s.mem ph.p_vaddr ph.p_memsz (ph.byte s.mem buf) := by
    unfold LoadState.place copy fill
    dsimp only
    rw [hmod]
    split
    · have hlen : ph.p_filesz + (ph.p_memsz - ph.p_filesz) = ph.p_memsz := by omega
      rw [patch_append, hlen]
      rfl
    · have hlen : ph.p_memsz = ph.p_filesz := by omega
      rw [hlen]
      dsimp only
      refine patch_congr fun k hk => ?_
      exact (if_pos hk).symm
  have hlog : (s.place buf ph).reads = ⟨buf + ph.p_offset, ph.p_filesz⟩ :: s.reads ∧
      ∀ r ∈ (s.place buf ph).writes, r ∈ s.writes ∨ r.Within APP_START APP_END := by
    unfold LoadState.place
    dsimp only
    rw [hmod]
    have hzero : Span.Within APP_START APP_END
        ⟨ph.p_vaddr + ph.p_filesz, ph.p_memsz - ph.p_filesz⟩ :=
      ⟨by dsimp only; omega, by dsimp only; omega⟩
    split
    · refine ⟨rfl, fun r hr => ?_⟩
      rcases List.mem_cons.mp hr with rfl | hr
      · exact Or.inr hzero
      · exact (List.mem_cons.mp hr).elim (fun h => Or.inr (h ▸ hcopy)) Or.inl
    · exact ⟨rfl, fun r hr => (List.mem_cons.mp hr).elim (fun h => Or.inr (h ▸ hcopy)) Or.inl⟩
  refine ⟨⟨?_, ?_, hlog.2, ?_⟩, hmem⟩
  · rw [hmem]
    exact SameOutside.of_patch (Or.inr ⟨hstart, hstop⟩)
  · intro r hr
    rw [hlog.1] at hr
    exact (List.mem_cons.mp hr).elim (fun h => Or.inr (h ▸ hread)) Or.inl
  · unfold LoadState.place
    dsimp only
    split <;> rfl

/-- What a round of the loop does for program header `i`. -/
structure Round (buf size i : Nat) (s s' : LoadState) : Prop where
  inside : ∀ x, (segment s.mem buf i).Covers x →
    (segment s.mem buf i).p_offset + (segment s.mem buf i).p_filesz ≤ size
  loaded : ∀ k < (segment s.mem buf i).p_memsz, (segment s.mem buf i).p_type = ELF32_PT_LOAD →
    s'.mem ((segment s.mem buf i).p_vaddr + k) = (segment s.mem buf i).byte s.mem buf k
  others : ∀ x, ¬ (segment s.mem buf i).Covers x → s'.mem x = s.mem x

omit [AppConfig] in
theorem Round.idle {i : Nat} (hmem : s'.mem = s.mem)
    (h : (segment s.mem buf i).p_type = ELF32_PT_LOAD → (segment s.mem buf i).p_memsz = 0) :
    Round buf size i s s' where
  inside := fun x hx => by
    obtain ⟨htype, hlo, hhi⟩ := hx
    rw [h htype] at hhi
    omega
  loaded := fun k hk htype => by
    rw [h htype] at hk
    omega
  others := fun x _ => by rw [hmem]

theorem load_segment_ok {i : Nat}
    (ha : Span.Within buf (buf + size) ⟨phdr_addr s.mem buf i, ELF32_PHDR_SIZE⟩)
    (h : load_segment buf size i s = .ok s') : Confined buf size s s' ∧ Round buf size i s s' := by
  have hread := Confined.read (s := s) ha
  unfold load_segment at h
  dsimp only at h
  split at h
  · rename_i htype
    cases h
    exact ⟨hread, Round.idle rfl fun h => absurd h htype⟩
  split at h
  · cases h
  split at h
  · cases h
  split at h
  · rename_i hempty
    cases h
    exact ⟨hread, Round.idle rfl fun _ => hempty⟩
  split at h
  · cases h
  · rename_i hfile hsz _ hregion
    cases h
    have hfits : (segment s.mem buf i).Fits size :=
      ⟨Nat.not_lt.mp hfile, Nat.not_lt.mp hsz, by unfold segment; omega, by unfold segment; omega⟩
    obtain ⟨hconf, hmem⟩ := place_spec buf hfits
      { s with reads := ⟨phdr_addr s.mem buf i, ELF32_PHDR_SIZE⟩ :: s.reads }
    refine ⟨hread.trans hconf, fun _ _ => hfits.file, fun k hk _ => ?_, fun x hx => ?_⟩
    · exact (congrFun hmem _).trans (patch_add hk)
    · refine (congrFun hmem x).trans (patch_out ?_)
      by_contra hin
      exact hx ⟨not_not.mp ‹_›, by omega, by omega⟩

theorem load_segment_error {i : Nat} {r : Int × LoadState}
    (ha : Span.Within buf (buf + size) ⟨phdr_addr s.mem buf i, ELF32_PHDR_SIZE⟩)
    (h : load_segment buf size i s = .error r) : r.1 ≠ 0 ∧ Confined buf size s r.2 := by
  have hread := Confined.read (s := s) ha
  unfold load_segment at h
  dsimp only at h
  split at h
  · cases h
  split at h
  · cases h
    exact hread.fail _ (by decide) _
  split at h
  · cases h
    exact hread.fail _ (by decide) _
  split at h
  · cases h
  split at h
  · cases h
    exact hread.fail _ (by decide) _
  · cases h

/-! ## The whole call -/

/-- What the loader checked before the loop, for an image outside of the region. -/
structure Checked (buf size : Nat) (m : Mem) : Prop where
  outside : buf + size ≤ APP_START ∨ APP_END ≤ buf
  header : ELF32_EHDR_SIZE ≤ size
  entsize : ELF32_PHDR_SIZE ≤ (ehdr m buf).e_phentsize
  table : (ehdr m buf).e_phoff + (ehdr m buf).e_phnum * (ehdr m buf).e_phentsize ≤ size

theorem Checked.ehdr_same (h : Checked buf size s₀.mem) (hs : Confined buf size s₀ s) :
    ehdr s.mem buf = ehdr s₀.mem buf := by
  have := h.outside
  have := h.header
  exact vibeos.app_runtime.ehdr_same hs.same (by omega)

theorem Checked.phdr_addr_same (h : Checked buf size s₀.mem) (hs : Confined buf size s₀ s)
    (i : Nat) : phdr_addr s.mem buf i = phdr_addr s₀.mem buf i := by
  unfold phdr_addr
  rw [h.ehdr_same hs]

theorem Checked.phdr_within {i : Nat} (h : Checked buf size s₀.mem)
    (hi : i < (ehdr s₀.mem buf).e_phnum) :
    Span.Within buf (buf + size) ⟨phdr_addr s₀.mem buf i, ELF32_PHDR_SIZE⟩ := by
  obtain ⟨hnum, hsize⟩ := ehdr_lt s₀.mem buf
  have hmul : i * (ehdr s₀.mem buf).e_phentsize < 2 ^ 16 * 2 ^ 16 :=
    Nat.mul_lt_mul'' (by omega) hsize
  have hmod : i * (ehdr s₀.mem buf).e_phentsize % 2 ^ 32 = i * (ehdr s₀.mem buf).e_phentsize :=
    Nat.mod_eq_of_lt hmul
  have hnext : (i + 1) * (ehdr s₀.mem buf).e_phentsize ≤
      (ehdr s₀.mem buf).e_phnum * (ehdr s₀.mem buf).e_phentsize := Nat.mul_le_mul_right _ hi
  rw [Nat.succ_mul] at hnext
  have := h.table
  have := h.entsize
  unfold phdr_addr
  rw [hmod]
  constructor
  · dsimp only
    omega
  · dsimp only
    omega

theorem Checked.segment_same {i : Nat} (h : Checked buf size s₀.mem)
    (hs : Confined buf size s₀ s) (hi : i < (ehdr s₀.mem buf).e_phnum) :
    segment s.mem buf i = segment s₀.mem buf i := by
  have := h.outside
  obtain ⟨hlo, hhi⟩ := h.phdr_within hi
  dsimp only at hlo hhi
  unfold segment
  rw [h.phdr_addr_same hs]
  exact phdr_same hs.same (by omega)

/-- The first `n` segments are in memory: each byte that no later one of them covers. -/
def Loaded (m : Mem) (buf n : Nat) (m' : Mem) : Prop :=
  ∀ i < n, (segment m buf i).p_type = ELF32_PT_LOAD → ∀ k < (segment m buf i).p_memsz,
    (∀ j, i < j → j < n → ¬ (segment m buf j).Covers ((segment m buf i).p_vaddr + k)) →
    m' ((segment m buf i).p_vaddr + k) = (segment m buf i).byte m buf k

theorem Loaded.round {i : Nat} (hchk : Checked buf size s₀.mem) (hs : Confined buf size s₀ s)
    (hi : i < (ehdr s₀.mem buf).e_phnum) (hloaded : Loaded s₀.mem buf i s.mem)
    (hround : Round buf size i s s') : Loaded s₀.mem buf (i + 1) s'.mem := by
  obtain ⟨hinside, hnew, hothers⟩ := hround
  rw [hchk.segment_same hs hi] at hinside hnew hothers
  intro j hj htype k hk hlater
  rcases Nat.lt_succ_iff_lt_or_eq.mp hj with hlt | rfl
  · rw [hothers _ (hlater i hlt (Nat.lt_succ_self i))]
    exact hloaded j hlt htype k hk fun l h1 h2 => hlater l h1 (Nat.lt_succ_of_lt h2)
  · rw [hnew k hk htype]
    have hfile := hinside _ ⟨htype, Nat.le_add_right _ k, Nat.add_lt_add_left hk _⟩
    have hout := hchk.outside
    unfold Elf32Phdr.byte
    split
    · exact hs.same _ (by omega)
    · rfl

theorem load_segments_spec (fuel i : Nat) (hchk : Checked buf size s₀.mem)
    (hs : Confined buf size s₀ s) (hloaded : Loaded s₀.mem buf i s.mem)
    (hi : i ≤ (ehdr s₀.mem buf).e_phnum) (hfuel : 2 ^ 16 ≤ i + fuel) :
    (∀ r, load_segments buf size fuel i s = .error r → r.1 ≠ 0 ∧ Confined buf size s₀ r.2) ∧
    ∀ s', load_segments buf size fuel i s = .ok s' → Confined buf size s₀ s' ∧
      Loaded s₀.mem buf (ehdr s₀.mem buf).e_phnum s'.mem := by
  have hnum := (ehdr_lt s₀.mem buf).1
  induction fuel generalizing i s with
  | zero => omega
  | succ fuel ih =>
    unfold load_segments
    rw [hchk.ehdr_same hs]
    by_cases hlt : i < (ehdr s₀.mem buf).e_phnum
    · rw [if_pos hlt]
      have hwithin := hchk.phdr_within hlt
      rw [← hchk.phdr_addr_same hs] at hwithin
      cases hround : load_segment buf size i s with
      | error r =>
        refine ⟨fun r' hr => ?_, fun _ hr => (nomatch hr)⟩
        cases hr
        obtain ⟨hrc, hconf⟩ := load_segment_error hwithin hround
        exact ⟨hrc, hs.trans hconf⟩
      | ok s₁ =>
        obtain ⟨hconf, hround⟩ := load_segment_ok hwithin hround
        exact ih _ (hs.trans hconf) (hloaded.round hchk hs hlt hround) hlt (by omega)
    · rw [if_neg hlt]
      refine ⟨fun _ hr => (nomatch hr), fun s' hr => ?_⟩
      cases hr
      have heq : i = (ehdr s₀.mem buf).e_phnum := by omega
      exact ⟨hs, heq ▸ hloaded⟩

/-- The state before the call: nothing is read or written yet. -/
def LoadState.start (m : Mem) (entry : Nat) : LoadState := ⟨m, entry, "", [], []⟩

/-- What a call of the loader has to fulfil, where `Placed` says what a return of 0 gives. -/
structure Loads (Placed : Mem → Prop) (buf size entry : Nat) (m : Mem) (r : Int × LoadState) :
    Prop where
  reads : ∀ sp ∈ r.2.reads, sp.Within buf (buf + size)
  writes : ∀ sp ∈ r.2.writes, sp.Within APP_START APP_END
  frame : SameOutside APP_START APP_END m r.2.mem
  placed : r.1 = 0 → Placed r.2.mem
  entry : r.2.loaded_app_entry = if r.1 = 0 then (ehdr m buf).e_entry else entry

theorem Loads.of_error {P : Mem → Prop} {entry : Nat} {m : Mem} {r : Int × LoadState}
    (hrc : r.1 ≠ 0) (h : Confined buf size (LoadState.start m entry) r.2) :
    Loads P buf size entry m r where
  reads := fun sp hsp => (h.reads sp hsp).resolve_left List.not_mem_nil
  writes := fun sp hsp => (h.writes sp hsp).resolve_left List.not_mem_nil
  frame := h.same
  placed := fun h0 => absurd h0 hrc
  entry := by
    rw [if_neg hrc]
    exact h.entry

theorem Confined.enter (h : Confined buf size s₀ s) (e : Nat) :
    SameOutside APP_START APP_END s₀.mem (s.enter e).mem ∧
      (s.enter e).mem = s.mem ∧ (s.enter e).reads = s.reads ∧ (s.enter e).writes = s.writes ∧
      (s.enter e).loaded_app_entry = e :=
  ⟨h.same, rfl, rfl, rfl, rfl⟩

theorem Loads.of_ok {P : Mem → Prop} {entry : Nat} {m : Mem} {s : LoadState}
    (hmem : P s.mem) (hentry : (ehdr s.mem buf).e_entry = (ehdr m buf).e_entry)
    (h : Confined buf size (LoadState.start m entry) s) :
    Loads P buf size entry m (0, s.enter (ehdr s.mem buf).e_entry) := by
  obtain ⟨hsame, heq, hreads, hwrites, henter⟩ := h.enter (ehdr s.mem buf).e_entry
  constructor
  · rw [hreads]
    exact fun sp hsp => (h.reads sp hsp).resolve_left List.not_mem_nil
  · rw [hwrites]
    exact fun sp hsp => (h.writes sp hsp).resolve_left List.not_mem_nil
  · exact hsame
  · rw [heq]
    exact fun _ => hmem
  · rw [henter, if_pos rfl]
    exact hentry

/-- Every segment is in memory: each byte that no later segment of the image covers. -/
def AllLoaded (buf : Nat) (m m' : Mem) : Prop := Loaded m buf (ehdr m buf).e_phnum m'

/-- The loader reads inside of the image and writes inside of the application region, for
every image; it sets the entry only when it gives 0, and then the segments are in memory. -/
theorem app_load_elf_image_safe (buf size entry : Nat) (m : Mem)
    (hout : buf + size ≤ APP_START ∨ APP_END ≤ buf) :
    Loads (AllLoaded buf m) buf size entry m
      (app_load_elf_image buf size (LoadState.start m entry)) := by
  have hstart := Confined.refl buf size (LoadState.start m entry)
  unfold app_load_elf_image
  split
  · obtain ⟨hrc, hconf⟩ := hstart.fail (-11) (by decide) "ERR: Bad ELF."
    exact Loads.of_error hrc hconf
  rename_i hsize
  have hheader : Span.Within buf (buf + size) ⟨buf, ELF32_EHDR_SIZE⟩ :=
    ⟨Nat.le_refl _, by dsimp only; omega⟩
  have hread := Confined.read (s := LoadState.start m entry) hheader
  dsimp only
  split
  · obtain ⟨hrc, hconf⟩ := hread.fail (-11) (by decide) "ERR: Bad ELF."
    exact Loads.of_error hrc hconf
  split
  · obtain ⟨hrc, hconf⟩ := hread.fail (-12) (by decide) "ERR: Bad ELF PH."
    exact Loads.of_error hrc hconf
  split
  · obtain ⟨hrc, hconf⟩ := hread.fail (-12) (by decide) "ERR: Bad ELF PH."
    exact Loads.of_error hrc hconf
  split
  · obtain ⟨hrc, hconf⟩ := hread.fail (-13) (by decide) "ERR: Bad ELF Entry."
    exact Loads.of_error hrc hconf
  rename_i hphdr htable _
  have hchk : Checked buf size (LoadState.start m entry).mem :=
    ⟨hout, Nat.not_lt.mp hsize, by omega, Nat.not_lt.mp htable⟩
  obtain ⟨herror, hok⟩ := load_segments_spec (2 ^ 16) 0 hchk hread
    (fun _ h => absurd h (Nat.not_lt_zero _)) (Nat.zero_le _) (Nat.le_add_left _ _)
  generalize 2 ^ 16 = fuel at herror hok ⊢
  split
  · rename_i r hr
    obtain ⟨hrc, hconf⟩ := herror r hr
    exact Loads.of_error hrc hconf
  · rename_i s hs
    obtain ⟨hconf, hloaded⟩ := hok s hs
    have hentry := congrArg Elf32Ehdr.e_entry (hchk.ehdr_same hconf)
    exact Loads.of_ok hloaded hentry hconf

/-! ## Segments that overlap -/

/-- Every byte of every segment is in memory. -/
def EveryByteLoaded (buf : Nat) (m m' : Mem) : Prop :=
  ∀ i < (ehdr m buf).e_phnum, (segment m buf i).p_type = ELF32_PT_LOAD →
    ∀ k < (segment m buf i).p_memsz,
      m' ((segment m buf i).p_vaddr + k) = (segment m buf i).byte m buf k

/-- An image with two segments at the start of the region: the first four bytes of the
image, and the four from its byte 1 on. -/
def overlapping : List UInt8 :=
  [0x7f, 0x45, 0x4c, 0x46, 1, 1, 1, 0, 0, 0, 0, 0, 0, 0, 0, 0, 2, 0, 243, 0, 1, 0, 0, 0,
    0, 0, 0, 0xbf, 52, 0, 0, 0, 0, 0, 0, 0, 0, 0, 0, 0, 52, 0, 32, 0, 2, 0, 0, 0, 0, 0, 0, 0,
    1, 0, 0, 0, 0, 0, 0, 0, 0, 0, 0, 0xbf, 0, 0, 0, 0, 4, 0, 0, 0, 4, 0, 0, 0, 5, 0, 0, 0, 0, 0, 0, 0,
    1, 0, 0, 0, 1, 0, 0, 0, 0, 0, 0, 0xbf, 0, 0, 0, 0, 4, 0, 0, 0, 4, 0, 0, 0, 5, 0, 0, 0, 0, 0, 0, 0]

/-- The image in the heap, at 0x80200000. -/
def overlappingMem : Mem := fun x => overlapping.getD (x - 0x80200000) 0

omit [AppConfig] in
theorem overlapping_not_loaded :
    ¬ @Loads qemuApps (EveryByteLoaded 0x80200000 overlappingMem) 0x80200000 116 0 overlappingMem
      (@app_load_elf_image qemuApps 0x80200000 116 (LoadState.start overlappingMem 0)) := by
  intro h
  have hrc : (@app_load_elf_image qemuApps 0x80200000 116
      (LoadState.start overlappingMem 0)).1 = 0 := by decide
  have hbyte : (@app_load_elf_image qemuApps 0x80200000 116
      (LoadState.start overlappingMem 0)).2.mem
        ((segment overlappingMem 0x80200000 0).p_vaddr + 0) ≠
      (segment overlappingMem 0x80200000 0).byte overlappingMem 0x80200000 0 := by decide
  let _ := qemuApps
  exact hbyte (h.placed hrc 0 (by decide) (by decide) 0 (by decide))

omit [AppConfig] in
theorem app_load_elf_image_safe_overlapping :
    (0x80200000 + 116 ≤ qemuApps.APP_START ∨ qemuApps.APP_END ≤ 0x80200000) ∧
    @Loads qemuApps (AllLoaded 0x80200000 overlappingMem) 0x80200000 116 0 overlappingMem
      (@app_load_elf_image qemuApps 0x80200000 116 (LoadState.start overlappingMem 0)) :=
  ⟨Or.inl (by decide), @app_load_elf_image_safe qemuApps 0x80200000 116 0 overlappingMem
    (Or.inl (by decide))⟩

end vibeos.app_runtime
