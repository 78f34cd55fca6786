-- struct jit_source_buf of tcc_glue.c: the growing buffer that the texts of the in-kernel compiler
-- are put together in.
import Vibeos.JitHeap
import Vibeos.Loops

namespace vibeos.tcc_glue

section

variable [JitConfig]

def JIT_SOURCE_MAX_SIZE : Nat := if JitConfig.FPGA_MINIMAL then 128 * 1024 else 512 * 1024

/-- `struct jit_source_buf`. The length of `data` is `len`. -/
structure jit_source_buf where
  data : List UInt8
  cap : Nat

def jit_source_buf.empty : jit_source_buf := ⟨[], 0⟩

/-- A call returns 0, or -1 with the buffer as it was, or goes on for ever, or writes behind the
buffer. -/
inductive Reserved where
  | done (buf : jit_source_buf)
  | refused
  | diverges
  | overruns

/-- A turn of `while (new_cap < need) new_cap *= 2u`. -/
def newCapTurn (need new_cap : Nat) : Nat ⊕ Nat :=
  if new_cap < need then .inl (new_cap * 2 % 4294967296) else .inr new_cap

/-- `realloc` says which sizes can be had. After 32 turns a word is 0 and stays 0. -/
def jit_source_buf_reserve (realloc : Nat → Bool) (buf : jit_source_buf) (need : Nat) : Reserved :=
  if need ≤ buf.cap then .done buf
  else
    match runFor (newCapTurn need) 33 (if buf.cap ≠ 0 then buf.cap else 1024) with
    | none => .diverges
    | some new_cap =>
      let new_cap := if new_cap > JIT_SOURCE_MAX_SIZE then JIT_SOURCE_MAX_SIZE else new_cap
      if new_cap < need then .refused
      else if !realloc new_cap then .refused
      else .done { buf with cap := new_cap }

/-- The sum is a 32-bit word. -/
def jit_source_buf_append_n (realloc : Nat → Bool) (buf : jit_source_buf) (s : List UInt8) :
    Reserved :=
  let need := (buf.data.length + s.length + 1) % 4294967296
  if need > JIT_SOURCE_MAX_SIZE then .refused
  else
    match jit_source_buf_reserve realloc buf need with
    | .done buf =>
      if buf.data.length + s.length + 1 ≤ buf.cap then .done { buf with data := buf.data ++ s }
      else .overruns
    | r => r

/-- The capacities that `jit_source_buf_reserve` gives. -/
def SourceCap (cap : Nat) : Prop := cap = 0 ∨ ∃ k, cap = 1024 * 2 ^ k ∧ cap ≤ JIT_SOURCE_MAX_SIZE

/-- The loop that doubles the capacity ends, and the capacity stays below its limit. -/
structure SourceGrows (realloc : Nat → Bool) (buf : jit_source_buf) (need : Nat) : Prop where
  ends : buf.cap < need → ∃ turns new_cap,
    Loop (newCapTurn need) (if buf.cap ≠ 0 then buf.cap else 1024) turns new_cap
  fits : ∀ buf', jit_source_buf_reserve realloc buf need = .done buf' →
    buf'.cap ≤ JIT_SOURCE_MAX_SIZE

/-! ## The doubling loop -/

omit [JitConfig] in
theorem double_word {k : Nat} (hk : k ≤ 31) :
    2 ^ k * 2 % 4294967296 = if k = 31 then 0 else 2 ^ (k + 1) := by
  split
  · rename_i h
    rw [h]
    rfl
  · have hle : 2 ^ (k + 1) ≤ 2 ^ 31 := Nat.pow_le_pow_right (by decide) (by omega)
    rw [← Nat.pow_succ]
    exact Nat.mod_eq_of_lt (by omega)

omit [JitConfig] in
theorem newCap_ends {need : Nat} (hneed : need ≤ 2147483648) (n : Nat) {k : Nat} (hk : k ≤ 31)
    (hn : 32 ≤ n + k) :
    ∃ j, k ≤ j ∧ need ≤ 2 ^ j ∧ runFor (newCapTurn need) n (2 ^ k) = some (2 ^ j) := by
  induction n generalizing k with
  | zero => omega
  | succ n ih =>
    rw [runFor]
    by_cases hlt : 2 ^ k < need
    · have hk31 : k ≠ 31 := by
        rintro rfl
        omega
      rw [newCapTurn, if_pos hlt, double_word hk, if_neg hk31]
      obtain ⟨j, hkj, hj, hrun⟩ := @ih (k + 1) (by omega) (by omega)
      exact ⟨j, by omega, hj, hrun⟩
    · rw [newCapTurn, if_neg hlt]
      exact ⟨k, le_rfl, Nat.le_of_not_lt hlt, rfl⟩

omit [JitConfig] in
theorem doubling_never_ends {ρ : Type} {turn : Nat → Nat ⊕ ρ} {need k : Nat}
    (hturn : ∀ c < need, turn c = .inl (c * 2 % 4294967296)) (hneed : 2147483648 < need)
    (hk : k ≤ 31) {turns : List Nat} {r : ρ} : ¬ Loop turn (2 ^ k) turns r := by
  refine Loop.not_of_stays (P := fun c => c = 0 ∨ ∃ k ≤ 31, c = 2 ^ k) ?_ (Or.inr ⟨k, hk, rfl⟩)
  rintro c (rfl | ⟨k, hk, rfl⟩)
  · exact ⟨0, hturn 0 (by omega), Or.inl rfl⟩
  · have hle : 2 ^ k ≤ 2 ^ 31 := Nat.pow_le_pow_right (by decide) hk
    refine ⟨_, hturn _ (by omega), ?_⟩
    rw [double_word hk]
    split
    · exact Or.inl rfl
    · exact Or.inr ⟨k + 1, by omega, rfl⟩

theorem JIT_SOURCE_MAX_SIZE_cases :
    JIT_SOURCE_MAX_SIZE = 128 * 1024 ∨ JIT_SOURCE_MAX_SIZE = 512 * 1024 := by
  unfold JIT_SOURCE_MAX_SIZE
  split
  · exact Or.inl rfl
  · exact Or.inr rfl

theorem SourceCap.le {cap : Nat} (h : SourceCap cap) : cap ≤ JIT_SOURCE_MAX_SIZE := by
  rcases h with rfl | ⟨k, -, hle⟩
  · exact Nat.zero_le _
  · exact hle

theorem SourceCap.start {cap : Nat} (h : SourceCap cap) :
    ∃ k, 10 ≤ k ∧ k ≤ 31 ∧ (if cap ≠ 0 then cap else 1024) = 2 ^ k := by
  rcases h with rfl | ⟨k, hcap, hle⟩
  · exact ⟨10, by decide, by decide, rfl⟩
  · have hmax := JIT_SOURCE_MAX_SIZE_cases
    have hpow : cap = 2 ^ (10 + k) := by rw [hcap, Nat.pow_add]
    refine ⟨10 + k, Nat.le_add_right 10 k, ?_, ?_⟩
    · by_contra hk
      have hlarge : 2 ^ 32 ≤ 2 ^ (10 + k) := Nat.pow_le_pow_right (by decide) (by omega)
      omega
    · rw [if_pos, hpow]
      rw [hpow]
      exact (Nat.two_pow_pos _).ne'

/-! ## The buffer -/

theorem reserve_fits {realloc : Nat → Bool} {buf buf' : jit_source_buf} {need : Nat}
    (hcap : buf.cap ≤ JIT_SOURCE_MAX_SIZE)
    (h : jit_source_buf_reserve realloc buf need = .done buf') :
    buf'.cap ≤ JIT_SOURCE_MAX_SIZE ∧ buf'.data = buf.data := by
  unfold jit_source_buf_reserve at h
  split at h
  · cases h
    exact ⟨hcap, rfl⟩
  split at h
  · cases h
  rename_i new_cap hnew
  dsimp only at h
  have hle : (if new_cap > JIT_SOURCE_MAX_SIZE then JIT_SOURCE_MAX_SIZE else new_cap) ≤
      JIT_SOURCE_MAX_SIZE := by
    split <;> omega
  generalize (if new_cap > JIT_SOURCE_MAX_SIZE then JIT_SOURCE_MAX_SIZE else new_cap) = c at h hle
  split at h
  · cases h
  split at h
  · cases h
  · cases h
    exact ⟨hle, rfl⟩

theorem source_grows_iff (realloc : Nat → Bool) {buf : jit_source_buf} {need : Nat}
    (hcap : SourceCap buf.cap) : SourceGrows realloc buf need ↔ need ≤ 2147483648 := by
  obtain ⟨k, -, hk, hstart⟩ := hcap.start
  have hle := hcap.le
  have hmax := JIT_SOURCE_MAX_SIZE_cases
  constructor
  · intro h
    by_contra hneed
    obtain ⟨turns, new_cap, hloop⟩ := h.ends (by omega)
    rw [hstart] at hloop
    exact doubling_never_ends (fun _ h => if_pos h) (Nat.lt_of_not_le hneed) hk hloop
  · intro hneed
    refine ⟨fun _ => ?_, fun buf' h => (reserve_fits hle h).1⟩
    obtain ⟨j, -, -, hrun⟩ := newCap_ends hneed 33 hk (by omega)
    obtain ⟨turns, hloop⟩ := Loop.of_runFor hrun
    rw [hstart]
    exact ⟨turns, _, hloop⟩

theorem reserve_cases (realloc : Nat → Bool) {buf : jit_source_buf} {need : Nat}
    (hcap : SourceCap buf.cap) (hneed : need ≤ JIT_SOURCE_MAX_SIZE) :
    (jit_source_buf_reserve realloc buf need = .refused ∧ ∃ n, realloc n = false) ∨
      ∃ cap, jit_source_buf_reserve realloc buf need = .done { buf with cap := cap } ∧
        SourceCap cap ∧ need ≤ cap := by
  have hmax := JIT_SOURCE_MAX_SIZE_cases
  unfold jit_source_buf_reserve
  split
  · exact Or.inr ⟨buf.cap, rfl, hcap, ‹_›⟩
  obtain ⟨k, hlow, hk, hstart⟩ := hcap.start
  obtain ⟨j, hkj, hneedj, hrun⟩ := @newCap_ends need (by omega) 33 k hk (by omega)
  have hroom : need ≤ if 2 ^ j > JIT_SOURCE_MAX_SIZE then JIT_SOURCE_MAX_SIZE else 2 ^ j := by
    split <;> omega
  have hnew : SourceCap (if 2 ^ j > JIT_SOURCE_MAX_SIZE then JIT_SOURCE_MAX_SIZE else 2 ^ j) := by
    split
    · rcases hmax with hmax | hmax
      · exact Or.inr ⟨7, hmax, le_rfl⟩
      · exact Or.inr ⟨9, hmax, le_rfl⟩
    · refine Or.inr ⟨j - 10, ?_, by omega⟩
      rw [show 1024 = 2 ^ 10 from rfl, ← Nat.pow_add, Nat.add_sub_cancel' (by omega)]
  rw [hstart, hrun]
  dsimp only
  generalize (if 2 ^ j > JIT_SOURCE_MAX_SIZE then JIT_SOURCE_MAX_SIZE else 2 ^ j) = cap at hnew hroom
  rw [if_neg (Nat.not_lt.mpr hroom)]
  cases hrealloc : realloc cap with
  | false => exact Or.inl ⟨rfl, cap, hrealloc⟩
  | true => exact Or.inr ⟨cap, rfl, hnew, hroom⟩

theorem append_n_cases (realloc : Nat → Bool) {buf : jit_source_buf} {s : List UInt8}
    (hcap : SourceCap buf.cap) (hs : s.length < 2147483648) (hlen : buf.data.length ≤ buf.cap) :
    (jit_source_buf_append_n realloc buf s = .refused ∧
        (JIT_SOURCE_MAX_SIZE ≤ (buf.data ++ s).length ∨ ∃ n, realloc n = false)) ∨
      ∃ cap, jit_source_buf_append_n realloc buf s = .done ⟨buf.data ++ s, cap⟩ ∧
        SourceCap cap ∧ (buf.data ++ s).length < cap := by
  have hmax := JIT_SOURCE_MAX_SIZE_cases
  have hle := hcap.le
  have hword : (buf.data.length + s.length + 1) % 4294967296 = buf.data.length + s.length + 1 :=
    Nat.mod_eq_of_lt (by omega)
  unfold jit_source_buf_append_n
  dsimp only
  rw [hword, List.length_append]
  split
  · exact Or.inl ⟨rfl, Or.inl (by omega)⟩
  rename_i hneed
  rcases reserve_cases realloc hcap (Nat.le_of_not_lt hneed) with ⟨he, hn⟩ | ⟨cap, he, hcap', hfits⟩
  · rw [he]
    exact Or.inl ⟨rfl, Or.inr hn⟩
  · rw [he]
    dsimp only
    rw [if_pos hfits]
    exact Or.inr ⟨cap, rfl, hcap', by omega⟩

/-! ## Runs -/

/-- Calls in a row, each with what `realloc` says then, as far as the first that fails. -/
def append_all (buf : jit_source_buf) : List ((Nat → Bool) × List UInt8) → Reserved
  | [] => .done buf
  | (realloc, s) :: calls =>
    match jit_source_buf_append_n realloc buf s with
    | .done buf => append_all buf calls
    | r => r

theorem append_all_cases {calls : List ((Nat → Bool) × List UInt8)}
    (hs : ∀ c ∈ calls, c.2.length < 2147483648) {buf : jit_source_buf} (hcap : SourceCap buf.cap)
    (hlen : buf.data.length ≤ buf.cap) (hmax : buf.data.length < JIT_SOURCE_MAX_SIZE) :
    (append_all buf calls = .refused ∧
        (JIT_SOURCE_MAX_SIZE ≤ (buf.data ++ (calls.map Prod.snd).flatten).length ∨
          ∃ c ∈ calls, ∃ n, c.1 n = false)) ∨
      ∃ cap ≤ JIT_SOURCE_MAX_SIZE,
        append_all buf calls = .done ⟨buf.data ++ (calls.map Prod.snd).flatten, cap⟩ ∧
          (buf.data ++ (calls.map Prod.snd).flatten).length ≤ cap ∧
          (buf.data ++ (calls.map Prod.snd).flatten).length < JIT_SOURCE_MAX_SIZE := by
  induction calls generalizing buf with
  | nil =>
    exact Or.inr ⟨buf.cap, hcap.le, by simp [append_all], by simpa using hlen, by simpa using hmax⟩
  | cons c calls ih =>
    obtain ⟨hc, hrest⟩ := List.forall_mem_cons.mp hs
    rw [append_all]
    rcases append_n_cases c.1 hcap hc hlen with ⟨he, hwhy⟩ | ⟨cap, he, hcap', hlt⟩
    · rw [he]
      refine Or.inl ⟨rfl, hwhy.imp (fun hlong => ?_) fun hn => ⟨c, List.mem_cons_self, hn⟩⟩
      rw [List.map_cons, List.flatten_cons, ← List.append_assoc, List.length_append]
      exact Nat.le_trans hlong (Nat.le_add_right _ _)
    · rw [he, List.map_cons, List.flatten_cons, ← List.append_assoc]
      refine (@ih hrest ⟨buf.data ++ c.2, cap⟩ hcap' hlt.le (hlt.trans_le hcap'.le)).imp
        (And.imp_right (Or.imp_right ?_)) id
      rintro ⟨d, hd, hn⟩
      exact ⟨d, List.mem_cons_of_mem c hd, hn⟩

/-- A text that is put together piece by piece is refused, or is all of it, inside of the buffer.
Where `realloc` always answers, it is refused exactly when it comes up to the limit. -/
theorem appends_whole_or_refused {calls : List ((Nat → Bool) × List UInt8)}
    (hs : ∀ c ∈ calls, c.2.length < 2147483648) :
    (append_all .empty calls = .refused ∨ ∃ cap ≤ JIT_SOURCE_MAX_SIZE,
      append_all .empty calls = .done ⟨(calls.map Prod.snd).flatten, cap⟩ ∧
        (calls.map Prod.snd).flatten.length ≤ cap) ∧
    ((∀ c ∈ calls, ∀ n, c.1 n = true) →
      (append_all .empty calls = .refused ↔
        JIT_SOURCE_MAX_SIZE ≤ (calls.map Prod.snd).flatten.length)) := by
  have hpos : 0 < JIT_SOURCE_MAX_SIZE := by
    have hmax := JIT_SOURCE_MAX_SIZE_cases
    omega
  rcases @append_all_cases _ calls hs .empty (Or.inl rfl) le_rfl hpos with
    ⟨he, hwhy⟩ | ⟨cap, hcap, he, hlen, hlt⟩
  · refine ⟨Or.inl he, fun hall => iff_of_true he (hwhy.resolve_right ?_)⟩
    rintro ⟨c, hc, n, hn⟩
    rw [hall c hc n] at hn
    cases hn
  · refine ⟨Or.inr ⟨cap, hcap, he, hlen⟩, fun _ => iff_of_false ?_ (Nat.not_le.mpr hlt)⟩
    rw [he]
    exact nofun

end

theorem appends_sample : ∃ cap ≤ @JIT_SOURCE_MAX_SIZE ⟨true⟩,
    @append_all ⟨true⟩ .empty [(fun _ => true, [97, 98]), (fun _ => true, [99])] =
      .done ⟨[97, 98, 99], cap⟩ ∧ 3 ≤ cap := by
  obtain ⟨hcases, hrefused⟩ := @appends_whole_or_refused ⟨true⟩
    [(fun _ => true, [97, 98]), (fun _ => true, [99])] (by decide)
  refine hcases.resolve_left fun he => ?_
  exact absurd ((hrefused (by simp)).mp he) (by decide)

end vibeos.tcc_glue
