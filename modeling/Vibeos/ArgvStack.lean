-- The stack that an application starts with: argc, the pointers and the strings of its command
-- line. The local array of pointers has no place for the NULL behind eight arguments, and of the
-- line only 99 characters are copied.
import Vibeos.AppHeap
import Vibeos.Words
import Mathlib.Data.List.GetD

namespace vibeos.app_runtime

open Mem Words
open vibeos.fs (CString)
open vibeos.trap (align_up_reg toNat_align_up)

def COLS : Nat := 100
def APP_MAX_ARGS : Nat := 8
def APP_HEAP_GUARD : BitVec 32 := 4096
def blank : UInt8 := 32

/-! ## app_runtime.c -/

/-- The loop over `arg_copy` from `p` on; the result is none for the return value -2. A round takes
one character at least. -/
def arg_loop : Nat → List UInt8 → List (List UInt8) → Option (List (List UInt8))
  | 0, _, argv_src => some argv_src
  | rounds + 1, p, argv_src =>
    let p := p.dropWhile (· == blank)
    if p = [] then some argv_src
    else if APP_MAX_ARGS ≤ argv_src.length then none
    else
      arg_loop rounds (p.dropWhile (· != blank)).tail
        (argv_src ++ [p.takeWhile (· != blank)])

/-- `argv_src`: the name of the program and the words of the line. -/
def arg_sources (app_name argstr : List UInt8) : Option (List (List UInt8)) :=
  let arg_copy := argstr.take (COLS - 1)
  arg_loop arg_copy.length arg_copy [app_name]

def str_bytes (argv_src : List (List UInt8)) : Nat := (argv_src.map (·.length + 1)).sum

def frame_size (argv_src : List (List UInt8)) : BitVec 32 :=
  align_up_reg (4 + BitVec.ofNat 32 (argv_src.length + 1) * 4 + BitVec.ofNat 32 (str_bytes argv_src))
    16

/-- What a loop leaves: the memory, the values that it made, and the ranges that it wrote. -/
structure Stored where
  mem : Mem
  ptrs : List (BitVec 32)
  writes : List Span

/-- The loop that copies the strings, with the pointers to them. -/
def copy_strings (m : Mem) (str_slot : BitVec 32) : List (List UInt8) → Stored
  | [] => ⟨m, [], []⟩
  | src :: rest =>
    let len := src.length + 1
    let r := copy_strings (patch m str_slot.toNat len fun i => src.getD i 0)
      (str_slot + BitVec.ofNat 32 len) rest
    ⟨r.mem, str_slot :: r.ptrs, ⟨str_slot.toNat, len⟩ :: r.writes⟩

/-- The loop that fills `argv_slot` from `argv_ptrs`. -/
def store_ptrs (m : Mem) (slot : BitVec 32) : List (BitVec 32) → Stored
  | [] => ⟨m, [], []⟩
  | p :: rest =>
    let r := store_ptrs (writeLE m slot.toNat 4 p.toNat) (slot + 4) rest
    ⟨r.mem, p :: r.ptrs, ⟨slot.toNat, 4⟩ :: r.writes⟩

/-- `argv_ptrs` are the places of that array that are written. -/
structure Prepared where
  rc : Int
  mem : Mem
  user_sp : BitVec 32
  writes : List Span
  argv_ptrs : List Nat

section

variable [AppConfig]

/-- The frame is too big, or ends in the guard or below. -/
def FrameTooBig (argv_src : List (List UInt8)) (user_sp : BitVec 32) : Prop :=
  user_sp < frame_size argv_src ∨
    user_sp - frame_size argv_src ≤ BitVec.ofNat 32 APP_START + APP_HEAP_GUARD

instance (argv_src : List (List UInt8)) (user_sp : BitVec 32) :
    Decidable (FrameTooBig argv_src user_sp) := by
  unfold FrameTooBig
  infer_instance

def build_frame (m : Mem) (argv_src : List (List UInt8)) (base : BitVec 32) : Prepared :=
  let argc := argv_src.length
  let copied := copy_strings m (base + 4 + BitVec.ofNat 32 (argc + 1) * 4) argv_src
  let m := writeLE copied.mem base.toNat 4 argc
  let stored := store_ptrs m (base + 4) (copied.ptrs ++ [0])
  ⟨0, stored.mem, base, copied.writes ++ ⟨base.toNat, 4⟩ :: stored.writes, List.range (argc + 1)⟩

def app_prepare_argv_stack (m : Mem) (app_name argstr : List UInt8) (user_sp : BitVec 32) :
    Prepared :=
  match arg_sources app_name argstr with
  | none => ⟨-2, m, user_sp, [], []⟩
  | some argv_src =>
    if FrameTooBig argv_src user_sp then ⟨-3, m, user_sp, [], []⟩
    else build_frame m argv_src (user_sp - frame_size argv_src)

end

/-! ## The image of a command line -/

def StringAt (m : Mem) (p : Nat) (s : List UInt8) : Prop := ∀ k ≤ s.length, m (p + k) = s.getD k 0

/-- argc, the pointers and the strings of these arguments, the strings between `lo` and `hi`. -/
structure Image (m : Mem) (base lo hi : Nat) (args : List (List UInt8)) : Prop where
  argc : readLE m base 4 = args.length
  argv : ∀ i s, args[i]? = some s → StringAt m (readLE m (base + 4 + 4 * i) 4) s ∧
    lo ≤ readLE m (base + 4 + 4 * i) 4 ∧ readLE m (base + 4 + 4 * i) 4 + s.length < hi
  null : readLE m (base + 4 + 4 * args.length) 4 = 0

/-- No write leaves the stack or the array of pointers, and a call that does not fail leaves the
image of these arguments at an aligned address. -/
structure Prepared.Sound (r : Prepared) (lo hi : Nat) (args : List (List UInt8)) : Prop where
  inside : ∀ w ∈ r.writes, lo ≤ w.addr ∧ w.addr + w.len ≤ hi
  array : ∀ i ∈ r.argv_ptrs, i < APP_MAX_ARGS
  image : r.rc = 0 → Image r.mem r.user_sp.toNat lo hi args
  aligned : r.rc = 0 → 16 ∣ r.user_sp.toNat

/-! ## The words of the line -/

variable {p app_name argstr : List UInt8} {args argv_src : List (List UInt8)}

theorem arg_loop_eq {rounds : Nat} (hrounds : p.length ≤ rounds)
    (hargv : argv_src.length ≤ APP_MAX_ARGS) : arg_loop rounds p argv_src =
      if argv_src.length + (words blank p).length ≤ APP_MAX_ARGS then
        some (argv_src ++ words blank p)
      else none := by
  induction rounds generalizing p argv_src with
  | zero =>
    have hnil : p = [] := List.eq_nil_of_length_eq_zero (Nat.le_zero.mp hrounds)
    rw [hnil, words_nil, List.append_nil]
    exact (if_pos hargv).symm
  | succ rounds ih =>
    rw [arg_loop]
    have hstart := List.length_dropWhile_le (· == blank) p
    have hstop := List.head?_dropWhile_not (· == blank) p
    rw [← words_dropWhile]
    generalize p.dropWhile (· == blank) = q at hstart hstop ⊢
    by_cases hnil : q = []
    · rw [if_pos hnil, hnil, words_nil, List.append_nil]
      exact (if_pos hargv).symm
    · have hhead : q.head? ≠ some blank := by
        intro heq
        rw [heq] at hstop
        simp at hstop
      rw [if_neg hnil, words_of_head hnil hhead, List.length_cons]
      by_cases hfull : APP_MAX_ARGS ≤ argv_src.length
      · rw [if_pos hfull, if_neg (by omega)]
      · have hrest : (q.dropWhile (· != blank)).tail.length ≤ rounds := by
          have hle := List.length_dropWhile_le (· != blank) q
          have hpos := List.length_pos_of_ne_nil hnil
          rw [List.length_tail]
          omega
        rw [if_neg hfull, ih hrest (by rw [List.length_append, List.length_singleton]; omega),
          List.length_append, List.length_singleton, List.append_assoc, List.singleton_append]
        refine if_congr ?_ rfl rfl
        omega

theorem arg_sources_eq (app_name argstr : List UInt8) : arg_sources app_name argstr =
    if (words blank (argstr.take (COLS - 1))).length < APP_MAX_ARGS then
      some (app_name :: words blank (argstr.take (COLS - 1)))
    else none := by
  rw [arg_sources, arg_loop_eq (le_refl _) (Nat.le_of_ble_eq_true rfl)]
  refine if_congr ?_ rfl rfl
  rw [List.length_singleton]
  omega

/-! ## Strings in memory -/

variable {m m' : Mem} {s t : List UInt8} {a : Nat}

theorem StringAt.congr (h : StringAt m a s) (hsame : ∀ k ≤ s.length, m' (a + k) = m (a + k)) :
    StringAt m' a s := fun k hk => (hsame k hk).trans (h k hk)

theorem StringAt.length_le (h : StringAt m a s) (h' : StringAt m a t) (hs : 0 ∉ s) :
    s.length ≤ t.length := by
  by_contra hlt
  have hbyte := (h t.length (by omega)).symm.trans (h' t.length (le_refl _))
  rw [List.getD_eq_getElem _ _ (by omega), List.getD_eq_default _ _ (le_refl _)] at hbyte
  exact hs (hbyte ▸ List.getElem_mem _)

theorem StringAt.unique (h : StringAt m a s) (h' : StringAt m a t) (hs : 0 ∉ s) (ht : 0 ∉ t) :
    s = t := by
  have hlen : s.length = t.length := Nat.le_antisymm (h.length_le h' hs) (h'.length_le h ht)
  refine List.ext_getElem hlen fun k hk hk' => ?_
  have hbyte := (h k hk.le).symm.trans (h' k hk'.le)
  rwa [List.getD_eq_getElem _ _ hk, List.getD_eq_getElem _ _ hk'] at hbyte

theorem toNat_add_of_lt {v : BitVec 32} {n : Nat} (h : v.toNat + n < 2 ^ 32) :
    (v + BitVec.ofNat 32 n).toNat = v.toNat + n := by
  rw [BitVec.toNat_add, BitVec.toNat_ofNat, Nat.mod_eq_of_lt (by omega : n < 2 ^ 32),
    Nat.mod_eq_of_lt h]

theorem copy_strings_spec (m : Mem) (slot : BitVec 32) (argv_src : List (List UInt8))
    (hfits : slot.toNat + str_bytes argv_src < 2 ^ 32) :
    List.Forall₂ (fun (p : BitVec 32) s => StringAt (copy_strings m slot argv_src).mem p.toNat s ∧
        slot.toNat ≤ p.toNat ∧ p.toNat + s.length < slot.toNat + str_bytes argv_src)
      (copy_strings m slot argv_src).ptrs argv_src ∧
    SameOutside slot.toNat (slot.toNat + str_bytes argv_src) m
      (copy_strings m slot argv_src).mem ∧
    ∀ w ∈ (copy_strings m slot argv_src).writes, slot.toNat ≤ w.addr ∧
      w.addr + w.len ≤ slot.toNat + str_bytes argv_src := by
  induction argv_src generalizing m slot with
  | nil => exact ⟨.nil, SameOutside.refl _ _ _, fun w hw => nomatch hw⟩
  | cons src rest ih =>
    have hbytes : str_bytes (src :: rest) = src.length + 1 + str_bytes rest := rfl
    rw [hbytes] at hfits ⊢
    have hnext := toNat_add_of_lt (v := slot) (n := src.length + 1) (by omega)
    obtain ⟨hrest, hsame, hwrites⟩ := ih
      (patch m slot.toNat (src.length + 1) fun i => src.getD i 0)
      (slot + BitVec.ofNat 32 (src.length + 1)) (by omega)
    rw [hnext] at hrest hsame hwrites
    rw [copy_strings]
    refine ⟨.cons ⟨?_, le_refl _, by omega⟩ ?_, ?_, ?_⟩
    · intro k hk
      rw [hsame _ (by omega), patch_add (by omega)]
    · refine hrest.imp fun p s hp => ⟨hp.1, by omega, by omega⟩
    · intro x hx
      rw [hsame x (by omega), patch_out (by omega)]
    · rintro w (_ | ⟨_, hw⟩)
      · dsimp only
        omega
      · have := hwrites w hw
        omega

theorem store_ptrs_spec (m : Mem) (slot : BitVec 32) (ptrs : List (BitVec 32))
    (hfits : slot.toNat + 4 * ptrs.length < 2 ^ 32) :
    (∀ i p, ptrs[i]? = some p →
      readLE (store_ptrs m slot ptrs).mem (slot.toNat + 4 * i) 4 = p.toNat) ∧
    SameOutside slot.toNat (slot.toNat + 4 * ptrs.length) m (store_ptrs m slot ptrs).mem ∧
    ∀ w ∈ (store_ptrs m slot ptrs).writes, slot.toNat ≤ w.addr ∧
      w.addr + w.len ≤ slot.toNat + 4 * ptrs.length := by
  induction ptrs generalizing m slot with
  | nil => exact ⟨fun i p hp => by simp at hp, SameOutside.refl _ _ _, fun w hw => nomatch hw⟩
  | cons q rest ih =>
    rw [List.length_cons] at hfits ⊢
    have hnext : (slot + 4).toNat = slot.toNat + 4 := toNat_add_of_lt (n := 4) (by omega)
    obtain ⟨hrest, hsame, hwrites⟩ := ih (writeLE m slot.toNat 4 q.toNat) (slot + 4)
      (by omega)
    rw [hnext] at hrest hsame hwrites
    rw [store_ptrs]
    refine ⟨fun i p hp => ?_, ?_, ?_⟩
    · cases i with
      | zero =>
        cases hp
        rw [hsame.readLE (by omega)]
        exact readLE_writeLE_of_lt q.isLt
      | succ i =>
        rw [← hrest i p hp]
        congr 1
        omega
    · intro x hx
      rw [hsame x (by omega), writeLE_out (by omega)]
    · rintro w (_ | ⟨_, hw⟩)
      · dsimp only
        omega
      · have := hwrites w hw
        omega

/-! ## The frame -/

/-- The bytes of a frame, before they are rounded up. -/
def frameBytes (args : List (List UInt8)) : Nat := 4 + 4 * (args.length + 1) + str_bytes args

theorem toNat_frame_size (h : frameBytes args + 15 < 2 ^ 32) :
    (frame_size args).toNat = (frameBytes args + 15) / 16 * 16 := by
  unfold frameBytes at h ⊢
  have hslots : (4 + BitVec.ofNat 32 (args.length + 1) * 4 : BitVec 32).toNat =
      4 + 4 * (args.length + 1) := by
    rw [BitVec.toNat_add, BitVec.toNat_mul, BitVec.toNat_ofNat]
    change (4 + (args.length + 1) % 2 ^ 32 * 4 % 2 ^ 32) % 2 ^ 32 = _
    omega
  rw [frame_size, toNat_align_up, toNat_add_of_lt (by omega), hslots, Nat.mod_eq_of_lt h]

theorem forall₂_getElem? {R : BitVec 32 → List UInt8 → Prop} {ptrs : List (BitVec 32)}
    (h : List.Forall₂ R ptrs args) {i : Nat} (hi : args[i]? = some s) :
    ∃ p, ptrs[i]? = some p ∧ R p s := by
  induction h generalizing i with
  | nil => simp at hi
  | cons hfirst _ ih =>
    cases i with
    | zero =>
      cases hi
      exact ⟨_, rfl, hfirst⟩
    | succ i => exact ih hi

theorem build_frame_image (m : Mem) (args : List (List UInt8)) {base : BitVec 32} {lo hi : Nat}
    (hlo : lo ≤ base.toNat) (hhi : base.toNat + frameBytes args ≤ hi) (h32 : hi < 2 ^ 32) :
    Image (build_frame m args base).mem base.toNat lo hi args ∧
      ∀ w ∈ (build_frame m args base).writes, lo ≤ w.addr ∧ w.addr + w.len ≤ hi := by
  unfold frameBytes at hhi
  have hargv : (base + 4).toNat = base.toNat + 4 := toNat_add_of_lt (n := 4) (by omega)
  have hslot : (base + 4 + BitVec.ofNat 32 (args.length + 1) * 4).toNat =
      base.toNat + 4 + 4 * (args.length + 1) := by
    have hmul : BitVec.ofNat 32 (args.length + 1) * 4 =
        BitVec.ofNat 32 ((args.length + 1) * 4) := BitVec.ofNat_mul .. |>.symm
    rw [hmul, toNat_add_of_lt (by omega), hargv, Nat.mul_comm]
  obtain ⟨hstrings, -, hwrites⟩ := copy_strings_spec m
    (base + 4 + BitVec.ofNat 32 (args.length + 1) * 4) args (by omega)
  unfold build_frame
  dsimp only
  generalize copy_strings m (base + 4 + BitVec.ofNat 32 (args.length + 1) * 4) args = copied
    at hstrings hwrites ⊢
  rw [hslot] at hstrings hwrites
  have hlen : (copied.ptrs ++ [0]).length = args.length + 1 := by
    rw [List.length_append, hstrings.length_eq, List.length_singleton]
  obtain ⟨hptrs, hsame, hstored⟩ := store_ptrs_spec (writeLE copied.mem base.toNat 4 args.length)
    (base + 4) (copied.ptrs ++ [0]) (by omega)
  rw [hargv, hlen] at hsame hstored
  rw [hargv] at hptrs
  refine ⟨⟨?_, ?_, ?_⟩, ?_⟩
  · rw [hsame.readLE (by omega)]
    exact readLE_writeLE_of_lt (by omega)
  · intro i s hi
    obtain ⟨p, hp, hstring, hfirst, hlast⟩ := forall₂_getElem? hstrings hi
    rw [hptrs i p (by rw [List.getElem?_append_left (List.getElem?_eq_some_iff.mp hp).1, hp])]
    refine ⟨hstring.congr fun k hk => ?_, by omega, by omega⟩
    rw [hsame _ (by omega), writeLE_out (by omega)]
  · rw [hptrs args.length 0 (by rw [← hstrings.length_eq]; simp)]
    rfl
  · intro w hw
    rcases List.mem_append.mp hw with hw | hw
    · have := hwrites w hw
      omega
    · rcases List.mem_cons.mp hw with rfl | hw
      · dsimp only
        omega
      · have := hstored w hw
        omega

theorem Image.unique {base lo hi : Nat} {args' : List (List UInt8)} (h : Image m base lo hi args)
    (h' : Image m base lo hi args') (hnul : ∀ s ∈ args, 0 ∉ s) (hnul' : ∀ s ∈ args', 0 ∉ s) :
    args = args' := by
  have hlen : args.length = args'.length := h.argc.symm.trans h'.argc
  refine List.ext_getElem hlen fun i hi hi' => ?_
  obtain ⟨hs, -⟩ := h.argv i _ (List.getElem?_eq_getElem hi)
  obtain ⟨hs', -⟩ := h'.argv i _ (List.getElem?_eq_getElem hi')
  exact hs.unique hs' (hnul _ (List.getElem_mem hi)) (hnul' _ (List.getElem_mem hi'))

/-! ## Every command line -/

theorem str_bytes_eq (args : List (List UInt8)) :
    str_bytes args = args.flatten.length + args.length := by
  induction args with
  | nil => rfl
  | cons s args ih =>
    have hbytes : str_bytes (s :: args) = s.length + 1 + str_bytes args := rfl
    rw [hbytes, ih, List.flatten_cons, List.length_append, List.length_cons]
    omega

def copiedWords (argstr : List UInt8) : List (List UInt8) :=
  words blank (argstr.take (COLS - 1))

theorem copiedWords_bytes (argstr : List UInt8) :
    str_bytes (copiedWords argstr) ≤ 99 + (copiedWords argstr).length := by
  have hfilter := List.length_filter_le (· ≠ blank) (argstr.take (COLS - 1))
  have htake := List.length_take_le (COLS - 1) argstr
  have hcols : COLS - 1 = 99 := rfl
  rw [str_bytes_eq, copiedWords, flatten_words]
  omega

theorem copiedWords_eq_iff (argstr : List UInt8) :
    copiedWords argstr = words blank argstr ↔ ∀ c ∈ argstr.drop (COLS - 1), c = blank := by
  have hsplit := List.take_append_drop (COLS - 1) argstr
  rw [← words_append_eq_iff (s := argstr.take (COLS - 1)), hsplit]
  exact eq_comm

theorem nul_free_words (line : CString) {s t : List UInt8} (hs : s ∈ words blank t)
    (ht : t.Sublist line.bytes) : 0 ∉ s := fun h0 =>
  line.nul_free (ht.subset (mem_of_mem_words hs h0))

section

variable [AppConfig]

/-- What `launch_app_file` has checked or passes: the region is bigger than the guard, the stack
pointer is aligned, and the name of the program is a string in a memory of less than 2 GiB. -/
structure Launched (name : CString) (user_sp : BitVec 32) : Prop where
  guard : APP_START + APP_HEAP_GUARD.toNat ≤ APP_END
  aligned : 16 ∣ user_sp.toNat
  name_lt : name.bytes.length < 2 ^ 31

/-- The call fails because there are too many words or because the frame is too big; or there are
not exactly eight arguments, and nothing but blanks stands behind the 99 characters. -/
def LineFits (name line : CString) (user_sp : BitVec 32) : Prop :=
  APP_MAX_ARGS ≤ (copiedWords line.bytes).length ∨
    FrameTooBig (name.bytes :: copiedWords line.bytes) user_sp ∨
    ((copiedWords line.bytes).length + 1 ≠ APP_MAX_ARGS ∧
      ∀ c ∈ line.bytes.drop (COLS - 1), c = blank)

/-- Where the stack may be used: above the guard. -/
def stackStart : Nat := APP_START + APP_HEAP_GUARD.toNat

variable {name line : CString} {user_sp : BitVec 32}

theorem Launched.frame (h : Launched name user_sp)
    (hwords : (copiedWords line.bytes).length < APP_MAX_ARGS)
    (hbig : ¬ FrameTooBig (name.bytes :: copiedWords line.bytes) user_sp) :
    stackStart ≤ (user_sp - frame_size (name.bytes :: copiedWords line.bytes)).toNat ∧
      (user_sp - frame_size (name.bytes :: copiedWords line.bytes)).toNat +
        frameBytes (name.bytes :: copiedWords line.bytes) ≤ user_sp.toNat ∧
      16 ∣ (user_sp - frame_size (name.bytes :: copiedWords line.bytes)).toNat := by
  have hguard := h.guard
  have hend := AppConfig.fits
  have hmax : APP_MAX_ARGS = 8 := rfl
  have hbytes : frameBytes (name.bytes :: copiedWords line.bytes) ≤ name.bytes.length + 200 := by
    have hcopied := copiedWords_bytes line.bytes
    have hname : str_bytes (name.bytes :: copiedWords line.bytes) =
        name.bytes.length + 1 + str_bytes (copiedWords line.bytes) := rfl
    rw [frameBytes, hname, List.length_cons]
    omega
  have hsize := @toNat_frame_size (name.bytes :: copiedWords line.bytes)
    (by have := h.name_lt; omega)
  have hfloor : (BitVec.ofNat 32 APP_START + APP_HEAP_GUARD).toNat = stackStart := by
    rw [BitVec.toNat_add, BitVec.toNat_ofNat, stackStart]
    omega
  have haligned := h.aligned
  rw [FrameTooBig, not_or, BitVec.not_lt, BitVec.not_le, BitVec.le_def, BitVec.lt_def,
    hfloor] at hbig
  have hbase : (user_sp - frame_size (name.bytes :: copiedWords line.bytes)).toNat =
      user_sp.toNat - (frame_size (name.bytes :: copiedWords line.bytes)).toNat := by
    rw [BitVec.toNat_sub]
    omega
  omega

theorem prepare_eq (m : Mem) (app_name argstr : List UInt8) (user_sp : BitVec 32) :
    app_prepare_argv_stack m app_name argstr user_sp =
      if (copiedWords argstr).length < APP_MAX_ARGS then
        if FrameTooBig (app_name :: copiedWords argstr) user_sp then ⟨-3, m, user_sp, [], []⟩
        else build_frame m (app_name :: copiedWords argstr)
          (user_sp - frame_size (app_name :: copiedWords argstr))
      else ⟨-2, m, user_sp, [], []⟩ := by
  rw [app_prepare_argv_stack, arg_sources_eq]
  unfold copiedWords
  by_cases hwords : (words blank (argstr.take (COLS - 1))).length < APP_MAX_ARGS
  · rw [if_pos hwords, if_pos hwords]
  · rw [if_neg hwords, if_neg hwords]

omit [AppConfig] in
theorem sound_of_failed {rc : Int} (hrc : rc ≠ 0) (m : Mem) (user_sp : BitVec 32) (lo hi : Nat)
    (args : List (List UInt8)) :
    (⟨rc, m, user_sp, [], []⟩ : Prepared).Sound lo hi args where
  inside := fun _ hw => nomatch hw
  array := fun _ hi => nomatch hi
  image := fun h0 => absurd h0 hrc
  aligned := fun h0 => absurd h0 hrc

/-- The stack of an application is right, or the call fails, exactly when the line fits. -/
theorem argv_stack_sound_iff (h : Launched name user_sp) (m : Mem) :
    (app_prepare_argv_stack m name.bytes line.bytes user_sp).Sound stackStart user_sp.toNat
      (name.bytes :: words blank line.bytes) ↔ LineFits name line user_sp := by
  rw [prepare_eq, LineFits]
  by_cases hwords : (copiedWords line.bytes).length < APP_MAX_ARGS
  case neg =>
    rw [if_neg hwords]
    exact iff_of_true (sound_of_failed (by decide) m _ _ _ _) (.inl (Nat.le_of_not_lt hwords))
  by_cases hbig : FrameTooBig (name.bytes :: copiedWords line.bytes) user_sp
  case pos =>
    rw [if_pos hwords, if_pos hbig]
    exact iff_of_true (sound_of_failed (by decide) m _ _ _ _) (.inr (.inl hbig))
  rw [if_pos hwords, if_neg hbig]
  obtain ⟨hlo, hhi, haligned⟩ := h.frame hwords hbig
  obtain ⟨himage, hinside⟩ := build_frame_image m (name.bytes :: copiedWords line.bytes) hlo hhi
    user_sp.isLt
  have hmax : APP_MAX_ARGS = 8 := rfl
  have harray : (∀ i ∈ (build_frame m (name.bytes :: copiedWords line.bytes)
      (user_sp - frame_size (name.bytes :: copiedWords line.bytes))).argv_ptrs,
      i < APP_MAX_ARGS) ↔ (copiedWords line.bytes).length + 1 ≠ APP_MAX_ARGS := by
    change (∀ i ∈ List.range ((copiedWords line.bytes).length + 1 + 1), i < APP_MAX_ARGS) ↔ _
    constructor
    · intro hall
      exact (hall _ (List.mem_range.mpr (Nat.lt_succ_self _))).ne
    · intro hne i hi
      have := List.mem_range.mp hi
      omega
  constructor
  · intro hsound
    refine .inr (.inr ⟨harray.mp hsound.array, (copiedWords_eq_iff line.bytes).mp ?_⟩)
    -- the frame holds the copied words, and no other ones
    have hsame := himage.unique (hsound.image rfl) ?_ ?_
    · exact (List.cons.inj hsame).2
    · rintro s (_ | ⟨_, hs⟩)
      · exact name.nul_free
      · exact nul_free_words line hs (List.take_sublist _ _)
    · rintro s (_ | ⟨_, hs⟩)
      · exact name.nul_free
      · exact nul_free_words line hs (List.Sublist.refl _)
  · rintro (hfull | htoobig | ⟨hne, hblank⟩)
    · exact absurd hwords (Nat.not_lt.mpr hfull)
    · exact absurd htoobig hbig
    · rw [← (copiedWords_eq_iff line.bytes).mpr hblank]
      exact ⟨hinside, harray.mpr hne, fun _ => himage, fun _ => haligned⟩

end

section

attribute [local instance] qemuApps

/-- The stack pointer at the end of the application region. -/
def launchSp : BitVec 32 := 0xBFFFFFF0

def helloName : CString := ⟨[104], by decide⟩

/-- `h a b`. -/
theorem argv_stack_hello : Launched helloName launchSp ∧
    ((app_prepare_argv_stack (fun _ => 0) helloName.bytes [97, 32, 98] launchSp).Sound stackStart
      launchSp.toNat (helloName.bytes :: words blank [97, 32, 98]) ↔
      LineFits helloName ⟨[97, 32, 98], by decide⟩ launchSp) :=
  have hlaunch : Launched helloName launchSp := ⟨by decide, by decide, by decide⟩
  ⟨hlaunch, @argv_stack_sound_iff _ helloName ⟨[97, 32, 98], by decide⟩ launchSp hlaunch _⟩

/-- `h a a a a a a a`: eight arguments with the name. -/
def sevenWords : List UInt8 := [97, 32, 97, 32, 97, 32, 97, 32, 97, 32, 97, 32, 97]

/-- The NULL goes behind the end of the local array. -/
theorem eight_arguments_overflow : Launched helloName launchSp ∧
    (app_prepare_argv_stack (fun _ => 0) helloName.bytes sevenWords launchSp).rc = 0 ∧
    APP_MAX_ARGS ∈
      (app_prepare_argv_stack (fun _ => 0) helloName.bytes sevenWords launchSp).argv_ptrs ∧
    ¬ (app_prepare_argv_stack (fun _ => 0) helloName.bytes sevenWords launchSp).Sound stackStart
      launchSp.toNat (helloName.bytes :: words blank sevenWords) := by
  have hover : APP_MAX_ARGS ∈
      (app_prepare_argv_stack (fun _ => 0) helloName.bytes sevenWords launchSp).argv_ptrs := by
    decide
  exact ⟨⟨by decide, by decide, by decide⟩, by decide, hover,
    fun hsound => absurd (hsound.array _ hover) (by decide)⟩

end

end vibeos.app_runtime
