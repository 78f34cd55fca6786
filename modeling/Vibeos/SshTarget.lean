-- The target strings of the ssh client: what a specification says, what the two parsers make of
-- it, and for which specifications the stored target is right and fits into its buffer.
import Vibeos.SshBoot

namespace vibeos.ssh

open wget (ascii lib_itoa)

/-! ## The parsers -/

/-- User, host and port of a specification that `ssh_parse_target` accepts. -/
def target_of (spec : Text) : Option (Text × Text × Nat) :=
  let p := spec.dropWhile isBlank
  if p = [] then none
  else
    match parse_user p with
    | none => none
    | some (user, p) => (parse_host p).map fun host => (user, host)

theorem ssh_parse_target_accepted {spec user host : Text} {port : Nat}
    (h : target_of spec = some (user, host, port)) (s : Client) :
    (ssh_parse_target s spec).ssh_user = user ∧ (ssh_parse_target s spec).ssh_host = host ∧
      (ssh_parse_target s spec).ssh_port = port ∧
      (ssh_parse_target s spec).ssh_target =
        (if user ≠ [] then user ++ ascii "@" else []) ++ host ++
          if port ≠ 22 then ascii ":" ++ lib_itoa port else [] := by
  unfold target_of at h
  unfold ssh_parse_target
  dsimp only at h ⊢
  by_cases hp : spec.dropWhile isBlank = []
  · rw [if_pos hp] at h
    cases h
  · rw [if_neg hp] at h ⊢
    cases huser : parse_user (spec.dropWhile isBlank) with
    | none =>
      rw [huser] at h
      cases h
    | some found =>
      rw [huser] at h
      dsimp only at h ⊢
      cases hhost : parse_host found.2 with
      | none =>
        rw [hhost] at h
        cases h
      | some stored =>
        rw [hhost] at h
        cases h
        dsimp only
        split <;> exact ⟨rfl, rfl, rfl, rfl⟩

/-- The buffer for the host has `host_max` bytes. -/
def ssh_parse_probe_target (spec : Text) (host_max : Nat) : Option (Text × Nat) :=
  let p := spec.dropWhile isBlank
  if p = [] then none
  else
    let p := match p.dropWhile (· != 64) with
      | [] => p
      | _ :: rest => rest
    match p.dropWhile (· != 58) with
    | [] => if p.length ≥ host_max ∨ p = [] then none else some (p, 22)
    | _ :: rest =>
      let host := p.takeWhile (· != 58)
      if host.length = 0 ∨ host.length ≥ host_max then none
      else some (host, if atoi16 rest = 0 then 22 else atoi16 rest)

def PROBE_HOST_MAX : Nat := 64

/-! ## What is written -/

def decimal (digits : Text) : Nat := digits.foldl (fun v c => v * 10 + (c.toNat - 48)) 0

def portNumber (digits : Text) : Option Nat :=
  if digits ≠ [] ∧ digits.all isDigit = true ∧ 1 ≤ decimal digits ∧ decimal digits ≤ 65535 then
    some (decimal digits)
  else none

/-- The user stands before the first `@`, and is root if there is none. -/
def writtenUser (spec : Text) : Text :=
  let p := spec.dropWhile isBlank
  if 64 ∈ p then p.takeWhile (· != 64) else ascii "root"

def behindUser (spec : Text) : Text :=
  let p := spec.dropWhile isBlank
  if 64 ∈ p then (p.dropWhile (· != 64)).tail else p

def writtenHost (spec : Text) : Text := (behindUser spec).takeWhile (· != 58)

/-- The port stands behind the first `:`, and is 22 if there is none. -/
def writtenPort (spec : Text) : Option Nat :=
  if 58 ∈ behindUser spec then portNumber ((behindUser spec).dropWhile (· != 58)).tail else some 22

/-- An accepted specification is taken as it is written, and its target reads back. -/
structure TargetRight (s : Client) (spec : Text) : Prop where
  user : (ssh_parse_target s spec).ssh_user = writtenUser spec
  host : (ssh_parse_target s spec).ssh_host = writtenHost spec
  port : writtenPort spec = some (ssh_parse_target s spec).ssh_port
  fits : (ssh_parse_target s spec).ssh_target.length + 1 ≤ 96
  again : target_of (ssh_parse_target s spec).ssh_target =
    some (writtenUser spec, writtenHost spec, (ssh_parse_target s spec).ssh_port)
  probe : ssh_parse_probe_target spec PROBE_HOST_MAX =
    some (writtenHost spec, (ssh_parse_target s spec).ssh_port)

/-- The port is a number in range, and user, host and port are short enough together. -/
def TargetFits (spec : Text) : Prop :=
  ∃ port, writtenPort spec = some port ∧
    (writtenUser spec).length + 1 + (writtenHost spec).length +
      (if port = 22 then 0 else 1 + (lib_itoa port).length) < 96

/-! ## Separators -/

section
variable {a b p : Text} {sep : UInt8}

theorem cut_at (h : sep ∉ a) (b : Text) :
    (a ++ sep :: b).takeWhile (· != sep) = a ∧ (a ++ sep :: b).dropWhile (· != sep) = sep :: b := by
  have hall : ∀ c ∈ a, (c != sep) = true := fun c hc => by
    rw [bne_iff_ne]
    exact fun heq => h (heq ▸ hc)
  rw [List.takeWhile_append_of_pos hall, List.dropWhile_append_of_pos hall]
  simp

theorem cut_none (h : sep ∉ p) :
    p.takeWhile (· != sep) = p ∧ p.dropWhile (· != sep) = [] := by
  have hall : ∀ c ∈ p, (c != sep) = true := fun c hc => by
    rw [bne_iff_ne]
    exact fun heq => h (heq ▸ hc)
  exact ⟨List.takeWhile_eq_self_iff.mpr hall, List.dropWhile_eq_nil_iff.mpr hall⟩

end

/-! ## What the parsers accept -/

theorem parse_user_at {user : Text} (h : 64 ∉ user) (rest : Text) :
    parse_user (user ++ 64 :: rest) =
      if user.length = 0 ∨ user.length ≥ 32 then none else some (user, rest) := by
  unfold parse_user
  rw [(cut_at h rest).2, (cut_at h rest).1]

theorem parse_user_none {p : Text} (h : 64 ∉ p) : parse_user p = some (ascii "root", p) := by
  unfold parse_user
  rw [(cut_none h).2]

theorem parse_host_at {host : Text} (h : 58 ∉ host) (rest : Text) :
    parse_host (host ++ 58 :: rest) =
      if host.length = 0 ∨ host.length ≥ 64 then none
      else some (host, if atoi16 rest = 0 then 22 else atoi16 rest) := by
  unfold parse_host
  rw [(cut_at h rest).2, (cut_at h rest).1]

theorem parse_host_none {p : Text} (h : 58 ∉ p) :
    parse_host p = if p.length ≥ 64 ∨ p = [] then none else some (p, 22) := by
  unfold parse_host
  rw [(cut_none h).2]

def readPort (p : Text) : Nat :=
  if 58 ∈ p then
    let rest := (p.dropWhile (· != 58)).tail
    if atoi16 rest = 0 then 22 else atoi16 rest
  else 22

theorem parse_host_some {p host : Text} {port : Nat} (h : parse_host p = some (host, port)) :
    host = p.takeWhile (· != 58) ∧ host ≠ [] ∧ host.length < 64 ∧ port = readPort p := by
  unfold readPort
  by_cases hcolon : 58 ∈ p
  · obtain ⟨a, b, rfl, ha⟩ := List.eq_append_cons_of_mem hcolon
    rw [parse_host_at ha] at h
    split at h
    · cases h
    · rename_i hlen
      cases h
      rw [if_pos hcolon, (cut_at ha b).1, (cut_at ha b).2]
      refine ⟨rfl, fun hnil => hlen (Or.inl (by rw [hnil]; rfl)), by omega, rfl⟩
  · rw [parse_host_none hcolon] at h
    split at h
    · cases h
    · rename_i hlen
      cases h
      rw [if_neg hcolon, (cut_none hcolon).1]
      exact ⟨rfl, fun hnil => hlen (Or.inr hnil), by omega, rfl⟩

theorem parse_user_some {spec user rest : Text}
    (h : parse_user (spec.dropWhile isBlank) = some (user, rest)) :
    user = writtenUser spec ∧ rest = behindUser spec ∧ user ≠ [] ∧ user.length < 32 ∧ 64 ∉ user := by
  unfold writtenUser behindUser
  by_cases hat : 64 ∈ spec.dropWhile isBlank
  · obtain ⟨a, b, hp, ha⟩ := List.eq_append_cons_of_mem hat
    dsimp only
    rw [if_pos hat, if_pos hat]
    rw [hp] at h ⊢
    rw [parse_user_at ha] at h
    split at h
    · cases h
    · rename_i hlen
      cases h
      rw [(cut_at ha rest).1, (cut_at ha rest).2]
      exact ⟨rfl, rfl, fun hnil => hlen (Or.inl (by rw [hnil]; rfl)), by omega, ha⟩
  · dsimp only
    rw [if_neg hat, if_neg hat]
    rw [parse_user_none hat] at h
    cases h
    exact ⟨rfl, rfl, by decide, by decide, by decide⟩

theorem writtenUser_head {spec : Text} {c : UInt8} (h : (writtenUser spec).head? = some c) :
    isBlank c = false := by
  unfold writtenUser at h
  dsimp only at h
  split at h
  · cases hp : spec.dropWhile isBlank with
    | nil =>
      rw [hp] at h
      cases h
    | cons d p =>
      rw [hp, List.takeWhile_cons] at h
      split at h
      · cases h
        have hfirst := List.head?_dropWhile_not isBlank spec
        rw [hp] at hfirst
        simpa using hfirst
      · cases h
  · cases h
    rfl

theorem accepted_spec {spec user host : Text} {port : Nat}
    (h : target_of spec = some (user, host, port)) :
    parse_user (spec.dropWhile isBlank) = some (user, behindUser spec) ∧
      parse_host (behindUser spec) = some (host, port) := by
  unfold target_of at h
  dsimp only at h
  split at h
  · cases h
  · cases huser : parse_user (spec.dropWhile isBlank) with
    | none =>
      rw [huser] at h
      cases h
    | some found =>
      rw [huser] at h
      dsimp only at h
      obtain ⟨stored, hhost, heq⟩ := Option.map_eq_some_iff.mp h
      cases heq
      have hrest := (parse_user_some (show _ = some (found.1, found.2) from huser)).2.1
      rw [← hrest]
      exact ⟨rfl, hhost⟩

/-! ## Numbers -/

theorem lib_itoa_eq (n : Nat) : lib_itoa n = (Nat.toDigits 10 n).map Char.toUInt8 := by
  unfold lib_itoa ascii fs.lit
  rw [Nat.toString_eq_ofList_toDigits, String.toList_ofList]

theorem isDigit_toUInt8 {c : Char} (h : c.isDigit = true) :
    isDigit c.toUInt8 = true ∧ c.toUInt8.toNat = c.toNat := by
  have hrange : 48 ≤ c.toNat ∧ c.toNat ≤ 57 := by
    unfold Char.isDigit at h
    rw [Bool.and_eq_true, decide_eq_true_eq, decide_eq_true_eq] at h
    exact ⟨UInt32.le_iff_toNat_le.mp h.1, UInt32.le_iff_toNat_le.mp h.2⟩
  have hnat : c.toUInt8.toNat = c.toNat := by
    rw [Char.toUInt8, UInt32.toNat_toUInt8]
    exact Nat.mod_eq_of_lt (lt_of_le_of_lt hrange.2 (by decide))
  refine ⟨?_, hnat⟩
  unfold isDigit
  rw [Bool.and_eq_true, decide_eq_true_eq, decide_eq_true_eq, UInt8.le_iff_toNat_le,
    UInt8.le_iff_toNat_le, hnat]
  exact hrange

theorem lib_itoa_digits (n : Nat) : ∀ c ∈ lib_itoa n, isDigit c = true := by
  intro c hc
  rw [lib_itoa_eq, List.mem_map] at hc
  obtain ⟨d, hd, rfl⟩ := hc
  exact (isDigit_toUInt8 (Nat.isDigit_of_mem_toDigits (by decide) (by decide) hd)).1

theorem decimal_lib_itoa (n : Nat) : decimal (lib_itoa n) = n := by
  have hvalue := @Nat.ofDigitChars_ten_toDigits n
  rw [Nat.ofDigitChars_eq_foldl] at hvalue
  rw [lib_itoa_eq, decimal, List.foldl_map]
  refine Eq.trans ?_ hvalue
  apply List.foldl_ext
  intro v c hc
  have hdigit := Nat.isDigit_of_mem_toDigits (by decide) (by decide) hc
  rw [(isDigit_toUInt8 hdigit).2, Nat.mul_comm]
  rfl

theorem foldl_mod (digits : Text) (v : Nat) :
    digits.foldl (fun v c => (v * 10 + (c.toNat - 48)) % 2 ^ 16) (v % 2 ^ 16) =
      digits.foldl (fun v c => v * 10 + (c.toNat - 48)) v % 2 ^ 16 := by
  induction digits generalizing v with
  | nil => rfl
  | cons c digits ih =>
    rw [List.foldl_cons, List.foldl_cons, ← ih]
    congr 1
    omega

theorem digit_not_blank {c : UInt8} (h : isDigit c = true) : ¬ isBlank c = true := by
  intro hblank
  unfold isBlank at hblank
  rw [Bool.or_eq_true, beq_iff_eq, beq_iff_eq] at hblank
  rcases hblank with rfl | rfl
  · exact absurd h (by decide)
  · exact absurd h (by decide)

theorem atoi16_digits {digits : Text} (h : ∀ c ∈ digits, isDigit c = true) :
    atoi16 digits = decimal digits % 2 ^ 16 := by
  have hloop : (digits.takeWhile isDigit).foldl (fun v c => (v * 10 + (c.toNat - 48)) % 2 ^ 16) 0 =
      decimal digits % 2 ^ 16 := by
    rw [List.takeWhile_eq_self_iff.mpr h]
    exact foldl_mod digits 0
  have hblank : digits.dropWhile isBlank = digits := by
    cases digits with
    | nil => rfl
    | cons c digits => exact List.dropWhile_cons_of_neg (digit_not_blank (h c List.mem_cons_self))
  unfold atoi16
  dsimp only
  rw [hblank]
  split
  · exact absurd (h 45 List.mem_cons_self) (by decide)
  · exact absurd (h 43 List.mem_cons_self) (by decide)
  · exact hloop

/-! ## The stored target -/

theorem host_of_parse {p host : Text} {port : Nat} (h : parse_host p = some (host, port)) :
    58 ∉ host := by
  rw [(parse_host_some h).1]
  intro hmem
  exact absurd (List.mem_takeWhile_imp hmem) (by decide)

theorem accepted_print {user host : Text} {port : Nat} (huser : user ≠ []) (hlen : user.length < 32)
    (hat : 64 ∉ user) (hblank : ∀ c, user.head? = some c → isBlank c = false) (hhost : host ≠ [])
    (hhlen : host.length < 64) (hcolon : 58 ∉ host) (hport : port ≠ 0) (hmax : port < 2 ^ 16) :
    target_of (user ++ ascii "@" ++ host ++ if port ≠ 22 then ascii ":" ++ lib_itoa port else []) =
      some (user, host, port) := by
  have hrest : parse_host (host ++ if port ≠ 22 then ascii ":" ++ lib_itoa port else []) =
      some (host, port) := by
    have hlong : ¬ (host.length = 0 ∨ host.length ≥ 64) := by
      rintro (hnil | hlong)
      · exact hhost (List.length_eq_zero_iff.mp hnil)
      · omega
    by_cases h22 : port = 22
    · rw [if_neg (fun hne => hne h22), List.append_nil, parse_host_none hcolon, if_neg, h22]
      rintro (hlong' | hnil)
      · omega
      · exact hhost hnil
    · have hread : atoi16 (lib_itoa port) = port := by
        rw [atoi16_digits (lib_itoa_digits port), decimal_lib_itoa, Nat.mod_eq_of_lt hmax]
      rw [if_pos h22, show ascii ":" ++ lib_itoa port = 58 :: lib_itoa port from rfl,
        parse_host_at hcolon, if_neg hlong, hread, if_neg hport]
  have hspec : (user ++ ascii "@" ++ host ++ if port ≠ 22 then ascii ":" ++ lib_itoa port else []) =
      user ++ 64 :: (host ++ if port ≠ 22 then ascii ":" ++ lib_itoa port else []) := by
    rw [show ascii "@" = [64] from rfl, List.append_assoc, List.append_assoc]
    rfl
  have hdrop : ∀ l, (user ++ l).dropWhile isBlank = user ++ l := by
    intro l
    cases user with
    | nil => exact absurd rfl huser
    | cons c user =>
      exact List.dropWhile_cons_of_neg (by rw [hblank c rfl]; exact Bool.false_ne_true)
  unfold target_of
  dsimp only
  rw [hspec, hdrop, if_neg (List.append_ne_nil_of_left_ne_nil huser _), parse_user_at hat, if_neg]
  · dsimp only
    rw [hrest]
    rfl
  · rintro (hnil | hlong)
    · exact huser (List.length_eq_zero_iff.mp hnil)
    · omega

theorem probe_eq_parse_host {spec : Text} (h : spec.dropWhile isBlank ≠ []) :
    ssh_parse_probe_target spec PROBE_HOST_MAX = parse_host (behindUser spec) := by
  unfold ssh_parse_probe_target behindUser
  dsimp only
  rw [if_neg h]
  by_cases hat : 64 ∈ spec.dropWhile isBlank
  · obtain ⟨a, b, hp, ha⟩ := List.eq_append_cons_of_mem hat
    rw [if_pos hat, hp, (cut_at ha b).2]
    rfl
  · rw [if_neg hat, (cut_none hat).2]
    rfl

theorem not_blank_of_accepted {spec : Text} (h : target_of spec ≠ none) :
    spec.dropWhile isBlank ≠ [] := by
  intro hnil
  unfold target_of at h
  dsimp only at h
  rw [if_pos hnil] at h
  exact h rfl

theorem readPort_of_written {spec : Text} {port : Nat} (h : writtenPort spec = some port) :
    readPort (behindUser spec) = port ∧ port ≠ 0 ∧ port < 2 ^ 16 := by
  unfold writtenPort at h
  unfold readPort
  by_cases hcolon : 58 ∈ behindUser spec
  · rw [if_pos hcolon] at h ⊢
    unfold portNumber at h
    split at h
    · rename_i hnumber
      obtain ⟨-, hdigits, hmin, hmax⟩ := hnumber
      have hread : atoi16 ((behindUser spec).dropWhile (· != 58)).tail = port := by
        rw [atoi16_digits (List.all_eq_true.mp hdigits), ← Option.some.inj h,
          Nat.mod_eq_of_lt (by omega)]
      have hport : port ≠ 0 := by
        have heq := Option.some.inj h
        omega
      dsimp only
      rw [hread, if_neg hport]
      have heq := Option.some.inj h
      exact ⟨rfl, hport, by omega⟩
    · cases h
  · rw [if_neg hcolon] at h ⊢
    cases h
    exact ⟨rfl, by decide, by decide⟩

/-- The target that an accepted specification leaves is right exactly when its port is a number
in range and it is short enough. -/
theorem target_right_iff (s : Client) (spec : Text) (h : target_of spec ≠ none) :
    TargetRight s spec ↔ TargetFits spec := by
  obtain ⟨⟨user, host, port⟩, hacc⟩ := Option.ne_none_iff_exists'.mp h
  obtain ⟨hparsed, hhost⟩ := accepted_spec hacc
  obtain ⟨huser, -, hne, hlen, hat⟩ := parse_user_some hparsed
  obtain ⟨hwritten, hhne, hhlen, hread⟩ := parse_host_some hhost
  obtain ⟨hsuser, hshost, hsport, hstarget⟩ := ssh_parse_target_accepted hacc s
  rw [if_pos hne] at hstarget
  have hlength : (ssh_parse_target s spec).ssh_target.length =
      user.length + 1 + host.length + if port = 22 then 0 else 1 + (lib_itoa port).length := by
    rw [hstarget]
    by_cases h22 : port = 22
    · rw [if_neg (fun hne => hne h22), if_pos h22]
      simp [show (ascii "@").length = 1 from rfl]
      omega
    · rw [if_pos h22, if_neg h22]
      simp [show (ascii "@").length = 1 from rfl, show (ascii ":").length = 1 from rfl]
      omega
  constructor
  · intro hright
    have hport := hright.port
    have hfits := hright.fits
    rw [hsport] at hport
    refine ⟨port, hport, ?_⟩
    rw [← huser, writtenHost, ← hwritten, ← hlength]
    omega
  · rintro ⟨n, hn, hfits⟩
    obtain ⟨hreadn, hn0, hnmax⟩ := readPort_of_written hn
    have hnport : n = port := by rw [← hreadn, hread]
    subst hnport
    rw [← huser, writtenHost, ← hwritten, ← hlength] at hfits
    refine ⟨hsuser.trans huser, hshost.trans hwritten, by rw [hsport]; exact hn, hfits, ?_, ?_⟩
    · rw [hstarget, hsport, ← huser, writtenHost, ← hwritten]
      exact accepted_print hne hlen hat (fun c hc => writtenUser_head (huser ▸ hc)) hhne hhlen
        (host_of_parse hhost) hn0 hnmax
    · rw [hsport, writtenHost, ← hwritten]
      rw [probe_eq_parse_host (not_blank_of_accepted h), hhost]

theorem target_right_plain :
    TargetRight Client.reset (ascii "user@example:2222") ↔ TargetFits (ascii "user@example:2222") :=
  target_right_iff _ _ (by decide)

/-- A port that is reduced: 70000 becomes 4464. -/
theorem port_reduced :
    target_of (ascii "host:70000") = some (ascii "root", ascii "host", 4464) ∧
      ¬ TargetRight Client.reset (ascii "host:70000") := by
  refine ⟨by decide, fun h => ?_⟩
  have hnone : writtenPort (ascii "host:70000") = none := by decide
  have hport := h.port
  rw [hnone] at hport
  cases hport

end vibeos.ssh
