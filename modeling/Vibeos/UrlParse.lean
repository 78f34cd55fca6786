-- The URLs of the downloads: what parse_wget_url cuts out of one, and what a job keeps of it. The
-- cuts are silent. A port goes through atoi and 16 bits, and a host is copied as far as its 19th
-- byte.
import Vibeos.SshTarget
import Vibeos.WgetFeed

namespace vibeos.wget

open fs (CString slash)
open ssh (Text atoi16 decimal cut_at cut_none)

/-! ## The parser -/

def WGET_PATH_MAX : Nat := 512

def colon : UInt8 := ':'.toUInt8

def copy_range_str (dst_size : Nat) (range : Text) : Text := range.take (dst_size - 1)

/-- The loop that keeps the last colon: what stands before it and behind it. -/
def last_colon : Text → Option (Text × Text)
  | [] => none
  | c :: rest =>
    match last_colon rest with
    | some (before, behind) => some (c :: before, behind)
    | none => if c = colon then some ([], rest) else none

/-- `parse_wget_url` from the end of the scheme on. -/
def parse_authority (port : Nat) (p : Text) : Option (Text × Nat × Text) :=
  if p = [] then none
  else
    let authority := p.takeWhile (· != slash)
    let rest := p.dropWhile (· != slash)
    let (host, port) := match last_colon authority with
      | some (before, behind) => (copy_range_str 32 before, atoi16 (copy_range_str 8 behind))
      | none => (copy_range_str 32 authority, port)
    if host = [] then none else some (host, port, if rest = [] then ascii "/" else rest)

def parse_wget_url (url : Text) : Option (Text × Nat × Text) :=
  if ascii "http://" <+: url then parse_authority 80 (url.drop 7)
  else if ascii "https://" <+: url then parse_authority 443 (url.drop 8)
  else none

/-! ## What a URL says -/

structure Url where
  https : Bool
  host : Text
  port : Nat
  path : Text

def schemeText (https : Bool) : Text := if https then ascii "https://" else ascii "http://"

def defaultPort (https : Bool) : Nat := if https then 443 else 80

/-- The marks that end the authority. -/
def endsAuthority (c : UInt8) : Bool := c == slash || c == '?'.toUInt8 || c == '#'.toUInt8

def Digits (s : Text) : Prop := ∀ c ∈ s, ssh.isDigit c = true

/-- What stands before the port, with the user if there is one. It does not read as a host with a
port itself. -/
structure IsHost (host : Text) : Prop where
  ne_nil : host ≠ []
  plain : ∀ c ∈ host, endsAuthority c = false
  no_port : ∀ before behind, host = before ++ colon :: behind → ¬ Digits behind

/-- No port, or one without digits, is the port of the scheme. -/
def PortText (https : Bool) (t : Text) (port : Nat) : Prop :=
  (t = [] ∧ port = defaultPort https) ∨
    ∃ digits, t = colon :: digits ∧ Digits digits ∧
      port = if digits = [] then defaultPort https else decimal digits

/-- The path with the query, from its slash on. -/
def absolute (rest : Text) : Text := if rest.head? = some slash then rest else slash :: rest

def Denotes (s : Text) (u : Url) : Prop :=
  ∃ port rest, s = schemeText u.https ++ u.host ++ port ++ rest ∧ IsHost u.host ∧
    PortText u.https port u.port ∧ (∀ c ∈ rest.head?, endsAuthority c = true) ∧
    u.path = absolute rest

/-! ## What becomes of a URL -/

/-- The names that were looked up, newest first. -/
def World.asked (w : World) : List Text :=
  w.events.filterMap fun
    | .query _ name => some name
    | _ => none

structure Request.Wants (r : Request) (u : Url) : Prop where
  host : r.host.bytes = u.host
  path : r.path.bytes = u.path
  port : r.port = u.port
  use_tls : r.use_tls = u.https

section

variable [NetConfig]

/-- The job for a URL has its host and path in full, and its URL is written again. -/
structure JobRight (u : Url) (o : Oracle) (r : Request) : Prop where
  host : (r.job o).host = u.host
  path : (r.job o).path = u.path
  again : Denotes (r.job o).full_url u
  request : (r.job o).request = ascii "GET " ++ u.path ++ ascii " HTTP/1.0\r\nHost: " ++ u.host ++
    ascii "\r\nConnection: close\r\n\r\n"
  asked : ∀ w : World, (wget_queue_request_ex o w r).asked = w.asked ∨
    (wget_queue_request_ex o w r).asked = u.host :: w.asked

/-- The string `s` is taken for what it says. The path fits the buffer of the caller and that of
the job. -/
structure TakenAs (path_max : Nat) (s : Text) (u : Url) : Prop where
  denotes : Denotes s u
  port_min : 1 ≤ u.port
  port_max : u.port ≤ 65535
  path_caller : u.path.length < path_max
  path_job : u.path.length < WGET_PATH_MAX
  job : ∀ o r, r.Wants u → JobRight u o r

/-- A URL is rejected, or taken for what it says. -/
def UrlRight (path_max : Nat) (s : Text) : Prop :=
  ∀ host port path, parse_wget_url s = some (host, port, path) →
    ∃ https, TakenAs path_max s ⟨https, host, port, path⟩

end

/-! ## The marks in a URL -/

/-- A URL, divided by the last colon before the first slash, and by that slash. -/
structure Cut where
  https : Bool
  host : Text
  port : Option Text
  rest : Text

def portText : Option Text → Text
  | none => []
  | some p => colon :: p

structure Cut.Of (c : Cut) (s : Text) : Prop where
  eq : s = schemeText c.https ++ (c.host ++ portText c.port ++ c.rest)
  no_slash : slash ∉ c.host ++ portText c.port
  no_colon : c.port = none → colon ∉ c.host
  last : ∀ p ∈ c.port, colon ∉ p
  rest : ∀ x ∈ c.rest.head?, x = slash

/-- A port of one to seven digits, from 1 to 65535. -/
structure PortFits (p : Text) : Prop where
  ne_nil : p ≠ []
  digits : Digits p
  length : p.length ≤ 7
  min : 1 ≤ decimal p
  max : decimal p ≤ 65535

structure Cut.Fits (path_max : Nat) (c : Cut) : Prop where
  host : IsHost c.host
  host_short : c.host.length ≤ 19
  port : ∀ p ∈ c.port, PortFits p
  path_caller : (absolute c.rest).length < path_max
  path_job : (absolute c.rest).length < WGET_PATH_MAX

/-- Where the scheme is known and there is a host, host, port and path fit. -/
def UrlFits (path_max : Nat) (s : Text) : Prop :=
  ∀ c : Cut, c.Of s → c.host = [] ∨ c.Fits path_max

/-! ## The parser on a divided URL -/

variable {s : Text} {c : Cut} {u : Url}

theorem last_colon_none {a : Text} (h : colon ∉ a) : last_colon a = none := by
  induction a with
  | nil => rfl
  | cons x a ih =>
    rw [List.mem_cons, not_or] at h
    rw [last_colon, ih h.2]
    dsimp only
    rw [if_neg (Ne.symm h.1)]

theorem last_colon_append {b : Text} (a : Text) (h : colon ∉ b) :
    last_colon (a ++ colon :: b) = some (a, b) := by
  induction a with
  | nil => rw [List.nil_append, last_colon, last_colon_none h]; rfl
  | cons x a ih => rw [List.cons_append, last_colon, ih]

theorem exists_last_colon (a : Text) :
    ∃ (host : Text) (port : Option Text), a = host ++ portText port ∧
      (port = none → colon ∉ host) ∧ ∀ p ∈ port, colon ∉ p := by
  by_cases h : colon ∈ a
  · obtain ⟨behind, before, heq, hlast⟩ :=
      List.eq_append_cons_of_mem (List.mem_reverse.mpr h)
    refine ⟨before.reverse, some behind.reverse, ?_, fun hnone => (by cases hnone), ?_⟩
    · rw [← List.reverse_reverse a, heq]
      simp [portText]
    · rintro p ⟨⟩
      rwa [List.mem_reverse]
  · exact ⟨a, none, (List.append_nil a).symm, fun _ => h, fun p hp => nomatch hp⟩

theorem cut_at_rest {a rest : Text} (h : slash ∉ a) (hrest : ∀ x ∈ rest.head?, x = slash) :
    (a ++ rest).takeWhile (· != slash) = a ∧ (a ++ rest).dropWhile (· != slash) = rest := by
  cases rest with
  | nil =>
    rw [List.append_nil]
    exact cut_none h
  | cons x rest =>
    obtain rfl := hrest x rfl
    exact cut_at h rest

def Cut.portNumber (c : Cut) : Nat :=
  match c.port with
  | none => defaultPort c.https
  | some p => atoi16 (copy_range_str 8 p)

theorem scheme_ne (p q : Text) : schemeText false ++ p ≠ schemeText true ++ q := by
  intro h
  have hmark : (schemeText false ++ p)[4]? = (schemeText true ++ q)[4]? := by rw [h]
  exact absurd hmark (by simp [schemeText, ascii, fs.lit]; decide)

theorem schemeText_inj {a b : Bool} {p q : Text} (h : schemeText a ++ p = schemeText b ++ q) :
    a = b ∧ p = q := by
  cases a <;> cases b
  case false.true => exact absurd h (scheme_ne p q)
  case true.false => exact absurd h.symm (scheme_ne q p)
  all_goals exact ⟨rfl, List.append_cancel_left h⟩

theorem parse_scheme (https : Bool) (p : Text) :
    parse_wget_url (schemeText https ++ p) = parse_authority (defaultPort https) p := by
  cases https with
  | false =>
    have hprefix : ascii "http://" <+: schemeText false ++ p := List.prefix_append _ _
    rw [parse_wget_url, if_pos hprefix]
    rfl
  | true =>
    have hprefix : ascii "https://" <+: schemeText true ++ p := List.prefix_append _ _
    have hother : ¬ ascii "http://" <+: schemeText true ++ p := fun ⟨q, hq⟩ =>
      absurd (schemeText_inj (show schemeText false ++ q = schemeText true ++ p from hq)).1
        (by decide)
    rw [parse_wget_url, if_neg hother, if_pos hprefix]
    rfl

theorem parse_of_cut (h : c.Of s) : parse_wget_url s =
    if c.host = [] then none
    else some (copy_range_str 32 c.host, c.portNumber, absolute c.rest) := by
  obtain ⟨htake, hdrop⟩ := cut_at_rest h.no_slash h.rest
  have hpath : (if c.rest = [] then ascii "/" else c.rest) = absolute c.rest := by
    unfold absolute
    cases hrest : c.rest with
    | nil => rfl
    | cons x rest =>
      obtain rfl := h.rest x (by rw [hrest]; rfl)
      rfl
  have hcopy : copy_range_str 32 c.host = [] ↔ c.host = [] := by
    rw [copy_range_str, List.take_eq_nil_iff]
    simp
  have hsplit : (match last_colon (c.host ++ portText c.port) with
      | some (before, behind) => (copy_range_str 32 before, atoi16 (copy_range_str 8 behind))
      | none => (copy_range_str 32 (c.host ++ portText c.port), defaultPort c.https)) =
      (copy_range_str 32 c.host, c.portNumber) := by
    unfold portText Cut.portNumber
    cases hport : c.port with
    | none =>
      dsimp only
      rw [List.append_nil, last_colon_none (h.no_colon hport)]
    | some p =>
      dsimp only
      rw [last_colon_append _ (h.last p hport)]
  rw [h.eq, parse_scheme, parse_authority]
  dsimp only
  rw [htake, hdrop, hsplit]
  dsimp only
  rw [hpath]
  by_cases hnil : c.host ++ portText c.port ++ c.rest = []
  · rw [if_pos hnil, if_pos (List.append_eq_nil_iff.mp (List.append_eq_nil_iff.mp hnil).1).1]
  · rw [if_neg hnil]
    exact if_congr hcopy rfl rfl

theorem exists_cut (h : parse_wget_url s ≠ none) : ∃ c : Cut, c.Of s := by
  have hscheme : ∃ https p, s = schemeText https ++ p := by
    unfold parse_wget_url at h
    split at h
    case isTrue hprefix =>
      obtain ⟨p, hp⟩ := hprefix
      exact ⟨false, p, hp.symm⟩
    split at h
    case isTrue hprefix =>
      obtain ⟨p, hp⟩ := hprefix
      exact ⟨true, p, hp.symm⟩
    exact absurd rfl h
  obtain ⟨https, p, rfl⟩ := hscheme
  obtain ⟨host, port, heq, hnone, hlast⟩ := exists_last_colon (p.takeWhile (· != slash))
  refine ⟨⟨https, host, port, p.dropWhile (· != slash)⟩, ⟨?_, ?_, hnone, hlast, ?_⟩⟩
  · dsimp only
    rw [← heq, List.takeWhile_append_dropWhile]
  · dsimp only
    rw [← heq]
    intro hmem
    simpa using List.mem_takeWhile_imp hmem
  · intro x hx
    have hstop := List.head?_dropWhile_not (· != slash) p
    rw [Option.mem_def.mp hx] at hstop
    simpa using hstop

/-! ## One reading of a URL -/

theorem length_absolute_le (rest : Text) : (absolute rest).length ≤ rest.length + 1 := by
  unfold absolute
  split
  · exact Nat.le_succ _
  · exact le_of_eq List.length_cons

theorem head_absolute (rest : Text) : (absolute rest).head? = some slash := by
  unfold absolute
  split
  case isTrue h => exact h
  case isFalse => rfl

theorem digit_ne_slash {x : UInt8} (h : ssh.isDigit x = true) : x ≠ slash := by
  rintro rfl
  exact absurd h (by decide)

theorem portText_of_denotes (hc : c.Of s) (h : Denotes s u) (hhost : u.host = c.host)
    (hpath : u.path = absolute c.rest) :
    u.https = c.https ∧ PortText u.https (portText c.port) u.port := by
  obtain ⟨port, rest, heq, -, hport, hends, habs⟩ := h
  have hboth : schemeText u.https ++ (u.host ++ (port ++ rest)) =
      schemeText c.https ++ (c.host ++ (portText c.port ++ c.rest)) := by
    rw [← List.append_assoc c.host, ← hc.eq, heq]
    simp only [List.append_assoc]
  obtain ⟨hscheme, hbehind⟩ := schemeText_inj hboth
  rw [hhost] at hbehind
  have htail := List.append_cancel_left hbehind
  refine ⟨hscheme, ?_⟩
  have hmarks := hc.no_slash
  cases hp : c.port with
  | none =>
    rw [hp, portText, List.nil_append] at htail
    rcases hport with hport | ⟨digits, rfl, -, -⟩
    · exact .inl ⟨rfl, hport.2⟩
    · exact absurd (hc.rest colon (by rw [← htail]; rfl)) (by decide)
  | some p =>
    rw [hp, portText] at htail hmarks
    rcases hport with ⟨rfl, -⟩ | ⟨digits, rfl, hdigits, hvalue⟩
    · rw [List.nil_append] at htail
      exact absurd (hends colon (by rw [htail]; rfl)) (by decide)
    · rw [List.cons_append, List.cons_append, List.cons_inj_right,
        List.append_eq_append_iff] at htail
      have hslash : slash ∉ p := fun hmem =>
        hmarks (List.mem_append_right _ (List.mem_cons_of_mem _ hmem))
      rcases htail with ⟨more, rfl, rfl⟩ | ⟨more, rfl, hrest⟩
      · -- the path would be longer than what stands behind the slash
        cases more with
        | nil =>
          rw [List.append_nil]
          exact .inr ⟨digits, rfl, hdigits, hvalue⟩
        | cons x more =>
          have hx : x ≠ slash := fun heq =>
            hslash (heq ▸ List.mem_append_right _ List.mem_cons_self)
          have hlong := congrArg List.length (habs.symm.trans hpath)
          have hle := length_absolute_le c.rest
          rw [absolute, if_neg (by simpa using hx)] at hlong
          simp only [List.length_cons, List.length_append] at hlong
          omega
      · cases more with
        | nil =>
          rw [List.append_nil] at hdigits hvalue
          exact .inr ⟨p, rfl, hdigits, hvalue⟩
        | cons x more =>
          exact absurd (hc.rest x (by rw [hrest]; rfl))
            (digit_ne_slash (hdigits x (List.mem_append_right _ List.mem_cons_self)))

/-! ## Numbers -/

theorem le_foldl_decimal (digits : Text) (v : Nat) :
    v ≤ digits.foldl (fun v c => v * 10 + (c.toNat - 48)) v := by
  induction digits generalizing v with
  | nil => exact le_refl _
  | cons c digits ih => exact le_trans (by omega) (ih (v * 10 + (c.toNat - 48)))

theorem decimal_take_le {p : Text} {n : Nat} (h : n < p.length) :
    decimal (p.take n) * 10 ≤ decimal p := by
  have hsplit : p = p.take n ++ p[n] :: p.drop (n + 1) := by
    rw [← List.drop_eq_getElem_cons h, List.take_append_drop]
  conv_rhs => rw [hsplit, decimal, List.foldl_append, List.foldl_cons]
  refine le_trans ?_ (le_foldl_decimal _ _)
  exact Nat.le_add_right _ _

theorem portFits_iff {p : Text} {port : Nat} (hport : port = atoi16 (copy_range_str 8 p))
    (hmin : 1 ≤ port) (https : Bool) : PortText https (colon :: p) port ↔ PortFits p := by
  have hread : Digits p → port = decimal (p.take 7) % 2 ^ 16 := fun hdigits => by
    rw [hport]
    exact ssh.atoi16_digits fun c hc => hdigits c (List.mem_of_mem_take hc)
  constructor
  · rintro (⟨hnil, -⟩ | ⟨digits, heq, hdigits, hvalue⟩)
    · cases hnil
    · cases heq
      have hmod := hread hdigits
      have hne : p ≠ [] := by
        rintro rfl
        exact absurd hmin (by rw [hmod]; decide)
      rw [if_neg hne] at hvalue
      refine ⟨hne, hdigits, ?_, by omega, by omega⟩
      by_contra hlong
      have hle := decimal_take_le (n := 7) (p := p) (by omega)
      omega
  · rintro ⟨hne, hdigits, hlen, -, hmax⟩
    refine .inr ⟨p, rfl, hdigits, ?_⟩
    rw [if_neg hne, hread hdigits, List.take_of_length_le hlen, Nat.mod_eq_of_lt (by omega)]

/-! ## The job of a URL -/

section

variable [NetConfig]

theorem job_fields (r : Request) (o : Oracle) : (r.job o).host = copyName20 r.host.bytes ∧
    (r.job o).path = r.path.bytes ∧ (r.job o).use_tls = r.use_tls ∧
    (r.job o).port = if r.port = 0 then defaultPort r.use_tls else r.port := by
  unfold Request.job
  dsimp only
  split <;> exact ⟨rfl, rfl, rfl, rfl⟩

end

theorem lib_itoa_ne_nil (n : Nat) : lib_itoa n ≠ [] := by
  rw [ssh.lib_itoa_eq, Ne, List.map_eq_nil_iff]
  exact Nat.toDigits_ne_nil

theorem denotes_full_url {j : Job} (hhost : IsHost j.host) (hpath : j.path.head? = some slash) :
    Denotes j.full_url ⟨j.use_tls, j.host, j.port, j.path⟩ := by
  refine ⟨if j.port = defaultPort j.use_tls then [] else ascii ":" ++ lib_itoa j.port, j.path,
    rfl, hhost, ?_, ?_, ?_⟩
  · split
    case isTrue h => exact .inl ⟨rfl, h⟩
    case isFalse h =>
      refine .inr ⟨lib_itoa j.port, rfl, ssh.lib_itoa_digits _, ?_⟩
      rw [if_neg (lib_itoa_ne_nil _), ssh.decimal_lib_itoa]
  · intro x hx
    obtain rfl : slash = x := Option.some.inj (hpath.symm.trans hx)
    rfl
  · exact (if_pos hpath).symm

/-! ## The names that are looked up -/

variable {w : World}

theorem asked_finish (success : Bool) (msg : Option (List UInt8)) :
    (wget_finish w success msg).asked = w.asked := by
  unfold wget_finish
  dsimp only
  split
  · split
    · rfl
    · split <;> rfl
  · rfl

theorem asked_close (abort_conn : Bool) : (wget_close_pcb w abort_conn).asked = w.asked := by
  unfold wget_close_pcb
  split
  · rfl
  · dsimp only
    split <;> rfl

theorem asked_start (o : Oracle) (addr port : Nat) :
    (start_connection o w addr port).asked = w.asked := by
  unfold start_connection
  dsimp only
  split
  · exact asked_finish _ _
  · split
    · rw [asked_finish, asked_close]
      rfl
    · rfl

theorem asked_kick_connect (o : Oracle) : (kick_connect o w).asked = w.asked := by
  unfold kick_connect wget_start_with_addr wget_ensure_tls_allocator
  dsimp only
  split
  · exact asked_finish _ _
  split
  · rfl
  split
  · cases w.tls_conf || o.tls_config with
    | false => exact asked_finish _ _
    | true => exact asked_start _ _ _
  · exact asked_start _ _ _

theorem asked_kick (o : Oracle) : (wget_kick_if_needed o w).asked = w.asked ∨
    (wget_kick_if_needed o w).asked = w.job.host :: w.asked := by
  unfold wget_kick_if_needed
  dsimp only
  split
  · exact .inl rfl
  split
  · exact .inl (asked_kick_connect o)
  split
  · exact .inl rfl
  refine .inr ?_
  split
  · exact asked_kick_connect o
  · rfl
  · exact asked_finish _ _

/-! ## The URLs that are taken for what they say -/

section

variable [NetConfig] {path_max : Nat}

theorem job_right {o : Oracle} {r : Request} (hr : r.Wants u) (hhost : IsHost u.host)
    (hshort : u.host.length ≤ 19) (hport : 1 ≤ u.port) (hpath : u.path.head? = some slash) :
    JobRight u o r := by
  obtain ⟨hjhost, hjpath, hjtls, hjport⟩ := job_fields r o
  rw [hr.host, copyName20, List.take_of_length_le hshort] at hjhost
  rw [hr.path] at hjpath
  rw [hr.use_tls] at hjtls
  rw [hr.port, if_neg (by omega)] at hjport
  refine ⟨hjhost, hjpath, ?_, ?_, fun w => ?_⟩
  · have hagain := @denotes_full_url (r.job o) (hjhost ▸ hhost) (hjpath ▸ hpath)
    rwa [hjhost, hjpath, hjtls, hjport] at hagain
  · rw [Job.request, hjhost, hjpath]
  · rw [← hjhost]
    exact @asked_kick ({ w with job := r.job o }.log (.queued r.host.bytes)) o

theorem fits_of_right {url : CString} (hc : c.Of url.bytes) (hright : UrlRight path_max url.bytes)
    (hne : c.host ≠ []) : c.Fits path_max := by
  have hparse := parse_of_cut hc
  rw [if_neg hne] at hparse
  obtain ⟨https, htaken⟩ := hright _ _ _ hparse
  have hnul : 0 ∉ c.host ∧ 0 ∉ c.rest := by
    have hall := url.nul_free
    rw [hc.eq] at hall
    simp only [List.mem_append, not_or] at hall
    exact ⟨hall.2.1.1, hall.2.2⟩
  have hpath : 0 ∉ absolute c.rest := by
    unfold absolute
    split
    · exact hnul.2
    · exact fun hmem => (List.mem_cons.mp hmem).elim (by decide) hnul.2
  -- a request for it, to see what its job keeps of the host
  have hjob := htaken.job ⟨0, .fail, false, false, 0⟩ ⟨⟨copy_range_str 32 c.host,
    fun hmem => hnul.1 (List.mem_of_mem_take hmem)⟩, ⟨absolute c.rest, hpath⟩, ⟨[], by decide⟩,
    c.portNumber, https, false, 0, -1⟩ ⟨rfl, rfl, rfl, rfl⟩
  have hkept := hjob.host
  rw [(job_fields _ _).1] at hkept
  have hshort : c.host.length ≤ 19 := by
    have hlen := congrArg List.length hkept
    simp only [copyName20, copy_range_str, List.length_take] at hlen
    omega
  have hcopy : copy_range_str 32 c.host = c.host := List.take_of_length_le (by omega)
  obtain ⟨hdenotes, hmin, -, hcaller, hjobpath, -⟩ := htaken
  obtain ⟨-, hport⟩ := portText_of_denotes hc hdenotes hcopy rfl
  refine ⟨?_, hshort, fun p hp => ?_, hcaller, hjobpath⟩
  · obtain ⟨-, -, -, hhost, -⟩ := hdenotes
    rwa [hcopy] at hhost
  · rw [Option.mem_def.mp hp] at hport
    refine (portFits_iff ?_ hmin https).mp hport
    rw [Cut.portNumber, Option.mem_def.mp hp]

theorem right_of_fits (hc : c.Of s) (hfits : c.Fits path_max) :
    TakenAs path_max s ⟨c.https, c.host, c.portNumber, absolute c.rest⟩ := by
  have hport : PortText c.https (portText c.port) c.portNumber ∧ 1 ≤ c.portNumber ∧
      c.portNumber ≤ 65535 := by
    unfold Cut.portNumber
    cases hp : c.port with
    | none =>
      refine ⟨.inl ⟨rfl, rfl⟩, ?_⟩
      cases c.https
      · exact ⟨by decide, by decide⟩
      · exact ⟨by decide, by decide⟩
    | some p =>
      have hpfits := hfits.port p hp
      have hnumber : atoi16 (copy_range_str 8 p) = decimal p := by
        rw [copy_range_str, List.take_of_length_le hpfits.length, ssh.atoi16_digits hpfits.digits,
          Nat.mod_eq_of_lt (by have := hpfits.max; omega)]
      have hmin : 1 ≤ atoi16 (copy_range_str 8 p) := hnumber ▸ hpfits.min
      exact ⟨(portFits_iff rfl hmin c.https).mpr hpfits, hmin, le_of_eq_of_le hnumber hpfits.max⟩
  refine ⟨⟨portText c.port, c.rest, ?_, hfits.host, hport.1, ?_, rfl⟩, hport.2.1, hport.2.2,
    hfits.path_caller, hfits.path_job, fun o r hr => ?_⟩
  · rw [hc.eq]
    simp only [List.append_assoc]
  · intro x hx
    obtain rfl := hc.rest x hx
    rfl
  · exact job_right hr hfits.host hfits.host_short hport.2.1 (head_absolute _)

/-- A URL is rejected or taken for what it says exactly when it has no host, or its host, port and
path fit. -/
theorem url_right_iff (path_max : Nat) (url : CString) :
    UrlRight path_max url.bytes ↔ UrlFits path_max url.bytes := by
  constructor
  · intro hright c hc
    by_cases hne : c.host = []
    · exact .inl hne
    · exact .inr (fits_of_right hc hright hne)
  · intro hfits host port path hparse
    obtain ⟨c, hc⟩ := exists_cut (s := url.bytes) (by rw [hparse]; exact Option.some_ne_none _)
    have hcut := parse_of_cut hc
    rw [hparse] at hcut
    rcases hfits c hc with hnil | hfits
    · rw [if_pos hnil] at hcut
      cases hcut
    · rw [if_neg hfits.host.ne_nil] at hcut
      have hcopy : copy_range_str 32 c.host = c.host :=
        List.take_of_length_le (by have := hfits.host_short; omega)
      rw [hcopy] at hcut
      cases hcut
      exact ⟨c.https, right_of_fits hc hfits⟩

end

def longHost : CString := ⟨ascii "vibeos.example.internal", by decide⟩

/-- The job asks DNS and the server for `vibeos.example.inte`. -/
theorem long_host_cut :
    ¬ @UrlRight qemuNet 96 (ascii "http://" ++ longHost.bytes ++ ascii "/index.html") := by
  let _ := qemuNet
  intro h
  obtain ⟨https, htaken⟩ := h longHost.bytes 80 (ascii "/index.html") (by decide)
  have hjob := htaken.job ⟨0, .fail, false, false, 0⟩
    ⟨longHost, ⟨ascii "/index.html", by decide⟩, ⟨[], by decide⟩, 80, https, false, 0, -1⟩
    ⟨rfl, rfl, rfl, rfl⟩
  have hkept := hjob.host
  rw [(job_fields _ _).1] at hkept
  exact absurd (show copyName20 longHost.bytes = longHost.bytes from hkept) (by decide)

end vibeos.wget
