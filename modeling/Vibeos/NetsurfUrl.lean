-- The URLs of the browser: what netsurf_normalize_target_url of user_utils.c makes of the one that
-- the user enters, and the request to the proxy that carries it as its url= parameter.
import Vibeos.UrlParse

namespace vibeos.netsurf

open fs (CString cstr)
open ssh (Text isBlank Client)
open wget (ascii strstr lib_itoa WGET_PATH_MAX parse_wget_url)

/-! ## The code -/

def ns_is_unreserved (ch : UInt8) : Bool :=
  (65 ≤ ch && ch ≤ 90) || (97 ≤ ch && ch ≤ 122) || (48 ≤ ch && ch ≤ 57) ||
    ch == 45 || ch == 95 || ch == 46 || ch == 126

def ns_append_char (out_max : Nat) (out : Text) (ch : UInt8) : Option Text :=
  if out.length ≥ out_max - 1 then none else some (out ++ [ch])

def ns_append_str (out_max : Nat) (out s : Text) : Option Text :=
  s.foldlM (ns_append_char out_max) out

def ns_hex_val (ch : UInt8) : Option UInt8 :=
  if 48 ≤ ch ∧ ch ≤ 57 then some (ch - 48)
  else if 97 ≤ ch ∧ ch ≤ 102 then some (10 + (ch - 97))
  else if 65 ≤ ch ∧ ch ≤ 70 then some (10 + (ch - 65))
  else none

/-- The loop of `ns_percent_decode`. The number is the room that is left. -/
def decode_loop : Nat → Text → Text
  | 0, _ => []
  | _, [] => []
  | room + 1, c :: rest =>
    let plain := if c = 43 then 32 else c
    match c, rest with
    | 37, a :: b :: rest' =>
      match ns_hex_val a, ns_hex_val b with
      | some hi, some lo => (hi <<< 4 ||| lo) :: decode_loop room rest'
      | _, _ => plain :: decode_loop room rest
    | _, _ => plain :: decode_loop room rest

def ns_percent_decode (src : Text) (dst_max : Nat) : Text := decode_loop (dst_max - 1) src

def scheme_loop : Text → Option Text
  | [] => none
  | c :: p =>
    if ascii "http://" <+: c :: p ∨ ascii "https://" <+: c :: p then some (c :: p)
    else scheme_loop p

/-- The addresses that are taken as they are. -/
def own_marks : List Text := [ascii "m=ismap", ascii "/map/", ascii "/img/"]

def ends_url (c : UInt8) : Bool := c == 10 || c == 13 || c == 38

def netsurf_normalize_target_url (src : Text) (dst_max : Nat) : Text :=
  if own_marks.any fun mark => (strstr mark src).isSome then src.take (dst_max - 1)
  else
    let p := src.dropWhile isBlank
    match strstr (ascii "url=") p with
    | some q =>
      let q := (q.drop 4).dropWhile isBlank
      let encoded := (q.takeWhile fun c => !ends_url c).take 255
      cstr (ns_percent_decode encoded dst_max)
    | none =>
      let p := ((scheme_loop p).getD src).dropWhile isBlank
      ((p.takeWhile fun c => !ends_url c).filter fun c => 32 ≤ c && c < 128).take (dst_max - 1)

def hex (n : UInt8) : UInt8 := (ascii "0123456789ABCDEF").getD n.toNat 0

def ns_append_encoded (out_max : Nat) (out s : Text) : Option Text :=
  s.foldlM
    (fun out ch =>
      if ns_is_unreserved ch then ns_append_char out_max out ch
      else do
        let out ← ns_append_char out_max out 37
        let out ← ns_append_char out_max out (hex (ch >>> 4 &&& 0xF))
        ns_append_char out_max out (hex (ch &&& 0xF)))
    out

def append_viewport (out_max : Nat) (out : Text) (viewport_w viewport_h : Int) : Option Text :=
  if viewport_w > 0 ∧ viewport_h > 0 then do
    let out ← ns_append_str out_max out (ascii "w=")
    let out ← ns_append_str out_max out (lib_itoa viewport_w.toNat)
    let out ← ns_append_str out_max out (ascii "&h=")
    ns_append_str out_max out (lib_itoa viewport_h.toNat)
  else some out

/-- The two builders end alike: the query, from its separator on. -/
def append_query (out_max : Nat) (out : Text) (viewport_w viewport_h : Int) (url : Text) :
    Option Text := do
  let sep :=
    if 63 ∈ out then ascii "&m=ismap&t=gip&"
    else if out.getLast? = some 47 then ascii "?m=ismap&t=gip&"
    else ascii "/?m=ismap&t=gip&"
  let out ← ns_append_str out_max out sep
  let out ← append_viewport out_max out viewport_w viewport_h
  let out ← ns_append_str out_max out (ascii "&url=")
  ns_append_encoded out_max out url

def ns_trimmed (s : Text) : Text := (s.reverse.dropWhile (· == 47)).reverse

def ns_url_is_wrp_base (url base : Text) : Bool :=
  let ul := (ns_trimmed url).length
  let bl := (ns_trimmed base).length
  if ul = 0 ∨ bl = 0 then false
  else if ul < bl then false
  else if url.take bl ≠ base.take bl then false
  else if ul = bl then true
  else url.getD bl 0 == 47 || url.getD bl 0 == 63 || url.getD bl 0 == 35 || url.getD bl 0 == 38

def SSH_DEFAULT_WRP_URL : Text := ascii "http://192.168.123.100:9999"

def ssh_client_get_wrp_url (s : Client) : Text :=
  if s.ssh_wrp_url = [] then SSH_DEFAULT_WRP_URL else s.ssh_wrp_url

def wrp_norm (wrp_base : Text) : Text :=
  if ascii "https://" <+: wrp_base then ascii "http://" ++ wrp_base.drop 8
  else if ascii "http://" <+: wrp_base then wrp_base
  else ascii "http://" ++ wrp_base

def netsurf_prepare_launch_url (s : Client) (url : Text) (viewport_w viewport_h : Int)
    (out_max : Nat) : Option Text :=
  let url := netsurf_normalize_target_url url 256
  if url = [] then none
  else
    let norm := wrp_norm (ssh_client_get_wrp_url s)
    if ns_url_is_wrp_base url norm then some url
    else if ¬ ascii "http://" <+: url ∧ ¬ ascii "https://" <+: url then some url
    else append_query out_max norm viewport_w viewport_h url

/-- `netsurf_queue_wrapped_request`, as far as the host, the port and the path that it queues. -/
def netsurf_queue_wrapped_request (s : Client) (url : Text) (viewport_w viewport_h : Int) :
    Option (Text × Nat × Text) := do
  let url := netsurf_normalize_target_url url 256
  if url = [] then none
  else
    let (host, port, base_path) ← parse_wget_url (wrp_norm (ssh_client_get_wrp_url s))
    let req_path ← append_query WGET_PATH_MAX base_path viewport_w viewport_h url
    some (host, port, req_path)

/-- What a navigation leaves in the window, and the path that it queues. -/
structure Navigation where
  ns_target_url : Text
  ns_url : Text
  req_path : Text

def ns_start_document_navigation (s : Client) (url : Text) (vw vh : Int) : Option Navigation := do
  let clean_url := netsurf_normalize_target_url url 256
  if clean_url = [] then none
  else
    let launch_url ← netsurf_prepare_launch_url s clean_url vw vh 512
    let (_, _, req_path) ← netsurf_queue_wrapped_request s clean_url vw vh
    some ⟨clean_url, launch_url, req_path⟩

/-! ## What the request is for -/

/-- The last parameter of the query is `url`, and its value is decoded to `u`. -/
def Carries (path u : Text) : Prop :=
  ∃ before v, path = before ++ ascii "&url=" ++ v ∧ 38 ∉ v ∧
    ns_percent_decode v (v.length + 1) = u

/-- The request is for the URL that was entered. The window's two addresses agree: one is the other
or carries it. -/
structure Navigation.Right (n : Navigation) (u : Text) : Prop where
  request : Carries n.req_path u
  agree : n.ns_url = n.ns_target_url ∨ Carries n.ns_url n.ns_target_url

/-- The URL fits `clean_url`, and it is one that is taken as it is or has none of the bytes that
are cut or left out, and no `url=`. -/
def Sent (u : Text) : Prop :=
  u.length ≤ 255 ∧ ((∃ mark ∈ own_marks, mark <:+: u) ∨
    (¬ ascii "url=" <:+: u ∧ ∀ c ∈ u, 32 ≤ c ∧ c < 128 ∧ c ≠ 38))

/-! ## Encoding and decoding -/

def encoded (ch : UInt8) : Text :=
  if ns_is_unreserved ch then [ch] else [37, hex (ch >>> 4 &&& 0xF), hex (ch &&& 0xF)]

theorem ns_append_char_some {out_max : Nat} {out e : Text} {ch : UInt8}
    (h : ns_append_char out_max out ch = some e) : e = out ++ [ch] := by
  unfold ns_append_char at h
  split at h
  · cases h
  · exact (Option.some.inj h).symm

theorem ns_append_str_some {out_max : Nat} {out s e : Text}
    (h : ns_append_str out_max out s = some e) : e = out ++ s := by
  unfold ns_append_str at h
  induction s generalizing out with
  | nil => simpa using h.symm
  | cons c s ih =>
    rw [List.foldlM_cons] at h
    obtain ⟨out', hout, h⟩ := Option.bind_eq_some_iff.mp h
    rw [ih h, ns_append_char_some hout]
    simp

theorem ns_append_encoded_some {out_max : Nat} {out s e : Text}
    (h : ns_append_encoded out_max out s = some e) : e = out ++ s.flatMap encoded := by
  unfold ns_append_encoded at h
  induction s generalizing out with
  | nil => simpa using h.symm
  | cons c s ih =>
    rw [List.foldlM_cons] at h
    obtain ⟨out', hout, h⟩ := Option.bind_eq_some_iff.mp h
    have hone : out' = out ++ encoded c := by
      unfold encoded
      split at hout
      · rename_i hplain
        rw [if_pos hplain, ns_append_char_some hout]
      · rename_i hplain
        obtain ⟨out₁, h₁, hout⟩ := Option.bind_eq_some_iff.mp hout
        obtain ⟨out₂, h₂, hout⟩ := Option.bind_eq_some_iff.mp hout
        rw [if_neg hplain, ns_append_char_some hout, ns_append_char_some h₂,
          ns_append_char_some h₁]
        simp
    rw [ih h, hone]
    simp

theorem encoded_byte : ∀ n : Fin 256,
    (ns_is_unreserved (UInt8.ofNat n) = true → UInt8.ofNat n ≠ 37 ∧ UInt8.ofNat n ≠ 43) ∧
      38 ∉ encoded (UInt8.ofNat n) ∧
      ns_hex_val (hex (UInt8.ofNat n >>> 4 &&& 0xF)) = some (UInt8.ofNat n >>> 4 &&& 0xF) ∧
      ns_hex_val (hex (UInt8.ofNat n &&& 0xF)) = some (UInt8.ofNat n &&& 0xF) ∧
      ((UInt8.ofNat n >>> 4 &&& 0xF) <<< 4 ||| (UInt8.ofNat n &&& 0xF)) = UInt8.ofNat n := by
  decide +kernel

theorem decode_encoded (room : Nat) (s : Text) :
    decode_loop room (s.flatMap encoded) = s.take room := by
  induction s generalizing room with
  | nil => cases room <;> rfl
  | cons c s ih =>
    cases room with
    | zero => rfl
    | succ room =>
      have hbyte := encoded_byte ⟨c.toNat, c.toNat_lt⟩
      simp only [UInt8.ofNat_toNat] at hbyte
      obtain ⟨hplain, -, hhi, hlo, hboth⟩ := hbyte
      rw [List.flatMap_cons, List.take_succ_cons]
      by_cases hun : ns_is_unreserved c = true
      · obtain ⟨h37, h43⟩ := hplain hun
        have hself : encoded c = [c] := if_pos hun
        simp [hself, decode_loop, h37, h43, ih]
      · have hthree : encoded c = [37, hex (c >>> 4 &&& 0xF), hex (c &&& 0xF)] := if_neg hun
        simp [hthree, decode_loop, hhi, hlo, hboth, ih]

theorem percent_decode_encoded {dst_max : Nat} {s : Text} (h : s.length < dst_max) :
    ns_percent_decode (s.flatMap encoded) dst_max = s := by
  unfold ns_percent_decode
  rw [decode_encoded, List.take_of_length_le (by omega)]

theorem encoded_no_mark (s : Text) : 38 ∉ s.flatMap encoded := by
  intro h
  obtain ⟨c, -, hc⟩ := List.mem_flatMap.mp h
  have hbyte := (encoded_byte ⟨c.toNat, c.toNat_lt⟩).2.1
  simp only [UInt8.ofNat_toNat] at hbyte
  exact hbyte hc

theorem length_encoded_le (s : Text) : s.length ≤ (s.flatMap encoded).length := by
  induction s with
  | nil => exact le_rfl
  | cons c s ih =>
    have hone : 1 ≤ (encoded c).length := by
      unfold encoded
      split <;> simp
    rw [List.flatMap_cons, List.length_append, List.length_cons]
    omega

theorem behind_last_mark {a : UInt8} {x y v w : Text} (hv : a ∉ v) (hw : a ∉ w)
    (h : x ++ a :: v = y ++ a :: w) : v = w := by
  have hrev := congrArg List.reverse h
  simp only [List.reverse_append, List.reverse_cons, List.append_assoc, List.singleton_append]
    at hrev
  have hfirst := (ssh.cut_at (a := v.reverse) (by simpa using hv) x.reverse).1
  rw [hrev, (ssh.cut_at (a := w.reverse) (by simpa using hw) y.reverse).1] at hfirst
  exact (List.reverse_injective hfirst).symm

theorem carries_iff (before s u : Text) :
    Carries (before ++ ascii "&url=" ++ s.flatMap encoded) u ↔ s = u := by
  constructor
  · rintro ⟨before', v, heq, hv, hdecode⟩
    have hmark : ascii "&url=" = 38 :: ascii "url=" := rfl
    have hname : 38 ∉ ascii "url=" := by decide
    rw [hmark, List.append_assoc, List.append_assoc, List.cons_append, List.cons_append] at heq
    have hparam := behind_last_mark
      (by rw [List.mem_append]; exact fun h => h.elim hname (encoded_no_mark s))
      (by rw [List.mem_append]; exact fun h => h.elim hname hv) heq
    rw [← hdecode, ← List.append_cancel_left hparam]
    exact (percent_decode_encoded (Nat.lt_succ_of_le (length_encoded_le s))).symm
  · rintro rfl
    exact ⟨before, s.flatMap encoded, rfl, encoded_no_mark s,
      percent_decode_encoded (Nat.lt_succ_of_le (length_encoded_le s))⟩

theorem append_query_some {out_max : Nat} {out url e : Text} {w h : Int}
    (hq : append_query out_max out w h url = some e) :
    ∃ before, e = before ++ ascii "&url=" ++ url.flatMap encoded := by
  unfold append_query at hq
  obtain ⟨out₁, -, hq⟩ := Option.bind_eq_some_iff.mp hq
  obtain ⟨out₂, -, hq⟩ := Option.bind_eq_some_iff.mp hq
  obtain ⟨out₃, hurl, hq⟩ := Option.bind_eq_some_iff.mp hq
  exact ⟨out₂, by rw [ns_append_encoded_some hq, ns_append_str_some hurl]⟩

/-! ## What the address is cut to -/

theorem strstr_isSome {needle s : Text} :
    (strstr needle s).isSome = true ↔ needle <:+: s := by
  induction s with
  | nil =>
    unfold strstr
    split <;> simp_all
  | cons c rest ih =>
    unfold strstr
    rw [List.infix_cons_iff]
    split
    · rename_i h
      simp [h]
    · rename_i h
      simp [h, ih]

theorem strstr_suffix {needle s q : Text} (h : strstr needle s = some q) :
    q <:+ s ∧ needle <+: q := by
  induction s with
  | nil =>
    unfold strstr at h
    split at h
    · rename_i hnil
      cases h
      simp [hnil]
    · cases h
  | cons c rest ih =>
    unfold strstr at h
    split at h
    · rename_i hpre
      cases h
      exact ⟨List.suffix_rfl, hpre⟩
    · exact ⟨(ih h).1.trans (List.suffix_cons c rest), (ih h).2⟩

theorem scheme_loop_suffix {s p : Text} (h : scheme_loop s = some p) : p <:+ s := by
  induction s with
  | nil => cases h
  | cons c rest ih =>
    unfold scheme_loop at h
    split at h
    · cases h
      exact List.suffix_rfl
    · exact (ih h).trans (List.suffix_cons c rest)

theorem length_decode_loop_le (room : Nat) (s : Text) :
    (decode_loop room s).length ≤ s.length := by
  induction room, s using decode_loop.induct with
  | case1 => simp [decode_loop]
  | _ => simp_all [decode_loop] <;> omega

theorem param_shorter {src q : Text} (hq : strstr (ascii "url=") src = some q) (dst_max : Nat) :
    (cstr (ns_percent_decode
      ((((q.drop 4).dropWhile isBlank).takeWhile fun c => !ends_url c).take 255) dst_max)).length <
        src.length := by
  obtain ⟨hsuffix, hname⟩ := strstr_suffix hq
  have hsrc := hsuffix.length_le
  have hfour : 4 ≤ q.length := hname.length_le
  generalize hvalue : (q.drop 4).dropWhile isBlank = value
  have hdrop : value.length ≤ q.length - 4 := by
    rw [← hvalue, ← List.length_drop]
    exact (List.dropWhile_suffix isBlank).length_le
  calc
    _ ≤ (ns_percent_decode ((value.takeWhile fun c => !ends_url c).take 255) dst_max).length :=
      (List.takeWhile_prefix (· != 0)).length_le
    _ ≤ ((value.takeWhile fun c => !ends_url c).take 255).length := length_decode_loop_le _ _
    _ ≤ (value.takeWhile fun c => !ends_url c).length := List.length_take_le' _ _
    _ ≤ value.length := (List.takeWhile_prefix _).length_le
    _ < src.length := by omega

theorem normalize_part (src : Text) (dst_max : Nat) :
    (netsurf_normalize_target_url src dst_max).Sublist src ∨
      (netsurf_normalize_target_url src dst_max).length < src.length := by
  have hblank := List.dropWhile_suffix (l := src) isBlank
  unfold netsurf_normalize_target_url
  split
  · exact .inl (List.take_sublist _ _)
  · dsimp only
    split
    · rename_i q hq
      exact .inr ((param_shorter hq dst_max).trans_le hblank.length_le)
    · left
      have hstart : (((scheme_loop (src.dropWhile isBlank)).getD src).dropWhile isBlank) <:+ src := by
        refine (List.dropWhile_suffix isBlank).trans ?_
        cases hscheme : scheme_loop (src.dropWhile isBlank) with
        | none => exact List.suffix_rfl
        | some p => exact (scheme_loop_suffix hscheme).trans hblank
      exact (List.take_sublist _ _).trans (List.filter_sublist.trans
        ((List.takeWhile_prefix _).sublist.trans hstart.sublist))

theorem normalize_twice {src : Text} {dst_max : Nat}
    (h : netsurf_normalize_target_url (netsurf_normalize_target_url src dst_max) dst_max = src) :
    netsurf_normalize_target_url src dst_max = src := by
  have hle (s : Text) : (netsurf_normalize_target_url s dst_max).length ≤ s.length := by
    rcases normalize_part s dst_max with hsub | hlt
    · exact hsub.length_le
    · exact hlt.le
  have hlength : (netsurf_normalize_target_url src dst_max).length = src.length := by
    have hagain := hle (netsurf_normalize_target_url src dst_max)
    rw [h] at hagain
    exact (hle src).antisymm hagain
  rcases normalize_part src dst_max with hsub | hlt
  · exact hsub.eq_of_length hlength
  · omega

def IsHttp (u : Text) : Prop := ascii "http://" <+: u ∨ ascii "https://" <+: u

theorem IsHttp.start {u : Text} (hu : IsHttp u) :
    u.dropWhile isBlank = u ∧ scheme_loop u = some u := by
  have hcons : ∃ rest, u = 104 :: rest := by
    rcases hu with ⟨rest, rfl⟩ | ⟨rest, rfl⟩ <;> exact ⟨_, rfl⟩
  obtain ⟨rest, rfl⟩ := hcons
  constructor
  · simp [isBlank]
  · unfold scheme_loop
    exact if_pos hu

theorem copy_eq_iff (u : Text) (n : Nat) :
    ((u.takeWhile fun c => !ends_url c).filter fun c => 32 ≤ c && c < 128).take n = u ↔
      u.length ≤ n ∧ ∀ c ∈ u, 32 ≤ c ∧ c < 128 ∧ c ≠ 38 := by
  have hfront := List.takeWhile_prefix (l := u) fun c => !ends_url c
  constructor
  · intro h
    have hlength := congrArg List.length h
    rw [List.length_take] at hlength
    have hfilter := (List.filter_sublist (p := fun c : UInt8 => 32 ≤ c && c < 128)
      (l := u.takeWhile fun c => !ends_url c)).length_le
    have hall := hfront.eq_of_length (hfront.length_le.antisymm (by omega))
    rw [hall] at hfilter hlength h
    have hself := (List.filter_sublist (p := fun c : UInt8 => 32 ≤ c && c < 128)
      (l := u)).eq_of_length (hfilter.antisymm (by omega))
    refine ⟨by omega, fun c hc => ?_⟩
    have hplain := List.filter_eq_self.mp hself c hc
    have hends := List.takeWhile_eq_self_iff.mp hall c hc
    simp only [ends_url, Bool.and_eq_true, decide_eq_true_eq, Bool.not_eq_true',
      Bool.or_eq_false_iff, beq_eq_false_iff_ne] at hplain hends
    exact ⟨hplain.1, hplain.2, hends.2⟩
  · rintro ⟨hlength, hplain⟩
    have hall : (u.takeWhile fun c => !ends_url c) = u := by
      refine List.takeWhile_eq_self_iff.mpr fun c hc => ?_
      obtain ⟨h32, -, h38⟩ := hplain c hc
      have h10 : c ≠ 10 := by
        rintro rfl
        exact absurd h32 (by decide)
      have h13 : c ≠ 13 := by
        rintro rfl
        exact absurd h32 (by decide)
      simp [ends_url, h10, h13, h38]
    have hself : (u.filter fun c => 32 ≤ c && c < 128) = u := by
      refine List.filter_eq_self.mpr fun c hc => ?_
      obtain ⟨h32, h128, -⟩ := hplain c hc
      simp [h32, h128]
    rw [hall, hself, List.take_of_length_le hlength]

theorem normalize_eq_iff {u : Text} (hu : IsHttp u) :
    netsurf_normalize_target_url u 256 = u ↔ Sent u := by
  obtain ⟨hblank, hscheme⟩ := hu.start
  unfold netsurf_normalize_target_url Sent
  simp only [List.any_eq_true, strstr_isSome, hblank, hscheme, Option.getD_some]
  split
  · rename_i hown
    simp [hown]
  · rename_i hown
    split
    · rename_i q hq
      have hshort := param_shorter hq 256
      have hname : ascii "url=" <:+: u := strstr_isSome.mp (by rw [hq]; rfl)
      refine iff_of_false (fun heq => ?_) (fun h => ?_)
      · rw [heq] at hshort
        omega
      · rcases h.2 with hmark | hplain
        · exact hown hmark
        · exact hplain.1 hname
    · rename_i hq
      have hname : ¬ ascii "url=" <:+: u := by
        rw [← strstr_isSome, hq]
        simp
      rw [copy_eq_iff]
      simp [hown, hname]

/-! ## Navigations -/

section

variable {s : Client} {url : Text} {vw vh : Int} {n : Navigation}

/-- The request carries the address as `netsurf_queue_wrapped_request` has normalized it again, and
so does the launch URL unless it is that address. -/
theorem navigation_some (h : ns_start_document_navigation s url vw vh = some n) :
    let clean := netsurf_normalize_target_url url 256
    let again := netsurf_normalize_target_url clean 256
    n.ns_target_url = clean ∧
      (∃ before, n.req_path = before ++ ascii "&url=" ++ again.flatMap encoded) ∧
        (n.ns_url = again ∨ ∃ before, n.ns_url = before ++ ascii "&url=" ++ again.flatMap encoded) := by
  unfold ns_start_document_navigation at h
  dsimp only at h ⊢
  split at h
  · cases h
  · obtain ⟨launch, hlaunch, h⟩ := Option.bind_eq_some_iff.mp h
    obtain ⟨⟨host, port, path⟩, hqueue, h⟩ := Option.bind_eq_some_iff.mp h
    cases h
    refine ⟨rfl, ?_, ?_⟩
    · unfold netsurf_queue_wrapped_request at hqueue
      dsimp only at hqueue
      split at hqueue
      · cases hqueue
      · obtain ⟨⟨host', port', base⟩, -, hqueue⟩ := Option.bind_eq_some_iff.mp hqueue
        obtain ⟨path', hquery, hqueue⟩ := Option.bind_eq_some_iff.mp hqueue
        cases hqueue
        exact append_query_some hquery
    · unfold netsurf_prepare_launch_url at hlaunch
      dsimp only at hlaunch
      split_ifs at hlaunch
      · exact .inl (Option.some.inj hlaunch).symm
      · exact .inl (Option.some.inj hlaunch).symm
      · exact .inr (append_query_some hlaunch)

end

/-- What `ns_append_encoded` writes is decoded to what it was given, where both fit, and the
request for a URL carries it exactly where normalizing leaves it as it is. -/
theorem request_right_iff (s : Client) (url : CString) (vw vh : Int) :
    (∀ (out_max dst_max : Nat) (t : CString) (e : Text),
      ns_append_encoded out_max [] t.bytes = some e → t.bytes.length < dst_max →
        ns_percent_decode e dst_max = t.bytes) ∧
    ∀ n : Navigation, IsHttp url.bytes →
      ns_start_document_navigation s url.bytes vw vh = some n →
        (n.Right url.bytes ↔ Sent url.bytes) := by
  constructor
  · intro out_max dst_max t e he hlength
    rw [ns_append_encoded_some he, List.nil_append]
    exact percent_decode_encoded hlength
  · intro n hu hnav
    obtain ⟨htarget, ⟨before, hpath⟩, hlaunch⟩ := navigation_some hnav
    rw [← normalize_eq_iff hu]
    constructor
    · rintro ⟨hrequest, -⟩
      rw [hpath, carries_iff] at hrequest
      exact normalize_twice hrequest
    · intro hsame
      rw [hsame, hsame] at hpath hlaunch
      rw [hsame] at htarget
      constructor
      · rw [hpath, carries_iff]
      · rw [htarget]
        rcases hlaunch with hlaunch | ⟨before', hlaunch⟩
        · exact .inl hlaunch
        · rw [hlaunch, carries_iff]
          exact .inr rfl

/-- A URL with each mark but the ampersand. -/
def marked : CString := ⟨ascii "http://a/?x=50%25+1#y", by decide⟩

theorem marked_sent : ∃ n, ns_start_document_navigation .reset marked.bytes 340 340 = some n ∧
    n.Right marked.bytes ∧ ns_percent_decode (ascii "a%26b") 4 = ascii "a&b" := by
  have hsome : (ns_start_document_navigation .reset marked.bytes 340 340).isSome = true := by
    decide +kernel
  obtain ⟨n, hn⟩ := Option.isSome_iff_exists.mp hsome
  have hright := request_right_iff .reset marked 340 340
  refine ⟨n, hn, (hright.2 n ?_ hn).mpr ?_, ?_⟩
  · exact .inl (by decide)
  · exact ⟨by decide, .inr ⟨by decide, by decide +kernel⟩⟩
  · exact hright.1 16 4 ⟨ascii "a&b", by decide⟩ (ascii "a%26b") (by decide) (by decide)

/-- The request for `http://a/?x=1&y=2` is one for `http://a/?x=1`. -/
theorem ampersand_cut :
    ∃ n, ns_start_document_navigation .reset (ascii "http://a/?x=1&y=2") 340 340 = some n ∧
      ¬ n.Right (ascii "http://a/?x=1&y=2") := by
  have hsome : (ns_start_document_navigation .reset (ascii "http://a/?x=1&y=2") 340 340).isSome =
      true := by
    decide +kernel
  obtain ⟨n, hn⟩ := Option.isSome_iff_exists.mp hsome
  refine ⟨n, hn, fun hright => ?_⟩
  obtain ⟨-, ⟨before, hpath⟩, -⟩ := navigation_some hn
  have hrequest := hright.request
  rw [hpath, carries_iff] at hrequest
  revert hrequest
  decide +kernel

end vibeos.netsurf
