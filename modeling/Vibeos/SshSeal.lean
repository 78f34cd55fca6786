-- A sealed password comes back from the profile if its line fits into the line buffer of the
-- loader: that is so for passwords of at most 41 bytes.
import Vibeos.SshBoot

namespace vibeos.ssh

open fs (cstr cstr_eq_self)
open wget (ascii)

/-! ## The code of a password -/

theorem forall_byte {P : UInt8 → Prop} (h : ∀ n : Fin 256, P (UInt8.ofNat n)) (b : UInt8) : P b := by
  have hb := h ⟨b.toNat, UInt8.toNat_lt b⟩
  rwa [UInt8.ofNat_toNat] at hb

theorem hex_val_hex (b : UInt8) :
    sshboot_hex_val (hex ((b >>> 4) &&& 15)) = (b >>> 4) &&& 15 ∧
      sshboot_hex_val (hex (b &&& 15)) = b &&& 15 ∧
      ¬ ((b >>> 4) &&& 15 > 15 ∨ b &&& 15 > 15) ∧
      (((b >>> 4) &&& 15) <<< 4) ||| (b &&& 15) = b := by
  revert b
  exact forall_byte (by decide +kernel)

theorem plain_of_hex (c : UInt8) :
    sshboot_hex_val c ≤ 15 → c ≠ 0 ∧ c ≠ 10 ∧ isTrailing c = false := by
  revert c
  exact forall_byte (by decide +kernel)

theorem length_obfuscate_loop (state : UInt32) (pw : Text) :
    (obfuscate_loop state pw).length = 2 * pw.length := by
  induction pw generalizing state with
  | nil => rfl
  | cons c pw ih =>
    simp only [obfuscate_loop, List.length_cons, ih]
    omega

theorem hex_of_mem_obfuscate_loop {state : UInt32} {pw : Text} {c : UInt8}
    (h : c ∈ obfuscate_loop state pw) : sshboot_hex_val c ≤ 15 := by
  induction pw generalizing state with
  | nil => cases h
  | cons b pw ih =>
    obtain ⟨hhi, hlo, hle, -⟩ := hex_val_hex (b ^^^ keyByte (sshboot_keystream_next state))
    rw [not_or] at hle
    rw [obfuscate_loop] at h
    rcases List.mem_cons.mp h with rfl | h
    · rw [hhi]
      exact UInt8.not_lt.mp hle.1
    · rcases List.mem_cons.mp h with rfl | h
      · rw [hlo]
        exact UInt8.not_lt.mp hle.2
      · exact ih h

theorem deobfuscate_obfuscate_loop (state : UInt32) (pw : Text) :
    deobfuscate_loop state (obfuscate_loop state pw) = some pw := by
  induction pw generalizing state with
  | nil => rfl
  | cons c pw ih =>
    obtain ⟨hhi, hlo, hle, hjoin⟩ := hex_val_hex (c ^^^ keyByte (sshboot_keystream_next state))
    rw [obfuscate_loop]
    simp only [deobfuscate_loop, hhi, hlo, if_neg hle, ih, hjoin]
    rw [Option.map_some, UInt8.xor_assoc, UInt8.xor_self, UInt8.xor_zero]

theorem obfuscate_eq_some {pw enc : Text} (h : sshboot_password_obfuscate pw 160 = some enc) :
    0 < pw.length ∧ pw.length ≤ 78 ∧ enc = ascii "v1:" ++ obfuscate_loop seed pw := by
  rw [sshboot_password_obfuscate, if_neg (by decide)] at h
  split at h
  · cases h
  · next hlen =>
    exact ⟨by omega, by omega, (Option.some.inj h).symm⟩

theorem behindPrefix_append (p l : Text) : behindPrefix p (p ++ l) = some l := by
  rw [behindPrefix, if_pos (by simp), List.drop_left]

theorem deobfuscate_obfuscate {pw : Text} (hpos : 0 < pw.length) (hlen : pw.length < 64)
    (h0 : 0 ∉ pw) :
    sshboot_password_deobfuscate (ascii "v1:" ++ obfuscate_loop seed pw) 64 = some pw := by
  have hloop := length_obfuscate_loop seed pw
  have hcstr : cstr pw = pw := cstr_eq_self h0
  rw [sshboot_password_deobfuscate, if_neg (by decide), behindPrefix_append, Option.getD_some]
  simp only [hloop]
  rw [if_neg (by omega), deobfuscate_obfuscate_loop, Option.map_some, hcstr]

theorem deobfuscate_odd {body : Text} (hodd : body.length % 2 ≠ 0) (out_max : Nat) :
    sshboot_password_deobfuscate (ascii "v1:" ++ body) out_max = none := by
  rw [sshboot_password_deobfuscate, behindPrefix_append, Option.getD_some]
  split
  · rfl
  · exact if_pos (Or.inr (Or.inl hodd))

/-! ## Lines -/

theorem load_lines_append (s : Client) (a b : Text) :
    load_lines s (a ++ 10 :: b) = load_lines (load_lines s a) b := by
  rw [load_lines, List.splitOn_append_cons_self, List.foldl_append]
  rfl

theorem load_lines_line (s : Client) {a : Text} (h : 10 ∉ a) :
    load_lines s a = terminal_apply_sshboot_line s (cstr (a.take (COLS - 1))) := by
  rw [load_lines, List.splitOn_eq_singleton h]
  rfl

theorem rdropWhile_append_cons {p : UInt8 → Bool} {c : UInt8} (hc : p c = false) (a l : Text) :
    (a ++ c :: l).rdropWhile p = a ++ c :: l.rdropWhile p := by
  simp only [List.rdropWhile, List.reverse_append, List.reverse_cons, List.append_assoc,
    List.dropWhile_append, List.singleton_append]
  split
  · next hempty =>
    rw [List.isEmpty_iff] at hempty
    simp [hempty, hc]
  · simp

theorem apply_line_setting (s : Client) {key value : Text}
    (hkey : key = ascii "target" ∨ key = ascii "password_obf" ∨ key = ascii "sftp")
    (hlen : (key ++ 61 :: value).length ≤ 99) :
    terminal_apply_sshboot_line s (key ++ 61 :: value) =
      apply_setting s key ((value.rdropWhile isTrailing).dropWhile isBlank) := by
  have hset : ascii "ssh set " = [115, 115, 104, 32, 115, 101, 116, 32] := by decide
  have hauth : ascii "ssh auth " = [115, 115, 104, 32, 97, 117, 116, 104, 32] := by decide
  have hmount : ascii "sftp mount " = [115, 102, 116, 112, 32, 109, 111, 117, 110, 116, 32] := by
    decide
  have hwrp : ascii "wrp set " = [119, 114, 112, 32, 115, 101, 116, 32] := by decide
  have htarget : ascii "target" = [116, 97, 114, 103, 101, 116] := by decide
  have hobf : ascii "password_obf" =
      [112, 97, 115, 115, 119, 111, 114, 100, 95, 111, 98, 102] := by decide
  have hsftp : ascii "sftp" = [115, 102, 116, 112] := by decide
  have hbuf : apply_buf s (key ++ 61 :: value.rdropWhile isTrailing) =
      apply_setting s key ((value.rdropWhile isTrailing).dropWhile isBlank) := by
    rw [apply_buf, hset, hauth, hmount, hwrp]
    rcases hkey with rfl | rfl | rfl
    · rw [htarget]
      rfl
    · rw [hobf]
      rfl
    · rw [hsftp]
      rfl
  have hfirst : ((key ++ 61 :: value).dropWhile isBlank = key ++ 61 :: value) ∧
      ¬ (key ++ 61 :: value = [] ∨ (key ++ 61 :: value).head? = some 35) := by
    rcases hkey with rfl | rfl | rfl
    · rw [htarget]
      exact ⟨rfl, by simp⟩
    · rw [hobf]
      exact ⟨rfl, by simp⟩
    · rw [hsftp]
      exact ⟨rfl, by simp⟩
  rw [terminal_apply_sshboot_line]
  simp only [hfirst.1, if_neg hfirst.2]
  rw [List.take_of_length_le (show _ ≤ COLS - 1 from hlen), rdropWhile_append_cons (by rfl), hbuf]

theorem rdropWhile_eq_self {p : UInt8 → Bool} {l : Text} (h : ∀ c ∈ l, p c = false) :
    l.rdropWhile p = l :=
  List.rdropWhile_eq_self_iff.mpr fun hne => by
    rw [h _ (List.getLast_mem hne)]
    exact Bool.false_ne_true

theorem plain_of_mem_code {body : Text} (hbody : ∀ c ∈ body, sshboot_hex_val c ≤ 15) {c : UInt8}
    (hc : c ∈ ascii "v1:" ++ body) : c ≠ 0 ∧ c ≠ 10 ∧ isTrailing c = false := by
  rcases List.mem_append.mp hc with hc | hc
  · have hv1 : ∀ d ∈ ascii "v1:", d ≠ 0 ∧ d ≠ 10 ∧ isTrailing d = false := by decide +kernel
    exact hv1 c hc
  · exact plain_of_hex c (hbody c hc)

theorem load_code_line (s : Client) {body : Text} (hbody : ∀ c ∈ body, sshboot_hex_val c ≤ 15)
    (hlen : body.length ≤ 83) :
    terminal_apply_sshboot_line s (ascii "password_obf" ++ 61 :: (ascii "v1:" ++ body)) =
      match sshboot_password_deobfuscate (ascii "v1:" ++ body) 64 with
      | some plain => ssh_client_set_password s plain
      | none => s := by
  have hkey : (ascii "password_obf").length = 12 := by decide
  have hv1 : (ascii "v1:").length = 3 := by decide
  have hvalue : ((ascii "v1:" ++ body).rdropWhile isTrailing).dropWhile isBlank =
      ascii "v1:" ++ body := by
    rw [rdropWhile_eq_self fun c hc => (plain_of_mem_code hbody hc).2.2]
    rfl
  have hlen' : (ascii "password_obf" ++ 61 :: (ascii "v1:" ++ body)).length ≤ 99 := by
    simp only [List.length_append, List.length_cons, hkey, hv1]
    omega
  rw [apply_line_setting s (Or.inr (Or.inl rfl)) hlen', hvalue]
  rfl

theorem load_lines_code (s : Client) {body : Text} (hbody : ∀ c ∈ body, sshboot_hex_val c ≤ 15) :
    load_lines s (ascii "password_obf" ++ 61 :: (ascii "v1:" ++ body)) =
      match sshboot_password_deobfuscate (ascii "v1:" ++ body.take 83) 64 with
      | some plain => ssh_client_set_password s plain
      | none => s := by
  have hkey : ∀ d ∈ ascii "password_obf" ++ [61], d ≠ 0 ∧ d ≠ 10 := by decide +kernel
  have hkeylen : (ascii "password_obf").length = 12 := by decide
  have hv1 : (ascii "v1:").length = 3 := by decide
  have hline : ∀ d ∈ ascii "password_obf" ++ 61 :: (ascii "v1:" ++ body), d ≠ 0 ∧ d ≠ 10 := by
    intro d hd
    rw [List.append_cons, List.mem_append] at hd
    rcases hd with hd | hd
    · exact hkey d hd
    · exact ⟨(plain_of_mem_code hbody hd).1, (plain_of_mem_code hbody hd).2.1⟩
  have htake : (ascii "password_obf" ++ 61 :: (ascii "v1:" ++ body)).take 99 =
      ascii "password_obf" ++ 61 :: (ascii "v1:" ++ body.take 83) := by
    rw [List.take_append, List.take_of_length_le (by rw [hkeylen]; decide), hkeylen,
      show 99 - 12 = 86 + 1 from rfl, List.take_succ_cons, List.take_append,
      List.take_of_length_le (by rw [hv1]; decide), hv1]
  rw [load_lines_line s fun h => (hline 10 h).2 rfl]
  change terminal_apply_sshboot_line s (cstr (List.take 99 _)) = _
  rw [cstr_eq_self fun h => (hline 0 (List.mem_of_mem_take h)).1 rfl, htake,
    load_code_line s (fun c hc => hbody c (List.mem_of_mem_take hc))
      (by rw [List.length_take]; omega)]

/-! ## The profile -/

theorem ssh_client_set_target_password (s : Client) (spec : Text) :
    (ssh_client_set_target s spec).ssh_password = s.ssh_password ∧
      (ssh_client_set_target s spec).ssh_password_set = s.ssh_password_set := by
  rw [ssh_client_set_target]
  split
  · exact ⟨rfl, rfl⟩
  · rw [ssh_parse_target]
    dsimp only
    split
    · exact ⟨rfl, rfl⟩
    · split
      · exact ⟨rfl, rfl⟩
      · split
        · exact ⟨rfl, rfl⟩
        · split <;> exact ⟨rfl, rfl⟩

theorem ssh_client_sftp_mount_password (s : Client) (root : Text) :
    (ssh_client_sftp_mount s root).ssh_password = s.ssh_password ∧
      (ssh_client_sftp_mount s root).ssh_password_set = s.ssh_password_set := by
  unfold ssh_client_sftp_mount
  extract_lets root
  split <;> exact ⟨rfl, rfl⟩

/-- The first lines of a sealed profile: comments and the target. -/
def profileHead (target : Text) : Text :=
  ascii "# ssh auto-login boot config" ++ 10 ::
    (ascii "# password_obf is obfuscated, not strong encryption" ++ 10 ::
      (ascii "target" ++ 61 :: target))

def profileTail : Text :=
  ascii "sftp" ++ 61 :: ascii "/root/trade_new/os/mini-riscv-os/08-BlockDeviceDriver/http_test" ++
    10 :: []

theorem sealed_profile_eq {target enc : Text} (ht : target.length < 96) (he : enc.length ≤ 159) :
    sealed_profile target enc =
      profileHead target ++ 10 :: (ascii "password_obf" ++ 61 :: enc ++ 10 :: profileTail) := by
  have h1 : ascii "# ssh auto-login boot config\n" =
      ascii "# ssh auto-login boot config" ++ [10] := by decide
  have h2 : ascii "# password_obf is obfuscated, not strong encryption\n" =
      ascii "# password_obf is obfuscated, not strong encryption" ++ [10] := by decide
  have h3 : ascii "target=" = ascii "target" ++ [61] := by decide
  have h4 : ascii "password_obf=" = ascii "password_obf" ++ [61] := by decide
  have h5 : ascii "sftp=/root/trade_new/os/mini-riscv-os/08-BlockDeviceDriver/http_test\n" =
      profileTail := by decide
  have h6 : ascii "\n" = [10] := by decide
  have hl1 : (ascii "# ssh auto-login boot config").length = 28 := by decide
  have hl2 : (ascii "# password_obf is obfuscated, not strong encryption").length = 51 := by decide
  have hl3 : (ascii "target").length = 6 := by decide
  have hl4 : (ascii "password_obf").length = 12 := by decide
  have hl5 : profileTail.length = 69 := by decide
  rw [sealed_profile, h1, h2, h3, h4, h5, h6, List.take_of_length_le]
  · simp [profileHead]
  · simp only [List.length_append, List.length_cons, List.length_nil, hl1, hl2, hl3, hl4, hl5]
    omega

theorem load_tail_password (s : Client) :
    (load_lines s profileTail).ssh_password = s.ssh_password ∧
      (load_lines s profileTail).ssh_password_set = s.ssh_password_set := by
  have hpath : (ascii "sftp" ++ 61 ::
      ascii "/root/trade_new/os/mini-riscv-os/08-BlockDeviceDriver/http_test").length ≤ 99 := by
    decide
  have hcut : cstr ((ascii "sftp" ++ 61 ::
      ascii "/root/trade_new/os/mini-riscv-os/08-BlockDeviceDriver/http_test").take (COLS - 1)) =
      ascii "sftp" ++ 61 ::
        ascii "/root/trade_new/os/mini-riscv-os/08-BlockDeviceDriver/http_test" := by decide
  have hline : load_lines s (ascii "sftp" ++ 61 ::
      ascii "/root/trade_new/os/mini-riscv-os/08-BlockDeviceDriver/http_test") =
      ssh_client_sftp_mount s (((ascii
        "/root/trade_new/os/mini-riscv-os/08-BlockDeviceDriver/http_test").rdropWhile
          isTrailing).dropWhile isBlank) := by
    rw [load_lines_line s (by decide), hcut, apply_line_setting s (Or.inr (Or.inr rfl)) hpath]
    rfl
  have hempty (c : Client) : load_lines c [] = c := rfl
  rw [profileTail, load_lines_append, hline, hempty]
  exact ssh_client_sftp_mount_password s _

theorem load_head_password (s : Client) {target : Text} (ht : 10 ∉ target) :
    (load_lines s (profileHead target)).ssh_password = s.ssh_password ∧
      (load_lines s (profileHead target)).ssh_password_set = s.ssh_password_set := by
  have h1 : load_lines s (ascii "# ssh auto-login boot config") = s := by
    rw [load_lines_line s (by decide)]
    rfl
  have h2 : load_lines s (ascii "# password_obf is obfuscated, not strong encryption") = s := by
    rw [load_lines_line s (by decide)]
    rfl
  have hkey : ∀ d ∈ ascii "target" ++ [61], d ≠ 0 ∧ d ≠ 10 := by decide +kernel
  have hline : 10 ∉ ascii "target" ++ 61 :: target := by
    rw [List.append_cons, List.mem_append, not_or]
    exact ⟨fun h => (hkey 10 h).2 rfl, ht⟩
  have hcut : cstr ((ascii "target" ++ 61 :: target).take (COLS - 1)) =
      ascii "target" ++ 61 :: cstr (target.take 92) := by
    have htarget : ascii "target" = [116, 97, 114, 103, 101, 116] := by decide
    rw [htarget]
    rfl
  have hlen : (ascii "target" ++ 61 :: cstr (target.take 92)).length ≤ 99 := by
    have hcstr : (cstr (target.take 92)).length ≤ 92 :=
      ((List.takeWhile_prefix _).length_le).trans (List.length_take_le _ _)
    have hl : (ascii "target").length = 6 := by decide
    simp only [List.length_append, List.length_cons, hl]
    omega
  rw [profileHead, load_lines_append, h1, load_lines_append, h2, load_lines_line s hline, hcut,
    apply_line_setting s (Or.inl rfl) hlen]
  exact ssh_client_set_target_password s _

theorem load_sealed_password (s : Client) {pw target : Text} (hpos : 0 < pw.length)
    (hmax : pw.length ≤ 78) (h0 : 0 ∉ pw) (ht : target.length < 96) (hnl : 10 ∉ target) :
    let s' := load_lines s (sealed_profile target (ascii "v1:" ++ obfuscate_loop seed pw))
    if pw.length ≤ 41 then s'.ssh_password = pw ∧ s'.ssh_password_set = true
    else s'.ssh_password = s.ssh_password ∧ s'.ssh_password_set = s.ssh_password_set := by
  have hloop := length_obfuscate_loop seed pw
  have hhead := load_head_password s hnl
  have hv1 : (ascii "v1:").length = 3 := by decide
  dsimp only
  rw [sealed_profile_eq ht (by rw [List.length_append, hv1, hloop]; omega), load_lines_append,
    load_lines_append, load_lines_code _ fun c => hex_of_mem_obfuscate_loop]
  generalize load_lines s (profileHead target) = s₁ at hhead ⊢
  split
  · next hlen =>
    rw [List.take_of_length_le (by omega), deobfuscate_obfuscate hpos (by omega) h0]
    have hset : ssh_client_set_password s₁ pw =
        { s₁ with ssh_password := pw, ssh_password_set := true } := by
      rw [ssh_client_set_password, if_neg (List.ne_nil_of_length_pos hpos), if_neg (by omega)]
    dsimp only
    rw [hset]
    exact load_tail_password _
  · next hlen =>
    rw [deobfuscate_odd (by rw [List.length_take, hloop]; omega)]
    obtain ⟨hpw, hset⟩ := load_tail_password s₁
    exact ⟨hpw.trans hhead.1, hset.trans hhead.2⟩

/-! ## Sealing and loading -/

/-- A target that is in its buffer and, as one of a command line, has no end of a line. -/
def Client.TargetFits (s : Client) : Prop := s.ssh_target.length < 96 ∧ 10 ∉ s.ssh_target

instance (s : Client) : Decidable s.TargetFits :=
  inferInstanceAs (Decidable (_ ∧ _))

/-- The message of a shell that has sealed a password. -/
def sealedMessage : Text := ascii "OK: wrote obfuscated ~/.sshboot and loaded it."

/-- Whatever the client has by then, loading the profile gives the sealed password. -/
def Restores (form : SealForm) (sh : Shell) (typed : Text) : Prop :=
  ∀ client : Client,
    let sh' := terminal_load_sshboot { (form.seal sh typed).1 with client }
    sh'.client.ssh_password = form.password typed ∧ sh'.client.ssh_password_set = true

theorem store_sealed_file {sh : Shell} {default_target password : Text}
    (ht : sh.client.TargetFits) (hd : default_target.length < 96 ∧ 10 ∉ default_target)
    (hsealed : (store_sealed sh default_target password).2 = sealedMessage) :
    ∃ enc target, sshboot_password_obfuscate password 160 = some enc ∧
      target.length < 96 ∧ 10 ∉ target ∧
      (store_sealed sh default_target password).1.sshboot = some (sealed_profile target enc) := by
  have hne2 : ascii "ERR: password too long." ≠ sealedMessage := by decide
  have hne3 : ascii "ERR: cannot write ~/.sshboot." ≠ sealedMessage := by decide
  rw [store_sealed] at hsealed ⊢
  cases henc : sshboot_password_obfuscate password 160 with
  | none =>
    rw [henc] at hsealed
    exact absurd hsealed hne2
  | some enc =>
    rw [henc] at hsealed
    dsimp only at hsealed ⊢
    split at hsealed
    · next hstores =>
      rw [if_pos hstores]
      refine ⟨enc, _, rfl, ?_, ?_, rfl⟩
      · split
        · exact hd.1
        · exact ht.1
      · split
        · exact hd.2
        · exact ht.2
    · exact absurd hsealed hne3

theorem seal_file {form : SealForm} {sh : Shell} {typed : Text} (ht : sh.client.TargetFits)
    (hsealed : (form.seal sh typed).2 = sealedMessage) :
    ∃ enc target, sshboot_password_obfuscate (form.password typed) 160 = some enc ∧
      target.length < 96 ∧ 10 ∉ target ∧
      (form.seal sh typed).1.sshboot = some (sealed_profile target enc) := by
  cases form with
  | prompt => exact store_sealed_file ht (by decide) hsealed
  | command =>
    have hne : ascii "usage: ssh boot seal <password>" ≠ sealedMessage := by decide
    simp only [SealForm.seal, SealForm.password, ssh_boot_seal] at hsealed ⊢
    split at hsealed
    · exact absurd hsealed hne
    · next hnil =>
      rw [if_neg hnil]
      exact store_sealed_file ht (by decide) hsealed

/-- A password that the shell has sealed comes back if and only if it has at most 41 bytes. -/
theorem sealed_password_restored_iff (form : SealForm) (sh : Shell) (typed : Text)
    (h0 : 0 ∉ typed) (ht : sh.client.TargetFits)
    (hsealed : (form.seal sh typed).2 = sealedMessage) :
    Restores form sh typed ↔ (form.password typed).length ≤ 41 := by
  obtain ⟨enc, target, henc, htarget, hnl, hfile⟩ := seal_file ht hsealed
  obtain ⟨hpos, hmax, rfl⟩ := obfuscate_eq_some henc
  have h0' : 0 ∉ form.password typed := by
    cases form with
    | command => exact fun h => h0 ((List.dropWhile_suffix _).subset h)
    | prompt => exact h0
  have hload (client : Client) := load_sealed_password client hpos hmax h0' htarget hnl
  unfold Restores
  simp only [terminal_load_sshboot, hfile]
  dsimp only at hload
  by_cases hlen : (form.password typed).length ≤ 41
  · simp only [if_pos hlen] at hload
    exact iff_of_true hload hlen
  · simp only [if_neg hlen] at hload
    refine iff_of_false (fun h => ?_) hlen
    have hnil := (h Client.reset).1.symm.trans (hload Client.reset).1
    exact (List.ne_nil_of_length_pos hpos) hnil

/-- The shell after a start, which can write files. -/
def freshShell : Shell := ⟨Client.reset, none, none, true⟩

theorem short_password_restored : Restores .command freshShell (ascii "hunter2") :=
  (sealed_password_restored_iff .command freshShell (ascii "hunter2") (by decide) (by decide)
    (by decide)).mpr (by decide)

/-- A password of 42 letters is sealed, and lost. -/
theorem long_password_lost :
    (SealForm.command.seal freshShell (List.replicate 42 97)).2 = sealedMessage ∧
      (SealForm.command.seal freshShell (List.replicate 42 97)).1.client.ssh_password = [] ∧
      ¬ Restores .command freshShell (List.replicate 42 97) := by
  refine ⟨by decide, by decide, fun h => ?_⟩
  have hlost : (terminal_load_sshboot { (SealForm.command.seal freshShell
      (List.replicate 42 97)).1 with client := Client.reset }).client.ssh_password = [] := by
    decide
  have hpw : SealForm.command.password (List.replicate 42 97) ≠ [] := by decide
  exact hpw ((h Client.reset).1.symm.trans hlost)

end vibeos.ssh
