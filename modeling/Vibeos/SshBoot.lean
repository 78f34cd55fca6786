-- The boot profile of the ssh client: sealing a password into `~/.sshboot` and loading the
-- profile line by line (user_terminal.c, user_cmd.c, apps/ssh/ssh_client.c). Then the transport: the
-- buffer between lwIP and libssh2, the callbacks that fill it, the calls that drain it, and its end.
import Vibeos.Wget
import Mathlib.Data.List.DropRight

namespace vibeos.ssh

open fs (cstr)
open wget (ascii lib_itoa)

/-- A C string without its terminator. -/
abbrev Text := List UInt8

def COLS : Nat := 100

def isBlank (c : UInt8) : Bool := c == 32 || c == 9

/-- `strncmp(l, p, strlen(p)) == 0`, with what follows in `l`. -/
def behindPrefix (p l : Text) : Option Text := if p.isPrefixOf l then some (l.drop p.length) else none

/-! ## The code of a password -/

def sshboot_hex_val (c : UInt8) : UInt8 :=
  if 48 ≤ c ∧ c ≤ 57 then c - 48
  else if 97 ≤ c ∧ c ≤ 102 then c - 97 + 10
  else if 65 ≤ c ∧ c ≤ 70 then c - 65 + 10
  else 255

/-- The next state; the byte of the stream is its highest one. -/
def sshboot_keystream_next (state : UInt32) : UInt32 :=
  let state := state ^^^ (state <<< 13)
  let state := state ^^^ (state >>> 17)
  state ^^^ (state <<< 5)

def keyByte (state : UInt32) : UInt8 := (state >>> 24).toUInt8

def seed : UInt32 := 0x6d2b79f5

def hex (d : UInt8) : UInt8 := (ascii "0123456789abcdef").getD d.toNat 0

def obfuscate_loop : UInt32 → Text → Text
  | _, [] => []
  | state, c :: cs =>
    let state := sshboot_keystream_next state
    let b := c ^^^ keyByte state
    hex ((b >>> 4) &&& 15) :: hex (b &&& 15) :: obfuscate_loop state cs

def sshboot_password_obfuscate (password : Text) (out_max : Nat) : Option Text :=
  if out_max < 8 then none
  else if password.length = 0 ∨ 3 + password.length * 2 + 1 > out_max then none
  else some (ascii "v1:" ++ obfuscate_loop seed password)

def deobfuscate_loop : UInt32 → Text → Option Text
  | state, hi :: lo :: rest =>
    let hi := sshboot_hex_val hi
    let lo := sshboot_hex_val lo
    if hi > 15 ∨ lo > 15 then none
    else
      let state := sshboot_keystream_next state
      (deobfuscate_loop state rest).map fun out => (((hi <<< 4) ||| lo) ^^^ keyByte state) :: out
  | _, _ => some []

def sshboot_password_deobfuscate (encoded : Text) (out_max : Nat) : Option Text :=
  if out_max = 0 then none
  else
    let encoded := (behindPrefix (ascii "v1:") encoded).getD encoded
    let len := encoded.length
    if len = 0 ∨ len % 2 ≠ 0 ∨ len / 2 ≥ out_max then none
    else (deobfuscate_loop seed encoded).map cstr

/-! ## The client -/

structure Client where
  ssh_user : Text
  ssh_host : Text
  ssh_target : Text
  ssh_port : Nat
  ssh_password : Text
  ssh_password_set : Bool
  ssh_wrp_url : Text
  sftp_mount_root : Text
  sftp_mounted : Bool
  deriving DecidableEq, Repr

def Client.reset : Client := ⟨[], [], [], 22, [], false, [], ascii ".", false⟩

def isDigit (c : UInt8) : Bool := 48 ≤ c && c ≤ 57

def atoi16 (s : Text) : Nat :=
  let s := s.dropWhile isBlank
  let v (s : Text) := (s.takeWhile isDigit).foldl (fun v c => (v * 10 + (c.toNat - 48)) % 2 ^ 16) 0
  match s with
  | 45 :: s => (2 ^ 16 - v s) % 2 ^ 16
  | 43 :: s => v s
  | s => v s

def ssh_rebuild_target (s : Client) : Client :=
  { s with ssh_target :=
      (if s.ssh_user ≠ [] then s.ssh_user ++ ascii "@" else []) ++ s.ssh_host ++
        if s.ssh_port ≠ 22 then ascii ":" ++ lib_itoa s.ssh_port else [] }

/-- The user and what follows the first `@`; without one the user is root. -/
def parse_user (p : Text) : Option (Text × Text) :=
  match p.dropWhile (· != 64) with
  | [] => some (ascii "root", p)
  | _ :: rest =>
    let user := p.takeWhile (· != 64)
    if user.length = 0 ∨ user.length ≥ 32 then none else some (user, rest)

/-- The host and the port behind the first `:`. -/
def parse_host (p : Text) : Option (Text × Nat) :=
  match p.dropWhile (· != 58) with
  | [] => if p.length ≥ 64 ∨ p = [] then none else some (p, 22)
  | _ :: rest =>
    let host := p.takeWhile (· != 58)
    if host.length = 0 ∨ host.length ≥ 64 then none
    else some (host, if atoi16 rest = 0 then 22 else atoi16 rest)

def ssh_parse_target (s : Client) (spec : Text) : Client :=
  let p := spec.dropWhile isBlank
  if p = [] then s
  else
    match parse_user p with
    | none => s
    | some (user, p) =>
      match parse_host p with
      | none => s
      | some (host, port) =>
        let s := ssh_rebuild_target { s with ssh_user := user, ssh_host := host, ssh_port := port }
        if s.ssh_wrp_url = [] then
          { s with ssh_wrp_url := ascii "http://" ++ s.ssh_host ++ ascii ":8080" }
        else s

def ssh_client_set_target (s : Client) (spec : Text) : Client :=
  if spec = [] then s else ssh_parse_target s spec

def ssh_client_set_password (s : Client) (password : Text) : Client :=
  if password = [] then s
  else if password.length ≥ 64 then s
  else { s with ssh_password := password, ssh_password_set := true }

def ssh_client_set_wrp_url (s : Client) (url : Text) : Client :=
  if url = [] then s else { s with ssh_wrp_url := url }

def ssh_client_sftp_mount (s : Client) (remote_root : Text) : Client :=
  let root := if remote_root = [] then ascii "." else remote_root
  if root.length ≥ 160 then s else { s with sftp_mount_root := root, sftp_mounted := true }

/-! ## Loading a profile -/

def isTrailing (c : UInt8) : Bool := c == 13 || c == 10 || c == 32 || c == 9

/-- The settings of the form `key=value`; `p` is the value without leading blanks. -/
def apply_setting (s : Client) (key p : Text) : Client :=
  if key = ascii "target" ∨ key = ascii "ssh" then ssh_client_set_target s p
  else if key = ascii "password" ∨ key = ascii "auth" then ssh_client_set_password s p
  else if key = ascii "password_obf" ∨ key = ascii "auth_obf" then
    match sshboot_password_deobfuscate p 64 with
    | some plain => ssh_client_set_password s plain
    | none => s
  else if key = ascii "sftp" ∨ key = ascii "sftp_root" then ssh_client_sftp_mount s p
  else if key = ascii "wrp" then ssh_client_set_wrp_url s p
  else s

/-- A line in the buffer of `terminal_apply_sshboot_line`, cut and trimmed. -/
def apply_buf (s : Client) (buf : Text) : Client :=
  if buf = [] then s
  else if let some p := behindPrefix (ascii "ssh set ") buf then
    ssh_client_set_target s (p.dropWhile (· == 32))
  else if let some p := behindPrefix (ascii "ssh auth ") buf then
    ssh_client_set_password s (p.dropWhile (· == 32))
  else if let some p := behindPrefix (ascii "sftp mount ") buf then
    ssh_client_sftp_mount s (p.dropWhile (· == 32))
  else if let some p := behindPrefix (ascii "wrp set ") buf then
    ssh_client_set_wrp_url s (p.dropWhile (· == 32))
  else
    match buf.dropWhile (· != 61) with
    | [] => s
    | _ :: eq => apply_setting s (buf.takeWhile (· != 61)) (eq.dropWhile isBlank)

def terminal_apply_sshboot_line (s : Client) (line : Text) : Client :=
  let line := line.dropWhile isBlank
  if line = [] ∨ line.head? = some 35 then s
  else apply_buf s ((line.take (COLS - 1)).rdropWhile isTrailing)

/-- The loop over the bytes of the file: each line is cut to the buffer. -/
def load_lines (s : Client) (buf : List UInt8) : Client :=
  (buf.splitOn 10).foldl
    (fun s line => terminal_apply_sshboot_line s (cstr (line.take (COLS - 1)))) s

/-! ## The shell -/

/-- The client and the two files of the home directory, seen from a terminal window; `stores`
says whether a file can be written. -/
structure Shell where
  client : Client
  sshboot : Option (List UInt8)
  sshboot_example : Option (List UInt8)
  stores : Bool
  deriving DecidableEq, Repr

/-- The text that shows how a profile looks. -/
def example_profile : Text :=
  ascii "# optional ssh auto-login config\n" ++
  ascii "# copy this file to ~/.sshboot and edit the password locally\n" ++
  ascii "# or run: ssh boot seal <password>\n" ++
  ascii "# target=root@192.168.123.100:2221\n" ++
  ascii "# password=your-password\n" ++
  ascii "# password_obf=v1:...\n" ++
  ascii "# sftp=/root/trade_new/os/mini-riscv-os/08-BlockDeviceDriver/http_test\n"

def terminal_load_sshboot (sh : Shell) : Shell :=
  match sh.sshboot with
  | none => if sh.stores then { sh with sshboot_example := some example_profile } else sh
  | some buf => { sh with client := load_lines sh.client buf }

/-- The profile that is stored, as `snprintf` puts it into a buffer of 512 bytes. -/
def sealed_profile (target enc : Text) : Text :=
  (ascii "# ssh auto-login boot config\n" ++
    ascii "# password_obf is obfuscated, not strong encryption\n" ++
    (ascii "target=" ++ target ++ ascii "\n") ++
    (ascii "password_obf=" ++ enc ++ ascii "\n") ++
    ascii "sftp=/root/trade_new/os/mini-riscv-os/08-BlockDeviceDriver/http_test\n").take 511

/-- A password is stored and loaded; `default_target` stands in if no target is set. -/
def store_sealed (sh : Shell) (default_target password : Text) : Shell × Text :=
  match sshboot_password_obfuscate password 160 with
  | none => (sh, ascii "ERR: password too long.")
  | some enc =>
    let target := if sh.client.ssh_target = [] then default_target else sh.client.ssh_target
    if sh.stores then
      (terminal_load_sshboot { sh with sshboot := some (sealed_profile target enc) },
        ascii "OK: wrote obfuscated ~/.sshboot and loaded it.")
    else (sh, ascii "ERR: cannot write ~/.sshboot.")

/-- `ssh boot seal`, with the text behind `seal `: the shell afterwards and the message. -/
def ssh_boot_seal (sh : Shell) (arg : Text) : Shell × Text :=
  let password := arg.dropWhile (· == 32)
  if password = [] then (sh, ascii "usage: ssh boot seal <password>")
  else store_sealed sh (ascii "root@192.168.0.152:2221") password

/-- The masked prompt that `ssh boot seal` without a password opens. -/
def terminal_submit_ssh_auth (sh : Shell) (ssh_auth_buf : Text) : Shell × Text :=
  store_sealed sh (ascii "root@192.168.123.100:2221") ssh_auth_buf

inductive SealForm where
  | command
  | prompt
  deriving DecidableEq, Repr

def SealForm.seal (form : SealForm) (sh : Shell) (typed : Text) : Shell × Text :=
  match form with
  | .command => ssh_boot_seal sh typed
  | .prompt => terminal_submit_ssh_auth sh typed

def SealForm.password (form : SealForm) (typed : Text) : Text :=
  match form with
  | .command => typed.dropWhile (· == 32)
  | .prompt => typed

/-! ## The transport -/

def SSH_RX_BUF_SIZE : Nat := 64 * 1024

def ERR_OK : Int := 0
def ERR_MEM : Int := -1
def ERR_TIMEOUT : Int := -3
def ERR_ABRT : Int := -13
def EIO : Int := 5
def EAGAIN : Int := 11
def EPIPE : Int := 32

/-- `struct ssh_transport`. `rx_buf` are the bytes of the buffer below `rx_len`, and `pcb` says
that the pointer is not NULL. -/
structure ssh_transport where
  pcb : Bool
  connected : Bool
  closed : Bool
  err : Int
  rx_buf : Text
  rx_start : Nat
deriving DecidableEq

namespace ssh_transport

def rx_len (t : ssh_transport) : Nat := t.rx_buf.length

end ssh_transport

/-! ## The buffer -/

def ssh_transport_trim (t : ssh_transport) : ssh_transport :=
  if t.rx_start = 0 then t
  else if t.rx_start ≥ t.rx_len then { t with rx_start := 0, rx_buf := [] }
  else { t with rx_buf := t.rx_buf.drop t.rx_start, rx_start := 0 }

def ssh_transport_free_space (t : ssh_transport) : Nat := SSH_RX_BUF_SIZE - t.rx_len

def ssh_transport_push (t : ssh_transport) (data : Text) : ssh_transport :=
  if data.length = 0 then t
  else
    let t := if ssh_transport_free_space t < data.length then ssh_transport_trim t else t
    if ssh_transport_free_space t < data.length then { t with err := 1 }
    else { t with rx_buf := t.rx_buf ++ data }

/-- The loop of `ssh_altcp_recv_cb` over a chain of pbufs. -/
def push_chain (t : ssh_transport) : List Text → ssh_transport
  | [] => t
  | segment :: rest =>
    let t := if segment.length > ssh_transport_free_space t then ssh_transport_trim t else t
    if segment.length > ssh_transport_free_space t then { t with err := ERR_MEM }
    else push_chain (ssh_transport_push t segment) rest

/-! ## The callbacks and the calls -/

/-- A call of an `altcp_` function on the pcb of the transport. -/
inductive PcbCall where
  | arg
  | recv
  | sent
  | err
  | recved (n : Nat)
  | write (n : Nat)
  | output
  | close
  | abort
deriving DecidableEq

def ssh_altcp_connected_cb (t : ssh_transport) (err : Int) : ssh_transport :=
  if err = ERR_OK then { t with connected := true } else { t with err := err }

/-- `ssh_altcp_recv_cb`, with a chain of pbufs or with NULL: the transport, what is returned, and
the calls that are made. -/
def ssh_altcp_recv_cb (t : ssh_transport) (p : Option (List Text)) (err : Int) :
    ssh_transport × Int × List PcbCall :=
  if err ≠ ERR_OK then ({ t with err := err }, ERR_ABRT, [])
  else
    match p with
    | none => ({ t with closed := true }, ERR_OK, [])
    | some chain => (push_chain t chain, ERR_OK, [.recved (chain.flatten.length % 2 ^ 16)])

def ssh_altcp_err_cb (t : ssh_transport) (err : Int) : ssh_transport :=
  { t with closed := true, err := err }

/-- `ssh_libssh2_send`, with what `altcp_write` and `altcp_output` return: the result and the
calls that are made. -/
def ssh_libssh2_send (t : ssh_transport) (length : Nat) (wrote output : Int) :
    Int × List PcbCall :=
  let chunk := length % 2 ^ 16
  if !t.pcb then (-EAGAIN, [])
  else if !t.connected then (-EAGAIN, [])
  else if t.closed || t.err != 0 then (-EPIPE, [])
  else if chunk = 0 then (0, [])
  else if wrote ≠ ERR_OK then
    (if wrote = ERR_MEM ∨ wrote = ERR_TIMEOUT then -EAGAIN else - EIO, [.write chunk])
  else if output ≠ ERR_OK then
    (if output = ERR_MEM ∨ output = ERR_TIMEOUT then -EAGAIN else - EIO, [.write chunk, .output])
  else (chunk, [.write chunk, .output])

/-- `ssh_libssh2_recv`: the transport, the result, and the bytes that are copied. -/
def ssh_libssh2_recv (t : ssh_transport) (length : Nat) : ssh_transport × Int × Text :=
  if t.rx_start ≥ t.rx_len then
    let t := { t with rx_start := 0, rx_buf := [] }
    if t.closed then (t, 0, [])
    else if t.err ≠ 0 then (t, -EPIPE, [])
    else (t, -EAGAIN, [])
  else
    let available := t.rx_len - t.rx_start
    let n := if available < length then available else length
    let data := (t.rx_buf.drop t.rx_start).take n
    let t := { t with rx_start := t.rx_start + n }
    let t := if t.rx_start ≥ t.rx_len then { t with rx_start := 0, rx_buf := [] } else t
    (t, n, data)

/-- The calls of `ssh_transport_destroy` on the pcb, by what `altcp_close` returns. The transport
is freed. -/
def ssh_transport_destroy (t : ssh_transport) (closed : Int) : List PcbCall :=
  if t.pcb then
    [.arg, .recv, .sent, .err, .close] ++ if closed ≠ ERR_OK then [.abort] else []
  else []

/-- The transport that `ssh_connect_transport` makes, with its pcb and its callbacks. -/
def ssh_transport.start : ssh_transport := ⟨true, false, false, 0, [], 0⟩

end vibeos.ssh
