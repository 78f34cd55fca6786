-- The downloads of user_wget.c: one global job, the callbacks that lwIP makes for
-- its connection, and the log of what the job asks of lwIP and of the browser.
import Vibeos.FsLayout
import Mathlib.Algebra.Group.Int.Defs

namespace vibeos.wget

open vibeos.fs

def ascii (s : String) : List UInt8 := lit s.toList

/-- `WGET_MAX_FILE_SIZE`, which is set at compile time, and the parser for addresses
in numbers of lwIP. -/
class NetConfig where
  WGET_MAX_FILE_SIZE : Nat
  ipaddr_aton : List UInt8 → Option Nat

export NetConfig (WGET_MAX_FILE_SIZE ipaddr_aton)

def WGET_HEADER_MAX : Nat := 4096
def WINDOW_KIND_NETSURF : Nat := 5

def ERR_OK : Int := 0
def ERR_ABRT : Int := -13

/-- The buffer that lwIP hands over. An IP packet has at most 65535 bytes, and its
headers take some of them. -/
structure Pbuf where
  payload : List UInt8
  len_lt : payload.length < 65535

def chainBytes (p : List Pbuf) : List UInt8 := (p.map Pbuf.payload).flatten

/-! ## The job -/

inductive Stage
  | idle | dns | connect | recv | save
deriving DecidableEq

/-- `struct wget_state`. The counters `header_len` and `body_len` are the lengths of the
bytes, and the body is what `wget_file_buf` holds. -/
structure Job where
  pcb : Option Nat
  host : List UInt8
  path : List UInt8
  filename : List UInt8
  port : Nat
  use_tls : Bool
  stage : Stage
  resolve_pending : Bool
  resolve_in_progress : Bool
  resolved_addr_valid : Bool
  resolved_addr : Nat
  wait_started_ms : Nat
  active : Bool
  done : Bool
  success : Bool
  request_pending : Bool
  save_pending : Bool
  owner_win_id : Int
  resource_kind : Int
  header : List UInt8
  header_done : Bool
  http_status : Int
  has_content_len : Bool
  content_len : Nat
  body : List UInt8
  err : List UInt8
deriving DecidableEq

/-- The job after `memset(&wget_job, 0, sizeof(wget_job))`. -/
def Job.zero : Job where
  pcb := none
  host := []
  path := []
  filename := []
  port := 0
  use_tls := false
  stage := .idle
  resolve_pending := false
  resolve_in_progress := false
  resolved_addr_valid := false
  resolved_addr := 0
  wait_started_ms := 0
  active := false
  done := false
  success := false
  request_pending := false
  save_pending := false
  owner_win_id := 0
  resource_kind := 0
  header := []
  header_done := false
  http_status := 0
  has_content_len := false
  content_len := 0
  body := []
  err := []

/-- The calls of the altcp interface. The setters of callbacks take NULL as `false`. -/
inductive Call
  | arg (on : Bool) | recv (on : Bool) | sent (on : Bool) | err (on : Bool)
  | bind (port : Nat)
  | connect (addr port : Nat)
  | write (bytes : List UInt8)
  | output
  | recved (len : Nat)
  | close
  | abort
deriving DecidableEq

/-- What happens at the border of the code. A connection has the number of its
`altcp_new`, and a DNS query has the number of its `dns_gethostbyname`. -/
inductive Event
  | queued (host : List UInt8)
  | query (q : Nat) (name : List UInt8)
  | reply (q : Nat) (addr : Option Nat)
  | new (p : Nat)
  | call (p : Nat) (c : Call)
  | freed (p : Nat)
  | entered (p : Nat)
  | returned (p : Nat) (err : Int)
  | store (p : Nat) (bytes : List UInt8)
  | feed (p : Nat) (win : Int) (bytes : List UInt8)
  | receive_image (win : Int) (url bytes : List UInt8)
  | complete (win : Int)
deriving DecidableEq

/-- The globals: the job, the kinds of the windows, the TLS configuration, the static
`local_port`, and the events so far, newest first. -/
structure World where
  job : Job
  wins : Int → Nat
  tls_conf : Bool
  local_port : Nat
  pcbs : Nat
  queries : Nat
  events : List Event

def World.log (w : World) (e : Event) : World := { w with events := e :: w.events }

def World.call (w : World) (p : Nat) (c : Call) : World := w.log (.call p c)

/-! ## The helpers -/

def copyName20 (src : List UInt8) : List UInt8 := src.take 19

def lib_itoa (n : Nat) : List UInt8 := ascii (toString n)

/-- The URL that `wget_finish` puts together for an image. -/
def Job.full_url (j : Job) : List UInt8 :=
  let port := if j.port = (if j.use_tls then 443 else 80) then [] else ascii ":" ++ lib_itoa j.port
  (if j.use_tls then ascii "https://" else ascii "http://") ++ j.host ++ port ++ j.path

def wget_finish (w : World) (success : Bool) (msg : Option (List UInt8)) : World :=
  let j := w.job
  let err := match msg with
    | some m => copyName20 m
    | none => j.err
  let w := { w with job := { j with success, done := true, active := false, stage := .idle, err } }
  if success ∧ 0 ≤ j.owner_win_id then
    if j.resource_kind = 1 then w.log (.receive_image j.owner_win_id j.full_url j.body)
    else if j.resource_kind = 0 ∧ w.wins j.owner_win_id = WINDOW_KIND_NETSURF then
      w.log (.complete j.owner_win_id)
    else w
  else w

def wget_close_pcb (w : World) (abort_conn : Bool) : World :=
  match w.job.pcb with
  | none => w
  | some p =>
    let w := (((w.call p (.arg false)).call p (.recv false)).call p (.sent false)).call p (.err false)
    let w := { w with job := { w.job with pcb := none } }
    if abort_conn then w.call p .abort else w.call p .close

def isDigit (c : UInt8) : Bool := '0'.toUInt8 ≤ c && c ≤ '9'.toUInt8

def digit (c : UInt8) : Nat := (c - '0'.toUInt8).toNat

def parse_http_status_code (hdr : List UInt8) : Int :=
  match (cstr hdr).dropWhile (· != ' '.toUInt8) with
  | _ :: a :: b :: c :: _ =>
    if isDigit a && isDigit b && isDigit c then digit a * 100 + digit b * 10 + digit c else -1
  | _ => -1

/-- `strstr`: the string from the first match on. -/
def strstr (needle : List UInt8) : List UInt8 → Option (List UInt8)
  | [] => if needle = [] then some [] else none
  | c :: rest => if needle <+: c :: rest then some (c :: rest) else strstr needle rest

/-- The digits at the front, as an `int`. The sum wraps at 32 bits. -/
def leadingNumber (s : List UInt8) : Int :=
  (s.takeWhile isDigit).foldl (fun n c => Int.bmod (n * 10 + digit c) (2 ^ 32)) 0

def parse_content_length (hdr : List UInt8) : Int :=
  let hdr := cstr hdr
  let value := match strstr (ascii "\nContent-Length:") hdr with
    | some p => some (p.drop 16)
    | none => if ascii "Content-Length:" <+: hdr then some (hdr.drop 15) else none
  match value with
  | none => -1
  | some p => leadingNumber (p.dropWhile (· == ' '.toUInt8))

/-! ## The receive callback -/

def CRLFCRLF : List UInt8 := [13, 10, 13, 10]

/-- The browser is fed while the data arrives. -/
def World.feeds (w : World) : Bool :=
  w.job.active && decide (0 ≤ w.job.owner_win_id) && decide (w.job.resource_kind = 0) &&
    decide (w.wins w.job.owner_win_id = WINDOW_KIND_NETSURF)

/-- The scan for the end of the header inside one pbuf: what follows it there. -/
def afterHeader : List UInt8 → Option (List UInt8)
  | [] => none
  | c :: rest => if CRLFCRLF <+: c :: rest then some (rest.drop 3) else afterHeader rest

def World.feed (w : World) (pcb : Nat) (d : List UInt8) : World :=
  w.log (.feed pcb w.job.owner_win_id d)

/-- The pass of the receive callback that feeds the browser. -/
def feed_chain (pcb : Nat) (w : World) : List Pbuf → World
  | [] => w
  | tp :: rest =>
    if w.job.header_done then feed_chain pcb (w.feed pcb tp.payload) rest
    else
      match afterHeader tp.payload with
      | none => feed_chain pcb w rest
      | some d =>
        let w := { w with job := { w.job with header_done := true } }
        feed_chain pcb (if d = [] then w else w.feed pcb d) rest

def Job.header_byte (j : Job) (c : UInt8) : Job :=
  let header := j.header ++ [c]
  if CRLFCRLF <:+ header then
    let clen := parse_content_length header
    { j with
      header, header_done := true
      http_status := parse_http_status_code header
      has_content_len := j.has_content_len || decide (0 ≤ clen)
      content_len := if 0 ≤ clen then clen.toNat else j.content_len }
  else { j with header }

/-- The bytes of one pbuf that go to `wget_file_buf`. -/
def World.store (w : World) (pcb : Nat) (d : List UInt8) : World :=
  { w with job := { w.job with body := w.job.body ++ d } }.log (.store pcb d)

section

variable [NetConfig]

/-- The loop over the bytes of one pbuf. The flag says that the callback returned in it. -/
def recv_pbuf (pcb : Nat) (w : World) : List UInt8 → World × Bool
  | [] => (w, false)
  | c :: rest =>
    if w.job.done then (w, false)
    else if !w.job.header_done then
      if WGET_HEADER_MAX ≤ w.job.header.length + 1 then
        (wget_finish (wget_close_pcb w true) false (some (ascii "HDR TOO BIG")), false)
      else recv_pbuf pcb { w with job := w.job.header_byte c } rest
    else if WGET_MAX_FILE_SIZE < w.job.body.length + (c :: rest).length then
      (wget_finish (wget_close_pcb w true) false (some (ascii "FILE TOO BIG")), false)
    else
      let w := w.store pcb (c :: rest)
      if w.job.has_content_len ∧ w.job.content_len ≤ w.job.body.length then
        (wget_finish (wget_close_pcb w false) true none, true)
      else (w, false)

def recv_chain (pcb : Nat) (w : World) : List Pbuf → World × Bool
  | [] => (w, false)
  | q :: rest =>
    if w.job.done then (w, false)
    else
      match recv_pbuf pcb w q.payload with
      | (w, true) => (w, true)
      | (w, false) => recv_chain pcb w rest

/-- `wget_recv_cb` with `p` NULL: the peer has closed. -/
def recv_closed (w : World) : World :=
  let w := wget_close_pcb w false
  if !w.job.header_done then wget_finish w false (some (ascii "BAD HTTP"))
  else if w.job.resource_kind = 0 ∧ 0 ≤ w.job.owner_win_id ∧
      w.wins w.job.owner_win_id = WINDOW_KIND_NETSURF then
    wget_finish w true none
  else if w.job.http_status ≠ 200 then wget_finish w false (some (ascii "HTTP FAIL"))
  else wget_finish w true none

def wget_recv_cb (w : World) (pcb : Nat) (p : Option (List Pbuf)) (err : Int) : World × Int :=
  if err ≠ ERR_OK then
    (wget_finish (wget_close_pcb w true) false (some (ascii "RECV ERR")), ERR_ABRT)
  else
    match p with
    | none => (recv_closed w, ERR_OK)
    | some p =>
      let w := if w.feeds then feed_chain pcb w p else w
      match recv_chain pcb w p with
      | (w, true) => (w, ERR_OK)
      | (w, false) =>
        let w := w.call pcb (.recved (chainBytes p).length)
        (if w.job.done then w else w.call pcb .output, ERR_OK)

end

/-! ## The other callbacks -/

def wget_err_cb (w : World) (err : Int) : World :=
  let w := { w with job := { w.job with pcb := none } }
  if w.job.done then w
  else
    let sign := if err < 0 then ascii "-" else []
    wget_finish w false (some (ascii "TCPERR " ++ sign ++ lib_itoa err.natAbs))

def Job.request (j : Job) : List UInt8 :=
  ascii "GET " ++ j.path ++ ascii " HTTP/1.0\r\nHost: " ++ j.host ++
    ascii "\r\nConnection: close\r\n\r\n"

def wget_connected_cb (w : World) (pcb : Nat) (err : Int) : World × Int :=
  if err ≠ ERR_OK then
    (wget_finish (wget_close_pcb w true) false (some (ascii "CONNECT FAIL")), err)
  else
    let w := { w with job := { w.job with stage := .recv } }
    let w := (w.call pcb (.recv true)).call pcb (.err true)
    ((w.call pcb (.write w.job.request)).call pcb .output, ERR_OK)

/-! ## Requests -/

/-- What `dns_gethostbyname_addrtype` returns. -/
inductive DnsAnswer
  | ok (addr : Nat)
  | inprogress
  | fail

/-- What the calls out of the code return during one step. -/
structure Oracle where
  sys_now : Nat
  dns : DnsAnswer
  tls_config : Bool
  altcp_new : Bool
  altcp_connect : Int

def wget_ensure_tls_allocator (o : Oracle) (w : World) : World × Bool :=
  ({ w with tls_conf := w.tls_conf || o.tls_config }, w.tls_conf || o.tls_config)

/-- `wget_start_with_addr` from `altcp_new` on. -/
def start_connection (o : Oracle) (w : World) (addr port : Nat) : World :=
  if !o.altcp_new then wget_finish w false (some (ascii "NO PCB"))
  else
    let p := w.pcbs
    let w := { w with job := { w.job with pcb := some p }, pcbs := p + 1 }.log (.new p)
    let w := w.call p (.bind w.local_port)
    let w := { w with local_port := if 60000 < w.local_port + 1 then 10000 else w.local_port + 1 }
    let w := (w.call p (.arg true)).call p (.err true)
    let w := w.call p (.connect addr port)
    if o.altcp_connect ≠ ERR_OK then
      wget_finish (wget_close_pcb w true) false (some (ascii "CONNECT FAIL"))
    else w

def wget_start_with_addr (o : Oracle) (w : World) (addr port : Nat) (use_tls : Bool) : World :=
  if w.job.active then w
  else
    let job := { w.job with active := true, stage := .connect, wait_started_ms := o.sys_now }
    let w := { w with job }
    if use_tls then
      match wget_ensure_tls_allocator o w with
      | (w, false) => wget_finish w false (some (ascii "TLS INIT FAIL"))
      | (w, true) => start_connection o w addr port
    else start_connection o w addr port

def wget_dns_found_cb (w : World) (q : Nat) (ipaddr : Option Nat) : World :=
  let w := { w with job := { w.job with resolve_in_progress := false } }.log (.reply q ipaddr)
  if !w.job.request_pending || w.job.done then w
  else
    match ipaddr with
    | none =>
      let job := { w.job with resolve_pending := false, request_pending := false }
      wget_finish { w with job } false (some (ascii "DNS FAIL"))
    | some a =>
      let job := { w.job with
        resolved_addr := a, resolved_addr_valid := true, resolve_pending := false }
      { w with job }

/-- The part of `wget_kick_if_needed` behind the DNS query. -/
def kick_connect (o : Oracle) (w : World) : World :=
  if !w.job.resolved_addr_valid then
    wget_finish { w with job := { w.job with request_pending := false } } false
      (some (ascii "DNS FAIL"))
  else
    let w := { w with job := { w.job with request_pending := false } }
    wget_start_with_addr o w w.job.resolved_addr w.job.port w.job.use_tls

def wget_kick_if_needed (o : Oracle) (w : World) : World :=
  if !w.job.request_pending || w.job.active then w
  else if !w.job.resolve_pending then kick_connect o w
  else if w.job.resolve_in_progress then w
  else
    let wait_started_ms := if w.job.wait_started_ms = 0 then o.sys_now else w.job.wait_started_ms
    let job := { w.job with resolve_in_progress := true, stage := .dns, wait_started_ms }
    let q := w.queries
    let w := { w with job, queries := q + 1 }.log (.query q job.host)
    match o.dns with
    | .ok a =>
      let job := { w.job with
        resolve_in_progress := false, resolve_pending := false, resolved_addr_valid := true
        resolved_addr := a, stage := .connect }
      kick_connect o ({ w with job }.log (.reply q (some a)))
    | .inprogress => w
    | .fail =>
      let job := { w.job with
        resolve_in_progress := false, resolve_pending := false, request_pending := false }
      wget_finish ({ w with job }.log (.reply q none)) false (some (ascii "DNS FAIL"))

/-- The arguments of `wget_queue_request_ex`. -/
structure Request where
  host : CString
  path : CString
  filename : CString
  port : Nat
  use_tls : Bool
  save_to_fs : Bool
  resource_kind : Int
  owner_win_id : Int

/-- The job that `wget_queue_request_ex` fills in after `wget_reset_job`. -/
def Request.job [NetConfig] (r : Request) (o : Oracle) : Job :=
  let job := { Job.zero with
    host := copyName20 r.host.bytes
    path := r.path.bytes
    filename := copyName20 r.filename.bytes
    port := if r.port = 0 then (if r.use_tls then 443 else 80) else r.port
    use_tls := r.use_tls
    resource_kind := r.resource_kind
    owner_win_id := r.owner_win_id
    request_pending := true
    save_pending := r.save_to_fs }
  match ipaddr_aton r.host.bytes with
  | none => { job with resolve_pending := true, stage := .dns, wait_started_ms := o.sys_now }
  | some a => { job with resolved_addr := a, resolved_addr_valid := true }

def wget_queue_request_ex [NetConfig] (o : Oracle) (w : World) (r : Request) : World :=
  wget_kick_if_needed o ({ w with job := r.job o }.log (.queued r.host.bytes))

/-- The difference of two times, as a 32-bit word. -/
def elapsed (now since : Nat) : Nat := (now + 2 ^ 32 - since) % 2 ^ 32

def wget_timeout_step (o : Oracle) (w : World) : World :=
  let j := w.job
  if j.done then w
  else if (j.resolve_pending || j.resolve_in_progress) && decide (j.wait_started_ms ≠ 0) &&
      decide (5000 < elapsed o.sys_now j.wait_started_ms) then
    let job := { j with
      resolve_pending := false, resolve_in_progress := false, request_pending := false }
    wget_finish { w with job } false (some (ascii "DNS TIMEOUT"))
  else if j.active && decide (j.wait_started_ms ≠ 0) && decide (j.stage = .connect) &&
      decide (10000 < elapsed o.sys_now j.wait_started_ms) then
    wget_finish (wget_close_pcb w true) false
      (some (if j.use_tls then ascii "TLS TIMEOUT" else ascii "TCP TIMEOUT"))
  else w

/-- The network task gives up a job whose terminal was interrupted. -/
def wget_interrupt (w : World) : World :=
  if w.job.request_pending || w.job.active then
    wget_finish (wget_close_pcb w true) false (some (ascii "INTERRUPTED"))
  else w

end vibeos.wget
