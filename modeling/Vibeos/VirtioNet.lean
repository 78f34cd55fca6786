-- The transmit queue of virtio_net.c: the free list, the two rings shared with the device, and
-- the device as it takes buffers and returns them.
import Vibeos.RingWindow
import Mathlib.Data.List.Perm.Basic
import Mathlib.Data.List.Range
import Mathlib.Logic.Relation

namespace vibeos.net

open vibeos.Ring

/-! ## The code -/

def NET_QUEUE_SIZE : Nat := 64
def ETH_FRAME_SIZE : Nat := 1536

/-- The size of the queue: `tx_queue_size` is a power of two up to `NET_QUEUE_SIZE`. -/
structure QueueSize where
  log : Nat
  le : log ≤ 6

def QueueSize.size (q : QueueSize) : Nat := 2 ^ q.log

/-- The part of a descriptor that `net_linkout` writes: the buffer, and the length. -/
structure Desc where
  addr : Nat
  len : Nat

/-- The statics of the driver and the memory that it shares with the device. The buffers are one
piece of memory, a frame after the other. `dev_idx` is the device's own index into the available
ring, and `inflight` are the buffers that it has taken and not returned. -/
structure Net where
  tx_free_list : Nat → Nat
  tx_h : Nat
  tx_t : Nat
  avail_ring : Nat → Nat
  avail_idx : Nat
  used_ring : Nat → Nat
  used_idx : Nat
  tx_used_idx : Nat
  tx_desc : Nat → Desc
  tx_buffers : Nat → UInt8
  dev_idx : Nat
  inflight : List Nat

def next (i : Nat) : Nat := (i + 1) % 2 ^ 16

/-- The memory after a write of the bytes from the offset on. -/
def store (m : Nat → UInt8) (offset : Nat) (bytes : List UInt8) : Nat → UInt8 :=
  fun o => if offset ≤ o ∧ o < offset + bytes.length then bytes.getD (o - offset) 0 else m o

def tx_init (q : QueueSize) (s : Net) : Net :=
  { s with
    tx_free_list := fun i => if i < q.size then i else s.tx_free_list i
    tx_h := 0
    tx_t := q.size % 2 ^ 16 }

/-- The queue after `virtio_net_init`, with the rings cleared. -/
def Net.start (q : QueueSize) (tx_buffers : Nat → UInt8) : Net :=
  tx_init q
    { tx_free_list := fun _ => 0, tx_h := 0, tx_t := 0
      avail_ring := fun _ => 0, avail_idx := 0
      used_ring := fun _ => 0, used_idx := 0, tx_used_idx := 0
      tx_desc := fun _ => ⟨0, 0⟩, tx_buffers := tx_buffers
      dev_idx := 0, inflight := [] }

/-- One turn of the loop of `tx_recycle`, when there is one to take. -/
def tx_recycle_turn (q : QueueSize) (s : Net) : Option Net :=
  if s.tx_used_idx = s.used_idx then none
  else
    let id := s.used_ring (s.tx_used_idx % q.size)
    some { s with
      tx_free_list := write s.tx_free_list (s.tx_t % q.size) id
      tx_t := next s.tx_t
      tx_used_idx := next s.tx_used_idx }

inductive err_t where
  | ERR_OK
  | ERR_MEM
deriving DecidableEq

/-- `net_linkout` for a frame: ten zero bytes and the frame go to the buffer. -/
def net_linkout (q : QueueSize) (frame : List UInt8) (s : Net) : err_t × Net :=
  if s.tx_h = s.tx_t then (.ERR_MEM, s)
  else
    let id := s.tx_free_list (s.tx_h % q.size)
    (.ERR_OK,
      { s with
        tx_h := next s.tx_h
        tx_buffers := store s.tx_buffers (id * ETH_FRAME_SIZE) (List.replicate 10 0 ++ frame)
        tx_desc := fun i => if i = id then ⟨id * ETH_FRAME_SIZE, frame.length + 10⟩ else s.tx_desc i
        avail_ring := write s.avail_ring (s.avail_idx % q.size) id
        avail_idx := next s.avail_idx })

/-! ## The driver beside the device -/

/-- A step of the driver or of the device. The device takes the next buffer of the available
ring, and returns any that it has taken. -/
inductive Step (q : QueueSize) : Net → Net → Prop
  | linkout (s : Net) (frame : List UInt8) : Step q s (net_linkout q frame s).2
  | recycle {s s' : Net} (h : tx_recycle_turn q s = some s') : Step q s s'
  | take (s : Net) (h : s.dev_idx ≠ s.avail_idx) :
    Step q s { s with
      inflight := s.inflight ++ [s.avail_ring (s.dev_idx % q.size)]
      dev_idx := next s.dev_idx }
  | complete (s : Net) (before : List Nat) (id : Nat) (after : List Nat)
    (h : s.inflight = before ++ id :: after) :
    Step q s { s with
      inflight := before ++ after
      used_ring := write s.used_ring (s.used_idx % q.size) id
      used_idx := next s.used_idx }

def Reachable (q : QueueSize) (s : Net) : Prop :=
  ∃ m, Relation.ReflTransGen (Step q) (Net.start q m) s

/-- How far a counter of 16 bits is behind another. -/
def distance (first last : Nat) : Nat := (last + 2 ^ 16 - first) % 2 ^ 16

/-- The entries of a ring between two counters. -/
def entries (q : QueueSize) (ring : Nat → Nat) (first last : Nat) : List Nat :=
  (List.range (distance first last)).map fun i => ring ((first + i) % 2 ^ 16 % q.size)

def Net.free (q : QueueSize) (s : Net) : List Nat := entries q s.tx_free_list s.tx_h s.tx_t

/-- The buffers handed to the device: those in the available ring that it has not taken, and
those it has taken and not returned. -/
def Net.handed (q : QueueSize) (s : Net) : List Nat :=
  entries q s.avail_ring s.dev_idx s.avail_idx ++ s.inflight

/-- The buffers returned and not yet recycled. -/
def Net.completed (q : QueueSize) (s : Net) : List Nat :=
  entries q s.used_ring s.tx_used_idx s.used_idx

/-! ## Rings with counters of 16 bits -/

theorem QueueSize.dvd (q : QueueSize) : q.size ∣ 2 ^ 16 := Nat.pow_dvd_pow 2 (by have := q.le; omega)

theorem QueueSize.le_size (q : QueueSize) : q.size ≤ NET_QUEUE_SIZE :=
  Nat.pow_le_pow_right (by decide) q.le

section

variable {q : QueueSize} {ring : Nat → Nat} {first last : Nat} {l : List Nat}

/-- The ring holds the elements between the two counters. -/
def Queue (q : QueueSize) (ring : Nat → Nat) (first last : Nat) (l : List Nat) : Prop :=
  ∃ n, first = n % 2 ^ 16 ∧ last = (n + l.length) % 2 ^ 16 ∧ Window q.size ring n l

theorem Queue.length_lt (h : Queue q ring first last l) : l.length < 2 ^ 16 := by
  obtain ⟨n, -, -, hlen, -⟩ := h
  have := q.le_size
  unfold NET_QUEUE_SIZE at this
  omega

theorem Queue.empty_iff (h : Queue q ring first last l) : first = last ↔ l = [] := by
  have hlt := h.length_lt
  obtain ⟨n, rfl, rfl, -⟩ := h
  rw [wrap_eq_iff (by omega) (by omega)]
  constructor
  · intro heq
    exact List.length_eq_zero_iff.mp (by omega)
  · rintro rfl
    rfl

theorem Queue.entries_eq (h : Queue q ring first last l) : entries q ring first last = l := by
  have hlt := h.length_lt
  obtain ⟨n, rfl, rfl, -, hat⟩ := h
  have hdist : distance (n % 2 ^ 16) ((n + l.length) % 2 ^ 16) = l.length := by
    unfold distance
    omega
  apply List.ext_getElem
  · rw [entries, List.length_map, List.length_range, hdist]
  · intro i hi hi'
    have hplace : (n % 2 ^ 16 + i) % 2 ^ 16 % q.size = (n + i) % q.size := by
      rw [Nat.mod_add_mod, place_wrap q.dvd]
    simp only [entries, List.getElem_map, List.getElem_range, hplace]
    exact hat i hi'

theorem Queue.pop {x : Nat} (h : Queue q ring first last (x :: l)) :
    ring (first % q.size) = x ∧ Queue q ring (next first) last l := by
  obtain ⟨n, rfl, rfl, hwin⟩ := h
  obtain ⟨hx, hrest⟩ := hwin.pop
  rw [place_wrap q.dvd]
  refine ⟨hx, n + 1, ?_, ?_, hrest⟩
  · unfold next
    omega
  · rw [List.length_cons, Nat.add_right_comm, Nat.add_assoc]

theorem Queue.push (h : Queue q ring first last l) (hroom : l.length < q.size) (x : Nat) :
    Queue q (write ring (last % q.size) x) first (next last) (l ++ [x]) := by
  obtain ⟨n, rfl, rfl, hwin⟩ := h
  rw [place_wrap q.dvd]
  refine ⟨n, rfl, ?_, hwin.push hroom x⟩
  unfold next
  rw [List.length_append, List.length_singleton]
  omega

end

/-! ## Each buffer is in one place -/

/-- The buffers `f` are on the free list, `p` in the available ring and `c` in the used ring, and
every buffer is once among these and what the device has taken. -/
structure Owned (q : QueueSize) (s : Net) (f p c : List Nat) : Prop where
  free : Queue q s.tx_free_list s.tx_h s.tx_t f
  pending : Queue q s.avail_ring s.dev_idx s.avail_idx p
  completed : Queue q s.used_ring s.tx_used_idx s.used_idx c
  once : (f ++ (p ++ s.inflight) ++ c).Perm (List.range q.size)

variable {q : QueueSize} {s : Net} {f p c : List Nat}

theorem Owned.lengths (h : Owned q s f p c) :
    f.length + (p.length + s.inflight.length) + c.length = q.size := by
  simpa [Nat.add_assoc] using h.once.length_eq

theorem owned_start (q : QueueSize) (m : Nat → UInt8) :
    Owned q (.start q m) (List.range q.size) [] [] := by
  refine ⟨⟨0, rfl, ?_, ?_, fun i hi => ?_⟩, ⟨0, rfl, rfl, .nil _ _ _⟩, ⟨0, rfl, rfl, .nil _ _ _⟩,
    ?_⟩
  · simp [Net.start, tx_init]
  · simp
  · have hi' : i < q.size := by simpa using hi
    simp [Net.start, tx_init, Nat.mod_eq_of_lt hi', hi']
  · simp [Net.start, tx_init]

theorem owned_linkout {id : Nat} (h : Owned q s (id :: f) p c) (frame : List UInt8) :
    s.tx_free_list (s.tx_h % q.size) = id ∧
      Owned q (net_linkout q frame s).2 f (p ++ [id]) c := by
  obtain ⟨hid, hfree⟩ := h.free.pop
  have hlen := h.lengths
  rw [List.length_cons] at hlen
  have hsome : ¬ s.tx_h = s.tx_t := by
    rw [h.free.empty_iff]
    exact List.cons_ne_nil _ _
  refine ⟨hid, ?_⟩
  unfold net_linkout
  rw [if_neg hsome]
  dsimp only
  rw [hid]
  refine ⟨hfree, h.pending.push (by omega) id, h.completed, ?_⟩
  refine (List.perm_iff_count.mpr fun x => ?_).trans h.once
  simp only [List.count_append, List.count_cons, List.count_nil]
  omega

theorem owned_recycle {id : Nat} (h : Owned q s f p (id :: c)) :
    ∃ s', tx_recycle_turn q s = some s' ∧ Owned q s' (f ++ [id]) p c := by
  obtain ⟨hid, hcompleted⟩ := h.completed.pop
  have hlen := h.lengths
  rw [List.length_cons] at hlen
  have hsome : ¬ s.tx_used_idx = s.used_idx := by
    rw [h.completed.empty_iff]
    exact List.cons_ne_nil _ _
  unfold tx_recycle_turn
  rw [if_neg hsome]
  dsimp only
  rw [hid]
  refine ⟨_, rfl, h.free.push (by omega) id, h.pending, hcompleted, ?_⟩
  refine (List.perm_iff_count.mpr fun x => ?_).trans h.once
  simp only [List.count_append, List.count_cons, List.count_nil]
  omega

theorem owned_take {id : Nat} (h : Owned q s f (id :: p) c) :
    Owned q { s with
      inflight := s.inflight ++ [s.avail_ring (s.dev_idx % q.size)]
      dev_idx := next s.dev_idx } f p c := by
  obtain ⟨hid, hpending⟩ := h.pending.pop
  rw [hid]
  refine ⟨h.free, hpending, h.completed, ?_⟩
  refine (List.perm_iff_count.mpr fun x => ?_).trans h.once
  simp only [List.count_append, List.count_cons, List.count_nil]
  omega

theorem owned_complete {before after : List Nat} {id : Nat} (h : Owned q s f p c)
    (hin : s.inflight = before ++ id :: after) :
    Owned q { s with
      inflight := before ++ after
      used_ring := write s.used_ring (s.used_idx % q.size) id
      used_idx := next s.used_idx } f p (c ++ [id]) := by
  have hlen := h.lengths
  rw [hin, List.length_append, List.length_cons] at hlen
  refine ⟨h.free, h.pending, h.completed.push (by omega) id, ?_⟩
  refine (List.perm_iff_count.mpr fun x => ?_).trans h.once
  simp only [hin, List.count_append, List.count_cons, List.count_nil]
  omega

theorem owned_step {s' : Net} (h : Owned q s f p c) (hstep : Step q s s') :
    ∃ f' p' c', Owned q s' f' p' c' := by
  cases hstep with
  | linkout frame =>
    cases f with
    | nil =>
      have hempty : s.tx_h = s.tx_t := h.free.empty_iff.mpr rfl
      refine ⟨[], p, c, ?_⟩
      unfold net_linkout
      rw [if_pos hempty]
      exact h
    | cons id f => exact ⟨f, p ++ [id], c, (owned_linkout h frame).2⟩
  | recycle hturn =>
    cases c with
    | nil =>
      have hempty : s.tx_used_idx = s.used_idx := h.completed.empty_iff.mpr rfl
      rw [tx_recycle_turn, if_pos hempty] at hturn
      cases hturn
    | cons id c =>
      obtain ⟨s'', hturn', howned⟩ := owned_recycle h
      obtain rfl := Option.some.inj (hturn'.symm.trans hturn)
      exact ⟨f ++ [id], p, c, howned⟩
  | take hne =>
    cases p with
    | nil => exact absurd (h.pending.empty_iff.mpr rfl) hne
    | cons id p => exact ⟨f, p, c, owned_take h⟩
  | complete before id after hin => exact ⟨f, p, c ++ [id], owned_complete h hin⟩

theorem owned_of_reachable (h : Reachable q s) : ∃ f p c, Owned q s f p c := by
  obtain ⟨m, hrun⟩ := h
  induction hrun with
  | refl => exact ⟨_, _, _, owned_start q m⟩
  | tail _ hstep ih =>
    obtain ⟨f, p, c, howned⟩ := ih
    exact owned_step howned hstep

theorem linkout_writes (frame : List UInt8) (hfits : frame.length + 10 ≤ ETH_FRAME_SIZE)
    {o : Nat} (ho : o / ETH_FRAME_SIZE ≠ s.tx_free_list (s.tx_h % q.size)) :
    (net_linkout q frame s).2.tx_buffers o = s.tx_buffers o := by
  unfold net_linkout
  split_ifs
  · rfl
  · have hlen : (List.replicate 10 (0 : UInt8) ++ frame).length = frame.length + 10 := by
      rw [List.length_append, List.length_replicate, Nat.add_comm]
    dsimp only
    unfold store
    rw [if_neg]
    rw [hlen]
    rintro ⟨hlow, hhigh⟩
    apply ho
    unfold ETH_FRAME_SIZE at *
    omega

/-- In every state that the driver and the device reach, every buffer is in one place: on the
free list, with the device or returned. The frame that is sent next goes to a buffer of the free
list, and changes no other. -/
theorem buffers_owned_once (h : Reachable q s) :
    (s.free q ++ s.handed q ++ s.completed q).Perm (List.range q.size) ∧
      ∀ frame : List UInt8, (net_linkout q frame s).1 = .ERR_OK →
        let id := s.tx_free_list (s.tx_h % q.size)
        id ∈ s.free q ∧ id ∈ (net_linkout q frame s).2.handed q ∧
          (frame.length + 10 ≤ ETH_FRAME_SIZE → ∀ o, o / ETH_FRAME_SIZE ≠ id →
            (net_linkout q frame s).2.tx_buffers o = s.tx_buffers o) := by
  obtain ⟨f, p, c, howned⟩ := owned_of_reachable h
  have hfree : s.free q = f := howned.free.entries_eq
  have hhanded : s.handed q = p ++ s.inflight := by
    rw [Net.handed, howned.pending.entries_eq]
  have hcompleted : s.completed q = c := howned.completed.entries_eq
  rw [hfree, hhanded, hcompleted]
  refine ⟨howned.once, fun frame hok => ?_⟩
  cases f with
  | nil =>
    have hempty : s.tx_h = s.tx_t := howned.free.empty_iff.mpr rfl
    rw [net_linkout, if_pos hempty] at hok
    cases hok
  | cons id f =>
    obtain ⟨hid, hnext⟩ := owned_linkout howned frame
    dsimp only
    refine ⟨by rw [hid]; exact List.mem_cons_self, ?_, fun hfits o ho => ?_⟩
    · rw [Net.handed, hnext.pending.entries_eq, hid]
      simp
    · exact linkout_writes frame hfits ho

def fullQueue : QueueSize := ⟨6, le_refl 6⟩

/-- A frame is sent from a queue of full size, and the device takes its buffer. -/
def oneTaken : Net :=
  let s := (net_linkout fullQueue [1, 2] (.start fullQueue fun _ => 0)).2
  { s with
    inflight := s.inflight ++ [s.avail_ring (s.dev_idx % fullQueue.size)]
    dev_idx := next s.dev_idx }

def oneReturned : Net :=
  { oneTaken with
    inflight := []
    used_ring := write oneTaken.used_ring (oneTaken.used_idx % fullQueue.size) 0
    used_idx := next oneTaken.used_idx }

def oneRecycled : Net := (tx_recycle_turn fullQueue oneReturned).getD oneReturned

/-- The buffer is on the free list again, behind the others. -/
theorem one_frame_owned :
    (oneRecycled.free fullQueue ++ oneRecycled.handed fullQueue ++
        oneRecycled.completed fullQueue).Perm (List.range fullQueue.size) ∧
      oneRecycled.free fullQueue = List.range' 1 63 ++ [0] := by
  have htaken : Reachable fullQueue oneTaken :=
    ⟨fun _ => 0, .tail (.single (.linkout _ [1, 2])) (.take _ (by decide))⟩
  obtain ⟨m, hsteps⟩ := htaken
  have hrecycled : Reachable fullQueue oneRecycled :=
    ⟨m, .tail (.tail hsteps (.complete oneTaken [] 0 [] rfl)) (.recycle rfl)⟩
  exact ⟨(buffers_owned_once hrecycled).1, by decide⟩

end vibeos.net
