-- A link between a master and a slave that moves bursts: what went over its channels, and which
-- cycles keep the rules of either side when at most one write and one read are under way.
import Mathlib.Data.Option.Basic
import Mathlib.Tactic.SplitIfs

namespace vibeos.Burst

variable {A W B R : Type}

/-- What a channel held out without its being taken. -/
def held (valid ready : Bool) (x : A) : Option A := if valid && !ready then some x else none

theorem held_eq_some {valid ready : Bool} {x y : A} :
    held valid ready x = some y ↔ valid = true ∧ ready = false ∧ x = y := by
  unfold held
  cases valid <;> cases ready <;> simp

theorem held_of_not_valid {valid ready : Bool} (x : A) (h : valid = false) :
    held valid ready x = none := by
  rw [h]
  rfl

/-! ## Writes -/

structure WriteSignals (A W B : Type) where
  awvalid : Bool
  aw : A
  awready : Bool
  wvalid : Bool
  w : W
  wready : Bool
  bvalid : Bool
  b : B
  bready : Bool

namespace WriteSignals

def awFires (x : WriteSignals A W B) : Bool := x.awvalid && x.awready
def wFires (x : WriteSignals A W B) : Bool := x.wvalid && x.wready
def bFires (x : WriteSignals A W B) : Bool := x.bvalid && x.bready

end WriteSignals

/-- A write from its address to its response. -/
structure Write (A W B : Type) where
  aw : A
  beats : List W
  b : B
deriving DecidableEq

/-- The write under way, what was held out in the last cycle, and the writes that got their
response. -/
structure WriteLink (A W B : Type) where
  aw : Option A
  beats : List W
  heldAw : Option A
  heldW : Option W
  heldB : Option B
  done : List (Write A W B)

/-- How many beats an address asks for after the first, which beat is the last of its burst, and
which response belongs to an address. -/
structure WriteFormat (A W B : Type) where
  len : A → Nat
  last : W → Bool
  answers : A → B → Prop

namespace WriteLink

def start : WriteLink A W B := ⟨none, [], none, none, none, []⟩

def step (l : WriteLink A W B) (x : WriteSignals A W B) : WriteLink A W B where
  aw := if x.bFires then none else if x.awFires then some x.aw else l.aw
  beats := if x.bFires then [] else if x.wFires then l.beats ++ [x.w] else l.beats
  heldAw := held x.awvalid x.awready x.aw
  heldW := held x.wvalid x.wready x.w
  heldB := held x.bvalid x.bready x.b
  done := if x.bFires then l.done ++ l.aw.toList.map (⟨·, l.beats, x.b⟩) else l.done

/-- The address of the write under way, taken or held out. -/
def current (l : WriteLink A W B) : Option A := l.aw.or l.heldAw

/-- The address that a beat of this cycle belongs to. -/
def now (l : WriteLink A W B) (x : WriteSignals A W B) : A := l.aw.getD x.aw

/-- The master keeps what it holds out until it is taken, has one write under way, and gives the
beats that the address asks for, none of them before the address. -/
structure MasterOk (F : WriteFormat A W B) (l : WriteLink A W B) (x : WriteSignals A W B) :
    Prop where
  aw_held : ∀ a, l.heldAw = some a → x.awvalid = true ∧ x.aw = a
  w_held : ∀ w, l.heldW = some w → x.wvalid = true ∧ x.w = w
  one : x.awvalid = true → l.aw = none
  address_first : x.wvalid = true → x.awvalid = true ∨ l.aw.isSome = true
  room : x.wvalid = true → l.beats.length ≤ F.len (l.now x)
  last : x.wvalid = true → (F.last x.w = true ↔ l.beats.length = F.len (l.now x))

/-- The slave keeps its response until it is taken, and gives it to a whole write. -/
structure SlaveOk (F : WriteFormat A W B) (l : WriteLink A W B) (x : WriteSignals A W B) :
    Prop where
  b_held : ∀ b, l.heldB = some b → x.bvalid = true ∧ x.b = b
  whole : x.bvalid = true →
    ∃ a, l.aw = some a ∧ l.beats.length = F.len a + 1 ∧ F.answers a x.b

structure Idle (l : WriteLink A W B) : Prop where
  aw : l.aw = none
  beats : l.beats = []
  heldAw : l.heldAw = none
  heldW : l.heldW = none
  heldB : l.heldB = none

/-- What is under way belongs to one write. -/
structure Tidy (l : WriteLink A W B) : Prop where
  held_free : l.heldAw.isSome = true → l.aw = none
  owned : l.current = none → l.Idle

variable {F : WriteFormat A W B} {l : WriteLink A W B} {x : WriteSignals A W B}

theorem start_idle : (start : WriteLink A W B).Idle := ⟨rfl, rfl, rfl, rfl, rfl⟩

theorem start_tidy : (start : WriteLink A W B).Tidy := ⟨fun _ => rfl, fun _ => start_idle⟩

theorem SlaveOk.quiet (hs : SlaveOk F l x) (hm : MasterOk F l x) (hb : x.bvalid = true) :
    x.awvalid = false ∧ x.wvalid = false := by
  obtain ⟨a, haw, hlen, -⟩ := hs.whole hb
  constructor
  · cases hv : x.awvalid with
    | false => rfl
    | true => exact absurd (haw.symm.trans (hm.one hv)) (Option.some_ne_none a)
  · cases hv : x.wvalid with
    | false => rfl
    | true =>
      have hroom := hm.room hv
      unfold now at hroom
      rw [haw, Option.getD_some] at hroom
      omega

theorem SlaveOk.bFires_off (hs : SlaveOk F l x) (hm : MasterOk F l x)
    (hv : x.awvalid = true ∨ x.wvalid = true) : x.bFires = false := by
  cases hb : x.bFires with
  | false => rfl
  | true =>
    obtain ⟨haw, hw⟩ := hs.quiet hm (Bool.and_eq_true_iff.mp hb).1
    rw [haw, hw] at hv
    exact absurd hv (by decide)

theorem step_of_open (h : x.bFires = false) :
    (l.step x).aw = (if x.awFires then some x.aw else l.aw) ∧
      (l.step x).beats = if x.wFires then l.beats ++ [x.w] else l.beats := by
  unfold step
  rw [h]
  exact ⟨rfl, rfl⟩

theorem Idle.step (h : Idle l) (haw : x.awvalid = false) (hw : x.wvalid = false)
    (hb : x.bvalid = false) : Idle (l.step x) ∧ (l.step x).done = l.done := by
  unfold WriteLink.step WriteSignals.bFires WriteSignals.awFires WriteSignals.wFires
  rw [haw, hw, hb]
  exact ⟨⟨h.aw, h.beats, rfl, rfl, rfl⟩, rfl⟩

theorem MasterOk.now_eq (hm : MasterOk F l x) {a : A} (h : l.current = some a) : l.now x = a := by
  unfold current at h
  unfold now
  cases haw : l.aw with
  | some y =>
    rw [haw] at h
    exact Option.some.inj h
  | none =>
    rw [haw, Option.none_or] at h
    exact (hm.aw_held a h).2

theorem MasterOk.current_step (hm : MasterOk F l x) {a : A} (h : (l.step x).current = some a) :
    a = l.now x := by
  unfold current WriteLink.step at h
  dsimp only at h
  unfold now
  cases haw : l.aw with
  | some y =>
    have hoff : x.awvalid = false := by
      cases hv : x.awvalid with
      | false => rfl
      | true => exact absurd (haw.symm.trans (hm.one hv)) (Option.some_ne_none y)
    unfold WriteSignals.awFires at h
    rw [hoff, held_of_not_valid _ rfl, Option.or_none, haw, Bool.false_and,
      if_neg Bool.false_ne_true] at h
    split_ifs at h
    exact (Option.some.inj h).symm
  | none =>
    rw [haw] at h
    rw [Option.getD_none]
    unfold held at h
    split_ifs at h <;> simp_all

theorem step_tidy (h : Tidy l) (hm : MasterOk F l x) (hs : SlaveOk F l x) : Tidy (l.step x) where
  held_free hheld := by
    obtain ⟨a, ha⟩ := Option.isSome_iff_exists.mp hheld
    obtain ⟨hv, hr, -⟩ := held_eq_some.mp ha
    unfold step WriteSignals.awFires
    dsimp only
    rw [hr, Bool.and_false, if_neg Bool.false_ne_true, hm.one hv, ite_self]
  owned hnone := by
    obtain ⟨haw, hheld⟩ := Option.or_eq_none_iff.mp hnone
    cases hb : x.bvalid with
    | true =>
      obtain ⟨a, hsome, -⟩ := hs.whole hb
      obtain ⟨hawoff, hwoff⟩ := hs.quiet hm hb
      have hready : x.bready = true := by
        unfold step WriteSignals.bFires WriteSignals.awFires at haw
        dsimp only at haw
        rw [hb, hawoff, hsome] at haw
        cases hr : x.bready with
        | true => rfl
        | false =>
          rw [hr] at haw
          cases haw
      unfold step WriteSignals.bFires
      rw [hb, hready, hawoff, hwoff]
      exact ⟨rfl, rfl, rfl, rfl, rfl⟩
    | false =>
      have hnof : x.bFires = false := by
        unfold WriteSignals.bFires
        rw [hb, Bool.false_and]
      have hawoff : x.awvalid = false := by
        cases hv : x.awvalid with
        | false => rfl
        | true =>
          unfold step held WriteSignals.awFires at haw hheld
          dsimp only at haw hheld
          rw [hnof, hv] at haw
          rw [hv] at hheld
          cases hr : x.awready with
          | true =>
            rw [hr] at haw
            cases haw
          | false =>
            rw [hr] at hheld
            cases hheld
      have hlaw : l.aw = none := by
        unfold step WriteSignals.awFires at haw
        dsimp only at haw
        rw [hnof, hawoff] at haw
        exact haw
      have hlheld : l.heldAw = none := by
        cases hl : l.heldAw with
        | none => rfl
        | some a => exact absurd (hawoff.symm.trans (hm.aw_held a hl).1) Bool.false_ne_true
      have hidle := h.owned (by
        unfold current
        rw [hlaw, hlheld]
        rfl)
      have hwoff : x.wvalid = false := by
        cases hv : x.wvalid with
        | false => rfl
        | true =>
          rcases hm.address_first hv with haddr | haddr
          · exact absurd (hawoff.symm.trans haddr) Bool.false_ne_true
          · rw [hlaw] at haddr
            cases haddr
      exact (hidle.step hawoff hwoff hb).1

/-- The same write is under way on both links, with its address translated. -/
structure Follows (g : A → A) (l port : WriteLink A W B) : Prop where
  aw : port.aw = l.aw.map g
  beats : port.beats = l.beats
  heldW : port.heldW = l.heldW
  heldB : port.heldB = l.heldB

/-- The same is handed over on both links in a cycle. -/
structure Same (g : A → A) (x y : WriteSignals A W B) : Prop where
  awFires : y.awFires = x.awFires
  aw : x.awFires = true → y.aw = g x.aw
  wvalid : y.wvalid = x.wvalid
  wready : x.wvalid = true → y.wready = x.wready
  w : x.wvalid = true → y.w = x.w
  bvalid : y.bvalid = x.bvalid
  b : x.bvalid = true → y.b = x.b
  bready : y.bready = x.bready

theorem Same.bFires {g : A → A} {y : WriteSignals A W B} (hs : Same g x y) :
    y.bFires = x.bFires := by
  unfold WriteSignals.bFires
  rw [hs.bvalid, hs.bready]

theorem Follows.step {g : A → A} {port : WriteLink A W B} {y : WriteSignals A W B}
    (h : Follows g l port) (hs : Same g x y) : Follows g (l.step x) (port.step y) := by
  have hwFires : y.wFires = x.wFires := by
    unfold WriteSignals.wFires
    rw [hs.wvalid]
    cases hv : x.wvalid with
    | true => rw [hs.wready hv]
    | false => rfl
  unfold WriteLink.step
  rw [hs.bFires, hs.awFires, hwFires]
  constructor
  · dsimp only
    rw [h.aw]
    split_ifs with hb ha
    · rfl
    · rw [hs.aw ha]
      rfl
    · rfl
  · dsimp only
    rw [h.beats]
    split_ifs with hb hw
    · rfl
    · rw [hs.w (Bool.and_eq_true_iff.mp hw).1]
    · rfl
  · dsimp only
    unfold held
    rw [hs.wvalid]
    cases hv : x.wvalid with
    | true => rw [hs.wready hv, hs.w hv]
    | false => rfl
  · dsimp only
    unfold held
    rw [hs.bvalid, hs.bready]
    cases hv : x.bvalid with
    | true => rw [hs.b hv]
    | false => rfl

end WriteLink

/-! ## Reads -/

structure ReadSignals (A R : Type) where
  arvalid : Bool
  ar : A
  arready : Bool
  rvalid : Bool
  r : R
  rready : Bool

namespace ReadSignals

def arFires (x : ReadSignals A R) : Bool := x.arvalid && x.arready
def rFires (x : ReadSignals A R) : Bool := x.rvalid && x.rready

end ReadSignals

/-- A read from its address to its last beat. -/
structure Read (A R : Type) where
  ar : A
  beats : List R
deriving DecidableEq

/-- The read under way, what was held out in the last cycle, and the reads that got their last
beat. -/
structure ReadLink (A R : Type) where
  ar : Option A
  beats : List R
  heldAr : Option A
  heldR : Option R
  done : List (Read A R)

/-- How many beats an address asks for after the first, which beat is the last of its burst, and
which beats belong to an address. -/
structure ReadFormat (A R : Type) where
  len : A → Nat
  last : R → Bool
  answers : A → R → Prop

namespace ReadLink

def start : ReadLink A R := ⟨none, [], none, none, []⟩

def step (F : ReadFormat A R) (l : ReadLink A R) (x : ReadSignals A R) : ReadLink A R where
  ar := if x.rFires && F.last x.r then none else if x.arFires then some x.ar else l.ar
  beats := if x.rFires then if F.last x.r then [] else l.beats ++ [x.r] else l.beats
  heldAr := held x.arvalid x.arready x.ar
  heldR := held x.rvalid x.rready x.r
  done :=
    if x.rFires && F.last x.r then l.done ++ l.ar.toList.map (⟨·, l.beats ++ [x.r]⟩) else l.done

/-- The master keeps its address until it is taken, and has one read under way. -/
structure MasterOk (l : ReadLink A R) (x : ReadSignals A R) : Prop where
  ar_held : ∀ a, l.heldAr = some a → x.arvalid = true ∧ x.ar = a
  one : x.arvalid = true → l.ar = none

/-- The slave keeps a beat until it is taken, and gives the beats that the address asks for. -/
structure SlaveOk (F : ReadFormat A R) (l : ReadLink A R) (x : ReadSignals A R) : Prop where
  r_held : ∀ r, l.heldR = some r → x.rvalid = true ∧ x.r = r
  asked : x.rvalid = true → ∃ a, l.ar = some a ∧ l.beats.length ≤ F.len a ∧
    (F.last x.r = true ↔ l.beats.length = F.len a) ∧ F.answers a x.r

structure Idle (l : ReadLink A R) : Prop where
  ar : l.ar = none
  beats : l.beats = []
  heldAr : l.heldAr = none
  heldR : l.heldR = none

variable {F : ReadFormat A R} {l : ReadLink A R} {x : ReadSignals A R}

theorem start_idle : (start : ReadLink A R).Idle := ⟨rfl, rfl, rfl, rfl⟩

theorem Idle.step (h : Idle l) (har : x.arvalid = false) (hr : x.rvalid = false) :
    Idle (l.step F x) ∧ (l.step F x).done = l.done := by
  unfold ReadLink.step ReadSignals.arFires ReadSignals.rFires
  rw [har, hr]
  exact ⟨⟨h.ar, h.beats, rfl, rfl⟩, rfl⟩

/-- The same read is under way on both links, with its address translated. -/
structure Follows (g : A → A) (l port : ReadLink A R) : Prop where
  ar : port.ar = l.ar.map g
  beats : port.beats = l.beats
  heldAr : port.heldAr = l.heldAr.map g
  heldR : port.heldR = l.heldR

/-- The same happens on both links in a cycle. -/
structure Same (g : A → A) (x y : ReadSignals A R) : Prop where
  arvalid : y.arvalid = x.arvalid
  ar : y.ar = g x.ar
  arready : x.arvalid = true → y.arready = x.arready
  rvalid : y.rvalid = x.rvalid
  r : y.r = x.r
  rready : y.rready = x.rready

theorem Follows.step {g : A → A} {port : ReadLink A R} {y : ReadSignals A R}
    (h : Follows g l port) (hs : Same g x y) : Follows g (l.step F x) (port.step F y) := by
  have hrFires : y.rFires = x.rFires := by
    unfold ReadSignals.rFires
    rw [hs.rvalid, hs.rready]
  have harFires : y.arFires = x.arFires := by
    unfold ReadSignals.arFires
    rw [hs.arvalid]
    cases hv : x.arvalid with
    | true => rw [hs.arready hv]
    | false => rfl
  unfold ReadLink.step
  rw [hrFires, harFires, hs.r]
  constructor
  · dsimp only
    rw [h.ar, hs.ar]
    split_ifs <;> rfl
  · dsimp only
    rw [h.beats]
  · dsimp only
    unfold held
    rw [hs.arvalid, hs.ar]
    cases hv : x.arvalid with
    | true =>
      rw [hs.arready hv]
      cases x.arready <;> rfl
    | false => rfl
  · dsimp only
    rw [hs.rvalid, hs.rready]

end ReadLink

end vibeos.Burst
