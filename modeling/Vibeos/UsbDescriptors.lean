-- usb_hid_parse_config of virtio_input.c: the walk over the descriptors of a USB
-- configuration, and the endpoints that it takes as the keyboard and the mouse.
import Mathlib.Data.List.Basic
import Mathlib.Tactic.Common
import Vibeos.Loops

namespace vibeos.usb

/-! ## The code -/

/-- The fields of `usb_mouse` that the walk sets. -/
structure UsbMouse where
  iface : Int
  kbd_iface : Int
  intr_ep : Nat
  intr_mps : Nat
  kbd_ep : Nat
  kbd_mps : Nat
deriving DecidableEq

/-- The sizes of `report` and `kbd_report`. -/
def REPORT_SIZE : Nat := 8

def fresh : UsbMouse where
  iface := -1
  kbd_iface := -1
  intr_ep := 0
  intr_mps := 4
  kbd_ep := 0
  kbd_mps := 8

/-- What becomes of an interrupt-IN endpoint of a HID interface. -/
def select (m : UsbMouse) (hid_iface : Int) (hid_proto ep mps : Nat) : UsbMouse :=
  if (hid_proto = 1 ∨ 7 ≤ mps) ∧ m.kbd_ep = 0 then
    { m with
      kbd_iface := hid_iface, kbd_ep := ep
      kbd_mps := if REPORT_SIZE < mps then REPORT_SIZE else mps }
  else if m.intr_ep = 0 then
    { m with
      iface := hid_iface, intr_ep := ep
      intr_mps := if REPORT_SIZE < mps then REPORT_SIZE else mps }
  else m

structure Walk where
  i : Nat
  iface : Int
  hid_iface : Int
  hid_proto : Nat
  usb_mouse : UsbMouse

/-- A read of a byte; none is a read behind the end. -/
def byte (d : List UInt8) (i : Nat) : Option Nat := d[i]?.map UInt8.toNat

/-- The body of the loop for the descriptor at `i`, with its length and its type. -/
def descriptor (d : List UInt8) (w : Walk) (len type : Nat) : Option Walk :=
  if type = 4 ∧ 9 ≤ len then do
    let iface ← byte d (w.i + 2)
    let cls ← byte d (w.i + 5)
    if cls = 3 then
      let proto ← byte d (w.i + 7)
      return { w with iface := iface, hid_iface := iface, hid_proto := proto }
    else return { w with iface := iface, hid_iface := -1, hid_proto := 0 }
  else if type = 5 ∧ 7 ≤ len ∧ 0 ≤ w.hid_iface then do
    let attr ← byte d (w.i + 3)
    if attr % 4 = 3 then
      let addr ← byte d (w.i + 2)
      if 128 ≤ addr then
        let low ← byte d (w.i + 4)
        let high ← byte d (w.i + 5)
        return { w with
          usb_mouse := select w.usb_mouse w.hid_iface w.hid_proto (addr % 16) (low + 256 * high) }
      else return w
    else return w
  else return w

/-- What the call returns, with the fields. -/
def finish (m : UsbMouse) : Int × UsbMouse := (if m.intr_ep ≠ 0 ∨ m.kbd_ep ≠ 0 then 0 else -1, m)

/-- A turn of the loop. It leaves with none after a read behind the end. -/
def turn (d : List UInt8) (w : Walk) : Walk ⊕ Option (Int × UsbMouse) :=
  if ¬ w.i + 2 ≤ d.length then .inr (some (finish w.usb_mouse))
  else
    match byte d w.i with
    | none => .inr none
    | some len =>
      if len < 2 then .inr (some (finish w.usb_mouse))
      else if d.length < w.i + len then .inr (some (finish w.usb_mouse))
      else
        match (byte d (w.i + 1)).bind fun type => descriptor d w len type with
        | none => .inr none
        | some w => .inl { w with i := w.i + len }

/-- `usb_hid_parse_config` of the bytes `d`, with the states of its loop: the value that it
returns and the fields, or none where it reads a byte behind the end. -/
def usb_hid_parse_config (d : List UInt8) : List Walk → Option (Int × UsbMouse) → Prop :=
  Loop (turn d) ⟨0, -1, -1, 0, fresh⟩

/-! ## What the descriptors say -/

/-- The descriptors of a configuration: each begins with its length. -/
def descriptors (bytes : List UInt8) : List (List UInt8) :=
  match bytes with
  | [] => []
  | len :: rest =>
    if 2 ≤ len.toNat ∧ len.toNat ≤ rest.length + 1 then
      (len :: rest.take (len.toNat - 1)) :: descriptors (rest.drop (len.toNat - 1))
    else []
termination_by bytes.length
decreasing_by
  rw [List.length_drop, List.length_cons]
  omega

/-- What an interface descriptor says of its interface. -/
structure Interface where
  number : Nat
  cls : Nat
  subclass : Nat
  protocol : Nat
deriving DecidableEq

def interface? : List UInt8 → Option Interface
  | _ :: type :: number :: _ :: _ :: cls :: subclass :: protocol :: _ :: _ =>
    if type = 4 then some ⟨number.toNat, cls.toNat, subclass.toNat, protocol.toNat⟩ else none
  | _ => none

/-- The number and the packet size of an interrupt-IN endpoint. -/
def interruptIn? : List UInt8 → Option (Nat × Nat)
  | _ :: type :: addr :: attr :: low :: high :: _ :: _ =>
    if type = 5 ∧ attr.toNat % 4 = 3 ∧ 128 ≤ addr.toNat then
      some (addr.toNat % 16, low.toNat + 256 * high.toNat)
    else none
  | _ => none

/-- An interrupt-IN endpoint of a HID interface. -/
structure Endpoint where
  interface : Interface
  number : Nat
  mps : Nat
deriving DecidableEq

/-- The interrupt-IN endpoints of the HID interfaces. An endpoint belongs to the interface
before it. -/
def endpoints : Option Interface → List (List UInt8) → List Endpoint
  | _, [] => []
  | iface, desc :: rest =>
    match interface? desc with
    | some iface => endpoints (some iface) rest
    | none =>
      match iface, interruptIn? desc with
      | some iface, some (number, mps) =>
        if iface.cls = 3 then ⟨iface, number, mps⟩ :: endpoints (some iface) rest
        else endpoints (some iface) rest
      | iface, _ => endpoints iface rest

def hidEndpoints (d : List UInt8) : List Endpoint := endpoints none (descriptors d)

/-- A boot keyboard, as its interface says. -/
def Endpoint.Boot (e : Endpoint) : Prop := e.interface.subclass = 1 ∧ e.interface.protocol = 1

instance (e : Endpoint) : Decidable e.Boot := inferInstanceAs (Decidable (_ ∧ _))

/-- The walk has the endpoint as its keyboard. -/
def Endpoint.IsKeyboard (e : Endpoint) (m : UsbMouse) : Prop :=
  m.kbd_ep = e.number ∧ m.kbd_iface = e.interface.number

def Endpoint.IsMouse (e : Endpoint) (m : UsbMouse) : Prop :=
  m.intr_ep = e.number ∧ m.iface = e.interface.number

/-- What a walk should select. An endpoint number 0 stands for none. -/
structure Selects (es : List Endpoint) (rc : Int) (m : UsbMouse) : Prop where
  found : rc = 0 ↔ es ≠ []
  keyboard : rc = 0 → m.kbd_ep ≠ 0 → ∃ e ∈ es, e.IsKeyboard m
  mouse : rc = 0 → m.intr_ep ≠ 0 → ∃ e ∈ es, e.IsMouse m
  two : rc = 0 → m.kbd_ep ≠ 0 → m.intr_ep ≠ 0 → m.kbd_ep ≠ m.intr_ep
  boot : rc = 0 → (∃ e ∈ es, e.Boot) → m.kbd_ep ≠ 0 ∧ ∃ e ∈ es, e.Boot ∧ e.IsKeyboard m
  kbd_size : m.kbd_mps ≤ REPORT_SIZE
  intr_size : m.intr_mps ≤ REPORT_SIZE

/-! ## The walk follows the descriptors -/

theorem byte_drop (d : List UInt8) (i k : Nat) : byte d (i + k) = byte (d.drop i) k := by
  simp [byte]

/-- The interface that the variables of the loop stand for. -/
def Walk.In (w : Walk) : Option Interface → Prop
  | some iface =>
    if iface.cls = 3 then w.hid_iface = iface.number ∧ w.hid_proto = iface.protocol
    else w.hid_iface = -1
  | none => w.hid_iface = -1

def take (m : UsbMouse) (e : Endpoint) : UsbMouse :=
  select m e.interface.number e.interface.protocol e.number e.mps

def At (d : List UInt8) (i : Nat) (desc : List UInt8) : Prop :=
  ∀ k < desc.length, byte d (i + k) = desc[k]?.map UInt8.toNat

variable {d desc : List UInt8} {w : Walk} {iface : Option Interface} {rest : List (List UInt8)}

theorem descriptor_interface (hat : At d w.i desc) {found : Interface}
    (h : interface? desc = some found) :
    byte d (w.i + 1) = some 4 ∧ ∃ w', descriptor d w desc.length 4 = some w' ∧
      w'.In (some found) ∧ w'.i = w.i ∧ w'.usb_mouse = w.usb_mouse := by
  unfold interface? at h
  split at h
  · rename_i a type number b c cls subclass protocol e tail
    split at h
    · rename_i htype
      cases h
      have h1 := hat 1 (by simp)
      have h2 := hat 2 (by simp)
      have h5 := hat 5 (by simp)
      have h7 := hat 7 (by simp)
      simp only [List.getElem?_cons_succ, List.getElem?_cons_zero, Option.map_some] at h1 h2 h5 h7
      refine ⟨by simp [h1, htype], ?_⟩
      unfold descriptor
      rw [if_pos (by simp)]
      by_cases hcls : cls.toNat = 3
      · simp [h2, h5, h7, hcls, Walk.In]
      · simp [h2, h5, hcls, Walk.In]
    · cases h
  · cases h

theorem not_interface (hat : At d w.i desc) (h : interface? desc = none) {type : Nat}
    (htype : byte d (w.i + 1) = some type) : ¬ (type = 4 ∧ 9 ≤ desc.length) := by
  rintro ⟨rfl, hlen⟩
  match desc, hlen with
  | _ :: type :: _ :: _ :: _ :: _ :: _ :: _ :: _ :: _, _ =>
    have h1 := hat 1 (by simp)
    rw [htype] at h1
    have htype' : type = 4 := by
      apply UInt8.toNat_inj.mp
      simpa using h1.symm
    simp [interface?, htype'] at h

theorem Walk.In.hid_iff (hin : w.In iface) :
    0 ≤ w.hid_iface ↔ ∃ found, iface = some found ∧ found.cls = 3 := by
  cases iface with
  | none =>
    have : w.hid_iface = -1 := hin
    simp [this]
  | some found =>
    simp only [Walk.In] at hin
    split at hin
    · rename_i hcls
      simp [hin.1, hcls]
    · rename_i hcls
      simp [hin, hcls]

theorem descriptor_endpoint (hat : At d w.i desc) {found : Interface} (hin : w.In (some found))
    (hcls : found.cls = 3) {number mps : Nat} (h : interruptIn? desc = some (number, mps)) :
    byte d (w.i + 1) = some 5 ∧ descriptor d w desc.length 5 =
      some { w with usb_mouse := take w.usb_mouse ⟨found, number, mps⟩ } := by
  have hhid := hin.hid_iff.mpr ⟨found, rfl, hcls⟩
  simp only [Walk.In, hcls, if_true] at hin
  unfold interruptIn? at h
  split at h
  · rename_i a type addr attr low high b tail
    split at h
    · rename_i hc
      cases h
      obtain ⟨htype, hattr, haddr⟩ := hc
      have h1 := hat 1 (by simp)
      have h2 := hat 2 (by simp)
      have h3 := hat 3 (by simp)
      have h4 := hat 4 (by simp)
      have h5 := hat 5 (by simp)
      simp only [List.getElem?_cons_succ, List.getElem?_cons_zero, Option.map_some] at h1 h2 h3 h4 h5
      refine ⟨by simp [h1, htype], ?_⟩
      unfold descriptor
      rw [if_neg (by omega), if_pos ⟨rfl, by simp, hhid⟩]
      simp [h2, h3, h4, h5, hattr, haddr, take, hin]
    · cases h
  · cases h

theorem descriptor_other (hat : At d w.i desc) (hin : w.In iface) (hiface : interface? desc = none)
    {type : Nat} (htype : byte d (w.i + 1) = some type)
    (h : ∀ found, iface = some found → found.cls = 3 → interruptIn? desc = none) :
    descriptor d w desc.length type = some w := by
  unfold descriptor
  rw [if_neg (not_interface hat hiface htype)]
  by_cases hep : type = 5 ∧ 7 ≤ desc.length ∧ 0 ≤ w.hid_iface
  · obtain ⟨rfl, hlen, hhid⟩ := hep
    obtain ⟨found, rfl, hcls⟩ := hin.hid_iff.mp hhid
    have hnone := h found rfl hcls
    match desc, hlen with
    | a :: type :: addr :: attr :: low :: high :: b :: tail, _ =>
      have h1 := hat 1 (by simp)
      have h2 := hat 2 (by simp)
      have h3 := hat 3 (by simp)
      simp only [List.getElem?_cons_succ, List.getElem?_cons_zero, Option.map_some] at h1 h2 h3
      rw [htype] at h1
      have htype' : type = 5 := by
        apply UInt8.toNat_inj.mp
        simpa using h1.symm
      simp only [interruptIn?, htype', true_and, ite_eq_right_iff, reduceCtorEq, imp_false,
        not_and] at hnone
      rw [if_pos ⟨rfl, by simp, hhid⟩]
      by_cases hattr : attr.toNat % 4 = 3
      · simp [h2, h3, hnone hattr]
      · simp [h3, hattr]
  · rw [if_neg hep]
    rfl

theorem descriptor_step (hat : At d w.i desc) (hlen : 2 ≤ desc.length) (hin : w.In iface) :
    ∃ type w' iface', byte d (w.i + 1) = some type ∧
      descriptor d w desc.length type = some w' ∧ w'.i = w.i ∧ w'.In iface' ∧
      ∀ rest, (endpoints iface (desc :: rest)).foldl take w.usb_mouse =
        (endpoints iface' rest).foldl take w'.usb_mouse := by
  cases hiface : interface? desc with
  | some found =>
    obtain ⟨htype, w', hw', hin', hi, hmouse⟩ := descriptor_interface hat hiface
    refine ⟨4, w', some found, htype, hw', hi, hin', fun rest => ?_⟩
    simp [endpoints, hiface, hmouse]
  | none =>
    obtain ⟨type, htype⟩ : ∃ type, byte d (w.i + 1) = some type := by
      rw [hat 1 hlen, List.getElem?_eq_getElem hlen]
      exact ⟨_, rfl⟩
    by_cases htake : ∃ found number mps, iface = some found ∧ found.cls = 3 ∧
        interruptIn? desc = some (number, mps)
    · obtain ⟨found, number, mps, rfl, hcls, hep⟩ := htake
      obtain ⟨htype, hw'⟩ := descriptor_endpoint hat hin hcls hep
      refine ⟨5, _, some found, htype, hw', rfl, hin, fun rest => ?_⟩
      simp [endpoints, hiface, hep, hcls]
    · refine ⟨type, w, iface, htype, descriptor_other hat hin hiface htype ?_, rfl, hin, ?_⟩
      · intro found hfound hcls
        rw [Option.eq_none_iff_forall_ne_some]
        rintro ⟨number, mps⟩ hep
        exact htake ⟨found, number, mps, hfound, hcls, hep⟩
      · intro rest
        cases iface with
        | none => simp [endpoints, hiface]
        | some found =>
          cases hep : interruptIn? desc with
          | none => simp [endpoints, hiface, hep]
          | some e =>
            have hcls : found.cls ≠ 3 := fun hcls => htake ⟨found, e.1, e.2, rfl, hcls, hep⟩
            simp [endpoints, hiface, hep, hcls]

/-! ## The walk -/

theorem turn_end (h : descriptors (d.drop w.i) = []) : turn d w = .inr (some (finish w.usb_mouse)) := by
  unfold turn
  by_cases hlen : w.i + 2 ≤ d.length
  · have hi : w.i < d.length := by omega
    rw [if_neg (not_not.mpr hlen), byte, List.getElem?_eq_getElem hi]
    rw [List.drop_eq_getElem_cons hi, descriptors] at h
    simp only [List.length_drop, ite_eq_right_iff, reduceCtorEq, imp_false, not_and] at h
    dsimp only [Option.map_some]
    split
    · rfl
    · rw [if_pos]
      have := h (by omega)
      omega
  · rw [if_pos hlen]

theorem turn_step (h : descriptors (d.drop w.i) = desc :: rest) (hin : w.In iface) :
    ∃ w' iface', turn d w = .inl w' ∧ w'.In iface' ∧ descriptors (d.drop w'.i) = rest ∧
      w.i < w'.i ∧ w'.i ≤ d.length ∧
      (endpoints iface (desc :: rest)).foldl take w.usb_mouse =
        (endpoints iface' rest).foldl take w'.usb_mouse := by
  have hi : w.i < d.length := by
    by_contra hge
    rw [List.drop_eq_nil_of_le (by omega), descriptors] at h
    cases h
  rw [List.drop_eq_getElem_cons hi, descriptors] at h
  split at h
  · rename_i hc
    obtain ⟨hlen, hfits⟩ := hc
    rw [List.length_drop] at hfits
    obtain ⟨hdesc, hrest⟩ := List.cons.inj h
    have htake : desc = (d.drop w.i).take d[w.i].toNat := by
      rw [← hdesc, List.drop_eq_getElem_cons hi]
      obtain ⟨n, hn⟩ : ∃ n, d[w.i].toNat = n + 1 := ⟨d[w.i].toNat - 1, by omega⟩
      rw [hn, List.take_succ_cons, Nat.add_sub_cancel]
    have hdlen : desc.length = d[w.i].toNat := by
      rw [htake, List.length_take, List.length_drop]
      omega
    have hat : At d w.i desc := by
      intro k hk
      rw [byte_drop, byte, htake, List.getElem?_take_of_lt (by omega)]
    obtain ⟨type, w', iface', htype, hw', hi', hin', hfold⟩ := descriptor_step hat (by omega) hin
    refine ⟨{ w' with i := w'.i + d[w.i].toNat }, iface', ?_, hin', ?_, ?_, ?_, hfold rest⟩
    · unfold turn
      rw [if_neg (by omega), byte, List.getElem?_eq_getElem hi]
      dsimp only [Option.map_some]
      rw [if_neg (by omega), if_neg (by omega), htype, ← hdlen]
      dsimp only [Option.bind_some]
      rw [hw']
    · rw [← hrest, List.drop_drop]
      dsimp only
      rw [hi', show w.i + 1 + (d[w.i].toNat - 1) = w.i + d[w.i].toNat by omega]
    · dsimp only
      omega
    · dsimp only
      omega
  · cases h

theorem loop_walk (w : Walk) (hin : w.In iface) :
    ∃ visited, Loop (turn d) w visited (some (finish
      ((endpoints iface (descriptors (d.drop w.i))).foldl take w.usb_mouse))) := by
  generalize hn : d.length - w.i = n
  induction n using Nat.strongRecOn generalizing w iface with
  | ind n ih =>
    cases h : descriptors (d.drop w.i) with
    | nil => exact ⟨[], .leave (turn_end h)⟩
    | cons desc rest =>
      obtain ⟨w', iface', hturn, hin', hrest, hlt, hle, hfold⟩ := turn_step h hin
      obtain ⟨visited, hloop⟩ := ih (d.length - w'.i) (by omega) w' hin' rfl
      rw [hrest, ← hfold] at hloop
      exact ⟨w :: visited, .turn hturn hloop⟩

/-! ## The endpoints that are taken -/

/-- What the walk looks for in a keyboard: its protocol, or a large packet. -/
def Endpoint.Wanted (e : Endpoint) : Prop := e.interface.protocol = 1 ∨ 7 ≤ e.mps

instance (e : Endpoint) : Decidable e.Wanted := inferInstanceAs (Decidable (_ ∨ _))

/-- The endpoints with a number of their own. -/
def usable (es : List Endpoint) : List Endpoint := es.filter (·.number ≠ 0)

def keyboard? (es : List Endpoint) : Option Endpoint := (usable es).find? (·.Wanted)

def mouse? (es : List Endpoint) : Option Endpoint := ((usable es).eraseP (·.Wanted)).head?

/-- The fields hold the endpoint, or none. -/
def Held (ep : Nat) (iface : Int) : Option Endpoint → Prop
  | some e => ep = e.number ∧ iface = e.interface.number
  | none => ep = 0

variable {m : UsbMouse} {e : Endpoint} {es : List Endpoint}

theorem take_keyboard (hm : m.kbd_ep = 0) (he : e.Wanted) :
    (take m e).kbd_ep = e.number ∧ (take m e).kbd_iface = e.interface.number ∧
      (take m e).intr_ep = m.intr_ep := by
  unfold take select
  rw [if_pos ⟨he, hm⟩]
  exact ⟨rfl, rfl, rfl⟩

theorem take_mouse (hm : m.intr_ep = 0) (he : m.kbd_ep ≠ 0 ∨ ¬ e.Wanted) :
    (take m e).intr_ep = e.number ∧ (take m e).iface = e.interface.number ∧
      (take m e).kbd_ep = m.kbd_ep := by
  unfold take select
  rw [if_neg (by unfold Endpoint.Wanted at he; tauto), if_pos hm]
  exact ⟨rfl, rfl, rfl⟩

theorem take_keeps_keyboard (h : m.kbd_ep ≠ 0 ∨ ¬ e.Wanted) :
    (take m e).kbd_ep = m.kbd_ep ∧ (take m e).kbd_iface = m.kbd_iface := by
  unfold take select
  rw [if_neg (by unfold Endpoint.Wanted at h; tauto)]
  split <;> exact ⟨rfl, rfl⟩

theorem take_keeps_mouse (hm : m.intr_ep ≠ 0) :
    (take m e).intr_ep = m.intr_ep ∧ (take m e).iface = m.iface := by
  unfold take select
  rw [if_neg hm]
  split <;> exact ⟨rfl, rfl⟩

theorem take_sizes (h : m.kbd_mps ≤ REPORT_SIZE ∧ m.intr_mps ≤ REPORT_SIZE) :
    (take m e).kbd_mps ≤ REPORT_SIZE ∧ (take m e).intr_mps ≤ REPORT_SIZE := by
  unfold take select
  split
  · dsimp only
    split <;> omega
  split
  · dsimp only
    split <;> omega
  · exact h

theorem foldl_sizes (h : m.kbd_mps ≤ REPORT_SIZE ∧ m.intr_mps ≤ REPORT_SIZE) :
    (es.foldl take m).kbd_mps ≤ REPORT_SIZE ∧ (es.foldl take m).intr_mps ≤ REPORT_SIZE := by
  induction es generalizing m with
  | nil => exact h
  | cons e es ih => exact ih (take_sizes h)

theorem foldl_keeps_keyboard (h : m.kbd_ep ≠ 0) :
    (es.foldl take m).kbd_ep = m.kbd_ep ∧ (es.foldl take m).kbd_iface = m.kbd_iface := by
  induction es generalizing m with
  | nil => exact ⟨rfl, rfl⟩
  | cons e es ih =>
    obtain ⟨hep, hiface⟩ := take_keeps_keyboard (e := e) (Or.inl h)
    obtain ⟨hep', hiface'⟩ := ih (hep ▸ h)
    exact ⟨hep'.trans hep, hiface'.trans hiface⟩

theorem foldl_keeps_mouse (h : m.intr_ep ≠ 0) :
    (es.foldl take m).intr_ep = m.intr_ep ∧ (es.foldl take m).iface = m.iface := by
  induction es generalizing m with
  | nil => exact ⟨rfl, rfl⟩
  | cons e es ih =>
    obtain ⟨hep, hiface⟩ := take_keeps_mouse (e := e) h
    obtain ⟨hep', hiface'⟩ := ih (hep ▸ h)
    exact ⟨hep'.trans hep, hiface'.trans hiface⟩

theorem foldl_keyboard (h : m.kbd_ep = 0) :
    Held (es.foldl take m).kbd_ep (es.foldl take m).kbd_iface (keyboard? es) := by
  induction es generalizing m with
  | nil => exact h
  | cons e es ih =>
    by_cases hw : e.Wanted
    · obtain ⟨hep, hiface, _⟩ := take_keyboard h hw
      by_cases hnum : e.number = 0
      · have := ih (hep.trans hnum)
        simpa [keyboard?, usable, hnum] using this
      · obtain ⟨hep', hiface'⟩ := @foldl_keeps_keyboard _ es (hep ▸ hnum)
        simp [keyboard?, usable, hnum, hw, Held, hep', hiface', hep, hiface]
    · obtain ⟨hep, _⟩ := take_keeps_keyboard (m := m) (Or.inr hw)
      have := ih (hep.trans h)
      by_cases hnum : e.number = 0
      · simpa [keyboard?, usable, hnum] using this
      · simpa [keyboard?, usable, hnum, hw] using this

theorem foldl_next_mouse (hk : m.kbd_ep ≠ 0) (h : m.intr_ep = 0) :
    Held (es.foldl take m).intr_ep (es.foldl take m).iface (usable es).head? := by
  induction es generalizing m with
  | nil => exact h
  | cons e es ih =>
    obtain ⟨hep, hiface, hkbd⟩ := take_mouse h (e := e) (Or.inl hk)
    by_cases hnum : e.number = 0
    · have := ih (hkbd ▸ hk) (hep.trans hnum)
      simpa [usable, hnum] using this
    · obtain ⟨hep', hiface'⟩ := @foldl_keeps_mouse _ es (hep ▸ hnum)
      simp [usable, hnum, Held, hep', hiface', hep, hiface]

theorem foldl_mouse (hk : m.kbd_ep = 0) (h : m.intr_ep = 0) :
    Held (es.foldl take m).intr_ep (es.foldl take m).iface (mouse? es) := by
  induction es generalizing m with
  | nil => exact h
  | cons e es ih =>
    by_cases hw : e.Wanted
    · obtain ⟨hep, _, hintr⟩ := take_keyboard hk hw
      by_cases hnum : e.number = 0
      · have := ih (hep.trans hnum) (hintr.trans h)
        simpa [mouse?, usable, hnum] using this
      · have := @foldl_next_mouse _ es (hep ▸ hnum) (hintr.trans h)
        simpa [mouse?, usable, hnum, hw] using this
    · obtain ⟨hep, hiface, hkbd⟩ := take_mouse h (Or.inr hw)
      by_cases hnum : e.number = 0
      · have := ih (hkbd.trans hk) (hep.trans hnum)
        simpa [mouse?, usable, hnum] using this
      · obtain ⟨hep', hiface'⟩ := @foldl_keeps_mouse _ es (hep ▸ hnum)
        simp [mouse?, usable, hnum, hw, Held, hep', hiface', hep, hiface]

/-! ## When the selection is right -/

/-- The descriptors of which the walk selects what it should. -/
structure Clear (es : List Endpoint) : Prop where
  numbered : es ≠ [] → ∃ e ∈ es, e.number ≠ 0
  boot : (∃ e ∈ es, e.Boot) → ∃ k, keyboard? es = some k ∧
    ∃ e ∈ es, e.Boot ∧ k.number = e.number ∧ k.interface.number = e.interface.number
  two : ∀ k q, keyboard? es = some k → mouse? es = some q → k.number ≠ q.number

theorem mem_usable : e ∈ usable es ↔ e ∈ es ∧ e.number ≠ 0 := by
  simp [usable]

theorem keyboard_mem {k : Endpoint} (h : keyboard? es = some k) : k ∈ es ∧ k.number ≠ 0 :=
  mem_usable.mp (List.mem_of_find?_eq_some h)

theorem mouse_mem {q : Endpoint} (h : mouse? es = some q) : q ∈ es ∧ q.number ≠ 0 :=
  mem_usable.mp (List.mem_of_mem_eraseP (List.mem_of_mem_head? h))

theorem exists_taken : (∃ e ∈ es, e.number ≠ 0) ↔
    (∃ q, mouse? es = some q) ∨ ∃ k, keyboard? es = some k := by
  constructor
  · rintro ⟨e, he, hnum⟩
    have hmem : e ∈ usable es := mem_usable.mpr ⟨he, hnum⟩
    cases hk : keyboard? es with
    | some k => exact Or.inr ⟨k, rfl⟩
    | none =>
      left
      have hnone := List.find?_eq_none.mp hk
      unfold mouse?
      rw [List.eraseP_of_forall_not hnone, ← Option.isSome_iff_exists, List.isSome_head?]
      simp [List.ne_nil_of_mem hmem]
  · rintro (⟨q, hq⟩ | ⟨k, hk⟩)
    · exact ⟨q, mouse_mem hq⟩
    · exact ⟨k, keyboard_mem hk⟩

theorem Held.ne_zero {ep : Nat} {iface : Int} {x : Option Endpoint} (h : Held ep iface x)
    (hx : ∀ e, x = some e → e.number ≠ 0) : ep ≠ 0 ↔ ∃ e, x = some e := by
  cases x with
  | none =>
    have : ep = 0 := h
    simp [this]
  | some e => simp [h.1, hx e rfl]

theorem Held.of_ne_zero {ep : Nat} {iface : Int} {x : Option Endpoint} (h : Held ep iface x)
    (hep : ep ≠ 0) : ∃ e, x = some e ∧ ep = e.number ∧ iface = e.interface.number := by
  cases x with
  | none => exact absurd h hep
  | some e => exact ⟨e, rfl, h⟩

theorem finish_eq_zero : (finish m).1 = 0 ↔ m.intr_ep ≠ 0 ∨ m.kbd_ep ≠ 0 := by
  simp only [finish, ite_eq_left_iff]
  tauto

theorem selects_iff_clear (hkbd : Held m.kbd_ep m.kbd_iface (keyboard? es))
    (hintr : Held m.intr_ep m.iface (mouse? es))
    (hsize : m.kbd_mps ≤ REPORT_SIZE ∧ m.intr_mps ≤ REPORT_SIZE) :
    Selects es (finish m).1 m ↔ Clear es := by
  have hk := hkbd.ne_zero fun k hk => (keyboard_mem hk).2
  have hq := hintr.ne_zero fun q hq => (mouse_mem hq).2
  have hrc0 : (finish m).1 = 0 ↔ ∃ e ∈ es, e.number ≠ 0 := by
    rw [exists_taken, ← hk, ← hq]
    exact finish_eq_zero
  constructor
  · intro h
    refine ⟨fun hne => hrc0.mp (h.found.mpr hne), fun hboot => ?_, fun k q hk' hq' => ?_⟩
    · have hne : es ≠ [] := by
        obtain ⟨e, he, _⟩ := hboot
        exact List.ne_nil_of_mem he
      obtain ⟨hsome, e, he, hbe, hnum, hiface⟩ := h.boot (h.found.mpr hne) hboot
      obtain ⟨k, hk', hknum, hkiface⟩ := hkbd.of_ne_zero hsome
      refine ⟨k, hk', e, he, hbe, hknum.symm.trans hnum, ?_⟩
      exact_mod_cast hkiface.symm.trans hiface
    · have hk0 := hk.mpr ⟨k, hk'⟩
      have hq0 := hq.mpr ⟨q, hq'⟩
      have hne := h.two (hrc0.mpr ⟨k, keyboard_mem hk'⟩) hk0 hq0
      rw [hk', Held] at hkbd
      rw [hq', Held] at hintr
      rwa [hkbd.1, hintr.1] at hne
  · intro h
    refine ⟨?_, fun _ hk0 => ?_, fun _ hq0 => ?_, fun _ hk0 hq0 => ?_, fun _ hboot => ?_,
      hsize.1, hsize.2⟩
    · rw [hrc0]
      refine ⟨?_, h.numbered⟩
      rintro ⟨e, he, _⟩
      exact List.ne_nil_of_mem he
    · obtain ⟨k, hk', hheld⟩ := hkbd.of_ne_zero hk0
      exact ⟨k, (keyboard_mem hk').1, hheld⟩
    · obtain ⟨q, hq', hheld⟩ := hintr.of_ne_zero hq0
      exact ⟨q, (mouse_mem hq').1, hheld⟩
    · obtain ⟨k, hk', hheld, _⟩ := hkbd.of_ne_zero hk0
      obtain ⟨q, hq', hheld', _⟩ := hintr.of_ne_zero hq0
      rw [hheld, hheld']
      exact h.two k q hk' hq'
    · obtain ⟨k, hk', e, he, hbe, hnum, hiface⟩ := h.boot hboot
      refine ⟨hk.mpr ⟨k, hk'⟩, e, he, hbe, ?_⟩
      rw [hk', Held] at hkbd
      exact ⟨hkbd.1.trans hnum, by rw [hkbd.2, hiface]⟩

theorem parse_result (d : List UInt8) :
    ∃ visited rc m, usb_hid_parse_config d visited (some (rc, m)) ∧
      (Selects (hidEndpoints d) rc m ↔ Clear (hidEndpoints d)) := by
  obtain ⟨visited, hloop⟩ := @loop_walk d none ⟨0, -1, -1, 0, fresh⟩ rfl
  refine ⟨visited, _, _, hloop, selects_iff_clear ?_ ?_ ?_⟩
  · exact foldl_keyboard rfl
  · exact foldl_mouse rfl rfl
  · exact foldl_sizes ⟨by decide, by decide⟩

/-- The walk over any bytes ends, without a read behind the end, and selects what it should
exactly when the descriptors are clear. -/
theorem parse_selects_iff (d : List UInt8) :
    ∃ visited rc m, usb_hid_parse_config d visited (some (rc, m)) ∧
      (∀ visited' r, usb_hid_parse_config d visited' r → r = some (rc, m)) ∧
      (Selects (hidEndpoints d) rc m ↔ Clear (hidEndpoints d)) := by
  obtain ⟨visited, rc, m, hparse, hiff⟩ := parse_result d
  exact ⟨visited, rc, m, hparse, fun _ _ h => (h.det hparse).2, hiff⟩

/-- A mouse with packets of 8 bytes in front of a boot keyboard. -/
def mouseFirst : List UInt8 :=
  [9, 2, 59, 0, 2, 1, 0, 0xa0, 50,
    9, 4, 0, 0, 1, 3, 1, 2, 0, 9, 0x21, 0x11, 1, 0, 1, 0x22, 52, 0, 7, 5, 0x81, 3, 8, 0, 10,
    9, 4, 1, 0, 1, 3, 1, 1, 0, 9, 0x21, 0x11, 1, 0, 1, 0x22, 63, 0, 7, 5, 0x82, 3, 8, 0, 10]

theorem endpoints_mouse_first :
    hidEndpoints mouseFirst = [⟨⟨0, 3, 1, 2⟩, 1, 8⟩, ⟨⟨1, 3, 1, 1⟩, 2, 8⟩] := by
  simp [hidEndpoints, mouseFirst, descriptors, endpoints, interface?, interruptIn?]

/-- The mouse is taken for the keyboard. -/
theorem mouse_first_swapped : ¬ ∀ d : List UInt8, ∃ visited rc m,
    usb_hid_parse_config d visited (some (rc, m)) ∧ Selects (hidEndpoints d) rc m := by
  intro h
  obtain ⟨visited, rc, m, hparse, hselects⟩ := h mouseFirst
  obtain ⟨visited', rc', m', hparse', hiff⟩ := parse_result mouseFirst
  cases (hparse.det hparse').2
  have hclear := hiff.mp hselects
  rw [endpoints_mouse_first] at hclear
  obtain ⟨k, hk, e, he, hboot, hnum, _⟩ := hclear.boot ⟨⟨⟨1, 3, 1, 1⟩, 2, 8⟩, by simp, by decide⟩
  have hfirst : k = ⟨⟨0, 3, 1, 2⟩, 1, 8⟩ := by
    simpa [keyboard?, usable, Endpoint.Wanted] using hk.symm
  subst hfirst
  simp only [List.mem_cons, List.not_mem_nil, or_false] at he
  rcases he with rfl | rfl
  · exact absurd hboot (by decide)
  · cases hnum

end vibeos.usb
