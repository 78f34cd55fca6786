-- The wall clock of timer.c: a Unix time that was set, and the milliseconds since then. The
-- millisecond counter has 32 bits, so the clock goes back when they are used up.
import Vibeos.DateFormats
import Vibeos.ReadBack

namespace vibeos.timer

/-- The ticks of `mtime` in a millisecond, and the date of the build. -/
class TimerConfig where
  MTIME_TICKS_PER_MS : UInt64
  ticks_pos : 0 < MTIME_TICKS_PER_MS.toNat
  HOST_BUILD_YEAR : Nat
  HOST_BUILD_MONTH : Nat
  HOST_BUILD_DAY : Nat
  HOST_BUILD_HOUR : Nat
  HOST_BUILD_MIN : Nat
  HOST_BUILD_SEC : Nat

/-- The timer of the emulated board, and a build at the start of 2024. -/
@[reducible]
def qemuTimer : TimerConfig where
  MTIME_TICKS_PER_MS := 10000
  ticks_pos := by decide
  HOST_BUILD_YEAR := 2024
  HOST_BUILD_MONTH := 1
  HOST_BUILD_DAY := 1
  HOST_BUILD_HOUR := 0
  HOST_BUILD_MIN := 0
  HOST_BUILD_SEC := 0

section

variable [TimerConfig]

/-! ## timer.c -/

open TimerConfig

def build_time_unix : UInt32 :=
  ymd_hms_to_unix HOST_BUILD_YEAR HOST_BUILD_MONTH HOST_BUILD_DAY HOST_BUILD_HOUR HOST_BUILD_MIN
    HOST_BUILD_SEC

structure WallClock where
  wall_clock_base_epoch : UInt32
  wall_clock_base_ms : UInt32
  wall_clock_initialized : Bool
  wall_clock_synced : Bool

omit [TimerConfig] in
def boot : WallClock := ⟨0, 0, false, false⟩

/-- `mtime` is what `read_mtime_real` gives. -/
def get_millisecond_timer (mtime : UInt64) : UInt32 := (mtime / MTIME_TICKS_PER_MS).toUInt32

def wall_clock_init_if_needed (c : WallClock) (mtime : UInt64) : WallClock :=
  if c.wall_clock_initialized then c
  else
    { c with
      wall_clock_base_epoch := build_time_unix
      wall_clock_base_ms := get_millisecond_timer mtime
      wall_clock_initialized := true }

/-- The counter is read up to two times: at `first` by the initialisation, and then at `now`. -/
def get_wall_clock_seconds (c : WallClock) (first now : UInt64) : UInt32 × WallClock :=
  let c := wall_clock_init_if_needed c first
  (c.wall_clock_base_epoch + (get_millisecond_timer now - c.wall_clock_base_ms) / 1000, c)

def set_wall_clock_unix_seconds (_ : WallClock) (mtime : UInt64) (unix_seconds : UInt32) :
    WallClock where
  wall_clock_base_epoch := unix_seconds
  wall_clock_base_ms := get_millisecond_timer mtime
  wall_clock_initialized := true
  wall_clock_synced := true

/-! ## Runs -/

/-- What happens to the clock: it is set, or read by `current_fs_time` or another caller. -/
inductive Event where
  | set (now : UInt64) (unix_seconds : UInt32)
  | get (first now : UInt64)

/-- The setting that is in force: how many there were before, when it was, and to what time. -/
structure Setting where
  number : Nat
  since : UInt64
  epoch : UInt32
deriving DecidableEq

/-- A reading: its time, the setting in force, and the result. -/
structure Reading where
  setting : Setting
  now : UInt64
  value : UInt32

/-- The first reading sets a clock that was not set. -/
def settingAt (s : Option Setting) (first : UInt64) : Setting := s.getD ⟨0, first, build_time_unix⟩

def run : WallClock → Option Setting → List Event → List Reading
  | _, _, [] => []
  | c, s, .set now v :: events =>
    run (set_wall_clock_unix_seconds c now v) (some ⟨s.elim 0 (·.number + 1), now, v⟩) events
  | c, s, .get first now :: events =>
    let r := get_wall_clock_seconds c first now
    ⟨settingAt s first, now, r.1⟩ :: run r.2 (some (settingAt s first)) events

def InOrder : UInt64 → List Event → Prop
  | _, [] => True
  | t, .set now _ :: events => t ≤ now ∧ InOrder now events
  | t, .get first now :: events => t ≤ first ∧ first ≤ now ∧ InOrder now events

/-- The milliseconds from one time to another, without a limit. -/
def msBetween (since now : UInt64) : Nat :=
  now.toNat / MTIME_TICKS_PER_MS.toNat - since.toNat / MTIME_TICKS_PER_MS.toNat

/-- The time of the setting, and the whole seconds since then. -/
def Setting.secondsAt (s : Setting) (now : UInt64) : Nat :=
  s.epoch.toNat + msBetween s.since now / 1000

/-- Neither the milliseconds nor the seconds need more than 32 bits. -/
def Setting.Lasts (s : Setting) (now : UInt64) : Prop :=
  msBetween s.since now < 2 ^ 32 ∧ s.secondsAt now < 2 ^ 32

/-! ## One reading -/

theorem toNat_get_millisecond_timer (t : UInt64) :
    (get_millisecond_timer t).toNat = t.toNat / MTIME_TICKS_PER_MS.toNat % 2 ^ 32 := by
  rw [get_millisecond_timer, UInt64.toNat_toUInt32, UInt64.toNat_div]

/-- The clock as this setting left it. -/
structure WallClock.Runs (c : WallClock) (s : Setting) : Prop where
  initialized : c.wall_clock_initialized = true
  epoch : c.wall_clock_base_epoch = s.epoch
  ms : c.wall_clock_base_ms = get_millisecond_timer s.since

theorem runs_set (c : WallClock) (number : Nat) (now : UInt64) (v : UInt32) :
    (set_wall_clock_unix_seconds c now v).Runs ⟨number, now, v⟩ := ⟨rfl, rfl, rfl⟩

theorem runs_init {c : WallClock} (h : c.wall_clock_initialized = false) (first : UInt64) :
    (wall_clock_init_if_needed c first).Runs ⟨0, first, build_time_unix⟩ := by
  rw [wall_clock_init_if_needed, h]
  exact ⟨rfl, rfl, rfl⟩

theorem WallClock.Runs.init_eq {c : WallClock} {s : Setting} (h : c.Runs s) (first : UInt64) :
    wall_clock_init_if_needed c first = c := by
  rw [wall_clock_init_if_needed, if_pos h.initialized]

theorem WallClock.Runs.value {c : WallClock} {s : Setting} (h : c.Runs s) {first now : UInt64}
    (hle : s.since ≤ now) : (get_wall_clock_seconds c first now).1.toNat =
      (s.epoch.toNat + msBetween s.since now % 2 ^ 32 / 1000) % 2 ^ 32 := by
  have hdiv : s.since.toNat / MTIME_TICKS_PER_MS.toNat ≤ now.toNat / MTIME_TICKS_PER_MS.toNat :=
    Nat.div_le_div_right (UInt64.le_iff_toNat_le.mp hle)
  have hms : (get_millisecond_timer now - get_millisecond_timer s.since).toNat =
      msBetween s.since now % 2 ^ 32 := by
    rw [UInt32.toNat_sub, toNat_get_millisecond_timer, toNat_get_millisecond_timer, msBetween]
    omega
  rw [get_wall_clock_seconds, h.init_eq]
  dsimp only
  rw [h.epoch, h.ms, UInt32.toNat_add, UInt32.toNat_div, hms]
  rfl

theorem seconds_eq_iff (s : Setting) (now : UInt64) :
    (s.epoch.toNat + msBetween s.since now % 2 ^ 32 / 1000) % 2 ^ 32 = s.secondsAt now ↔
      s.Lasts now := by
  rw [Setting.Lasts, Setting.secondsAt]
  omega

/-! ## The readings of a run -/

/-- The clock at the time `t` and the setting that it has, if any. -/
def Follows (c : WallClock) (t : UInt64) : Option Setting → Prop
  | none => c.wall_clock_initialized = false
  | some s => c.Runs s ∧ s.since ≤ t

theorem Follows.started {c : WallClock} {t first : UInt64} {s : Option Setting}
    (h : Follows c t s) (hle : t ≤ first) :
    (wall_clock_init_if_needed c first).Runs (settingAt s first) ∧
      (settingAt s first).since ≤ first := by
  cases s with
  | none => exact ⟨runs_init h first, UInt64.le_refl first⟩
  | some s =>
    rw [h.1.init_eq first]
    exact ⟨h.1, UInt64.le_trans h.2 hle⟩

/-- What a reading gives, whatever the clock was. -/
def Reading.Computed (r : Reading) : Prop :=
  r.value.toNat =
    (r.setting.epoch.toNat + msBetween r.setting.since r.now % 2 ^ 32 / 1000) % 2 ^ 32

theorem Follows.get {c : WallClock} {t first now : UInt64} {s : Option Setting}
    (h : Follows c t s) (hfirst : t ≤ first) (hnow : first ≤ now) :
    (⟨settingAt s first, now, (get_wall_clock_seconds c first now).1⟩ : Reading).Computed ∧
    Follows (get_wall_clock_seconds c first now).2 now (some (settingAt s first)) := by
  obtain ⟨hruns, hsince⟩ := h.started hfirst
  have hle : (settingAt s first).since ≤ now := UInt64.le_trans hsince hnow
  -- the clock that is set stays as it is in the call
  have hvalue : (get_wall_clock_seconds c first now).1 =
      (get_wall_clock_seconds (wall_clock_init_if_needed c first) first now).1 := by
    rw [get_wall_clock_seconds, get_wall_clock_seconds, hruns.init_eq]
  refine ⟨?_, hruns, hle⟩
  unfold Reading.Computed
  dsimp only
  rw [hvalue, hruns.value hle]

theorem run_computed {c : WallClock} {t : UInt64} {s : Option Setting} {events : List Event}
    (h : Follows c t s) (horder : InOrder t events) :
    ∀ r ∈ run c s events, t ≤ r.now ∧ r.Computed := by
  induction events generalizing c t s with
  | nil => simp [run]
  | cons e events ih =>
    cases e with
    | set now v =>
      obtain ⟨hle, horder⟩ := horder
      have hset : Follows (set_wall_clock_unix_seconds c now v) now
          (some ⟨s.elim 0 (·.number + 1), now, v⟩) := ⟨runs_set c _ now v, UInt64.le_refl now⟩
      intro r hr
      obtain ⟨hnow, hcomputed⟩ := ih hset horder r hr
      exact ⟨UInt64.le_trans hle hnow, hcomputed⟩
    | get first now =>
      obtain ⟨hfirst, hnow, horder⟩ := horder
      obtain ⟨hcomputed, hnext⟩ := h.get hfirst hnow
      have hle := UInt64.le_trans hfirst hnow
      refine List.forall_mem_cons.mpr ⟨⟨hle, hcomputed⟩, fun r hr => ?_⟩
      obtain ⟨hlater, hr⟩ := ih hnext horder r hr
      exact ⟨UInt64.le_trans hle hlater, hr⟩

theorem run_sorted {c : WallClock} {t : UInt64} {s : Option Setting} {events : List Event}
    (h : Follows c t s) (horder : InOrder t events) :
    (run c s events).Pairwise fun r r' => r.now ≤ r'.now := by
  induction events generalizing c t s with
  | nil => exact .nil
  | cons e events ih =>
    cases e with
    | set now v => exact ih ⟨runs_set c _ now v, UInt64.le_refl now⟩ horder.2
    | get first now =>
      obtain ⟨hfirst, hnow, horder⟩ := horder
      have hnext := (h.get hfirst hnow).2
      exact .cons (fun r hr => (run_computed hnext horder r hr).1) (ih hnext horder)

/-! ## Files -/

/-- A store that read the clock as `now` left this entry of a file. -/
def Written [fs.BuildConfig] (now : UInt32) (e : fs.FileEntry) : Prop :=
  ∃ st st' P leaf data, st.fs_alloc_ready = true ∧
    fs.store_into st P leaf data now.toNat = some (0, st') ∧
    (0 ∉ leaf ∧ leaf ≠ [] ∧ leaf.length ≤ 19) ∧
    (∀ i, fs.usedSlot st P leaf = some i → fs.SlotInside i) ∧
    fs.fileAt st'.disk P leaf = .ok e

omit [TimerConfig] in
theorem Written.mtime [fs.BuildConfig] {now : UInt32} {e : fs.FileEntry} (h : Written now e) :
    e.mtime = now.toNat := by
  obtain ⟨st, st', P, leaf, data, hready, hstore, ⟨hnul, hne, hshort⟩, hinside, hfile⟩ := h
  rcases fs.store_into_cases hready hstore with ⟨h0, -⟩ | ⟨h4, -⟩ |
    ⟨-, mid, d, idx, old, first, l, lold, ws, c⟩
  · exact absurd rfl h0
  · cases h4
  · have hi := (fs.slotInside_iff idx).mp (hinside idx c.usedSlot_eq)
    rw [c.fileAt_self hi hnul hne hshort] at hfile
    cases hfile
    rfl

/-! ## Whole runs -/

/-- The clock does what it is for: a reading gives the time that was set and the whole seconds
since then, and later readings and files are not from before. -/
structure KeepsTime [fs.BuildConfig] (readings : List Reading) : Prop where
  seconds : ∀ r ∈ readings, r.value.toNat = r.setting.secondsAt r.now
  monotone : readings.Pairwise fun r r' => r.setting = r'.setting → r.value ≤ r'.value
  files : readings.Pairwise fun r r' => r.setting = r'.setting →
    ∀ e e', Written r.value e → Written r'.value e' → e.mtime ≤ e'.mtime

theorem Setting.secondsAt_mono (s : Setting) {now later : UInt64} (h : now ≤ later) :
    s.secondsAt now ≤ s.secondsAt later := by
  have hdiv : now.toNat / MTIME_TICKS_PER_MS.toNat ≤ later.toNat / MTIME_TICKS_PER_MS.toNat :=
    Nat.div_le_div_right (UInt64.le_iff_toNat_le.mp h)
  rw [secondsAt, secondsAt, msBetween, msBetween]
  omega

theorem KeepsTime.of_seconds [fs.BuildConfig] {readings : List Reading}
    (hsorted : readings.Pairwise fun r r' => r.now ≤ r'.now)
    (h : ∀ r ∈ readings, r.value.toNat = r.setting.secondsAt r.now) : KeepsTime readings := by
  have hmono : readings.Pairwise fun r r' => r.setting = r'.setting → r.value ≤ r'.value := by
    refine hsorted.imp_of_mem fun {r r'} hr hr' hle heq => ?_
    rw [UInt32.le_iff_toNat_le, h r hr, h r' hr', heq]
    exact r'.setting.secondsAt_mono hle
  refine ⟨h, hmono, hmono.imp fun {r r'} hle heq e e' he he' => ?_⟩
  rw [he.mtime, he'.mtime]
  exact UInt32.le_iff_toNat_le.mp (hle heq)

/-- In a run from the start of the system, the clock keeps time exactly when no reading comes so
late after its setting that the milliseconds or the seconds need more than 32 bits. -/
theorem wall_clock_keeps_time_iff [fs.BuildConfig] {t : UInt64} {events : List Event}
    (horder : InOrder t events) : KeepsTime (run boot none events) ↔
      ∀ r ∈ run boot none events, r.setting.Lasts r.now := by
  have hboot : Follows boot t none := rfl
  have hiff : ∀ r ∈ run boot none events,
      (r.value.toNat = r.setting.secondsAt r.now ↔ r.setting.Lasts r.now) := by
    intro r hr
    rw [(run_computed hboot horder r hr).2]
    exact seconds_eq_iff r.setting r.now
  constructor
  · intro h r hr
    exact (hiff r hr).mp (h.seconds r hr)
  · intro h
    exact .of_seconds (run_sorted hboot horder) fun r hr => (hiff r hr).mpr (h r hr)

end

section

attribute [local instance] qemuTimer fs.fpgaBuild

/-- The clock is set to the hour 1, and read a second and a half later. -/
theorem wall_clock_keeps_time_iff_second :
    KeepsTime (run boot none [.set 0 3600, .get 0 15000000]) ↔
      ∀ r ∈ run boot none [.set 0 3600, .get 0 15000000], r.setting.Lasts r.now :=
  wall_clock_keeps_time_iff (t := 0) ⟨by decide, by decide, by decide, trivial⟩

/-- The last millisecond of the counter, and the next. -/
def lastMillisecond : List Event :=
  [.set 0 0, .get 0 42949672950000, .get 42949672950000 42949672960000]

/-- The clock falls back to the time that it was set to after 49 days. -/
theorem clock_goes_back : InOrder 0 lastMillisecond ∧
    (run boot none lastMillisecond).map Reading.value = [4294967, 0] ∧
    ¬ KeepsTime (run boot none lastMillisecond) := by
  refine ⟨⟨by decide, by decide, by decide, by decide, by decide, trivial⟩, by decide, ?_⟩
  intro h
  have hle := (List.pairwise_cons.mp h.monotone).1 _ (List.mem_singleton_self _) rfl
  exact absurd hle (by decide)

end

end vibeos.timer
