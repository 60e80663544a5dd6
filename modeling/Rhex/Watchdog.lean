import Mathlib
import Rhex.Lib.Run

/-!
# The watchdog of the services

`main_cycle` stores the time in the context of each service, one after the other. At the end of
its cycle a service reads the clock, then the stored time, and leaves its loop when the time is
more than a second old. The clock and the contexts are 64-bit counters, and `main` may store
between the two reads of a service.

* `svcStep` — `main` and the services, one access at a time, over any kind of counter.
* `svcRun_refines` — with 64-bit counters, the services stop exactly when they stop with times
  that are numbers.
* `watchdog_no_false_alarm` — a service whose time is kept is not stopped.
* `watchdog_stops` — when `main` hangs, each service stops in the first cycle that reads the clock
  more than a second later.
-/

namespace Rhex

/-! ## Counters -/

/-- `TIME_DEADLINE`, a second in nanoseconds. -/
def timeDeadline : ℕ := 1000000000

/-- `check_watchdog`, with the time that it reads. -/
def checkWatchdog (tm watchdog : UInt64) : Bool :=
  let diff := tm - watchdog
  if diff < 0x7fffffffffffffff then
    if .ofNat timeDeadline < diff then false else true
  else
    true

/-- How times are stored and checked. -/
structure Counter (W : Type) where
  ofTime : ℕ → W
  check : W → W → Bool

/-- The counters of the code. -/
def counter64 : Counter UInt64 := ⟨.ofNat, checkWatchdog⟩

/-- Counters that hold any time. -/
def exactCounter : Counter ℕ := ⟨id, fun tm watchdog => tm ≤ watchdog + timeDeadline⟩

/-! ## The system -/

/-- Where a service is. -/
inductive SvcPc (W : Type) where
  /-- after `fork` -/
  | forked
  /-- in `svc_init_context`, which has read the clock -/
  | init (tm : W)
  /-- in the loop of the service -/
  | running
  /-- in `svc_cycle`, which has waited for the timer and read the clock -/
  | check (timer : Bool) (tm : W)
  /-- the loop is left -/
  | stopped
  deriving DecidableEq

/-- The clock, the context of each service, and where `main_cycle` and the services are. -/
structure SvcSystem (W : Type) (n : ℕ) where
  now : ℕ
  watchdog : Fin n → W
  pc : Fin n → SvcPc W
  /-- the service that `main_cycle` is at -/
  i : Fin n
  /-- the time that `main_cycle` has read and not stored yet -/
  read : Option W

/-- What happens next. -/
inductive SvcEvent (n : ℕ) where
  /-- time passes -/
  | tick (d : ℕ)
  /-- `main_cycle` calls `svc_get_monotime` -/
  | mainRead
  /-- and stores the time -/
  | mainStore
  /-- `svc_init_context` calls `svc_get_monotime` -/
  | initRead (i : Fin n)
  /-- and stores the time -/
  | initStore (i : Fin n)
  /-- `svc_cycle` waits for the timer, which may fail, and `check_watchdog` reads the clock -/
  | cycle (i : Fin n) (timer : Bool)
  /-- `check_watchdog` reads the stored time -/
  | check (i : Fin n)

/-- The service after `i` in `main_cycle`, or the first one in the next cycle. -/
def nextSvc {n : ℕ} (i : Fin n) : Fin n :=
  if h : i.val + 1 < n then ⟨i.val + 1, h⟩ else ⟨0, i.pos⟩

variable {W V : Type} {n : ℕ}

/-- One access of `main` or of a service. It has no result when it is not the turn of the
access. -/
def svcStep (c : Counter W) (s : SvcSystem W n) : SvcEvent n → Option (SvcSystem W n)
  | .tick d => some { s with now := s.now + d }
  | .mainRead =>
    match s.read with
    | none => some { s with read := some (c.ofTime s.now) }
    | some _ => none
  | .mainStore =>
    match s.read with
    | none => none
    | some tm => some { s with
        watchdog := Function.update s.watchdog s.i tm
        i := nextSvc s.i
        read := none }
  | .initRead i =>
    match s.pc i with
    | .forked => some { s with pc := Function.update s.pc i (.init (c.ofTime s.now)) }
    | _ => none
  | .initStore i =>
    match s.pc i with
    | .init tm => some { s with
        watchdog := Function.update s.watchdog i tm
        pc := Function.update s.pc i .running }
    | _ => none
  | .cycle i timer =>
    match s.pc i with
    | .running => some { s with pc := Function.update s.pc i (.check timer (c.ofTime s.now)) }
    | _ => none
  | .check i =>
    match s.pc i with
    | .check timer tm => some { s with
        pc := Function.update s.pc i
          (if timer && c.check tm (s.watchdog i) then .running else .stopped) }
    | _ => none

/-- When an access has its turn, and what it leaves. -/
inductive SvcAccess (c : Counter W) (s : SvcSystem W n) : SvcEvent n → SvcSystem W n → Prop where
  | tick (d : ℕ) : SvcAccess c s (.tick d) { s with now := s.now + d }
  | mainRead (hread : s.read = none) :
      SvcAccess c s .mainRead { s with read := some (c.ofTime s.now) }
  | mainStore (tm : W) (hread : s.read = some tm) : SvcAccess c s .mainStore { s with
      watchdog := Function.update s.watchdog s.i tm
      i := nextSvc s.i
      read := none }
  | initRead (i : Fin n) (hpc : s.pc i = .forked) :
      SvcAccess c s (.initRead i) { s with pc := Function.update s.pc i (.init (c.ofTime s.now)) }
  | initStore (i : Fin n) (tm : W) (hpc : s.pc i = .init tm) : SvcAccess c s (.initStore i) { s with
      watchdog := Function.update s.watchdog i tm
      pc := Function.update s.pc i .running }
  | cycle (i : Fin n) (timer : Bool) (hpc : s.pc i = .running) :
      SvcAccess c s (.cycle i timer) { s with
        pc := Function.update s.pc i (.check timer (c.ofTime s.now)) }
  | check (i : Fin n) (timer : Bool) (tm : W) (hpc : s.pc i = .check timer tm) :
      SvcAccess c s (.check i) { s with
        pc := Function.update s.pc i
          (if timer && c.check tm (s.watchdog i) then .running else .stopped) }

theorem svcStep_access {c : Counter W} {s s' : SvcSystem W n} {e : SvcEvent n}
    (h : svcStep c s e = some s') : SvcAccess c s e s' := by
  cases e with
  | tick d =>
    obtain rfl := Option.some.inj h
    exact .tick d
  | mainRead =>
    cases hread : s.read with
    | none =>
      rw [svcStep, hread] at h
      obtain rfl := Option.some.inj h
      exact .mainRead hread
    | some tm =>
      rw [svcStep, hread] at h
      cases h
  | mainStore =>
    cases hread : s.read with
    | none =>
      rw [svcStep, hread] at h
      cases h
    | some tm =>
      rw [svcStep, hread] at h
      obtain rfl := Option.some.inj h
      exact .mainStore tm hread
  | initRead i =>
    cases hpc : s.pc i <;> rw [svcStep, hpc] at h <;> cases h
    exact .initRead i hpc
  | initStore i =>
    cases hpc : s.pc i <;> rw [svcStep, hpc] at h <;> cases h
    exact .initStore i _ hpc
  | cycle i timer =>
    cases hpc : s.pc i <;> rw [svcStep, hpc] at h <;> cases h
    exact .cycle i timer hpc
  | check i =>
    cases hpc : s.pc i <;> rw [svcStep, hpc] at h <;> cases h
    exact .check i _ _ hpc

/-- After the services are forked: their contexts are zero. -/
def svcBoot (c : Counter W) (now : ℕ) (i : Fin n) : SvcSystem W n :=
  ⟨now, fun _ => c.ofTime 0, fun _ => .forked, i, none⟩

/-! ## Other counters -/

/-- The same place with other counters. -/
def SvcPc.map (f : W → V) : SvcPc W → SvcPc V
  | .forked => .forked
  | .init tm => .init (f tm)
  | .running => .running
  | .check timer tm => .check timer (f tm)
  | .stopped => .stopped

theorem SvcPc.map_stopped {f : W → V} {pc : SvcPc W} : pc.map f = .stopped ↔ pc = .stopped := by
  cases pc <;> simp [SvcPc.map]

/-- The same system with other counters. -/
def SvcSystem.map (f : W → V) (s : SvcSystem W n) : SvcSystem V n where
  now := s.now
  watchdog := f ∘ s.watchdog
  pc := SvcPc.map f ∘ s.pc
  i := s.i
  read := s.read.map f

/-- The time at a place in a service is not later than `now`. -/
def SvcPc.Le (now : ℕ) : SvcPc ℕ → Prop
  | .init tm => tm ≤ now
  | .check _ tm => tm ≤ now
  | _ => True

/-- All times have been. -/
structure SvcSystem.Past (s : SvcSystem ℕ n) : Prop where
  watchdog : ∀ i, s.watchdog i ≤ s.now
  pc : ∀ i, (s.pc i).Le s.now
  read : ∀ tm ∈ s.read, tm ≤ s.now

theorem checkWatchdog_ofNat {tm watchdog : ℕ} (htm : tm < 2 ^ 63 - 1) (hw : watchdog < 2 ^ 63 - 1) :
    checkWatchdog (.ofNat tm) (.ofNat watchdog) = decide (tm ≤ watchdog + timeDeadline) := by
  have hsize : UInt64.size = 2 ^ 64 := rfl
  have hdiff : (UInt64.ofNat tm - UInt64.ofNat watchdog).toNat =
      (2 ^ 64 - watchdog + tm) % 2 ^ 64 := by
    rw [UInt64.toNat_sub, UInt64.toNat_ofNat_of_lt' (by omega),
      UInt64.toNat_ofNat_of_lt' (by omega)]
  have hmax : (0x7fffffffffffffff : UInt64).toNat = 2 ^ 63 - 1 := rfl
  have hdeadline : (UInt64.ofNat timeDeadline).toNat = timeDeadline := rfl
  have hsecond : timeDeadline = 1000000000 := rfl
  simp only [checkWatchdog, UInt64.lt_iff_toNat_lt, hdiff, hmax, hdeadline]
  split_ifs with h1 h2
  · rw [eq_comm, decide_eq_false_iff_not]
    omega
  · rw [eq_comm, decide_eq_true_iff]
    omega
  · rw [eq_comm, decide_eq_true_iff]
    omega

section

variable {s s' : SvcSystem ℕ n} {e : SvcEvent n}

theorem SvcPc.Le.mono {now now' : ℕ} {pc : SvcPc ℕ} (h : pc.Le now) (hle : now ≤ now') :
    pc.Le now' := by
  cases pc with
  | init tm => exact le_trans h hle
  | check timer tm => exact le_trans h hle
  | _ => trivial

/-- The times stay in the past. -/
theorem svcStep_past (hs : s.Past) (h : svcStep exactCounter s e = some s') : s'.Past := by
  have hpc : ∀ (i : Fin n) (pc : SvcPc ℕ), pc.Le s.now →
      ∀ j, (Function.update s.pc i pc j).Le s.now := fun i pc hle =>
    Function.forall_update_iff s.pc (p := fun _ pc => pc.Le s.now) |>.mpr ⟨hle, fun j _ => hs.pc j⟩
  have hwatchdog : ∀ (i : Fin n) (tm : ℕ), tm ≤ s.now →
      ∀ j, Function.update s.watchdog i tm j ≤ s.now := fun i tm hle =>
    Function.forall_update_iff s.watchdog (p := fun _ tm => tm ≤ s.now) |>.mpr
      ⟨hle, fun j _ => hs.watchdog j⟩
  cases svcStep_access h with
  | tick d =>
    exact ⟨fun i => le_trans (hs.watchdog i) (Nat.le_add_right _ _),
      fun i => (hs.pc i).mono (Nat.le_add_right _ _),
      fun tm htm => le_trans (hs.read tm htm) (Nat.le_add_right _ _)⟩
  | mainRead hread =>
    refine ⟨hs.watchdog, hs.pc, fun tm htm => ?_⟩
    obtain rfl := Option.some.inj htm
    exact le_rfl
  | mainStore tm hread =>
    exact ⟨hwatchdog s.i tm (hs.read tm hread), hs.pc, fun tm htm => nomatch htm⟩
  | initRead i => exact ⟨hs.watchdog, hpc i (.init s.now) le_rfl, hs.read⟩
  | initStore i tm hinit =>
    have hle := hs.pc i
    rw [hinit] at hle
    exact ⟨hwatchdog i tm hle, hpc i .running trivial, hs.read⟩
  | cycle i timer => exact ⟨hs.watchdog, hpc i (.check timer s.now) le_rfl, hs.read⟩
  | check i timer tm =>
    refine ⟨hs.watchdog, hpc i _ ?_, hs.read⟩
    split_ifs <;> trivial

/-- A step with 64-bit counters. -/
theorem svcStep_map (hs : s.Past) (hnow : s.now < 2 ^ 63 - 1) (e : SvcEvent n) :
    svcStep counter64 (s.map .ofNat) e = (svcStep exactCounter s e).map (SvcSystem.map .ofNat) := by
  cases e with
  | tick d => rfl
  | mainRead =>
    cases hread : s.read with
    | none => simp [svcStep, SvcSystem.map, hread, counter64, exactCounter]
    | some tm => simp [svcStep, SvcSystem.map, hread]
  | mainStore =>
    cases hread : s.read with
    | none => simp [svcStep, SvcSystem.map, hread]
    | some tm => simp [svcStep, SvcSystem.map, hread, Function.comp_update]
  | initRead i =>
    cases hpc : s.pc i <;>
      simp [svcStep, SvcSystem.map, hpc, SvcPc.map, counter64, exactCounter, Function.comp_update]
  | initStore i =>
    cases hpc : s.pc i <;>
      simp [svcStep, SvcSystem.map, hpc, SvcPc.map, Function.comp_update]
  | cycle i timer =>
    cases hpc : s.pc i <;>
      simp [svcStep, SvcSystem.map, hpc, SvcPc.map, counter64, exactCounter, Function.comp_update]
  | check i =>
    cases hpc : s.pc i with
    | check timer tm =>
      have htm : tm ≤ s.now := by
        have hle := hs.pc i
        rwa [hpc] at hle
      have hw := hs.watchdog i
      have hcheck : counter64.check (.ofNat tm) (.ofNat (s.watchdog i)) =
          exactCounter.check tm (s.watchdog i) := checkWatchdog_ofNat (by omega) (by omega)
      simp only [svcStep, SvcSystem.map, Function.comp_apply, hpc, SvcPc.map, hcheck,
        Option.map_some, Function.comp_update]
      split_ifs <;> rfl
    | _ => simp [svcStep, SvcSystem.map, hpc, SvcPc.map]

end

/-! ## Time -/

def totalTime : List (SvcEvent n) → ℕ
  | [] => 0
  | .tick d :: es => d + totalTime es
  | _ :: es => totalTime es

theorem totalTime_append (es fs : List (SvcEvent n)) :
    totalTime (es ++ fs) = totalTime es + totalTime fs := by
  induction es with
  | nil => rw [List.nil_append, totalTime, Nat.zero_add]
  | cons e es ih => cases e <;> simp [totalTime, ih, Nat.add_assoc]

/-- The service whose access it is. -/
def SvcEvent.svc : SvcEvent n → Option (Fin n)
  | .initRead i | .initStore i | .cycle i _ | .check i => some i
  | _ => none

/-- `main` or the service itself stores to the context of `j`. -/
def SvcEvent.Stores (i : Fin n) (j : Fin n) : SvcEvent n → Prop
  | .mainStore => i = j
  | .initStore k => k = j
  | _ => False

/-- What an access leaves alone. -/
structure Framed (s : SvcSystem W n) (e : SvcEvent n) (s' : SvcSystem W n) : Prop where
  now : s'.now = s.now + totalTime [e]
  watchdog : ∀ j, ¬e.Stores s.i j → s'.watchdog j = s.watchdog j
  pc : ∀ j, e.svc ≠ some j → s'.pc j = s.pc j

theorem svcStep_framed {c : Counter W} {s s' : SvcSystem W n} {e : SvcEvent n}
    (h : svcStep c s e = some s') : Framed s e s' := by
  have hne : ∀ {i j : Fin n}, some i ≠ some j → j ≠ i := fun hij hji => hij (hji ▸ rfl)
  cases svcStep_access h with
  | tick d => exact ⟨rfl, fun _ _ => rfl, fun _ _ => rfl⟩
  | mainRead => exact ⟨rfl, fun _ _ => rfl, fun _ _ => rfl⟩
  | mainStore =>
    exact ⟨rfl, fun j hj => Function.update_of_ne (Ne.symm hj) _ _, fun _ _ => rfl⟩
  | initStore i =>
    exact ⟨rfl, fun j hj => Function.update_of_ne (Ne.symm hj) _ _,
      fun j hj => Function.update_of_ne (hne hj) _ _⟩
  | _ => exact ⟨rfl, fun _ _ => rfl, fun j hj => Function.update_of_ne (hne hj) _ _⟩

theorem totalTime_cons (e : SvcEvent n) (es : List (SvcEvent n)) :
    totalTime (e :: es) = totalTime [e] + totalTime es := totalTime_append [e] es

theorem svcRun_now {c : Counter W} {s s' : SvcSystem W n} {es : List (SvcEvent n)}
    (h : es.foldlM (svcStep c) s = some s') : s'.now = s.now + totalTime es := by
  induction es generalizing s with
  | nil =>
    obtain rfl := Option.some.inj h
    rfl
  | cons e es ih =>
    rw [List.foldlM_cons] at h
    obtain ⟨t, ht, h⟩ := Option.bind_eq_some_iff.mp h
    rw [ih h, (svcStep_framed ht).now, totalTime_cons e es, Nat.add_assoc]

theorem throughout_now {c : Counter W} {s : SvcSystem W n} {es : List (SvcEvent n)} {B : ℕ}
    (h : s.now + totalTime es < B) :
    Run.Throughout (svcStep c) (fun s _ => s.now < B) s es := by
  induction es generalizing s with
  | nil => trivial
  | cons e es ih =>
    rw [totalTime_cons] at h
    refine ⟨by omega, fun s' hs' => ih ?_⟩
    rw [(svcStep_framed hs').now]
    omega

/-! ## Runs -/

theorem svcBoot_past (now : ℕ) (i : Fin n) : (svcBoot exactCounter now i).Past :=
  ⟨fun _ => Nat.zero_le _, fun _ => trivial, fun _ h => nomatch h⟩

theorem svcSimulates : Run.Simulates (svcStep exactCounter) (svcStep counter64)
    (SvcSystem.map .ofNat) (SvcSystem.Past (n := n)) (fun s _ => s.now < 2 ^ 63 - 1) where
  keeps _ _ _ hs h := svcStep_past hs h
  map _ e hs hnow := svcStep_map hs hnow e

/-- **For 292 years, the system does with 64-bit counters what it does with times that are
numbers, whatever the order of the accesses.** -/
theorem svcRun_refines (now : ℕ) (i : Fin n) (es : List (SvcEvent n))
    (htime : now + totalTime es < 2 ^ 63 - 1) :
    es.foldlM (svcStep counter64) (svcBoot counter64 now i) =
      (es.foldlM (svcStep exactCounter) (svcBoot exactCounter now i)).map (SvcSystem.map .ofNat) :=
  svcSimulates.run (svcBoot_past now i) (throughout_now htime)

/-- A service that sees, in its first cycle, a time older than a second. -/
theorem svcRun_refines_late :
    [SvcEvent.initRead ⟨0, Nat.one_pos⟩, .initStore ⟨0, Nat.one_pos⟩, .tick 1000000001,
      .cycle ⟨0, Nat.one_pos⟩ true, .check ⟨0, Nat.one_pos⟩].foldlM (svcStep counter64)
        (svcBoot counter64 5 (⟨0, Nat.one_pos⟩ : Fin 1)) =
      ([SvcEvent.initRead ⟨0, Nat.one_pos⟩, .initStore ⟨0, Nat.one_pos⟩, .tick 1000000001,
        .cycle ⟨0, Nat.one_pos⟩ true, .check ⟨0, Nat.one_pos⟩].foldlM (svcStep exactCounter)
          (svcBoot exactCounter 5 (⟨0, Nat.one_pos⟩ : Fin 1))).map (SvcSystem.map .ofNat) :=
  svcRun_refines 5 ⟨0, Nat.one_pos⟩ _ (by decide)

/-! ## Services whose time is kept -/

/-- The timer of the service `j` works, and its stored time is at most a second behind the clock
when the service reads it. -/
def Kept (j : Fin n) (s : SvcSystem UInt64 n) : SvcEvent n → Prop
  | .cycle i timer => i = j → timer = true
  | .check i => i = j → .ofNat s.now - s.watchdog i ≤ .ofNat timeDeadline
  | _ => True

/-- The service `j` is not stopped or about to stop because of its timer. -/
structure Alive (j : Fin n) (s : SvcSystem ℕ n) : Prop extends s.Past where
  pc_ne : s.pc j ≠ .stopped
  timer : ∀ timer tm, s.pc j = .check timer tm → timer = true

theorem kept_map {s : SvcSystem ℕ n} {j : Fin n} (hs : s.Past) (hnow : s.now < 2 ^ 63 - 1)
    (h : Kept j (s.map .ofNat) (.check j)) : s.now ≤ s.watchdog j + timeDeadline := by
  have hsize : UInt64.size = 2 ^ 64 := rfl
  have hw := hs.watchdog j
  have hle : UInt64.ofNat s.now - UInt64.ofNat (s.watchdog j) ≤ .ofNat timeDeadline := h rfl
  rw [UInt64.le_iff_toNat_le, UInt64.toNat_sub, UInt64.toNat_ofNat_of_lt' (by omega),
    UInt64.toNat_ofNat_of_lt' (by omega),
    show (UInt64.ofNat timeDeadline).toNat = timeDeadline from rfl] at hle
  rw [timeDeadline] at hle ⊢
  omega

theorem svcStep_alive {s s' : SvcSystem ℕ n} {e : SvcEvent n} {j : Fin n} (hs : Alive j s)
    (hnow : s.now < 2 ^ 63 - 1) (hkept : Kept j (s.map .ofNat) e)
    (h : svcStep exactCounter s e = some s') : Alive j s' := by
  have hframed := svcStep_framed h
  by_cases hj : e.svc = some j
  swap
  · have hpc := hframed.pc j hj
    exact ⟨svcStep_past hs.toPast h, hpc ▸ hs.pc_ne, hpc ▸ hs.timer⟩
  -- the access is one of the service
  suffices hpc : s'.pc j ≠ .stopped ∧ ∀ timer tm, s'.pc j = .check timer tm → timer = true from
    ⟨svcStep_past hs.toPast h, hpc.1, hpc.2⟩
  cases svcStep_access h with
  | tick d => cases hj
  | mainRead => cases hj
  | mainStore => cases hj
  | initRead i =>
    obtain rfl := Option.some.inj hj
    simp
  | initStore i =>
    obtain rfl := Option.some.inj hj
    simp
  | cycle i timer =>
    obtain rfl := Option.some.inj hj
    obtain rfl : timer = true := hkept rfl
    simp
  | check i timer tm hpc =>
    obtain rfl := Option.some.inj hj
    have hle := kept_map hs.toPast hnow hkept
    have htm : tm ≤ s.now := by
      have hpast := hs.toPast.pc i
      rwa [hpc] at hpast
    have hcheck : exactCounter.check tm (s.watchdog i) = true :=
      decide_eq_true (le_trans htm hle)
    obtain rfl := hs.timer timer tm hpc
    simp [hcheck]

/-- **A service is not stopped as long as its timer works and its stored time is at most a second
behind the clock when it looks at it, whatever becomes of the other services, and even if `main`
stores between the two reads of the service and the difference of the counters is below zero.** -/
theorem watchdog_no_false_alarm (now : ℕ) (i : Fin n) (es : List (SvcEvent n)) (j : Fin n)
    (htime : now + totalTime es < 2 ^ 63 - 1)
    (hkept : Run.Throughout (svcStep counter64) (Kept j) (svcBoot counter64 now i) es)
    (s : SvcSystem UInt64 n)
    (hrun : es.foldlM (svcStep counter64) (svcBoot counter64 now i) = some s) :
    s.pc j ≠ .stopped := by
  have hstart : Alive j (svcBoot exactCounter now i) := ⟨svcBoot_past now i, by simp [svcBoot],
    by simp [svcBoot]⟩
  have hnow : Run.Throughout (svcStep exactCounter) (fun s _ => s.now < 2 ^ 63 - 1)
      (svcBoot exactCounter now i) es := throughout_now htime
  have hkept' := (svcSimulates.throughout hstart.toPast hnow).mp hkept
  have hmap : es.foldlM (svcStep counter64) (svcBoot counter64 now i) =
      (es.foldlM (svcStep exactCounter) (svcBoot exactCounter now i)).map (SvcSystem.map .ofNat) :=
    svcSimulates.run hstart.toPast hnow
  rw [hrun] at hmap
  obtain ⟨t, ht, rfl⟩ := Option.map_eq_some_iff.mp hmap.symm
  have halive : Alive j t := Run.invariant_of_throughout
    (fun _ _ _ hs hq h => svcStep_alive hs hq.1 hq.2 h) hstart (hnow.and hkept') ht
  exact fun hstopped => halive.pc_ne (SvcPc.map_stopped.mp hstopped)

/-- `main` stores between the two reads of the first service a time later than the one that is read,
and the timer of the second service fails. -/
theorem watchdog_no_false_alarm_between : ∃ s : SvcSystem UInt64 2,
    [SvcEvent.initRead ⟨0, Nat.two_pos⟩, .initStore ⟨0, Nat.two_pos⟩,
      .initRead ⟨1, Nat.one_lt_two⟩, .initStore ⟨1, Nat.one_lt_two⟩,
      .cycle ⟨1, Nat.one_lt_two⟩ false, .check ⟨1, Nat.one_lt_two⟩,
      .cycle ⟨0, Nat.two_pos⟩ true, .tick 7, .mainRead, .mainStore,
      .check ⟨0, Nat.two_pos⟩].foldlM (svcStep counter64)
        (svcBoot counter64 5 (⟨0, Nat.two_pos⟩ : Fin 2)) = some s ∧
    s.pc ⟨1, Nat.one_lt_two⟩ = .stopped ∧ s.pc ⟨0, Nat.two_pos⟩ ≠ .stopped :=
  ⟨_, (Option.some_get rfl).symm, rfl, watchdog_no_false_alarm 5 ⟨0, Nat.two_pos⟩ _ ⟨0, Nat.two_pos⟩
    (by decide) (by simp [Run.Throughout, Kept, svcStep, svcBoot, counter64]) _
    (Option.some_get rfl).symm⟩

/-! ## When `main` hangs -/

/-- Nobody stores to the context of `j`. -/
def NoStore (j : Fin n) (e : SvcEvent n) : Prop :=
  e ≠ .mainStore ∧ e ≠ .initStore j

theorem NoStore.not_stores {i j : Fin n} {e : SvcEvent n} (h : NoStore j e) : ¬e.Stores i j := by
  intro hstores
  cases e with
  | mainStore => exact h.1 rfl
  | initStore k => exact h.2 (congrArg SvcEvent.initStore hstores)
  | _ => exact hstores

theorem svcRun_watchdog {c : Counter W} {s s' : SvcSystem W n} {es : List (SvcEvent n)} {j : Fin n}
    (hes : ∀ e ∈ es, NoStore j e) (h : es.foldlM (svcStep c) s = some s') :
    s'.watchdog j = s.watchdog j := by
  induction es generalizing s with
  | nil => exact congrArg (fun s => s.watchdog j) (Option.some.inj h).symm
  | cons e es ih =>
    rw [List.foldlM_cons] at h
    obtain ⟨t, ht, h⟩ := Option.bind_eq_some_iff.mp h
    rw [ih (fun e he => hes e (List.mem_cons_of_mem _ he)) h,
      (svcStep_framed ht).watchdog j (hes e List.mem_cons_self).not_stores]

theorem svcRun_pc {c : Counter W} {s s' : SvcSystem W n} {es : List (SvcEvent n)} {j : Fin n}
    (hes : ∀ e ∈ es, e.svc ≠ some j) (h : es.foldlM (svcStep c) s = some s') :
    s'.pc j = s.pc j := by
  induction es generalizing s with
  | nil => exact congrArg (fun s => s.pc j) (Option.some.inj h).symm
  | cons e es ih =>
    rw [List.foldlM_cons] at h
    obtain ⟨t, ht, h⟩ := Option.bind_eq_some_iff.mp h
    rw [ih (fun e he => hes e (List.mem_cons_of_mem _ he)) h,
      (svcStep_framed ht).pc j (hes e List.mem_cons_self)]

theorem svcRun_past {s s' : SvcSystem ℕ n} {es : List (SvcEvent n)} (hs : s.Past)
    (h : es.foldlM (svcStep exactCounter) s = some s') : s'.Past :=
  Run.invariant_of_throughout (fun _ _ _ hs _ h => svcStep_past hs h) hs
    (throughout_now (Nat.lt_succ_self _)) h

/-- A cycle that starts more than a second after the last store ends the loop. -/
theorem svcCycle_late {s s' t : SvcSystem ℕ n} {gs hs : List (SvcEvent n)} {j : Fin n}
    {timer : Bool} (hpast : s.Past) (hgs : ∀ e ∈ gs, NoStore j e)
    (hhs : ∀ e ∈ hs, NoStore j e ∧ e.svc ≠ some j) (hlate : timeDeadline < totalTime gs)
    (ht : gs.foldlM (svcStep exactCounter) s = some t)
    (h : (SvcEvent.cycle j timer :: (hs ++ [.check j])).foldlM (svcStep exactCounter) t = some s') :
    s'.pc j = .stopped := by
  have hwatchdog : t.watchdog j = s.watchdog j := svcRun_watchdog hgs ht
  have hnow : t.now = s.now + totalTime gs := svcRun_now ht
  have hle := hpast.watchdog j
  have hcheck : exactCounter.check t.now (t.watchdog j) = false :=
    decide_eq_false (by omega : ¬t.now ≤ t.watchdog j + timeDeadline)
  rw [List.foldlM_cons] at h
  obtain ⟨u, hu, h⟩ := Option.bind_eq_some_iff.mp h
  rw [List.foldlM_append] at h
  obtain ⟨v, hv, h⟩ := Option.bind_eq_some_iff.mp h
  have hcycle : u.pc j = .check timer t.now ∧ u.watchdog j = t.watchdog j := by
    cases svcStep_access hu
    exact ⟨Function.update_self _ _ _, rfl⟩
  have hpc : v.pc j = .check timer t.now :=
    (svcRun_pc (fun e he => (hhs e he).2) hv).trans hcycle.1
  have hread : v.watchdog j = t.watchdog j :=
    (svcRun_watchdog (fun e he => (hhs e he).1) hv).trans hcycle.2
  simp only [List.foldlM_cons, List.foldlM_nil, svcStep, hpc, hread, hcheck, Bool.and_false] at h
  obtain rfl := Option.some.inj h
  exact Function.update_self _ _ _

/-- **When `main` hangs, the first cycle of a service that reads the clock more than a second later
is its last one, whatever ran before and whatever the other services do meanwhile.** -/
theorem watchdog_stops (now : ℕ) (i : Fin n) (es gs hs : List (SvcEvent n)) (j : Fin n)
    (timer : Bool)
    (htime : now + totalTime (es ++ (gs ++ .cycle j timer :: (hs ++ [.check j]))) < 2 ^ 63 - 1)
    (hgs : ∀ e ∈ gs, NoStore j e) (hhs : ∀ e ∈ hs, NoStore j e ∧ e.svc ≠ some j)
    (hlate : timeDeadline < totalTime gs) (s : SvcSystem UInt64 n)
    (hrun : (es ++ (gs ++ SvcEvent.cycle j timer :: (hs ++ [SvcEvent.check j]))).foldlM
      (svcStep counter64) (svcBoot counter64 now i) = some s) :
    s.pc j = .stopped := by
  have hpast : (svcBoot exactCounter now i).Past := svcBoot_past now i
  have hmap := svcSimulates.run hpast (throughout_now htime)
  rw [show (svcBoot exactCounter now i).map .ofNat = svcBoot counter64 now i from rfl, hrun] at hmap
  obtain ⟨s', hs', rfl⟩ := Option.map_eq_some_iff.mp hmap.symm
  rw [List.foldlM_append] at hs'
  obtain ⟨t, ht, hs'⟩ := Option.bind_eq_some_iff.mp hs'
  rw [List.foldlM_append] at hs'
  obtain ⟨u, hu, hs'⟩ := Option.bind_eq_some_iff.mp hs'
  exact SvcPc.map_stopped.mpr (svcCycle_late (svcRun_past hpast ht) hgs hhs hlate hu hs')

/-- `main` hangs after the start of the service. -/
theorem watchdog_stops_second :
    ((([SvcEvent.initRead ⟨0, Nat.one_pos⟩, .initStore ⟨0, Nat.one_pos⟩] ++
      ([SvcEvent.tick 1000000001] ++ SvcEvent.cycle ⟨0, Nat.one_pos⟩ true ::
        ([] ++ [SvcEvent.check ⟨0, Nat.one_pos⟩]))).foldlM (svcStep counter64)
          (svcBoot counter64 5 (⟨0, Nat.one_pos⟩ : Fin 1))).get rfl).pc ⟨0, Nat.one_pos⟩ =
            .stopped :=
  watchdog_stops 5 ⟨0, Nat.one_pos⟩ _ _ _ ⟨0, Nat.one_pos⟩ true (by decide)
    (by simp [NoStore]) (by simp) (by decide) _ (Option.some_get _).symm

end Rhex
