import Mathlib
import Rhex.I2c
import Rhex.Lib.Window

/-!
# The sensors (`rhex_air/sensors/sensors.c`, `rhex_air/sensors/ina226.c`)

The service reads the voltage and the current from the INA226 and the acceleration from the
ADXL345, and publishes means of the last values and the angles of the mean acceleration. A `double`
is a rational number up to there; the sums of the filters are small integers, which a `double` holds
(`Filter.Holds.sum_exact`). The angles are computed with any operations of `double`.

* `filterValue`, `filter64Value`, `ina226Open`, `sensorsCycle`, `sensorsMain` — the functions of the
  files.
* `Filter.Holds` — what a filter holds.
* `sensors_published` — what is published, over every run.
-/

namespace Rhex

/-! ## The filters -/

/-- `filter_t` and `filter64_t`. -/
structure Filter where
  values : Nat → ℚ
  index : UInt64

def Filter.zero : Filter := ⟨fun _ => 0, 0⟩

/-- A filter of `n` values takes a value, and returns the mean. -/
def filterMean (n : Nat) (val : ℚ) (filter : Filter) : ℚ × Filter :=
  let slot := filter.index.toNat % n
  let values := Function.update filter.values slot val
  let sum := (List.range n).foldl (fun sum i => sum + values i) 0
  (sum / n, ⟨values, filter.index + 1⟩)

/-- `filter_value`. -/
def filterValue : ℚ → Filter → ℚ × Filter := filterMean 8

/-- `filter64_value`. -/
def filter64Value : ℚ → Filter → ℚ × Filter := filterMean 64

/-- The mean of the last `n` of the values; there are zeros in front of them. -/
def lastMean (n : Nat) (vals : List ℚ) : ℚ := (vals.reverse.take n).sum / n

/-- **What a filter holds**: the last `n` values. -/
def Filter.Holds (n : Nat) (filter : Filter) (vals : List ℚ) : Prop :=
  Window.Holds n filter.values (filter.index.toNat % n) (vals.reverse ++ List.replicate n 0)

theorem Filter.Holds.zero {n : Nat} (hn : 0 < n) : Filter.zero.Holds n [] :=
  Window.Holds.init (Nat.mod_lt _ hn) 0

theorem sum_take_zeros (n : Nat) (vals : List ℚ) :
    ((vals ++ List.replicate n 0).take n).sum = (vals.take n).sum := by
  rw [List.take_append, List.sum_append, List.take_replicate, List.sum_replicate, smul_zero,
    add_zero]

/-- The number of values divides the range of the index, so that nothing happens when the index
starts again. -/
theorem index_mod {n : Nat} (hn : 0 < n) (hdvd : n ∣ 2 ^ 64) (index : UInt64) :
    (index + 1).toNat % n = Window.advance n (index.toNat % n) := by
  rw [Window.advance_mod hn, UInt64.toNat_add, Nat.mod_mod_of_dvd _ hdvd]
  rfl

/-- **A filter** returns the mean of the last `n` values. -/
theorem Filter.Holds.push {n : Nat} {filter : Filter} {vals : List ℚ} (h : filter.Holds n vals)
    (hn : 0 < n) (hdvd : n ∣ 2 ^ 64) (val : ℚ) :
    (filterMean n val filter).1 = lastMean n (vals ++ [val]) ∧
      (filterMean n val filter).2.Holds n (vals ++ [val]) := by
  have hpush : (filterMean n val filter).2.Holds n (vals ++ [val]) := by
    unfold Filter.Holds
    rw [List.reverse_append, List.reverse_singleton, List.append_assoc, List.singleton_append]
    have hring := Window.Holds.push h val
    rw [← index_mod hn hdvd] at hring
    exact hring
  refine ⟨?_, hpush⟩
  have hsum := hpush.perm.sum_eq
  rw [sum_take_zeros, List.sum_eq_foldl, List.foldl_map] at hsum
  exact congrArg (· / (n : ℚ)) hsum

/-- **The sums of a filter** are integers that a `double` holds, if the values are. -/
theorem Filter.Holds.sum_exact {n : Nat} {filter : Filter} {vals : List ℚ}
    (h : filter.Holds n vals) {bound : ℤ} (hbound : 0 ≤ bound)
    (hvals : ∀ val ∈ vals, ∃ z : ℤ, val = z ∧ |z| ≤ bound) {k : Nat} (hk : k ≤ n) :
    ∃ z : ℤ, (List.range k).foldl (fun sum i => sum + filter.values i) 0 = z ∧ |z| ≤ k * bound := by
  induction k with
  | zero => exact ⟨0, by simp, by simp⟩
  | succ k ih =>
    obtain ⟨sum, hsum, hle⟩ := ih (by omega)
    have hvalue : ∃ z : ℤ, filter.values k = z ∧ |z| ≤ bound := by
      have hmem := (Window.Holds.mem_iff h).mp ⟨k, by omega, rfl⟩
      rcases List.mem_append.mp (List.mem_of_mem_take hmem) with hval | hzero
      · exact hvals _ (List.mem_reverse.mp hval)
      · exact ⟨0, by rw [List.eq_of_mem_replicate hzero, Int.cast_zero], by simpa using hbound⟩
    obtain ⟨z, hz, hzle⟩ := hvalue
    refine ⟨sum + z, ?_, ?_⟩
    · rw [List.range_succ, List.foldl_append, hsum, List.foldl_cons, List.foldl_nil, hz,
        Int.cast_add]
    · have habs := abs_add_le sum z
      push_cast
      linarith

/-! ## The devices -/

/-- What a device of the bus answers; `none` if the transfer fails. -/
abbrev I2cAnswer := Option I2cDevice

/-- `i2c_read_reg_16`, which returns -1 if the transfer fails. -/
def i2cReadAnswer (stack : Memory.Buf) (bus : I2cAnswer) (reg : Int) : Int :=
  match bus with
  | none => -1
  | some dev => i2cReadReg16 stack dev reg

/-- The registers of the INA226 and the ADXL345. -/
def ina226RegBusvoltage : UInt8 := 0x02
def ina226RegCurrent : UInt8 := 0x04
def ina226RegId : UInt8 := 0xFF
def regDataXLow : UInt8 := 0x32
def regDataYLow : UInt8 := 0x34
def regDataZLow : UInt8 := 0x36

/-- `INA226_DEVICE_ID`. -/
def ina226DeviceId : UInt16 := 0x2260

/-- `ina226_ping`. -/
def ina226Ping (stack : Memory.Buf) (bus : I2cAnswer) : Bool :=
  let id : UInt16 := .ofInt (i2cReadAnswer stack bus ina226RegId.toNat)
  decide (bswap16 id = ina226DeviceId)

/-- `ina226_get_voltage`. -/
def ina226GetVoltage (stack : Memory.Buf) (bus : I2cAnswer) : Int :=
  let v : Int := (bswap16 (.ofInt (i2cReadAnswer stack bus ina226RegBusvoltage.toNat))).toNat
  v + (v >>> (2 : Nat))

/-- `ina226_get_current`. -/
def ina226GetCurrent (stack : Memory.Buf) (bus : I2cAnswer) : Int :=
  let c : Int := (bswap16 (.ofInt (i2cReadAnswer stack bus ina226RegCurrent.toNat))).toNat
  c.tdiv 8

/-- The acceleration of an axis, with its sign. -/
def readAxis (stack : Memory.Buf) (bus : I2cAnswer) (reg : UInt8) : Int :=
  -(~~~(Int16.ofInt (i2cReadAnswer stack bus reg.toNat)).toInt + 1)

/-- The number that a register of the INA226 holds, high byte first; all bits are set if the
transfer fails. -/
def bigEndian (bus : I2cAnswer) (reg : UInt8) : Nat :=
  match bus with
  | none => 65535
  | some dev => (bswap16 (dev reg)).toNat

/-- The number that a register of the ADXL345 holds, low byte first and with a sign; it is -1 if the
transfer fails. -/
def signedWord (bus : I2cAnswer) (reg : UInt8) : Int :=
  match bus with
  | none => -1
  | some dev => (dev reg).toInt16.toInt

theorem bswap16_answer (stack : Memory.Buf) (bus : I2cAnswer) (reg : UInt8) :
    (bswap16 (.ofInt (i2cReadAnswer stack bus reg.toNat))).toNat = bigEndian bus reg := by
  cases bus with
  | none =>
    change (bswap16 (.ofInt (-1))).toNat = 65535
    decide
  | some dev =>
    simp only [i2cReadAnswer, bigEndian]
    rw [i2cReadReg16_eq]
    have hword : UInt16.ofInt ((dev reg).toNat : Int) = dev reg := by
      apply UInt16.toNat_inj.mp
      have hlt := (dev reg).toNat_lt
      rw [UInt16.ofInt, UInt16.toNat_ofNat']
      omega
    rw [hword]

/-- **The voltage** is 5/4 of the register, in millivolts. -/
theorem ina226GetVoltage_eq (stack : Memory.Buf) (bus : I2cAnswer) :
    ina226GetVoltage stack bus = (5 * bigEndian bus ina226RegBusvoltage / 4 : Nat) := by
  simp only [ina226GetVoltage]
  rw [bswap16_answer, Int.shiftRight_eq_div_pow]
  omega

theorem ina226GetCurrent_eq (stack : Memory.Buf) (bus : I2cAnswer) :
    ina226GetCurrent stack bus = (bigEndian bus ina226RegCurrent / 8 : Nat) := by
  simp only [ina226GetCurrent]
  rw [bswap16_answer, Int.tdiv_eq_ediv_of_nonneg (Int.natCast_nonneg _)]
  rfl

/-- The complement and the two signs leave the number as it is. -/
theorem readAxis_eq (stack : Memory.Buf) (bus : I2cAnswer) (reg : UInt8) :
    readAxis stack bus reg = signedWord bus reg := by
  have hneg : ∀ a : Int, -(~~~a + 1) = a := by
    intro a
    cases a with
    | ofNat a =>
      change -(Int.negSucc a + 1) = (a : Int)
      omega
    | negSucc a =>
      change -((a : Int) + 1) = Int.negSucc a
      omega
  simp only [readAxis]
  rw [hneg]
  cases bus with
  | none => rfl
  | some dev =>
    simp only [i2cReadAnswer, signedWord]
    rw [i2cReadReg16_eq, Int16.toInt_ofInt]
    exact (BitVec.toInt_eq_toNat_bmod (dev reg).toBitVec).symm

theorem ina226Ping_iff (stack : Memory.Buf) (bus : I2cAnswer) :
    ina226Ping stack bus = true ↔ bigEndian bus ina226RegId = 0x2260 := by
  rw [← bswap16_answer stack]
  simp only [ina226Ping, decide_eq_true_eq]
  rw [← UInt16.toNat_inj]
  rfl

/-! ## The service -/

/-- What the two devices answer to the reads of a cycle. -/
structure SensorsCycle where
  stack : Memory.Buf
  voltage : I2cAnswer
  current : I2cAnswer
  x : I2cAnswer
  y : I2cAnswer
  z : I2cAnswer

/-- The operations on `double` and the functions of `math.h` that the angles need. -/
structure DoubleOps (α : Type) where
  ofRat : ℚ → α
  add : α → α → α
  mul : α → α → α
  div : α → α → α
  sqrt : α → α
  atan : α → α
  /-- `M_PI` -/
  pi : α

namespace DoubleOps

variable {α : Type} (d : DoubleOps α)

/-- `sqrt(a * a + b * b)`. -/
def norm (a b : ℚ) : α :=
  d.sqrt (d.add (d.mul (d.ofRat a) (d.ofRat a)) (d.mul (d.ofRat b) (d.ofRat b)))

/-- `angle * 180.0 / M_PI`. -/
def degrees (angle : α) : α := d.div (d.mul angle (d.ofRat 180)) d.pi

/-- `s.angle_x`. -/
def angleX (ax ay az : ℚ) : α := d.degrees (d.atan (d.div (d.ofRat ax) (d.norm ay az)))

/-- `s.angle_y`. -/
def angleY (ax ay az : ℚ) : α := d.degrees (d.atan (d.div (d.ofRat ay) (d.norm ax az)))

/-- `s.angle_z`. -/
def angleZ (ax ay az : ℚ) : α := d.degrees (d.atan (d.div (d.norm ax ay) (d.ofRat az)))

end DoubleOps

/-- `sensors_status_t`. -/
structure SensorsStatus (α : Type) where
  angleX : α
  angleY : α
  angleZ : α
  vbat : ℚ
  curr : ℚ
  pwr : ℚ

/-- The variables of `sensors_main`. -/
structure SensorsState where
  fx : Filter
  fy : Filter
  fz : Filter
  fvbat : Filter
  fcurr : Filter
  pwr : ℚ

def SensorsState.init : SensorsState := ⟨.zero, .zero, .zero, .zero, .zero, 0⟩

/-- A cycle of `sensors_main`. -/
def sensorsCycle {α : Type} (d : DoubleOps α) (s : SensorsState) (e : SensorsCycle) :
    SensorsState × SensorsStatus α :=
  let v := filter64Value (ina226GetVoltage e.stack e.voltage) s.fvbat
  let c := filterValue (ina226GetCurrent e.stack e.current) s.fcurr
  let pwr := s.pwr + c.1 / 3600 / 20
  let ax := filterValue (readAxis e.stack e.x regDataXLow) s.fx
  let ay := filterValue (readAxis e.stack e.y regDataYLow) s.fy
  let az := filterValue (readAxis e.stack e.z regDataZLow) s.fz
  (⟨ax.2, ay.2, az.2, v.2, c.2, pwr⟩,
    { angleX := d.angleX ax.1 ay.1 az.1
      angleY := d.angleY ax.1 ay.1 az.1
      angleZ := d.angleZ ax.1 ay.1 az.1
      vbat := v.1 / 1000
      curr := c.1 / 1000
      pwr })

/-- The cycles, and what they write to `shm_sensors`. -/
def sensorsCycles {α : Type} (d : DoubleOps α) (s : SensorsState) :
    List SensorsCycle → List (SensorsStatus α)
  | [] => []
  | e :: es => (sensorsCycle d s e).2 :: sensorsCycles d (sensorsCycle d s e).1 es

/-- What `sensors_main` finds when it starts: whether the ADXL345 opens, and what the INA226 answers
to the first and the second ping. -/
structure SensorsStart where
  stack : Memory.Buf
  accelOpens : Bool
  ping : I2cAnswer
  pingAgain : I2cAnswer

/-- `ina226_open`: whether it returns a descriptor. A device that does not open does not answer. -/
def ina226Open (stack : Memory.Buf) (bus : I2cAnswer) : Bool := ina226Ping stack bus

/-- `sensors_main`; `none` if it returns 1 before its loop. -/
def sensorsMain {α : Type} (d : DoubleOps α) (start : SensorsStart) (cycles : List SensorsCycle) :
    Option (List (SensorsStatus α)) :=
  if start.accelOpens then
    if ina226Open start.stack start.ping then some (sensorsCycles d .init cycles)
    else if ina226Open start.stack start.pingAgain then some (sensorsCycles d .init cycles)
    else none
  else none

/-! ## What is published -/

namespace SensorsCycle

/-- The battery voltage, in millivolts. -/
def volts (e : SensorsCycle) : ℚ := (5 * bigEndian e.voltage ina226RegBusvoltage / 4 : Nat)

def amperes (e : SensorsCycle) : ℚ := (bigEndian e.current ina226RegCurrent / 8 : Nat)

def accelX (e : SensorsCycle) : ℚ := signedWord e.x regDataXLow
def accelY (e : SensorsCycle) : ℚ := signedWord e.y regDataYLow
def accelZ (e : SensorsCycle) : ℚ := signedWord e.z regDataZLow

end SensorsCycle

/-- What the currents have taken from the battery, at 20 cycles a second. -/
def charge (amperes : List ℚ) : ℚ :=
  ((List.range amperes.length).map fun k => lastMean 8 (amperes.take (k + 1)) / 3600 / 20).sum

theorem charge_append (amperes : List ℚ) (c : ℚ) :
    charge (amperes ++ [c]) = charge amperes + lastMean 8 (amperes ++ [c]) / 3600 / 20 := by
  have hprefix : ∀ k ∈ List.range amperes.length,
      lastMean 8 ((amperes ++ [c]).take (k + 1)) / 3600 / 20 =
        lastMean 8 (amperes.take (k + 1)) / 3600 / 20 := by
    intro k hk
    rw [List.take_append_of_le_length (List.mem_range.mp hk)]
  rw [charge, List.length_append, List.length_singleton, List.range_succ, List.map_append,
    List.sum_append, List.map_congr_left hprefix, List.map_singleton, List.sum_singleton,
    List.take_of_length_le (by simp)]
  rfl

/-- What is published after the cycles `seen`. -/
def statusAfter {α : Type} (d : DoubleOps α) (seen : List SensorsCycle) : SensorsStatus α :=
  let ax := lastMean 8 (seen.map SensorsCycle.accelX)
  let ay := lastMean 8 (seen.map SensorsCycle.accelY)
  let az := lastMean 8 (seen.map SensorsCycle.accelZ)
  { angleX := d.angleX ax ay az
    angleY := d.angleY ax ay az
    angleZ := d.angleZ ax ay az
    vbat := lastMean 64 (seen.map SensorsCycle.volts) / 1000
    curr := lastMean 8 (seen.map SensorsCycle.amperes) / 1000
    pwr := charge (seen.map SensorsCycle.amperes) }

/-- **What holds between two cycles.** -/
structure SensorsState.Holds (s : SensorsState) (seen : List SensorsCycle) : Prop where
  fx : s.fx.Holds 8 (seen.map SensorsCycle.accelX)
  fy : s.fy.Holds 8 (seen.map SensorsCycle.accelY)
  fz : s.fz.Holds 8 (seen.map SensorsCycle.accelZ)
  fvbat : s.fvbat.Holds 64 (seen.map SensorsCycle.volts)
  fcurr : s.fcurr.Holds 8 (seen.map SensorsCycle.amperes)
  pwr : s.pwr = charge (seen.map SensorsCycle.amperes)

theorem SensorsState.Holds.init : SensorsState.init.Holds [] :=
  have height : Filter.zero.Holds 8 [] := .zero (by decide)
  ⟨height, height, height, .zero (by decide), height, rfl⟩

theorem filterValue_push {filter : Filter} {seen : List SensorsCycle} {f : SensorsCycle → ℚ}
    (h : filter.Holds 8 (seen.map f)) (e : SensorsCycle) :
    (filterValue (f e) filter).1 = lastMean 8 ((seen ++ [e]).map f) ∧
      (filterValue (f e) filter).2.Holds 8 ((seen ++ [e]).map f) := by
  rw [List.map_append, List.map_singleton]
  exact h.push (by decide) (by decide) (f e)

/-- **A cycle.** -/
theorem SensorsState.Holds.step {α : Type} (d : DoubleOps α) {s : SensorsState}
    {seen : List SensorsCycle} (h : s.Holds seen) (e : SensorsCycle) :
    (sensorsCycle d s e).1.Holds (seen ++ [e]) ∧
      (sensorsCycle d s e).2 = statusAfter d (seen ++ [e]) := by
  have hvolts : ((ina226GetVoltage e.stack e.voltage : Int) : ℚ) = e.volts := by
    rw [ina226GetVoltage_eq]
    rfl
  have hamperes : ((ina226GetCurrent e.stack e.current : Int) : ℚ) = e.amperes := by
    rw [ina226GetCurrent_eq]
    rfl
  have hv : (filter64Value e.volts s.fvbat).1 = lastMean 64 ((seen ++ [e]).map SensorsCycle.volts) ∧
      (filter64Value e.volts s.fvbat).2.Holds 64 ((seen ++ [e]).map SensorsCycle.volts) := by
    rw [List.map_append, List.map_singleton]
    exact h.fvbat.push (by decide) (by decide) e.volts
  have hc := filterValue_push h.fcurr e
  have hx := filterValue_push h.fx e
  have hy := filterValue_push h.fy e
  have hz := filterValue_push h.fz e
  have hpwr : s.pwr + (filterValue e.amperes s.fcurr).1 / 3600 / 20 =
      charge ((seen ++ [e]).map SensorsCycle.amperes) := by
    rw [hc.1, h.pwr, List.map_append, List.map_singleton, charge_append]
  simp only [sensorsCycle, hvolts, hamperes, readAxis_eq]
  refine ⟨⟨hx.2, hy.2, hz.2, hv.2, hc.2, hpwr⟩, ?_⟩
  rw [statusAfter, ← hx.1, ← hy.1, ← hz.1, ← hv.1, ← hc.1, ← hpwr]
  rfl

/-- **A run.** -/
theorem SensorsState.Holds.run {α : Type} (d : DoubleOps α) {s : SensorsState}
    {seen : List SensorsCycle} (h : s.Holds seen) (cycles : List SensorsCycle) :
    sensorsCycles d s cycles =
      (List.range cycles.length).map fun k => statusAfter d (seen ++ cycles.take (k + 1)) := by
  induction cycles generalizing s seen with
  | nil => rfl
  | cons e es ih =>
    obtain ⟨hnext, hstatus⟩ := h.step d e
    rw [sensorsCycles, hstatus, ih hnext, List.length_cons, List.range_succ_eq_map, List.map_cons,
      List.map_map]
    have htail : ∀ k ∈ List.range es.length, statusAfter d (seen ++ [e] ++ es.take (k + 1)) =
        ((fun k => statusAfter d (seen ++ (e :: es).take (k + 1))) ∘ Nat.succ) k := by
      intro k _
      rw [Function.comp_apply, List.take_succ_cons, List.append_assoc, List.singleton_append]
    rw [List.map_congr_left htail]
    rfl

/-- **The sensors**: the service reaches its loop if the accelerometer opens and the INA226 holds
its number at the first or the second ping, and then each cycle publishes the angles of the mean of
the last 8 accelerations, the means of the last 64 voltages and 8 currents and what was taken from
the battery, whatever the devices answer and however often the index of a filter starts again. -/
theorem sensors_published {α : Type} (d : DoubleOps α) (start : SensorsStart)
    (cycles : List SensorsCycle) : sensorsMain d start cycles =
      if start.accelOpens = true ∧ (bigEndian start.ping ina226RegId = 0x2260 ∨
          bigEndian start.pingAgain ina226RegId = 0x2260) then
        some ((List.range cycles.length).map fun k => statusAfter d (cycles.take (k + 1)))
      else none := by
  have hrun := SensorsState.Holds.init.run d cycles
  simp only [List.nil_append] at hrun
  simp only [sensorsMain, ina226Open, ina226Ping_iff, hrun]
  split_ifs <;> first | rfl | tauto

end Rhex
