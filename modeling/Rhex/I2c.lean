import Mathlib
import Rhex.Lib.Memory
import Rhex.Lib.Run

/-!
# Registers on the I2C bus (`libio/i2c.c`, `rhex_air/sensors/ina226.c`)

A device is a file of 16-bit registers. A transfer goes through a union of a byte and a word that
is not initialised; `i2c_write_reg_16` sets the byte and transfers the word. A `double` is a
rational number, and its arithmetic is exact.

* `i2cWriteReg16`, `i2cReadReg16`, `ina226SetShunt` — the functions of the files.
* `I2cWrite.word_eq_iff` — when a write carries its value.
* `i2c_lossless` — when every read of a run returns the value of the last write.
-/

namespace Rhex

open Memory

/-! ## The functions -/

/-- The registers of a device, by command. -/
abbrev I2cDevice := UInt8 → UInt16

/-- `I2C_SMBUS_READ` and `I2C_SMBUS_WRITE`. -/
inductive SmbusRw where
  | read | write
deriving DecidableEq

/-- `i2c_smbus_access` with `I2C_SMBUS_WORD_DATA`: the word of the union is transferred, and the
transfer succeeds. -/
def i2cSmbusAccess (dev : I2cDevice) (rw : SmbusRw) (command : UInt8) (data : Buf) :
    I2cDevice × Buf :=
  match rw with
  | .read => (dev, memcpy data 0 (le16 (dev command)))
  | .write => (Function.update dev command (read16 data 0), data)

/-- `i2c_write_reg_16`; `stack` is what the union holds before. -/
def i2cWriteReg16 (stack : Buf) (dev : I2cDevice) (reg value : Int) : I2cDevice :=
  let data := memcpy stack 0 [.ofInt value]
  (i2cSmbusAccess dev .write (.ofInt reg) data).1

/-- `i2c_read_reg_16`. -/
def i2cReadReg16 (stack : Buf) (dev : I2cDevice) (reg : Int) : Int :=
  let data := (i2cSmbusAccess dev .read (.ofInt reg) stack).2
  (read16 data 0 &&& 0xFFFF).toNat

/-- `bswap_16`. -/
def bswap16 (x : UInt16) : UInt16 := (x >>> 8) ||| (x <<< 8)

/-- `INA226_REG_CALIBRATION`. -/
def ina226RegCalibration : UInt8 := 0x05

/-- The calibration value of a shunt; a quotient beyond 16 bits is cut off. -/
def ina226Cal (shunt : ℚ) : UInt16 := .ofNat ⌊(0.00512 : ℚ) / (8 / 32768 * shunt)⌋.toNat

/-- `ina226_set_shunt`. -/
def ina226SetShunt (stack : Buf) (dev : I2cDevice) (shunt : ℚ) : I2cDevice :=
  let reg := bswap16 (ina226Cal shunt)
  i2cWriteReg16 stack dev ina226RegCalibration.toNat reg.toNat

/-! ## One write -/

/-- A value that is written, and what the union holds before. -/
structure I2cWrite where
  stack : Buf
  value : UInt16

namespace I2cWrite

/-- The word that is transferred. -/
def word (w : I2cWrite) : UInt16 := read16 (memcpy w.stack 0 [.ofInt w.value.toNat]) 0

/-- The second byte of the union is the high byte of the value. -/
def Carried (w : I2cWrite) : Prop := w.stack 1 = (w.value >>> 8).toUInt8

end I2cWrite

theorem uint8_ofInt_toNat (x : UInt8) : UInt8.ofInt x.toNat = x := by
  apply UInt8.toNat_inj.mp
  have hx := x.toNat_lt
  rw [UInt8.ofInt, UInt8.toNat_ofNat']
  omega

theorem I2cWrite.word_toNat (w : I2cWrite) :
    w.word.toNat = w.value.toNat % 2 ^ 8 + 2 ^ 8 * (w.stack 1).toNat := by
  have hstale := (w.stack 1).toNat_lt
  have hlow : (UInt8.ofInt w.value.toNat).toNat = w.value.toNat % 2 ^ 8 := by
    rw [UInt8.ofInt, UInt8.toNat_ofNat']
    omega
  have hfirst : memcpy w.stack 0 [.ofInt w.value.toNat] 0 = .ofInt w.value.toNat := rfl
  have hsecond : memcpy w.stack 0 [.ofInt w.value.toNat] (0 + 1) = w.stack 1 := rfl
  rw [word, read16, hfirst, hsecond, UInt16.toNat_ofNat', hlow]
  omega

/-- **A write carries its value** exactly if the union holds its high byte already. -/
theorem I2cWrite.word_eq_iff (w : I2cWrite) : w.word = w.value ↔ w.Carried := by
  have hvalue := w.value.toNat_lt
  have hstale := (w.stack 1).toNat_lt
  have hhigh : (w.value >>> 8).toUInt8.toNat = w.value.toNat / 2 ^ 8 := by
    rw [UInt16.toNat_toUInt8, UInt16.toNat_shiftRight]
    simp [Nat.shiftRight_eq_div_pow]
    omega
  rw [Carried, ← UInt16.toNat_inj, ← UInt8.toNat_inj, word_toNat, hhigh]
  omega

theorem bswap16_high (x : UInt16) : (bswap16 x >>> 8).toUInt8 = x.toUInt8 := by
  apply UInt8.toBitVec_inj.mp
  simp only [bswap16, UInt16.toBitVec_toUInt8, UInt16.toBitVec_shiftRight, UInt16.toBitVec_or,
    UInt16.toBitVec_shiftLeft]
  apply BitVec.eq_of_getLsbD_eq
  intro i hi
  have hlt : 8 + i < 16 := by omega
  have hge : x.toBitVec.getLsbD (8 + (8 + i)) = false := BitVec.getLsbD_of_ge _ _ (by omega)
  simp [hi, hlt, hge, BitVec.getLsbD_eq_getElem (by omega : i < 16)]

theorem i2cWriteReg16_eq (stack : Buf) (dev : I2cDevice) (reg : UInt8) (value : UInt16) :
    i2cWriteReg16 stack dev reg.toNat value.toNat =
      Function.update dev reg (I2cWrite.mk stack value).word := by
  simp only [i2cWriteReg16, i2cSmbusAccess, uint8_ofInt_toNat]
  rfl

/-- A read returns what the register holds. -/
theorem i2cReadReg16_eq (stack : Buf) (dev : I2cDevice) (reg : UInt8) :
    i2cReadReg16 stack dev reg.toNat = (dev reg).toNat := by
  have hword : read16 (memcpy stack 0 (le16 (dev reg))) 0 = dev reg :=
    read16_of_slice (slice_memcpy stack 0 (le16 (dev reg)))
  have hmask : dev reg &&& 0xFFFF = dev reg := by
    apply UInt16.toNat_inj.mp
    rw [UInt16.toNat_and]
    exact Nat.and_two_pow_sub_one_of_lt_two_pow (dev reg).toNat_lt
  simp only [i2cReadReg16, i2cSmbusAccess, uint8_ofInt_toNat, hword, hmask]

/-! ## Runs -/

/-- A call on the device. -/
inductive I2cCall where
  | write (reg : UInt8) (w : I2cWrite)
  | read (reg : UInt8) (stack : Buf)
  | setShunt (shunt : ℚ) (stack : Buf)

/-- What `ina226_set_shunt` writes. -/
def shuntWrite (shunt : ℚ) (stack : Buf) : I2cWrite := ⟨stack, bswap16 (ina226Cal shunt)⟩

/-- The calibration is carried by the low byte of its quotient. -/
theorem carried_shuntWrite (shunt : ℚ) (stack : Buf) :
    (shuntWrite shunt stack).Carried ↔ stack 1 = .ofNat ⌊20.97152 / shunt⌋.toNat := by
  have hquot : (0.00512 : ℚ) / (8 / 32768 * shunt) = 20.97152 / shunt := by
    rw [← div_div]
    norm_num
  have hlow : (ina226Cal shunt).toUInt8 = .ofNat ⌊20.97152 / shunt⌋.toNat := by
    apply UInt8.toNat_inj.mp
    rw [ina226Cal, hquot, UInt16.toNat_toUInt8, UInt16.toNat_ofNat', UInt8.toNat_ofNat']
    omega
  simp only [I2cWrite.Carried, shuntWrite]
  rw [bswap16_high, hlow]

/-- The device, and the last write to each register. -/
structure I2cRun where
  dev : I2cDevice
  last : UInt8 → Option I2cWrite

namespace I2cRun

def step (r : I2cRun) : I2cCall → Option I2cRun
  | .write reg w => some ⟨i2cWriteReg16 w.stack r.dev reg.toNat w.value.toNat,
      Function.update r.last reg (some w)⟩
  | .read _ _ => some r
  | .setShunt shunt stack => some ⟨ina226SetShunt stack r.dev shunt,
      Function.update r.last ina226RegCalibration (some (shuntWrite shunt stack))⟩

/-- A read returns the value of the last write, and the calibration is stored. -/
def Lossless (r : I2cRun) : I2cCall → Prop
  | .write _ _ => True
  | .read reg stack => ∀ w, r.last reg = some w → i2cReadReg16 stack r.dev reg.toNat = w.value.toNat
  | .setShunt shunt stack =>
    ina226SetShunt stack r.dev shunt ina226RegCalibration = bswap16 (ina226Cal shunt)

/-- The union of the write held the high byte already; of the swapped calibration this is the low
byte of the quotient. -/
def Carries (r : I2cRun) : I2cCall → Prop
  | .write _ _ => True
  | .read reg _ => ∀ w, r.last reg = some w → w.Carried
  | .setShunt shunt stack => stack 1 = .ofNat ⌊20.97152 / shunt⌋.toNat

/-- **What holds between two calls**: a register holds the word of its last write. -/
def Holds (r : I2cRun) : Prop := ∀ reg w, r.last reg = some w → r.dev reg = w.word

theorem Holds.write {r : I2cRun} (h : r.Holds) (reg : UInt8) (w : I2cWrite) :
    Holds ⟨Function.update r.dev reg w.word, Function.update r.last reg (some w)⟩ := by
  intro reg' w' hlast
  by_cases hreg : reg' = reg
  · subst hreg
    simp only [Function.update_self, Option.some.injEq] at hlast ⊢
    rw [hlast]
  · simp only [Function.update_of_ne hreg] at hlast ⊢
    exact h reg' w' hlast

theorem Holds.step {r r' : I2cRun} (h : r.Holds) {call : I2cCall} (hstep : r.step call = some r') :
    r'.Holds := by
  cases call with
  | write reg w =>
    obtain rfl := Option.some.inj hstep
    rw [i2cWriteReg16_eq]
    exact h.write reg w
  | read reg stack =>
    obtain rfl := Option.some.inj hstep
    exact h
  | setShunt shunt stack =>
    obtain rfl := Option.some.inj hstep
    simp only [ina226SetShunt]
    rw [i2cWriteReg16_eq]
    exact h.write ina226RegCalibration (shuntWrite shunt stack)

theorem Holds.lossless_iff {r : I2cRun} (h : r.Holds) (call : I2cCall) :
    r.Lossless call ↔ r.Carries call := by
  cases call with
  | write reg w => exact Iff.rfl
  | read reg stack =>
    refine forall₂_congr fun w hw => ?_
    rw [i2cReadReg16_eq, h reg w hw, Nat.cast_inj, UInt16.toNat_inj, I2cWrite.word_eq_iff]
  | setShunt shunt stack =>
    simp only [Lossless, Carries, ina226SetShunt]
    rw [i2cWriteReg16_eq, Function.update_self, ← carried_shuntWrite, ← I2cWrite.word_eq_iff]
    rfl

end I2cRun

/-- **Registers are lossless**, and the calibration is stored, in exactly the runs in which for each
register that is read the last write found the high byte of its value in its union, and so did each
write of the calibration. -/
theorem i2c_lossless (dev : I2cDevice) (calls : List I2cCall) :
    Run.Throughout I2cRun.step I2cRun.Lossless ⟨dev, fun _ => none⟩ calls ↔
      Run.Throughout I2cRun.step I2cRun.Carries ⟨dev, fun _ => none⟩ calls :=
  Run.Throughout.congr (I := I2cRun.Holds) (fun _ _ _ _ h hstep => h.step hstep)
    (fun _ call _ h => h.lossless_iff call) (fun _ _ hnone => nomatch hnone)

/-- The value 0x1234 is written through a union of zeros, and 0x0034 is read. -/
theorem i2c_loses_high_byte :
    i2cReadReg16 (fun _ => 0) (i2cWriteReg16 (fun _ => 0) (fun _ => 0) 0 0x1234) 0 = 0x34 ∧
      ¬Run.Throughout I2cRun.step I2cRun.Lossless ⟨fun _ => 0, fun _ => none⟩
        [.write 0 ⟨fun _ => 0, 0x1234⟩, .read 0 fun _ => 0] := by
  refine ⟨by decide, fun h => ?_⟩
  have hread := (h.2 _ rfl).1
  exact absurd (hread _ rfl) (by decide)

end Rhex
