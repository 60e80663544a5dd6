import Mathlib
import Rhex.Lib.Run

/-!
# The position of the robot

`parse_line` collects what the sentences of the receiver say in one status, and writes it to
shared memory with each RMC sentence. A `float` is a rational number here, and `none` where the
code computes NaN.

* `parseLine` — the status after a sentence, and what is written.
* `Declares` — a sentence declares a valid fix.
* `parseLine_publishes` — when the positions that are published come from valid fixes.
-/

namespace Rhex

/-! ## Sentences -/

/-- `struct minmea_float`. The scale is zero where the field is empty. -/
structure MinmeaFloat where
  value : Int32
  scale : Int32
  scale_eq : scale = 0 ∨ ∃ k ≤ 9, scale.toInt = 10 ^ k

namespace MinmeaFloat

/-- `minmea_tofloat` -/
def tofloat (f : MinmeaFloat) : Option ℚ :=
  if f.scale = 0 then none else some (f.value.toInt / f.scale.toInt)

/-- `minmea_tocoord` -/
def tocoord (f : MinmeaFloat) : Option ℚ :=
  if f.scale = 0 then
    none
  else
    let degrees := f.value / (f.scale * 100)
    let minutes := f.value % (f.scale * 100)
    some (degrees.toInt + minutes.toInt / (60 * f.scale).toInt)

/-- The field is not empty. -/
def Known (f : MinmeaFloat) : Prop := f.scale ≠ 0

theorem isSome_tocoord {f : MinmeaFloat} : f.tocoord.isSome ↔ f.Known := by
  unfold tocoord Known
  split <;> simp_all

end MinmeaFloat

/-- `struct minmea_sentence_gga` -/
structure GgaFrame where
  latitude : MinmeaFloat
  longitude : MinmeaFloat
  fixQuality : Int32
  satellitesTracked : Int32
  hdop : MinmeaFloat
  altitude : MinmeaFloat

/-- `struct minmea_sentence_rmc` -/
structure RmcFrame where
  valid : Bool
  latitude : MinmeaFloat
  longitude : MinmeaFloat
  speed : MinmeaFloat
  course : MinmeaFloat

/-- What minmea finds in a line: a frame, or none when the sentence cannot be parsed. -/
inductive MinmeaSentence where
  | gga (frame : Option GgaFrame)
  /-- with `total_sats` -/
  | gsv (totalSats : Option Int32)
  | rmc (frame : Option RmcFrame)
  /-- a sentence that is not looked at, an unknown or an invalid one -/
  | other

/-! ## The status -/

/-- `gps_status_t` -/
structure GpsStatus where
  latitude : Option ℚ
  longitude : Option ℚ
  speed : Option ℚ
  course : Option ℚ
  altitude : Option ℚ
  hdop : Option ℚ
  satsUse : UInt8
  satsView : UInt8
  hasFix : Bool

/-- `tmp_gps_status` at the start. -/
def GpsStatus.zero : GpsStatus :=
  ⟨some 0, some 0, some 0, some 0, some 0, some 0, 0, 0, false⟩

/-- `parse_line`: the status, and what is written to shared memory. -/
def parseLine (st : GpsStatus) : MinmeaSentence → GpsStatus × Option GpsStatus
  | .gga (some frame) =>
    if 0 < frame.fixQuality then
      ({ st with
        hasFix := true
        latitude := frame.latitude.tocoord
        longitude := frame.longitude.tocoord
        altitude := frame.altitude.tofloat
        hdop := frame.hdop.tofloat
        satsUse := .ofInt frame.satellitesTracked.toInt }, none)
    else
      ({ st with hasFix := false }, none)
  | .gsv (some totalSats) => ({ st with satsView := .ofInt totalSats.toInt }, none)
  | .rmc (some frame) =>
    let st := { st with
      latitude := frame.latitude.tocoord
      longitude := frame.longitude.tocoord
      speed := frame.speed.tofloat
      course := frame.course.tofloat }
    (st, some st)
  -- the sentence is not parsed
  | .gga none | .gsv none | .rmc none => (st, none)
  | .other => (st, none)

/-! ## Where a position comes from -/

namespace MinmeaSentence

/-- The latitude and the longitude that `parse_line` takes from the sentence. -/
def position : MinmeaSentence → Option (MinmeaFloat × MinmeaFloat)
  | gga (some frame) =>
    if 0 < frame.fixQuality then some (frame.latitude, frame.longitude) else none
  | rmc (some frame) => some (frame.latitude, frame.longitude)
  | _ => none

/-- The sentence declares a valid fix. -/
def Declares : MinmeaSentence → Prop
  | gga (some frame) => 0 < frame.fixQuality
  | rmc (some frame) => frame.valid
  | _ => False

end MinmeaSentence

/-- The status with the sentence that its position comes from, and the last GGA frame. -/
structure GpsFix where
  status : GpsStatus
  source : Option MinmeaSentence
  gga : Option GgaFrame

/-- The sentence that the position comes from after `parse_line`. -/
def GpsFix.sourceAfter (r : GpsFix) (s : MinmeaSentence) : Option MinmeaSentence :=
  if s.position.isSome then some s else r.source

/-- The last GGA frame after `parse_line`. -/
def GpsFix.ggaAfter (r : GpsFix) : MinmeaSentence → Option GgaFrame
  | .gga (some frame) => some frame
  | _ => r.gga

def gpsFixStep (r : GpsFix) (s : MinmeaSentence) : Option GpsFix :=
  some ⟨(parseLine r.status s).1, r.sourceAfter s, r.ggaAfter s⟩

/-- A status with a fix is published with a known position, from a sentence that declared a valid
fix. -/
def PublishesFix (r : GpsFix) (s : MinmeaSentence) : Prop :=
  ∀ st, (parseLine r.status s).2 = some st → st.hasFix →
    st.latitude.isSome ∧ st.longitude.isSome ∧
      ∃ source lat lon, r.sourceAfter s = some source ∧ source.Declares ∧
        source.position = some (lat, lon) ∧ st.latitude = lat.tocoord ∧
        st.longitude = lon.tocoord

/-- After a GGA frame with a fix, RMC frames are valid and have a position. -/
def RmcDeclares (r : GpsFix) (s : MinmeaSentence) : Prop :=
  ∀ frame, s = .rmc (some frame) → (∃ g, r.gga = some g ∧ 0 < g.fixQuality) →
    frame.valid ∧ frame.latitude.Known ∧ frame.longitude.Known

/-- `has_fix` is what the last GGA frame says. -/
def GpsFix.Inv (r : GpsFix) : Prop :=
  r.status.hasFix ↔ ∃ g, r.gga = some g ∧ 0 < g.fixQuality

theorem gpsFixStep_inv {r r' : GpsFix} {s : MinmeaSentence} (hr : r.Inv)
    (h : gpsFixStep r s = some r') : r'.Inv := by
  obtain rfl := Option.some.inj h
  rcases s with (_ | frame) | (_ | totalSats) | (_ | frame) | _
  case gga.some =>
    by_cases hfix : 0 < frame.fixQuality
    · simp [GpsFix.Inv, GpsFix.ggaAfter, parseLine, hfix]
    · simp [GpsFix.Inv, GpsFix.ggaAfter, parseLine, hfix]
  all_goals exact hr

/-- Only RMC frames are published, with their own position. -/
theorem publishesFix_iff {r : GpsFix} {s : MinmeaSentence} (hr : r.Inv) :
    PublishesFix r s ↔ RmcDeclares r s := by
  rcases s with (_ | frame) | (_ | totalSats) | (_ | frame) | _
  case gga.some =>
    by_cases hfix : 0 < frame.fixQuality
    · simp [PublishesFix, RmcDeclares, parseLine, hfix]
    · simp [PublishesFix, RmcDeclares, parseLine, hfix]
  case rmc.some =>
    constructor
    · intro h rmc hrmc hgga
      obtain rfl : frame = rmc := by simpa using hrmc
      obtain ⟨hlat, hlon, source, lat, lon, hsource, hdeclares, -⟩ := h _ rfl (hr.mpr hgga)
      obtain rfl : .rmc (some frame) = source := by
        simpa [GpsFix.sourceAfter, MinmeaSentence.position] using hsource
      exact ⟨hdeclares, MinmeaFloat.isSome_tocoord.mp hlat, MinmeaFloat.isSome_tocoord.mp hlon⟩
    · intro h st hst hfix
      obtain rfl := Option.some.inj hst
      obtain ⟨hvalid, hlat, hlon⟩ := h frame rfl (hr.mp hfix)
      exact ⟨MinmeaFloat.isSome_tocoord.mpr hlat, MinmeaFloat.isSome_tocoord.mpr hlon,
        .rmc (some frame), frame.latitude, frame.longitude, rfl, hvalid, rfl, rfl, rfl⟩
  all_goals simp [PublishesFix, RmcDeclares, parseLine]

/-- **Positions come from valid fixes exactly as long as each RMC frame that follows a GGA frame
with a fix is valid and has a position.** -/
theorem parseLine_publishes (sentences : List MinmeaSentence) :
    Run.Throughout gpsFixStep PublishesFix ⟨.zero, none, none⟩ sentences ↔
      Run.Throughout gpsFixStep RmcDeclares ⟨.zero, none, none⟩ sentences := by
  have hstart : (⟨.zero, none, none⟩ : GpsFix).Inv := by simp [GpsFix.Inv, GpsStatus.zero]
  exact Run.Throughout.congr (fun _ _ _ _ hr h => gpsFixStep_inv hr h)
    (fun _ _ _ hr => publishesFix_iff hr) hstart

def MinmeaFloat.empty : MinmeaFloat := ⟨0, 0, .inl rfl⟩

/-- The fix is lost between a GGA and an RMC sentence: `has_fix` is published without a position. -/
theorem parseLine_loses_fix :
    let lat : MinmeaFloat := ⟨55455678, 10000, .inr ⟨4, by decide, by decide⟩⟩
    let gga : MinmeaSentence := .gga (some ⟨lat, lat, 1, 7, .empty, .empty⟩)
    let rmc : MinmeaSentence := .rmc (some ⟨false, .empty, .empty, .empty, .empty⟩)
    (parseLine (parseLine .zero gga).1 rmc).2.map (fun st => (st.hasFix, st.latitude)) =
        some (true, none) ∧
      ¬Run.Throughout gpsFixStep PublishesFix ⟨.zero, none, none⟩ [gga, rmc] := by
  intro lat gga rmc
  refine ⟨rfl, fun h => ?_⟩
  have hrmc := (h.2 _ rfl).1
  exact absurd (hrmc _ rfl rfl).1 (by decide)

end Rhex
