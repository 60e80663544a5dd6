import Mathlib
import Rhex.Motion

/-!
# The ranges of the gait

`make_step` maps the phase of the gait to the position of each leg in three piecewise-linear steps,
each followed by one conditional wrap.

* `turnPhase_mem`, `wrapPhase_mem`, `phasePos_mem` — one wrap is enough.
* `Motion.InGait` — what each call keeps.
* `gait_in_range` — the state and the six commands in every run.
-/

namespace Rhex

open Set

/-! ## The parts of a step -/

theorem flimit_mem (val : ℚ) : flimit val 1 (-1) ∈ Icc (-1) 1 := by
  simp only [flimit]
  split_ifs <;> constructor <;> linarith

theorem one_le_slowdown (speed steering : ℚ) : 1 ≤ slowdown speed steering := by
  rw [slowdown]
  split_ifs
  · linarith [abs_nonneg (steering / speed / 2)]
  · exact le_rfl

theorem abs_phase_le {speed : ℚ} (hspeed : speed ∈ Icc (-1) 1) (steering : ℚ) :
    |speed / slowdown speed steering / 100| ≤ 1 / 100 := by
  have hslow := one_le_slowdown speed steering
  have hpos : 0 < slowdown speed steering := by linarith
  have hquot : |speed| / slowdown speed steering ≤ 1 := by
    rw [div_le_one hpos]
    exact (abs_le.mpr hspeed).trans hslow
  rw [abs_div, abs_div, abs_of_pos hpos, abs_of_pos (by norm_num : (0 : ℚ) < 100)]
  linarith

theorem turnPhase_mem {speed globalPhase : ℚ} (hspeed : speed ∈ Icc (-1) 1) (steering : ℚ)
    (h : globalPhase ∈ Icc 0 1) : turnPhase speed steering globalPhase ∈ Icc 0 1 := by
  obtain ⟨hlow, hhigh⟩ := abs_le.mp (abs_phase_le hspeed steering)
  obtain ⟨h₀, h₁⟩ := h
  simp only [turnPhase]
  split_ifs <;> constructor <;> linarith

theorem wrapPhase_mem {phase : ℚ} (h : phase ∈ Icc (-(3 / 2)) (3 / 2)) :
    wrapPhase phase ∈ Icc (-(1 / 2)) (1 / 2) := by
  obtain ⟨hlow, hhigh⟩ := h
  simp only [wrapPhase]
  split_ifs <;> constructor <;> linarith

theorem sdStart_mem {steering : ℚ} (h : steering ∈ Icc (-1) 1) (side : LegSide) :
    sdStart steering side ∈ Icc 0 (1 / 4) := by
  obtain ⟨hlow, hhigh⟩ := h
  cases side <;> simp only [sdStart] <;> split_ifs <;> constructor <;> linarith

theorem sd_eq (steering : ℚ) (side : LegSide) :
    sdEnd steering side - sdStart steering side = 1 / 2 - 2 * sdStart steering side := by
  rw [sdEnd]
  ring

theorem legPhase_mem {steering globalPhase : ℚ} {drv : DrvStatus}
    (hsteering : steering ∈ Icc (-1) 1) (hphase : globalPhase ∈ Icc 0 1)
    (hoffset : drv.phaseOffset ∈ Icc 0 (1 / 2)) :
    legPhase steering globalPhase drv ∈ Icc (-(1 / 2)) (1 / 2) := by
  obtain ⟨h₀, h₁⟩ := hphase
  obtain ⟨hoff₀, hoff₁⟩ := hoffset
  obtain ⟨hsd₀, hsd₁⟩ := sdStart_mem hsteering drv.side
  have hlp : wrapPhase (-(globalPhase + drv.phaseOffset) + 1 / 2) ∈ Icc (-(1 / 2)) (1 / 2) :=
    wrapPhase_mem ⟨by linarith, by linarith⟩
  simp only [legPhase, sd_eq]
  generalize wrapPhase (-(globalPhase + drv.phaseOffset) + 1 / 2) = lp1 at hlp
  generalize sdStart steering drv.side = s at hsd₀ hsd₁
  obtain ⟨hlp₀, hlp₁⟩ := hlp
  apply wrapPhase_mem
  split_ifs <;> constructor <;> nlinarith

/-- The positions between which a leg is down. -/
theorem phaseStart_sub_phaseEnd (speed : ℚ) :
    phaseStart speed - phaseEnd speed = 170 + 90 * speed := by
  rw [phaseStart, phaseEnd]
  ring

theorem phasePos_mem {speed phase : ℚ} (hspeed : speed ∈ Icc (-1) 1)
    (hphase : phase ∈ Icc (-(1 / 2)) (1 / 2)) : phasePos speed phase ∈ Ico 0 768 := by
  have hdown := phaseStart_sub_phaseEnd speed
  have hend : phaseEnd speed = 140 - 40 * speed := by
    rw [phaseEnd]
    ring
  obtain ⟨hs₀, hs₁⟩ := hspeed
  obtain ⟨h₀, h₁⟩ := hphase
  simp only [phasePos]
  generalize phaseStart speed - phaseEnd speed = down at *
  generalize phaseEnd speed = pe at *
  by_cases hpos : phase > 0
  · -- between the end and the start of the phase below
    have hle : 2 * phase * down ≤ down := by nlinarith
    have hnonneg : 0 ≤ 2 * phase * down := by nlinarith
    rw [if_pos hpos]
    split_ifs <;> constructor <;> linarith
  · -- from the start, over the top, to the end
    have hle : 2 * phase * (768 - down) ≤ 0 := by nlinarith
    have hge : -(768 - down) ≤ 2 * phase * (768 - down) := by nlinarith
    rw [if_neg hpos]
    split_ifs <;> constructor <;> linarith

/-! ## The commands -/

theorem mSpeed_mem (pos old : ℚ) : mSpeed pos old ∈ Icc 0 1536 := by
  have hdiff := abs_nonneg (fdiff pos old)
  simp only [mSpeed]
  split_ifs <;> constructor <;> linarith

theorem toNat_toUint16 {pos : ℚ} (h : pos ∈ Ico 0 768) :
    ((toUint16 pos).toNat : ℤ) = ⌊pos⌋ ∧ 0 ≤ ⌊pos⌋ ∧ ⌊pos⌋ < 768 := by
  have hnonneg : 0 ≤ ⌊pos⌋ := Int.floor_nonneg.mpr h.1
  have hlt : ⌊pos⌋ < 768 := Int.floor_lt.mpr (by exact_mod_cast h.2)
  have hnat : (⌊pos⌋.toNat : ℤ) = ⌊pos⌋ := Int.toNat_of_nonneg hnonneg
  have hfits : (toUint16 pos).toNat = ⌊pos⌋.toNat := by
    change (UInt16.ofNat ⌊pos⌋.toNat).toNat = _
    rw [UInt16.toNat_ofNat']
    exact Nat.mod_eq_of_lt (by omega)
  exact ⟨by rw [hfits, hnat], hnonneg, hlt⟩

/-- The command to a drive: the subtraction does not wrap, and the conversions keep the values. -/
theorem legCmd_eq {pos : ℚ} (d : Fin 6) (old : ℚ) (h : pos ∈ Ico 0 768) :
    ((legCmd d pos old).position.toNat : ℤ) =
        (if d = 5 ∨ d = 4 then 768 - ⌊pos⌋ else ⌊pos⌋) ∧
      (legCmd d pos old).speed.toInt = ⌊mSpeed pos old⌋ := by
  obtain ⟨hfits, hnonneg, hlt⟩ := toNat_toUint16 h
  constructor
  · simp only [legCmd]
    split_ifs
    · have hle : (toUint16 pos).toUInt32 ≤ 768 := by
        rw [UInt32.le_iff_toNat_le, UInt16.toNat_toUInt32]
        change (toUint16 pos).toNat ≤ 768
        omega
      rw [UInt32.toNat_sub_of_le _ _ hle, UInt16.toNat_toUInt32]
      change ((768 - (toUint16 pos).toNat : Nat) : ℤ) = _
      omega
    · rw [UInt16.toNat_toUInt32, hfits]
  · obtain ⟨hspeed₀, hspeed₁⟩ := mSpeed_mem pos old
    have hfloor₀ : 0 ≤ ⌊mSpeed pos old⌋ := Int.floor_nonneg.mpr hspeed₀
    have hfloor₁ : ⌊mSpeed pos old⌋ ≤ 1536 := by
      exact_mod_cast (Int.floor_le (mSpeed pos old)).trans hspeed₁
    change (Int16.ofInt ⌊mSpeed pos old⌋).toInt = _
    rw [Int16.toInt_ofInt_of_le (by simp; omega) (by simp; omega)]

theorem legCmd_mem {pos : ℚ} (d : Fin 6) (old : ℚ) (h : pos ∈ Ico 0 768) :
    (legCmd d pos old).position.toNat ≤ 768 ∧ 0 ≤ (legCmd d pos old).speed.toInt ∧
      (legCmd d pos old).speed.toInt ≤ 1536 := by
  obtain ⟨-, hnonneg, hlt⟩ := toNat_toUint16 h
  obtain ⟨hposition, hspeed⟩ := legCmd_eq d old h
  obtain ⟨hspeed₀, hspeed₁⟩ := mSpeed_mem pos old
  refine ⟨?_, ?_, ?_⟩
  · split_ifs at hposition <;> omega
  · rw [hspeed]
    exact Int.floor_nonneg.mpr hspeed₀
  · rw [hspeed]
    exact_mod_cast (Int.floor_le _).trans hspeed₁

/-! ## Runs -/

/-- The calls that move the legs. -/
inductive GaitCall where
  | makeStep (speed steering : ℚ)
  | parkingAll

def gaitStep (m : Motion) : GaitCall → Motion
  | .makeStep speed steering => (makeStep speed steering m).1
  | .parkingAll => (parkingAll m).1

def gaitRun (calls : List GaitCall) : Motion := calls.foldl gaitStep motionInit

/-- **What each call keeps.** -/
structure Motion.InGait (m : Motion) : Prop where
  phase : m.globalPhase ∈ Icc 0 1
  pos : ∀ d, (m.drvStatus d).pos ∈ Ico 0 768
  side : ∀ d, (m.drvStatus d).side = (motionInit.drvStatus d).side
  offset : ∀ d, (m.drvStatus d).phaseOffset = (motionInit.drvStatus d).phaseOffset

namespace Motion.InGait

variable {m : Motion}

theorem init : motionInit.InGait :=
  ⟨by norm_num [motionInit], fun d => by norm_num [motionInit], fun _ => rfl, fun _ => rfl⟩

theorem offset_mem (h : m.InGait) (d : Fin 6) : (m.drvStatus d).phaseOffset ∈ Icc 0 (1 / 2) := by
  rw [h.offset d]
  simp only [motionInit]
  split_ifs <;> norm_num

/-- The position that `make_step` gives a leg. -/
theorem makeStep_pos (h : m.InGait) (speed steering : ℚ) (d : Fin 6) :
    ((makeStep speed steering m).1.drvStatus d).pos ∈ Ico 0 768 :=
  phasePos_mem (flimit_mem speed) (legPhase_mem (flimit_mem steering)
    (turnPhase_mem (flimit_mem speed) _ h.phase) (h.offset_mem d))

/-- **One call.** -/
theorem step (h : m.InGait) (call : GaitCall) : (gaitStep m call).InGait := by
  cases call with
  | makeStep speed steering =>
    exact ⟨turnPhase_mem (flimit_mem speed) _ h.phase, h.makeStep_pos speed steering, h.side,
      h.offset⟩
  | parkingAll => exact ⟨h.phase, fun d => by norm_num [gaitStep, parkingAll], h.side, h.offset⟩

theorem run {calls : List GaitCall} : (gaitRun calls).InGait := by
  induction calls using List.reverseRecOn with
  | nil => exact init
  | append_singleton calls call ih =>
    rw [gaitRun, List.foldl_append]
    exact ih.step call

end Motion.InGait

/-- **The ranges of the gait.** After any calls the phase and the positions are in range, and so
are the position and the speed of each of the six commands of the next step; the subtraction for
the drives of the last board is that of the integers. -/
theorem gait_in_range (calls : List GaitCall) (speed steering : ℚ) :
    (gaitRun calls).globalPhase ∈ Icc 0 1 ∧
      (∀ d, ((gaitRun calls).drvStatus d).pos ∈ Ico 0 768) ∧
      ∃ cmd : Fin 6 → MotionCmd,
        (makeStep speed steering (gaitRun calls)).2 = (List.finRange 6).map (fun d =>
          ⟨d.val / 2 + 1, .drvLegMotion, .motion (cmd d)⟩) ∧
        ∀ d, (cmd d).position.toNat ≤ 768 ∧
          0 ≤ (cmd d).speed.toInt ∧ (cmd d).speed.toInt ≤ 1536 ∧
          ((cmd d).position.toNat : ℤ) =
            if d = 5 ∨ d = 4 then
              768 - ⌊((makeStep speed steering (gaitRun calls)).1.drvStatus d).pos⌋
            else ⌊((makeStep speed steering (gaitRun calls)).1.drvStatus d).pos⌋ := by
  have h : (gaitRun calls).InGait := Motion.InGait.run
  have hpos := h.makeStep_pos speed steering
  refine ⟨h.phase, h.pos, fun d => legCmd d
    ((makeStep speed steering (gaitRun calls)).1.drvStatus d).pos
    ((gaitRun calls).drvStatus d).pos, rfl, fun d => ?_⟩
  obtain ⟨hposition, hspeed₀, hspeed₁⟩ := legCmd_mem d ((gaitRun calls).drvStatus d).pos (hpos d)
  exact ⟨hposition, hspeed₀, hspeed₁, (legCmd_eq d _ (hpos d)).1⟩

end Rhex
