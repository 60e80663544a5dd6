import Mathlib
import Rhex.Lib.Turn
import Rhex.Gait

/-!
# The turn of a leg

At a fixed speed and steering `make_step` gives each leg a position for each phase of the gait. The
phase is bent twice, once for turning and once for the time on the ground; the wraps are those of
a circle.

* `legPos` — the position of a leg, `makeStep_legPos` that it is the one of `make_step`.
* `legLift` — the position without the wraps.
* `legs_turn_one_way` — a leg never jumps or doubles back.
-/

namespace Rhex

open Set Turn

/-! ## The position of a leg -/

/-- The position of the leg `d` at a phase. -/
def legPos (d : Fin 6) (speed steering globalPhase : ℚ) : ℚ :=
  phasePos (flimit speed 1 (-1))
    (legPhase (flimit steering 1 (-1)) globalPhase (motionInit.drvStatus d))

theorem makeStep_legPos {m : Motion} (h : m.InGait) (speed steering : ℚ) (d : Fin 6) :
    ((makeStep speed steering m).1.drvStatus d).pos =
      legPos d speed steering (makeStep speed steering m).1.globalPhase := by
  simp only [makeStep, legPos, legPhase, h.side, h.offset]

/-- How far the time on the ground bends a turn. -/
def groundBend (speed : ℚ) : ℚ := (phaseStart speed - phaseEnd speed) / 384 - 1

/-- The phase of a leg without the wraps. -/
def phaseLift (steering : ℚ) (drv : DrvStatus) (globalPhase : ℚ) : ℚ :=
  bend (-4 * sdStart steering drv.side) (1 / 2 - (globalPhase + drv.phaseOffset)) +
    sdStart steering drv.side

/-- The position of a leg without the wraps. -/
def legLift (d : Fin 6) (speed steering globalPhase : ℚ) : ℚ :=
  768 * bend (groundBend (flimit speed 1 (-1)))
    (phaseLift (flimit steering 1 (-1)) (motionInit.drvStatus d) globalPhase) +
      phaseEnd (flimit speed 1 (-1))

/-! ## The wraps -/

theorem coe_wrapPhase (phase : ℚ) :
    (wrapPhase phase : AddCircle (1 : ℚ)) = (phase : AddCircle (1 : ℚ)) :=
  coe_wrap 1 (1 / 2) (-(1 / 2)) phase

/-- The bend for turning, with its wraps. -/
theorem coe_legPhase {steering globalPhase : ℚ} {drv : DrvStatus}
    (hphase : globalPhase ∈ Icc 0 1) (hoffset : drv.phaseOffset ∈ Icc 0 (1 / 2)) :
    (legPhase steering globalPhase drv : AddCircle (1 : ℚ)) =
      (phaseLift steering drv globalPhase : AddCircle (1 : ℚ)) := by
  obtain ⟨h₀, h₁⟩ := hphase
  obtain ⟨hoff₀, hoff₁⟩ := hoffset
  have hsame : (wrapPhase (-(globalPhase + drv.phaseOffset) + 1 / 2) : AddCircle (1 : ℚ)) =
      ((1 / 2 - (globalPhase + drv.phaseOffset) : ℚ) : AddCircle (1 : ℚ)) := by
    rw [coe_wrapPhase, neg_add_eq_sub]
  have hlp : |wrapPhase (-(globalPhase + drv.phaseOffset) + 1 / 2)| ≤ 1 / 2 :=
    abs_le.mpr (wrapPhase_mem ⟨by linarith, by linarith⟩)
  simp only [legPhase, sd_eq]
  rw [coe_wrapPhase, phaseLift, AddCircle.coe_add, AddCircle.coe_add, ← coe_bend_congr _ hsame,
    bend_eq _ hlp]
  congr 2
  split_ifs <;> ring

theorem coe_phasePos (speed : ℚ) {phase : ℚ} (hphase : phase ∈ Icc (-(1 / 2)) (1 / 2)) :
    (phasePos speed phase : AddCircle (768 : ℚ)) =
      ((768 * bend (groundBend speed) phase + phaseEnd speed : ℚ) : AddCircle (768 : ℚ)) := by
  have hbend : (if phase > 0 then 2 * phase * (phaseStart speed - phaseEnd speed)
      else 2 * phase * (768 - (phaseStart speed - phaseEnd speed))) =
        768 * bend (groundBend speed) phase := by
    rw [bend_eq _ (abs_le.mpr hphase), groundBend]
    split_ifs <;> ring
  rw [← hbend]
  exact coe_wrap 768 768 0 _

theorem coe_legPos (d : Fin 6) (speed steering : ℚ) {globalPhase : ℚ}
    (h : globalPhase ∈ Icc 0 1) :
    (legPos d speed steering globalPhase : AddCircle (768 : ℚ)) =
      (legLift d speed steering globalPhase : AddCircle (768 : ℚ)) := by
  have hoffset := Motion.InGait.init.offset_mem d
  have hphase := legPhase_mem (flimit_mem steering) h hoffset
  rw [legPos, coe_phasePos _ hphase, legLift, AddCircle.coe_add, AddCircle.coe_add,
    coe_mul_congr (coe_bend_congr _ (coe_legPhase h hoffset))]

/-! ## The turn -/

theorem abs_turnBend_lt {steering : ℚ} (h : |steering| < 1) (side : LegSide) :
    |-4 * sdStart steering side| < 1 := by
  obtain ⟨hlow, hhigh⟩ := abs_lt.mp h
  apply abs_lt.mpr
  cases side <;> simp only [sdStart] <;> split_ifs <;> constructor <;> linarith

theorem abs_groundBend_lt {speed : ℚ} (h : speed ∈ Icc (-1) 1) : |groundBend speed| < 1 := by
  obtain ⟨hlow, hhigh⟩ := h
  rw [groundBend, phaseStart_sub_phaseEnd]
  apply abs_lt.mpr
  constructor <;> linarith

section

variable (d : Fin 6) (speed : ℚ) {steering : ℚ} (h : |flimit steering 1 (-1)| < 1)
include h

theorem legLift_strictAnti : StrictAnti (legLift d speed steering) := by
  intro x y hlt
  have hturn := bend_strictMono (abs_turnBend_lt h (motionInit.drvStatus d).side)
    (by linarith : 1 / 2 - (y + (motionInit.drvStatus d).phaseOffset) <
      1 / 2 - (x + (motionInit.drvStatus d).phaseOffset))
  have hground := bend_strictMono (abs_groundBend_lt (flimit_mem speed))
    (add_lt_add_left hturn (sdStart (flimit steering 1 (-1)) (motionInit.drvStatus d).side))
  simp only [legLift, phaseLift]
  linarith

theorem legLift_unwinds : Unwinds 768 (legLift d speed steering) := by
  refine ⟨legLift_strictAnti d speed h, fun x => ?_⟩
  have hphase : phaseLift (flimit steering 1 (-1)) (motionInit.drvStatus d) (x + 1) =
      phaseLift (flimit steering 1 (-1)) (motionInit.drvStatus d) x - 1 := by
    have hturn : 1 / 2 - (x + 1 + (motionInit.drvStatus d).phaseOffset) =
        1 / 2 - (x + (motionInit.drvStatus d).phaseOffset) - 1 := by
      ring
    rw [phaseLift, phaseLift, hturn, bend_sub_one, sub_add_eq_add_sub]
  rw [legLift, legLift, hphase, bend_sub_one]
  ring

/-- A leg does not jump. -/
theorem abs_legLift_sub_le (x y : ℚ) :
    |legLift d speed steering y - legLift d speed steering x| ≤ 3072 * |y - x| := by
  have hturn := abs_bend_sub_le (abs_turnBend_lt h (motionInit.drvStatus d).side).le
    (1 / 2 - (x + (motionInit.drvStatus d).phaseOffset))
    (1 / 2 - (y + (motionInit.drvStatus d).phaseOffset))
  have hground := abs_bend_sub_le (abs_groundBend_lt (flimit_mem speed)).le
    (phaseLift (flimit steering 1 (-1)) (motionInit.drvStatus d) x)
    (phaseLift (flimit steering 1 (-1)) (motionInit.drvStatus d) y)
  rw [phaseLift, phaseLift, add_sub_add_right_eq_sub] at hground
  rw [sub_sub_sub_cancel_left, add_sub_add_right_eq_sub, abs_sub_comm x y] at hturn
  rw [legLift, legLift, add_sub_add_right_eq_sub, ← mul_sub, abs_mul,
    abs_of_pos (by norm_num : (0 : ℚ) < 768), phaseLift, phaseLift]
  linarith

theorem continuous_legLift : Continuous (legLift d speed steering) := by
  apply LipschitzWith.continuous (K := 3072)
  apply LipschitzWith.of_dist_le_mul
  intro x y
  have hle : ((|legLift d speed steering x - legLift d speed steering y| : ℚ) : ℝ) ≤
      ((3072 * |x - y| : ℚ) : ℝ) :=
    Rat.cast_le.mpr (abs_legLift_sub_le d speed h y x)
  push_cast at hle
  rw [Rat.dist_eq, Rat.dist_eq]
  exact hle

end

/-- **A leg never jumps or doubles back.** The position that `make_step` gives a leg is a function
of the phase alone; it takes no value twice in a turn, and on the circle it is the map `φ` of a
turn of the phase, continuous and without a seam, whose lift falls strictly and by one turn of the
leg in each turn of the phase. -/
theorem legs_turn_one_way (d : Fin 6) (speed : ℚ) {steering : ℚ}
    (h : |flimit steering 1 (-1)| < 1) :
    (∀ calls, ((makeStep speed steering (gaitRun calls)).1.drvStatus d).pos =
      legPos d speed steering (makeStep speed steering (gaitRun calls)).1.globalPhase) ∧
    InjOn (legPos d speed steering) (Ico 0 1) ∧
    ∃ (φ : AddCircle (1 : ℚ) → AddCircle (768 : ℚ)) (F : ℚ → ℚ),
      Continuous φ ∧ Function.Injective φ ∧
      (∀ g ∈ Icc (0 : ℚ) 1, φ g = (legPos d speed steering g : AddCircle (768 : ℚ))) ∧
      (∀ g : ℚ, φ g = (F g : AddCircle (768 : ℚ))) ∧
      StrictAnti F ∧ (∀ g, F (g + 1) = F g - 768) ∧ ∀ g g', |F g' - F g| ≤ 3072 * |g' - g| := by
  have hunwinds := legLift_unwinds d speed h
  obtain ⟨φ, hcont, hinj, hφ⟩ := hunwinds.exists_circle (continuous_legLift d speed h)
  refine ⟨fun calls => makeStep_legPos Motion.InGait.run speed steering d,
    hunwinds.injOn fun g hg => coe_legPos d speed steering hg, φ, legLift d speed steering, hcont,
    hinj, fun g hg => ?_, hφ, hunwinds.anti, hunwinds.turn, abs_legLift_sub_le d speed h⟩
  rw [hφ, coe_legPos d speed steering hg]

/-- The first leg at full speed and half steering. -/
theorem legs_turn_one_way_half : |flimit (1 / 2) 1 (-1)| < 1 ∧
    InjOn (legPos 0 1 (1 / 2)) (Ico 0 1) := by
  have h : |flimit (1 / 2) 1 (-1)| < 1 := by
    norm_num [flimit]
  exact ⟨h, (legs_turn_one_way 0 1 h).2.1⟩

end Rhex
