import Mathlib
import Rhex.Tripod

/-!
# The speed of a leg (`rhex_air/control/motion.c`)

`make_step` asks each drive for 105 times the way of its leg, at most `MAX_SPEED`. The way is
measured by `fdiff` on the circle; `slowdown` keeps it short in a turn.

* `fdiff_le` — `fdiff` is at most the way on the circle.
* `fdiff_makeStep_le`, `legRate_mul_le` — the way of a leg in a step, and its bound.
* `speed_not_cut` — when the limit is never in effect.
-/

namespace Rhex

open Set Turn

/-! ## The way of a leg -/

/-- `fdiff` is at most the way between two points of the circle, whichever way around. -/
theorem fdiff_le {pos old x y : ℚ} (hpos : (pos : AddCircle (768 : ℚ)) = (x : AddCircle (768 : ℚ)))
    (hold : (old : AddCircle (768 : ℚ)) = (y : AddCircle (768 : ℚ))) :
    fdiff pos old ≤ |x - y| := by
  obtain ⟨i, rfl⟩ := coe_eq_iff.mp hpos
  obtain ⟨j, rfl⟩ := coe_eq_iff.mp hold
  simp only [fdiff]
  have hdiff : y + j * 768 - (x + i * 768) = (j - i : ℤ) * 768 - (x - y) := by
    push_cast
    ring
  rw [hdiff]
  generalize x - y = way
  by_cases hsame : j - i = 0
  · rw [hsame, Int.cast_zero, zero_mul, zero_sub, abs_neg]
    split_ifs <;> linarith
  · -- the other way around is at least the rest of the circle
    have hone : (1 : ℚ) ≤ |((j - i : ℤ) : ℚ)| := by
      exact_mod_cast Int.one_le_abs hsame
    have hround : |((j - i : ℤ) : ℚ) * 768| ≤ |((j - i : ℤ) : ℚ) * 768 - way| + |way| := by
      simpa using abs_add_le (((j - i : ℤ) : ℚ) * 768 - way) way
    rw [abs_mul, abs_of_pos (by norm_num : (0 : ℚ) < 768)] at hround
    split_ifs <;> linarith

theorem fdiff_nonneg {pos old : ℚ} (hpos : pos ∈ Ico 0 768) (hold : old ∈ Ico 0 768) :
    0 ≤ fdiff pos old := by
  have hlt : |old - pos| < 768 :=
    abs_lt.mpr ⟨by linarith [hpos.2, hold.1], by linarith [hpos.1, hold.2]⟩
  simp only [fdiff]
  split_ifs
  · linarith
  · exact abs_nonneg _

theorem coe_legLift_congr (d : Fin 6) (speed steering : ℚ) {x y : ℚ}
    (h : (x : AddCircle (1 : ℚ)) = (y : AddCircle (1 : ℚ))) :
    (legLift d speed steering x : AddCircle (768 : ℚ)) =
      (legLift d speed steering y : AddCircle (768 : ℚ)) := by
  have hturn : ((1 / 2 - (x + (motionInit.drvStatus d).phaseOffset) : ℚ) : AddCircle (1 : ℚ)) =
      ((1 / 2 - (y + (motionInit.drvStatus d).phaseOffset) : ℚ) : AddCircle (1 : ℚ)) := by
    rw [AddCircle.coe_sub, AddCircle.coe_add, h, ← AddCircle.coe_add, ← AddCircle.coe_sub]
  rw [legLift, legLift, AddCircle.coe_add, AddCircle.coe_add, phaseLift, phaseLift]
  congr 1
  apply coe_mul_congr
  apply coe_bend_congr
  rw [AddCircle.coe_add, AddCircle.coe_add, coe_bend_congr _ hturn]

/-- The fastest that a leg moves in a turn of the phase. -/
def legRate (speed steering : ℚ) : ℚ :=
  2 * (1 + |steering|) * (768 - (phaseStart speed - phaseEnd speed))

theorem abs_turnBend_le (steering : ℚ) (side : LegSide) :
    |-4 * sdStart steering side| ≤ |steering| := by
  cases side with
  | left =>
    simp only [sdStart]
    split_ifs with hpos
    · simp
    · rw [abs_of_nonpos (not_lt.mp hpos), abs_le]
      constructor <;> linarith
  | right =>
    simp only [sdStart]
    split_ifs with hpos
    · rw [abs_of_pos hpos, abs_le]
      constructor <;> linarith
    · simp

theorem one_add_abs_groundBend {speed : ℚ} (h : speed ∈ Icc (-1) 1) :
    384 * (1 + |groundBend speed|) = 768 - (phaseStart speed - phaseEnd speed) := by
  obtain ⟨hlow, hhigh⟩ := h
  have hneg : groundBend speed ≤ 0 := by
    rw [groundBend, phaseStart_sub_phaseEnd]
    linarith
  rw [abs_of_nonpos hneg, groundBend]
  ring

/-- The way of a leg, by the slopes of the two bends. -/
theorem abs_legLift_sub_le_rate (d : Fin 6) (speed steering x y : ℚ) :
    |legLift d speed steering y - legLift d speed steering x| ≤
      legRate (flimit speed 1 (-1)) (flimit steering 1 (-1)) * |y - x| := by
  have hspeed := flimit_mem speed
  have hturn := abs_bend_sub_le_mul (-4 * sdStart (flimit steering 1 (-1))
    (motionInit.drvStatus d).side) (1 / 2 - (x + (motionInit.drvStatus d).phaseOffset))
    (1 / 2 - (y + (motionInit.drvStatus d).phaseOffset))
  have hground := abs_bend_sub_le_mul (groundBend (flimit speed 1 (-1)))
    (phaseLift (flimit steering 1 (-1)) (motionInit.drvStatus d) x)
    (phaseLift (flimit steering 1 (-1)) (motionInit.drvStatus d) y)
  rw [sub_sub_sub_cancel_left, add_sub_add_right_eq_sub, abs_sub_comm x y] at hturn
  rw [phaseLift, phaseLift, add_sub_add_right_eq_sub] at hground
  have hside : 1 + |-4 * sdStart (flimit steering 1 (-1)) (motionInit.drvStatus d).side| ≤
      1 + |flimit steering 1 (-1)| :=
    add_le_add_right (abs_turnBend_le _ _) 1
  have hbent : 0 ≤ 384 * (1 + |groundBend (flimit speed 1 (-1))|) := by
    positivity
  rw [legLift, legLift, add_sub_add_right_eq_sub, ← mul_sub, abs_mul,
    abs_of_pos (by norm_num : (0 : ℚ) < 768), phaseLift, phaseLift, legRate,
    ← one_add_abs_groundBend hspeed]
  generalize groundBend (flimit speed 1 (-1)) = c at *
  calc 768 * _ ≤ 768 * ((1 + |c|) * ((1 + |flimit steering 1 (-1)|) * |y - x|)) := by
        refine mul_le_mul_of_nonneg_left (hground.trans ?_) (by norm_num)
        exact mul_le_mul_of_nonneg_left
          (hturn.trans (mul_le_mul_of_nonneg_right hside (abs_nonneg _))) (by positivity)
    _ = 2 * (1 + |flimit steering 1 (-1)|) * (384 * (1 + |c|)) * |y - x| := by
        ring

/-! ## The way in a step -/

theorem coe_turnPhase (speed steering globalPhase : ℚ) :
    (turnPhase speed steering globalPhase : AddCircle (1 : ℚ)) =
      ((globalPhase + speed / slowdown speed steering / 100 : ℚ) : AddCircle (1 : ℚ)) :=
  coe_wrap 1 1 0 _

theorem legRate_eq (speed steering : ℚ) :
    legRate speed steering = 2 * (1 + |steering|) * (598 - 90 * speed) := by
  rw [legRate, phaseStart_sub_phaseEnd]
  ring

/-- In a turn that `slowdown` slows down. -/
theorem rate_of_slowdown {speed σ : ℚ} (hspeed : speed ∈ Icc 0 1) (hσ : σ ∈ Icc 0 1) :
    2 * (1 + σ) * (598 - 90 * speed) * speed ^ 2 * 105 ≤ 153600 * (speed + σ / 2) := by
  obtain ⟨h₀, h₁⟩ := hspeed
  obtain ⟨hσ₀, hσ₁⟩ := hσ
  have hmax : (598 - 90 * speed) * speed ≤ 508 := by nlinarith
  have hprod : σ * speed ≤ σ := mul_le_of_le_one_right hσ₀ h₁
  have hprod' : σ * speed ≤ speed := mul_le_of_le_one_left h₀ hσ₁
  have hnonneg : 0 ≤ 2 * (1 + σ) * speed * 105 := by positivity
  calc 2 * (1 + σ) * (598 - 90 * speed) * speed ^ 2 * 105 =
        (598 - 90 * speed) * speed * (2 * (1 + σ) * speed * 105) := by ring
    _ ≤ 508 * (2 * (1 + σ) * speed * 105) := mul_le_mul_of_nonneg_right hmax hnonneg
    _ = 106680 * speed + 106680 * (σ * speed) := by ring
    _ ≤ 153600 * (speed + σ / 2) := by linarith

theorem rate_of_sharp {speed σ : ℚ} (hspeed : 0 ≤ speed) (hσ : σ ∈ Icc 0 1)
    (hsharp : 2 * speed ≤ σ) : 2 * (1 + σ) * (598 - 90 * speed) * speed * 105 ≤ 153600 := by
  obtain ⟨hσ₀, hσ₁⟩ := hσ
  have hmax : (598 - 90 * speed) * speed ≤ 299 := by nlinarith
  have hnonneg : 0 ≤ 2 * (1 + σ) * 105 := by positivity
  calc 2 * (1 + σ) * (598 - 90 * speed) * speed * 105 =
        (598 - 90 * speed) * speed * (2 * (1 + σ) * 105) := by ring
    _ ≤ 299 * (2 * (1 + σ) * 105) := mul_le_mul_of_nonneg_right hmax hnonneg
    _ ≤ 153600 := by linarith

theorem rate_of_straight {speed : ℚ} (hspeed : speed ∈ Icc (-1) 1) :
    2 * (598 - 90 * speed) * |speed| * 105 ≤ 153600 := by
  obtain ⟨h₀, h₁⟩ := hspeed
  rcases abs_cases speed with ⟨habs, hsign⟩ | ⟨habs, hsign⟩ <;> rw [habs] <;> nlinarith

/-- The limit is not reached forward, nor backward without steering. -/
theorem legRate_mul_le {speed steering : ℚ} (hspeed : speed ∈ Icc (-1) 1)
    (hsteering : steering ∈ Icc (-1) 1) (h : 0 ≤ speed ∨ steering = 0) :
    legRate speed steering * |speed / slowdown speed steering / 100| * 105 ≤ 1536 := by
  have hslow : 0 < slowdown speed steering := by linarith [one_le_slowdown speed steering]
  have hσ : |steering| ∈ Icc 0 1 := ⟨abs_nonneg _, abs_le.mpr hsteering⟩
  rw [legRate_eq, abs_div, abs_div, abs_of_pos hslow, abs_of_pos (by norm_num : (0 : ℚ) < 100)]
  suffices hle : 2 * (1 + |steering|) * (598 - 90 * speed) * (|speed| / slowdown speed steering) *
      105 ≤ 153600 by linarith
  by_cases hturn : |steering| > 0 ∧ speed ≠ 0 ∧ |steering / speed| < 2
  · -- walking forward, slowed down
    have hforward : 0 ≤ speed := h.resolve_right (abs_pos.mp hturn.1)
    have hpos : 0 < speed := hforward.lt_of_ne' hturn.2.1
    have hturned : slowdown speed steering = (speed + |steering| / 2) / speed := by
      rw [slowdown, if_pos hturn, abs_div, abs_div, abs_of_pos hpos,
        abs_of_pos (by norm_num : (0 : ℚ) < 2)]
      field_simp
    have hsum : 0 < speed + |steering| / 2 := by linarith [hturn.1]
    have hrate := rate_of_slowdown ⟨hforward, hspeed.2⟩ hσ
    rw [hturned, abs_of_pos hpos, div_div_eq_mul_div, ← pow_two, mul_div_assoc', div_mul_eq_mul_div,
      div_le_iff₀ hsum]
    exact hrate
  · rw [slowdown, if_neg hturn, div_one]
    by_cases hsteer : steering = 0
    · rw [hsteer, abs_zero, add_zero, mul_one]
      exact rate_of_straight hspeed
    · have hforward : 0 ≤ speed := h.resolve_right hsteer
      rw [abs_of_nonneg hforward]
      refine rate_of_sharp hforward hσ ?_
      rcases hforward.lt_or_eq with hpos | rfl
      · have hsharp : 2 ≤ |steering / speed| :=
          not_lt.mp fun hlt => hturn ⟨abs_pos.mpr hsteer, hpos.ne', hlt⟩
        rwa [abs_div, abs_of_pos hpos, le_div_iff₀ hpos] at hsharp
      · rw [mul_zero]
        exact abs_nonneg _

theorem flimit_nonneg {val : ℚ} (h : 0 ≤ val) : 0 ≤ flimit val 1 (-1) := by
  simp only [flimit]
  split_ifs <;> linarith

theorem flimit_zero : flimit 0 1 (-1) = 0 := by
  norm_num [flimit]

/-- The way of a leg in the second of two steps. -/
theorem fdiff_makeStep_le {m m' : Motion} (h : m.InGait) {speed steering : ℚ}
    (hsame : (makeStep speed steering m).1.SameGait m') (d : Fin 6) :
    fdiff ((makeStep speed steering m').1.drvStatus d).pos (m'.drvStatus d).pos ≤
      legRate (flimit speed 1 (-1)) (flimit steering 1 (-1)) *
        |flimit speed 1 (-1) / slowdown (flimit speed 1 (-1)) (flimit steering 1 (-1)) / 100| := by
  have hm' : m'.InGait := hsame.inGait (h.step (.makeStep speed steering))
  have hold : (m'.drvStatus d).pos = legPos d speed steering m'.globalPhase := by
    rw [(hsame.2 d).1, makeStep_legPos h, ← hsame.1]
  rw [hold, makeStep_legPos hm']
  have hturned := coe_turnPhase (flimit speed 1 (-1)) (flimit steering 1 (-1)) m'.globalPhase
  refine (fdiff_le ((coe_legPos d speed steering
    (hm'.step (.makeStep speed steering)).phase).trans (coe_legLift_congr d speed steering hturned))
    (coe_legPos d speed steering hm'.phase)).trans ?_
  simpa using abs_legLift_sub_le_rate d speed steering m'.globalPhase (m'.globalPhase +
    flimit speed 1 (-1) / slowdown (flimit speed 1 (-1)) (flimit steering 1 (-1)) / 100)

/-- **Two steps** at one speed and steering: each leg is asked for its way on the circle, and the
limit does not cut it. -/
theorem mSpeed_makeStep {m m' : Motion} (h : m.InGait) {speed steering : ℚ}
    (hsame : (makeStep speed steering m).1.SameGait m') (hway : 0 ≤ speed ∨ steering = 0)
    (d : Fin 6) :
    mSpeed ((makeStep speed steering m').1.drvStatus d).pos (m'.drvStatus d).pos =
      fdiff ((makeStep speed steering m').1.drvStatus d).pos (m'.drvStatus d).pos * 105 := by
  have hm' : m'.InGait := hsame.inGait (h.step (.makeStep speed steering))
  have hlimits : 0 ≤ flimit speed 1 (-1) ∨ flimit steering 1 (-1) = 0 :=
    hway.imp flimit_nonneg fun hzero => (congrArg (flimit · 1 (-1)) hzero).trans flimit_zero
  have hcut := legRate_mul_le (flimit_mem speed) (flimit_mem steering) hlimits
  have hle := fdiff_makeStep_le h hsame d
  have hnonneg := fdiff_nonneg (hm'.makeStep_pos speed steering d) (hm'.pos d)
  rw [mSpeed, abs_of_nonneg hnonneg, if_neg (by linarith)]

/-! ## The service -/

/-- **The speed is never cut.** In every run of the service, from the second of two cycles of
walking at one speed and steering on, the speed that a drive gets is 105 times the way of its leg
on the circle: forward at any steering, and backward without steering, the limit of `MAX_SPEED` is
not in effect, so that the leg arrives. -/
theorem speed_not_cut {past : List MotionCycle} {c₁ c₂ : MotionCycle} {m m₁ m₂ : Motion}
    {out₁ out₂ : List CanFrame} {speed steering : ℚ} (hrun : motionRun motionInit past = some m)
    (hwalks : m.motionState.Walks) (htgt : m.tgtMotionState.Walks) (hready : m.AllDrvReady)
    (hc₁ : c₁.WalksOn speed steering) (hc₂ : c₂.WalksOn speed steering)
    (h₁ : doMotion c₁ m = some (m₁, out₁)) (h₂ : doMotion c₂ m₁ = some (m₂, out₂))
    (hway : 0 ≤ speed ∨ steering = 0) :
    ∃ cmd : Fin 6 → MotionCmd,
      out₂ = (List.finRange 6).map (fun d => ⟨d.val / 2 + 1, .drvLegMotion, .motion (cmd d)⟩) ∧
      ∀ d, (cmd d).speed.toInt =
        ⌊fdiff (m₂.drvStatus d).pos (m₁.drvStatus d).pos * 105⌋ := by
  have h : m.Walking := ⟨motionRun_inGait hrun, hwalks, htgt, hready⟩
  obtain ⟨hwalking, m₀, hsame₀, rfl, -⟩ := h.step hc₁ h₁
  obtain ⟨-, m', hsame, rfl, rfl⟩ := hwalking.step hc₂ h₂
  have hgait : m₀.InGait := hsame₀.inGait h.gait
  have hgait' : m'.InGait := hsame.inGait hwalking.gait
  refine ⟨fun d => legCmd d ((makeStep speed steering m').1.drvStatus d).pos
    (m'.drvStatus d).pos, rfl, fun d => ?_⟩
  rw [(legCmd_eq d (m'.drvStatus d).pos (hgait'.makeStep_pos speed steering d)).2,
    mSpeed_makeStep hgait hsame hway, (hsame.2 d).1]

/-- Two cycles at full speed. -/
theorem speed_not_cut_straight : ∃ m₁ out₁ m₂ out₂,
    doMotion ⟨none, rcButtons ∅⟩ ((motionRun motionInit bootCycles).get rfl) = some (m₁, out₁) ∧
    doMotion ⟨none, rcButtons ∅⟩ m₁ = some (m₂, out₂) ∧
    ∃ cmd : Fin 6 → MotionCmd,
      out₂ = (List.finRange 6).map (fun d => ⟨d.val / 2 + 1, .drvLegMotion, .motion (cmd d)⟩) ∧
      ∀ d, (cmd d).speed.toInt =
        ⌊fdiff (m₂.drvStatus d).pos (m₁.drvStatus d).pos * 105⌋ := by
  have hc : MotionCycle.WalksOn 1 0 ⟨none, rcButtons ∅⟩ :=
    ⟨rfl, rfl, by decide, fun _ hmsg => nomatch hmsg⟩
  exact ⟨_, _, _, _, rfl, rfl, @speed_not_cut bootCycles _ _ _ _ _ _ _ _ _
    (Option.some_get rfl).symm (by decide) (by decide) (by decide) hc hc rfl rfl (.inr rfl)⟩

end Rhex
