import Mathlib
import Rhex.LegTurn

/-!
# The two tripods (`rhex_air/control/motion.c`)

`phase_offset` splits the legs into two tripods, half a turn apart: the drives 0, 3 and 5, and the
drives 1, 2 and 4. A leg is down while its position is between `phase_end` and `phase_start`.

* `doMotion_inGait`, `doMotion_walks` — the gait in a cycle of the service.
* `Motion.Walking` — a robot that walks until parking is pressed.
* `tripods_carry` — in each cycle of walking one of the tripods is down with its three legs.
* `tripods_alternate` — each tripod gets its turn.
-/

namespace Rhex

open Set

/-! ## A leg -/

def Down (speed pos : ℚ) : Prop := pos ∈ Icc (phaseEnd speed) (phaseStart speed)

instance (speed pos : ℚ) : Decidable (Down speed pos) := inferInstanceAs (Decidable (_ ∧ _))

def tripod (d : Fin 6) : Bool := d.val = 1 ∨ d.val = 2 ∨ d.val = 4

theorem phaseOffset_eq (d : Fin 6) :
    (motionInit.drvStatus d).phaseOffset = if tripod d then 1 / 2 else 0 := by
  simp only [motionInit, tripod, decide_eq_true_eq, Fin.ext_iff]
  rfl

theorem phaseEnds_mem {speed : ℚ} (h : speed ∈ Icc (-1) 1) :
    0 < phaseEnd speed ∧ phaseEnd speed < phaseStart speed ∧ phaseStart speed < 768 := by
  obtain ⟨hlow, hhigh⟩ := h
  rw [phaseEnd, phaseStart]
  refine ⟨?_, ?_, ?_⟩ <;> linarith

/-- The phases above zero are those on the ground. -/
theorem phasePos_eq {speed phase : ℚ} (hspeed : speed ∈ Icc (-1) 1)
    (hphase : phase ∈ Icc 0 (1 / 2)) :
    phasePos speed phase =
      phaseEnd speed + 2 * phase * (phaseStart speed - phaseEnd speed) := by
  obtain ⟨hpos, hlt, htop⟩ := phaseEnds_mem hspeed
  obtain ⟨h₀, h₁⟩ := hphase
  simp only [phasePos]
  generalize phaseStart speed = ps at *
  generalize phaseEnd speed = pe at *
  have hground : (if phase > 0 then 2 * phase * (ps - pe) else 2 * phase * (768 - (ps - pe))) =
      2 * phase * (ps - pe) := by
    rcases h₀.lt_or_eq with h₀ | rfl
    · exact if_pos h₀
    · rw [if_neg (lt_irrefl _), mul_zero, zero_mul, zero_mul]
  have hle : 2 * phase * (ps - pe) ≤ ps - pe := by nlinarith
  have hnonneg : 0 ≤ 2 * phase * (ps - pe) := by nlinarith
  rw [hground, if_neg (by linarith : ¬2 * phase * (ps - pe) + pe > 768),
    if_neg (by linarith : ¬2 * phase * (ps - pe) + pe < 0), add_comm]

theorem down_phasePos {speed phase : ℚ} (hspeed : speed ∈ Icc (-1) 1)
    (hphase : phase ∈ Icc 0 (1 / 2)) : Down speed (phasePos speed phase) := by
  obtain ⟨-, hlt, -⟩ := phaseEnds_mem hspeed
  rw [phasePos_eq hspeed hphase]
  obtain ⟨h₀, h₁⟩ := hphase
  constructor <;> nlinarith

/-- The end of a turn is its start. -/
theorem down_phasePos_end {speed : ℚ} (hspeed : speed ∈ Icc (-1) 1) :
    Down speed (phasePos speed (-(1 / 2))) := by
  obtain ⟨hpos, hlt, htop⟩ := phaseEnds_mem hspeed
  have hwrap : phasePos speed (-(1 / 2)) = phaseStart speed := by
    simp only [phasePos]
    generalize phaseStart speed = ps at *
    generalize phaseEnd speed = pe at *
    have hraw : 2 * -(1 / 2) * (768 - (ps - pe)) + pe = ps - 768 := by
      ring
    rw [if_neg (by norm_num : ¬(-(1 / 2) : ℚ) > 0), hraw, if_neg (by linarith : ¬ps - 768 > 768),
      if_pos (by linarith : ps - 768 < 0), sub_add_cancel]
  rw [hwrap]
  exact ⟨hlt.le, le_rfl⟩

/-- The phases below zero lead over the top. -/
theorem not_down_phasePos {speed phase : ℚ} (hspeed : speed ∈ Icc (-1) 1)
    (hphase : phase ∈ Ioo (-(1 / 2)) 0) : ¬Down speed (phasePos speed phase) := by
  obtain ⟨hpos, hlt, htop⟩ := phaseEnds_mem hspeed
  obtain ⟨h₀, h₁⟩ := hphase
  simp only [phasePos, Down, if_neg h₁.not_gt]
  generalize phaseStart speed = ps at *
  generalize phaseEnd speed = pe at *
  have hbelow : 2 * phase * (768 - (ps - pe)) < 0 := by nlinarith
  have habove : -(768 - (ps - pe)) < 2 * phase * (768 - (ps - pe)) := by nlinarith
  rw [if_neg (by linarith : ¬2 * phase * (768 - (ps - pe)) + pe > 768)]
  split_ifs
  · exact fun hdown => absurd hdown.2 (by linarith)
  · exact fun hdown => absurd hdown.1 (by linarith)

/-! ## The phases of the legs -/

/-- `lp1` of a leg. -/
def tripodPhase (t : Bool) (globalPhase : ℚ) : ℚ :=
  wrapPhase (-(globalPhase + if t then 1 / 2 else 0) + 1 / 2)

theorem tripodPhase_first {globalPhase : ℚ} (h : globalPhase ∈ Icc 0 1) :
    tripodPhase false globalPhase = 1 / 2 - globalPhase := by
  obtain ⟨h₀, h₁⟩ := h
  simp only [tripodPhase, wrapPhase, Bool.false_eq_true, if_false]
  rw [if_neg (by linarith : ¬-(globalPhase + 0) + 1 / 2 > 1 / 2),
    if_neg (by linarith : ¬-(globalPhase + 0) + 1 / 2 < -(1 / 2))]
  ring

theorem tripodPhase_second {globalPhase : ℚ} (h : globalPhase ∈ Icc 0 1) :
    tripodPhase true globalPhase =
      if globalPhase ≤ 1 / 2 then -globalPhase else 1 - globalPhase := by
  obtain ⟨h₀, h₁⟩ := h
  simp only [tripodPhase, wrapPhase, if_true]
  rw [if_neg (by linarith : ¬-(globalPhase + 1 / 2) + 1 / 2 > 1 / 2)]
  split_ifs <;> linarith

/-- Turning bends the phases of a leg on the ground, and leaves it there. -/
theorem legPhase_down {steering globalPhase : ℚ} (hsteering : steering ∈ Icc (-1) 1) {d : Fin 6}
    (hphase : tripodPhase (tripod d) globalPhase ∈ Icc 0 (1 / 2)) :
    legPhase steering globalPhase (motionInit.drvStatus d) ∈ Icc 0 (1 / 2) := by
  obtain ⟨hsd₀, hsd₁⟩ := sdStart_mem hsteering (motionInit.drvStatus d).side
  simp only [legPhase, sd_eq, phaseOffset_eq]
  rw [tripodPhase] at hphase
  generalize wrapPhase _ = lp1 at *
  generalize sdStart steering _ = s at *
  obtain ⟨h₀, h₁⟩ := hphase
  have hbend : (if lp1 > 0 then 2 * lp1 * (1 / 2 - 2 * s) else 2 * lp1 * (1 - (1 / 2 - 2 * s))) =
      2 * lp1 * (1 / 2 - 2 * s) := by
    rcases h₀.lt_or_eq with h₀ | rfl
    · exact if_pos h₀
    · rw [if_neg (lt_irrefl _), mul_zero, zero_mul, zero_mul]
  have hnonneg : 0 ≤ 2 * lp1 * (1 / 2 - 2 * s) := by nlinarith
  have hle : 2 * lp1 * (1 / 2 - 2 * s) ≤ 1 / 2 - 2 * s := by nlinarith
  rw [hbend, wrapPhase]
  rw [if_neg (by linarith : ¬2 * lp1 * (1 / 2 - 2 * s) + s > 1 / 2),
    if_neg (by linarith : ¬2 * lp1 * (1 / 2 - 2 * s) + s < -(1 / 2))]
  constructor <;> linarith

/-- At the end of a turn the leg is where it was at the start. -/
theorem legPhase_end {steering globalPhase : ℚ} (hsteering : steering ∈ Icc (-1) 1) {d : Fin 6}
    (hphase : tripodPhase (tripod d) globalPhase = -(1 / 2)) :
    legPhase steering globalPhase (motionInit.drvStatus d) ∈ Icc 0 (1 / 2) ∨
      legPhase steering globalPhase (motionInit.drvStatus d) = -(1 / 2) := by
  obtain ⟨hsd₀, hsd₁⟩ := sdStart_mem hsteering (motionInit.drvStatus d).side
  rw [tripodPhase] at hphase
  simp only [legPhase, sd_eq, phaseOffset_eq, hphase]
  generalize sdStart steering _ = s at *
  have hbend : (if (-(1 / 2) : ℚ) > 0 then 2 * -(1 / 2) * (1 / 2 - 2 * s)
      else 2 * -(1 / 2) * (1 - (1 / 2 - 2 * s))) + s = -(1 / 2) - s := by
    rw [if_neg (by norm_num)]
    ring
  rw [hbend, wrapPhase, if_neg (by linarith : ¬-(1 / 2) - s > 1 / 2)]
  rcases hsd₀.lt_or_eq with hsd₀ | rfl
  · rw [if_pos (by linarith : -(1 / 2) - s < -(1 / 2))]
    exact .inl ⟨by linarith, by linarith⟩
  · rw [if_neg (by norm_num : ¬(-(1 / 2) - 0 : ℚ) < -(1 / 2))]
    exact .inr (by ring)

/-- A leg that turning does not bend. -/
theorem legPhase_straight {steering globalPhase : ℚ} {d : Fin 6}
    (hside : sdStart steering (motionInit.drvStatus d).side = 0)
    (hphase : tripodPhase (tripod d) globalPhase ∈ Ioo (-(1 / 2)) 0) :
    legPhase steering globalPhase (motionInit.drvStatus d) ∈ Ioo (-(1 / 2)) 0 := by
  rw [tripodPhase] at hphase
  simp only [legPhase, sd_eq, phaseOffset_eq]
  rw [hside]
  generalize wrapPhase (_ + 1 / 2) = lp1 at *
  obtain ⟨h₀, h₁⟩ := hphase
  rw [if_neg h₁.not_gt, wrapPhase]
  have hbend : 2 * lp1 * (1 - (1 / 2 - 2 * 0)) + 0 = lp1 := by
    ring
  rw [hbend, if_neg (by linarith : ¬lp1 > 1 / 2), if_neg (by linarith : ¬lp1 < -(1 / 2))]
  exact ⟨h₀, h₁⟩

/-! ## The tripods -/

/-- The three legs of a tripod are down. -/
def Supports (t : Bool) (speed : ℚ) (m : Motion) : Prop :=
  ∀ d, tripod d = t → Down speed (m.drvStatus d).pos

theorem supports_makeStep {m : Motion} (h : m.InGait) {speed steering : ℚ} {t : Bool}
    (hphase : tripodPhase t (makeStep speed steering m).1.globalPhase ∈ Icc 0 (1 / 2) ∨
      tripodPhase t (makeStep speed steering m).1.globalPhase = -(1 / 2)) :
    Supports t (flimit speed 1 (-1)) (makeStep speed steering m).1 := by
  rintro d rfl
  rw [makeStep_legPos h, legPos]
  rcases hphase with hphase | hphase
  · exact down_phasePos (flimit_mem speed) (legPhase_down (flimit_mem steering) hphase)
  · rcases legPhase_end (flimit_mem steering) hphase with hleg | hleg
    · exact down_phasePos (flimit_mem speed) hleg
    · rw [hleg]
      exact down_phasePos_end (flimit_mem speed)

/-- The half of the turn in which a tripod carries. -/
def halfOf (t : Bool) : Set ℚ := if t then Icc (1 / 2) 1 else Icc 0 (1 / 2)

theorem tripodPhase_mem {t : Bool} {globalPhase : ℚ} (h : globalPhase ∈ halfOf t) :
    tripodPhase t globalPhase ∈ Icc 0 (1 / 2) ∨ tripodPhase t globalPhase = -(1 / 2) := by
  cases t with
  | false =>
    obtain ⟨h₀, h₁⟩ : globalPhase ∈ Icc 0 (1 / 2) := h
    rw [tripodPhase_first ⟨h₀, by linarith⟩]
    exact .inl ⟨by linarith, by linarith⟩
  | true =>
    obtain ⟨h₀, h₁⟩ : globalPhase ∈ Icc (1 / 2) 1 := h
    rw [tripodPhase_second ⟨by linarith, h₁⟩]
    split_ifs with hhalf
    · exact .inr (by linarith)
    · exact .inl ⟨by linarith, by linarith⟩

theorem mem_halfOf {globalPhase : ℚ} (h : globalPhase ∈ Icc 0 1) :
    ∃ t, globalPhase ∈ halfOf t := by
  obtain ⟨h₀, h₁⟩ := h
  rcases le_total globalPhase (1 / 2) with hhalf | hhalf
  · exact ⟨false, h₀, hhalf⟩
  · exact ⟨true, hhalf, h₁⟩

/-- The other tripod is between the end and the start. -/
theorem tripodPhase_other {t : Bool} {globalPhase : ℚ} (h : globalPhase ∈ halfOf t)
    (hinside : globalPhase ∉ ({0, 1 / 2, 1} : Set ℚ)) :
    tripodPhase (!t) globalPhase ∈ Ioo (-(1 / 2)) 0 := by
  simp only [mem_insert_iff, mem_singleton_iff, not_or] at hinside
  obtain ⟨hzero, hhalf, hone⟩ := hinside
  cases t with
  | false =>
    obtain ⟨h₀, h₁⟩ : globalPhase ∈ Icc 0 (1 / 2) := h
    have hpos : 0 < globalPhase := h₀.lt_of_ne' hzero
    have hlt : globalPhase < 1 / 2 := h₁.lt_of_ne hhalf
    rw [Bool.not_false, tripodPhase_second ⟨h₀, by linarith⟩, if_pos h₁]
    constructor <;> linarith
  | true =>
    obtain ⟨h₀, h₁⟩ : globalPhase ∈ Icc (1 / 2) 1 := h
    have hpos : 1 / 2 < globalPhase := h₀.lt_of_ne' hhalf
    have hlt : globalPhase < 1 := h₁.lt_of_ne hone
    rw [Bool.not_true, tripodPhase_first ⟨by linarith, h₁⟩]
    constructor <;> linarith

theorem swings_makeStep {m : Motion} (h : m.InGait) {speed steering : ℚ} {t : Bool}
    (hphase : tripodPhase (!t) (makeStep speed steering m).1.globalPhase ∈ Ioo (-(1 / 2)) 0)
    {d : Fin 6} (hd : tripod d = !t)
    (hside : sdStart (flimit steering 1 (-1)) (motionInit.drvStatus d).side = 0) :
    ¬Down (flimit speed 1 (-1)) ((makeStep speed steering m).1.drvStatus d).pos := by
  rw [makeStep_legPos h, legPos]
  exact not_down_phasePos (flimit_mem speed) (legPhase_straight hside (hd ▸ hphase))

/-! ## The service -/

namespace Motion

variable {m m' : Motion} {out : List CanFrame}

/-- Only the states of the drives differ. -/
def SameGait (m m' : Motion) : Prop :=
  m'.globalPhase = m.globalPhase ∧ ∀ d, (m'.drvStatus d).pos = (m.drvStatus d).pos ∧
    (m'.drvStatus d).side = (m.drvStatus d).side ∧
    (m'.drvStatus d).phaseOffset = (m.drvStatus d).phaseOffset

theorem SameGait.refl (m : Motion) : m.SameGait m := ⟨rfl, fun _ => ⟨rfl, rfl, rfl⟩⟩

theorem SameGait.trans {m'' : Motion} (h : m.SameGait m') (h' : m'.SameGait m'') :
    m.SameGait m'' :=
  ⟨h'.1.trans h.1, fun d => ⟨(h'.2 d).1.trans (h.2 d).1, (h'.2 d).2.1.trans (h.2 d).2.1,
    (h'.2 d).2.2.trans (h.2 d).2.2⟩⟩

theorem SameGait.inGait (h : m.SameGait m') (hm : m.InGait) : m'.InGait :=
  ⟨h.1 ▸ hm.phase, fun d => (h.2 d).1 ▸ hm.pos d, fun d => (h.2 d).2.1.trans (hm.side d),
    fun d => (h.2 d).2.2.trans (hm.offset d)⟩

theorem sameGait_setReady {i : Nat} (h : m.setReady i = some m') : m.SameGait m' := by
  rw [setReady] at h
  split_ifs at h with hi
  obtain rfl := Option.some.inj h
  refine ⟨rfl, fun d => ?_⟩
  by_cases hd : d = ⟨i, hi⟩
  · subst hd
    simp
  · simp [Function.update_of_ne hd]

theorem sameGait_setReady_two {i j : Nat} {m₁ : Motion} (h : m.setReady i = some m₁)
    (h' : m₁.setReady j = some m') : m.SameGait m' :=
  (sameGait_setReady h).trans (sameGait_setReady h')

end Motion

/-- A message keeps the gait, unless it makes a step. -/
theorem parseMsg_gait {msg : CanMsg} {m m' : Motion} {out : List CanFrame}
    (h : parseMsg msg m = some (m', out)) :
    m.SameGait m' ∨ msg.IsStatus ∧ ∃ m₁, m.SameGait m₁ ∧ m' = (makeStep (1 / 10) 0 m₁).1 := by
  rw [parseMsg] at h
  split_ifs at h with hresponse
  · cases hcmd : msg.cmdId with
    | getStatus =>
      simp only [hcmd, Option.bind_eq_bind, Option.bind_eq_some_iff] at h
      obtain ⟨m₁, hset₁, m₂, hset₂, h⟩ := h
      have hsame := Motion.sameGait_setReady_two hset₁ hset₂
      split_ifs at h
      · obtain rfl := (Prod.mk.inj (Option.some.inj h)).1
        exact .inr ⟨⟨hresponse, hcmd⟩, { m₂ with motionState := .off, tgtMotionState := .off },
          hsame, rfl⟩
      · obtain rfl := (Prod.mk.inj (Option.some.inj h)).1
        exact .inl hsame
    | drvCalibrationStart =>
      simp only [hcmd, Option.bind_eq_bind, Option.bind_eq_some_iff] at h
      obtain ⟨m₁, hset, h⟩ := h
      have hsame := Motion.sameGait_setReady hset
      split_ifs at h
      · obtain rfl := (Prod.mk.inj (Option.some.inj h)).1
        exact .inl hsame
      · obtain rfl := (Prod.mk.inj (Option.some.inj h)).1
        exact .inl hsame
    | drvLegStand =>
      simp only [hcmd, Option.bind_eq_bind, Option.bind_eq_some_iff] at h
      obtain ⟨m₁, hset, h⟩ := h
      obtain rfl := (Prod.mk.inj (Option.some.inj h)).1
      exact .inl (Motion.sameGait_setReady hset)
    | drvLegMotion | other =>
      simp only [hcmd] at h
      obtain rfl := (Prod.mk.inj (Option.some.inj h)).1
      exact .inl (.refl m)
  · obtain rfl := (Prod.mk.inj (Option.some.inj h)).1
    exact .inl (.refl m)

/-- The transition to the target state keeps the gait, unless it parks the legs. -/
theorem transition_gait (m : Motion) :
    m.SameGait m.transition.1 ∨
      m.transition.1 = { (parkingAll m).1 with motionState := .parking } := by
  rw [Motion.transition]
  split_ifs
  · cases htgt : m.tgtMotionState with
    | parking => exact .inr rfl
    | calibrating | beginWalking | walking | stopWalking | off => exact .inl (.refl _)
  · exact .inl (.refl m)

/-- The transition to a target of walking sends nothing. -/
theorem transition_walks {m : Motion} (htgt : m.tgtMotionState.Walks) (hready : m.AllDrvReady) :
    ∃ m', m.transition = (m', []) ∧ m.SameGait m' ∧ m'.motionState.Walks ∧
      m'.tgtMotionState = m.tgtMotionState ∧ m'.AllDrvReady := by
  rw [Motion.transition]
  by_cases hgo : m.tgtMotionState ≠ m.motionState ∧ m.AllDrvReady
  · rw [if_pos hgo]
    refine ⟨{ m with motionState := .walking }, ?_, .refl m, .inr (.inl rfl), rfl, hready⟩
    rcases htgt with htgt | htgt | htgt <;> rw [htgt]
  · have hsame : m.tgtMotionState = m.motionState := by
      by_contra hne
      exact hgo ⟨hne, hready⟩
    rw [if_neg hgo]
    exact ⟨m, rfl, .refl m, hsame ▸ htgt, rfl, hready⟩

namespace Motion.InGait

variable {m m' : Motion} {c : MotionCycle} {out : List CanFrame}

theorem receive (h : m.InGait) {msg : Option CanMsg} (hr : m.receive msg = some (m', out)) :
    m'.InGait := by
  cases msg with
  | none =>
    obtain rfl := (Prod.mk.inj (Option.some.inj hr)).1
    exact h
  | some msg =>
    rcases parseMsg_gait hr with hsame | ⟨-, m₁, hsame, rfl⟩
    · exact hsame.inGait h
    · exact (hsame.inGait h).step (.makeStep (1 / 10) 0)

theorem transition (h : m.InGait) : m.transition.1.InGait := by
  rcases transition_gait m with hsame | hpark
  · exact hsame.inGait h
  · rw [hpark]
    exact ⟨h.phase, fun d => (h.step .parkingAll).pos d, h.side, h.offset⟩

theorem act (h : m.InGait) (rc : RcData) : (m.act rc).1.InGait := by
  rw [Motion.act]
  split_ifs
  · exact h.step (.makeStep rc.speed rc.steering)
  · exact h

end Motion.InGait

theorem doMotion_eq_some {c : MotionCycle} {m m' : Motion} {out : List CanFrame}
    (h : doMotion c m = some (m', out)) : ∃ m₁ parsed, m.receive c.msg = some (m₁, parsed) ∧
      m' = (m₁.control c.rc).1 ∧ out = parsed ++ (m₁.control c.rc).2 := by
  cases hr : m.receive c.msg with
  | none =>
    rw [doMotion, hr] at h
    exact absurd h.symm (Option.some_ne_none _)
  | some r =>
    rw [doMotion_eq hr] at h
    obtain ⟨hm, hout⟩ := Prod.mk.inj (Option.some.inj h)
    exact ⟨r.1, r.2, rfl, hm.symm, hout.symm⟩

theorem doMotion_inGait {c : MotionCycle} {m m' : Motion} {out : List CanFrame} (hm : m.InGait)
    (h : doMotion c m = some (m', out)) : m'.InGait := by
  obtain ⟨m₁, parsed, hr, rfl, -⟩ := doMotion_eq_some h
  have htgt : Motion.InGait { m₁ with tgtMotionState := c.rc.target m₁.tgtMotionState } :=
    Motion.SameGait.inGait (Motion.SameGait.refl m₁) (hm.receive hr)
  exact htgt.transition.act c.rc

theorem motionRun_concat (m : Motion) (cycles : List MotionCycle) (c : MotionCycle) :
    motionRun m (cycles ++ [c]) =
      (motionRun m cycles).bind fun m => (doMotion c m).map Prod.fst := by
  simp only [motionRun, List.foldlM_append, List.foldlM_cons, List.foldlM_nil, bind_pure,
    Option.bind_eq_bind]

theorem motionRun_inGait {cycles : List MotionCycle} {m : Motion}
    (h : motionRun motionInit cycles = some m) : m.InGait := by
  induction cycles using List.reverseRecOn generalizing m with
  | nil =>
    obtain rfl := Option.some.inj h
    exact .init
  | append_singleton cycles c ih =>
    rw [motionRun_concat, Option.bind_eq_some_iff] at h
    obtain ⟨m₀, hrun, hstep⟩ := h
    obtain ⟨⟨m₁, out⟩, hcycle, rfl⟩ := Option.map_eq_some_iff.mp hstep
    exact doMotion_inGait (ih hrun) hcycle

/-- A cycle that ends walking has made a step. -/
theorem doMotion_walks {c : MotionCycle} {m m' : Motion} {out : List CanFrame} (hm : m.InGait)
    (h : doMotion c m = some (m', out)) (hwalks : m'.motionState.Walks) (hready : m'.AllDrvReady) :
    ∃ m₁ sent, m₁.InGait ∧ m' = (makeStep c.rc.speed c.rc.steering m₁).1 ∧
      out = sent ++ (makeStep c.rc.speed c.rc.steering m₁).2 := by
  obtain ⟨m₁, parsed, hr, rfl, rfl⟩ := doMotion_eq_some h
  have htgt : Motion.InGait { m₁ with tgtMotionState := c.rc.target m₁.tgtMotionState } :=
    Motion.SameGait.inGait (Motion.SameGait.refl m₁) (hm.receive hr)
  have hmoved := htgt.transition
  simp only [Motion.control, Motion.act] at hwalks hready ⊢
  generalize Motion.transition _ = moved at *
  obtain ⟨m₂, moved⟩ := moved
  by_cases hgo : m₂.motionState.Walks ∧ m₂.AllDrvReady
  · simp only [if_pos hgo] at hwalks hready ⊢
    exact ⟨m₂, parsed ++ moved, hmoved, rfl, (List.append_assoc _ _ _).symm⟩
  · simp only [if_neg hgo] at hwalks hready
    exact absurd ⟨hwalks, hready⟩ hgo

/-- **The tripods carry.** In every run of the service and at any speed and steering, a cycle that
ends walking has given the six drives their positions, and puts the three legs of one tripod on
the ground. The legs of the other tripod are off the ground then, except at the exchange of the
tripods and on the side whose stride steering shortens. -/
theorem tripods_carry {past : List MotionCycle} {c : MotionCycle} {m m' : Motion}
    {out : List CanFrame} (hrun : motionRun motionInit past = some m)
    (hcycle : doMotion c m = some (m', out)) (hwalks : m'.motionState.Walks)
    (hready : m'.AllDrvReady) :
    (∃ (sent : List CanFrame) (old : Fin 6 → ℚ), out = sent ++ (List.finRange 6).map fun d =>
      ⟨d.val / 2 + 1, .drvLegMotion, .motion (legCmd d (m'.drvStatus d).pos (old d))⟩) ∧
    ∃ t, m'.globalPhase ∈ halfOf t ∧ Supports t (flimit c.rc.speed 1 (-1)) m' ∧
      (m'.globalPhase ∉ ({0, 1 / 2, 1} : Set ℚ) → ∀ d, tripod d = !t →
        sdStart (flimit c.rc.steering 1 (-1)) (m'.drvStatus d).side = 0 →
          ¬Down (flimit c.rc.speed 1 (-1)) (m'.drvStatus d).pos) := by
  obtain ⟨m₁, sent, hm₁, rfl, rfl⟩ := doMotion_walks (motionRun_inGait hrun) hcycle hwalks hready
  have hend := hm₁.step (.makeStep c.rc.speed c.rc.steering)
  obtain ⟨t, hhalf⟩ := mem_halfOf hend.phase
  refine ⟨⟨sent, fun d => (m₁.drvStatus d).pos, rfl⟩, t, hhalf,
    supports_makeStep hm₁ (tripodPhase_mem hhalf), fun hinside d hd hside => ?_⟩
  have hsame : ((makeStep c.rc.speed c.rc.steering m₁).1.drvStatus d).side = _ := hend.side d
  rw [hsame] at hside
  exact swings_makeStep hm₁ (tripodPhase_other hhalf hinside) hd hside

/-- The remote control at full speed, with the walk button pressed. -/
def walkPressed : RcData := rcButtons {⟨0, Nat.succ_pos 31⟩}

/-- The boards report, and walking is pressed. -/
def bootCycles : List MotionCycle :=
  [statusCycle 1 (rcButtons ∅), statusCycle 2 (rcButtons ∅), statusCycle 3 walkPressed]

/-- The first cycle of walking. -/
theorem tripods_carry_boot : ∃ m' out t, doMotion (statusCycle 3 walkPressed)
      ((motionRun motionInit (bootCycles.take 2)).get rfl) = some (m', out) ∧
    Supports t (flimit 1 1 (-1)) m' := by
  obtain ⟨-, t, -, hcarries, -⟩ := @tripods_carry (bootCycles.take 2)
    (statusCycle 3 walkPressed) _ _ _ (Option.some_get rfl).symm (Option.some_get rfl).symm
    (by decide) (by decide)
  exact ⟨_, _, t, (Option.some_get rfl).symm, hcarries⟩

/-- All drives are ready, and walking is what the robot does and is told to do. -/
structure Motion.Walking (m : Motion) : Prop where
  gait : m.InGait
  state : m.motionState.Walks
  target : m.tgtMotionState.Walks
  ready : m.AllDrvReady

/-- A cycle with the given speed and steering, without the park button and without a message that
changes the motion states. -/
structure MotionCycle.WalksOn (speed steering : ℚ) (c : MotionCycle) : Prop where
  speed : c.rc.speed = speed
  steering : c.rc.steering = steering
  park : ¬c.rc.btn 1
  msg : ∀ msg ∈ c.msg, msg.response →
    msg.cmdId ≠ .getStatus ∧ msg.cmdId ≠ .drvCalibrationStart

/-- Such a message at most makes drives ready. -/
theorem receive_walksOn {c : MotionCycle} {speed steering : ℚ} (hc : c.WalksOn speed steering)
    {m m' : Motion} {out : List CanFrame} (h : m.receive c.msg = some (m', out)) :
    m.SameGait m' ∧ m'.motionState = m.motionState ∧ m'.tgtMotionState = m.tgtMotionState ∧
      (∀ d, m.Ready d → m'.Ready d) ∧ out = [] := by
  have hstay : some (m, []) = some (m', out) → m.SameGait m' ∧ m'.motionState = m.motionState ∧
      m'.tgtMotionState = m.tgtMotionState ∧ (∀ d, m.Ready d → m'.Ready d) ∧ out = [] := by
    intro h
    obtain ⟨rfl, rfl⟩ := Prod.mk.inj (Option.some.inj h)
    exact ⟨.refl m, rfl, rfl, fun _ => id, rfl⟩
  cases hmsg : c.msg with
  | none =>
    rw [hmsg] at h
    exact hstay h
  | some msg =>
    rw [hmsg] at h
    have hquiet := hc.msg msg hmsg
    replace h : parseMsg msg m = some (m', out) := h
    rw [parseMsg] at h
    split_ifs at h with hresponse
    · obtain ⟨hstatus, hcalibration⟩ := hquiet hresponse
      cases hcmd : msg.cmdId with
      | getStatus => exact absurd hcmd hstatus
      | drvCalibrationStart => exact absurd hcmd hcalibration
      | drvLegStand =>
        simp only [hcmd, Option.bind_eq_bind, Option.bind_eq_some_iff] at h
        obtain ⟨m₁, hset, h⟩ := h
        obtain ⟨rfl, rfl⟩ := Prod.mk.inj (Option.some.inj h)
        have hi : msg.board * 2 + msg.motor < 6 := by
          by_contra hge
          rw [Motion.setReady_of_ge (not_lt.mp hge)] at hset
          exact Option.some_ne_none _ hset.symm
        obtain ⟨m₂, hset₂, hstate, htgt, hready⟩ := m.setReady_of_lt hi
        obtain rfl := Option.some.inj (hset.symm.trans hset₂)
        exact ⟨Motion.sameGait_setReady hset, hstate, htgt, fun d hd => (hready d).mpr (.inl hd),
          rfl⟩
      | drvLegMotion | other =>
        simp only [hcmd] at h
        exact hstay h
    · exact hstay h

namespace Motion.Walking

variable {m m' : Motion} {c : MotionCycle} {speed steering : ℚ} {out : List CanFrame}

/-- **One cycle of walking** is one step. -/
theorem step (h : m.Walking) (hc : c.WalksOn speed steering)
    (hcycle : doMotion c m = some (m', out)) :
    m'.Walking ∧ ∃ m₁, m.SameGait m₁ ∧ m' = (makeStep speed steering m₁).1 ∧
      out = (makeStep speed steering m₁).2 := by
  obtain ⟨m₁, parsed, hr, rfl, rfl⟩ := doMotion_eq_some hcycle
  obtain ⟨hsame, hstate, htgt, hready, rfl⟩ := receive_walksOn hc hr
  have hall : m₁.AllDrvReady := fun d => hready d (h.ready d)
  -- the target is one of walking, before the buttons and after them
  have htarget : (c.rc.target m₁.tgtMotionState).Walks := by
    simp only [RcData.target, if_neg hc.park, htgt]
    split_ifs
    · exact .inr (.inl rfl)
    · exact h.target
  obtain ⟨m₂, hmove, hsame₂, hwalks, htgt₂, hall₂⟩ :=
    transition_walks (m := { m₁ with tgtMotionState := c.rc.target m₁.tgtMotionState }) htarget hall
  have hgait : m₂.InGait := (hsame.trans hsame₂).inGait h.gait
  simp only [Motion.control, hmove, Motion.act, if_pos (And.intro hwalks hall₂), hc.speed,
    hc.steering]
  refine ⟨⟨hgait.step (.makeStep speed steering), hwalks, ?_, hall₂⟩, m₂, hsame.trans hsame₂, rfl,
    rfl⟩
  exact htgt₂ ▸ htarget

/-- **A run of walking** turns the phase once a cycle. -/
theorem run {cs : List MotionCycle} (h : m.Walking) (hcs : ∀ c ∈ cs, c.WalksOn speed steering)
    (hrun : motionRun m cs = some m') :
    m'.Walking ∧ m'.globalPhase =
      (turnPhase (flimit speed 1 (-1)) (flimit steering 1 (-1)))^[cs.length] m.globalPhase := by
  induction cs using List.reverseRecOn generalizing m' with
  | nil =>
    obtain rfl := Option.some.inj hrun
    exact ⟨h, rfl⟩
  | append_singleton cs c ih =>
    rw [motionRun_concat, Option.bind_eq_some_iff] at hrun
    obtain ⟨m₀, hrun, hstep⟩ := hrun
    obtain ⟨⟨m₁, out⟩, hcycle, rfl⟩ := Option.map_eq_some_iff.mp hstep
    obtain ⟨hwalking, hphase⟩ := ih (fun c hc => hcs c (List.mem_append_left _ hc)) hrun
    obtain ⟨hend, m₂, hsame, rfl, -⟩ := hwalking.step (hcs c (by simp)) hcycle
    refine ⟨hend, ?_⟩
    rw [List.length_append, List.length_singleton, Function.iterate_succ_apply', ← hphase]
    exact congrArg (turnPhase _ _) hsame.1

theorem supports {cs : List MotionCycle} (h : m.Walking) (hcs : ∀ c ∈ cs, c.WalksOn speed steering)
    (hne : cs ≠ []) (hrun : motionRun m cs = some m') {t : Bool}
    (hhalf : m'.globalPhase ∈ halfOf t) : Supports t (flimit speed 1 (-1)) m' := by
  obtain ⟨cs, c, rfl⟩ := List.eq_nil_or_concat' cs |>.resolve_left hne
  rw [motionRun_concat, Option.bind_eq_some_iff] at hrun
  obtain ⟨m₀, hrun, hstep⟩ := hrun
  obtain ⟨⟨m₁, out⟩, hcycle, rfl⟩ := Option.map_eq_some_iff.mp hstep
  have hwalking := (h.run (fun c hc => hcs c (List.mem_append_left _ hc)) hrun).1
  obtain ⟨-, m₂, hsame, rfl, -⟩ := hwalking.step (hcs c (by simp)) hcycle
  exact supports_makeStep (hsame.inGait hwalking.gait) (tripodPhase_mem hhalf)

end Motion.Walking

/-! ## The exchange -/

theorem not_mem_halfOf {globalPhase : ℚ} (h : globalPhase ∈ Icc 0 1) {t : Bool} :
    globalPhase ∉ halfOf t ↔ if t then globalPhase < 1 / 2 else 1 / 2 < globalPhase := by
  cases t with
  | false =>
    exact ⟨fun hout => not_le.mp fun hle => hout ⟨h.1, hle⟩, fun hlt hin => hlt.not_ge hin.2⟩
  | true =>
    exact ⟨fun hout => not_le.mp fun hle => hout ⟨hle, h.2⟩, fun hlt hin => hlt.not_ge hin.1⟩

/-- Out of a half the phase is not wrapped. -/
theorem turnPhase_of_not_mem {speed steering globalPhase : ℚ} {t : Bool}
    (hspeed : speed ∈ Icc (-1) 1) (hphase : globalPhase ∈ Icc 0 1) (hout : globalPhase ∉ halfOf t)
    (hnext : turnPhase speed steering globalPhase ∉ halfOf t) :
    turnPhase speed steering globalPhase =
      globalPhase + speed / slowdown speed steering / 100 := by
  obtain ⟨hlow, hhigh⟩ := abs_le.mp (abs_phase_le hspeed steering)
  rw [not_mem_halfOf (turnPhase_mem hspeed steering hphase)] at hnext
  rw [not_mem_halfOf hphase] at hout
  obtain ⟨h₀, h₁⟩ := hphase
  simp only [turnPhase] at hnext ⊢
  generalize speed / slowdown speed steering / 100 = δ at *
  cases t <;> simp only [Bool.false_eq_true, if_false, if_true] at hout hnext <;>
    split_ifs at hnext ⊢ <;> linarith

/-- Out of a half the phase moves on by one step in each cycle. -/
theorem iterate_turnPhase {speed steering globalPhase : ℚ} {t : Bool} (hspeed : speed ∈ Icc (-1) 1)
    (hphase : globalPhase ∈ Icc 0 1) {n : Nat}
    (hout : ∀ k ≤ n, (turnPhase speed steering)^[k] globalPhase ∉ halfOf t) :
    (turnPhase speed steering)^[n] globalPhase ∈ Icc 0 1 ∧
      (turnPhase speed steering)^[n] globalPhase =
        globalPhase + n * (speed / slowdown speed steering / 100) := by
  induction n with
  | zero => simpa using hphase
  | succ n ih =>
    obtain ⟨hmem, hmoved⟩ := ih fun k hk => hout k (by omega)
    have hnow := hout n (by omega)
    have hnext := hout (n + 1) le_rfl
    rw [Function.iterate_succ_apply'] at hnext ⊢
    refine ⟨turnPhase_mem hspeed steering hmem, ?_⟩
    rw [turnPhase_of_not_mem hspeed hmem hnow hnext, hmoved]
    push_cast
    ring

/-- The phase reaches both halves in the steps of half a turn. -/
theorem exists_iterate_mem {speed steering globalPhase : ℚ} (hspeed : speed ∈ Icc (-1) 1)
    (hphase : globalPhase ∈ Icc 0 1) {n : Nat}
    (hn : 50 * slowdown speed steering ≤ n * |speed|) (t : Bool) :
    ∃ k ≤ n, (turnPhase speed steering)^[k] globalPhase ∈ halfOf t := by
  by_contra! hout
  obtain ⟨hmem, hmoved⟩ := iterate_turnPhase hspeed hphase hout
  have hslow : 0 < slowdown speed steering := by linarith [one_le_slowdown speed steering]
  have hstart := (not_mem_halfOf hphase).mp (hout 0 (Nat.zero_le n))
  have hend := (not_mem_halfOf hmem).mp (hout n le_rfl)
  obtain ⟨h₀, h₁⟩ := hphase
  obtain ⟨hend₀, hend₁⟩ := hmem
  -- both phases are in the same half, open at one end
  have hless : |n * (speed / slowdown speed steering / 100)| < 1 / 2 := by
    rw [hmoved] at hend hend₀ hend₁
    rw [abs_lt]
    cases t <;> simp only [Bool.false_eq_true, if_false, if_true] at hstart hend <;>
      constructor <;> linarith
  have hmore : 1 / 2 ≤ |n * (speed / slowdown speed steering / 100)| := by
    rw [abs_mul, abs_div, abs_div, abs_of_pos hslow, Nat.abs_cast,
      abs_of_pos (by norm_num : (0 : ℚ) < 100), div_div, mul_div_assoc',
      le_div_iff₀ (by positivity)]
    linarith
  linarith

/-- **The tripods alternate.** Whatever a run of the service has led to, once the robot walks, at a
constant speed and steering each of the two tripods carries it within the steps of half a turn. -/
theorem tripods_alternate {m m' : Motion} {past cs : List MotionCycle} {speed steering : ℚ}
    (hrun : motionRun motionInit past = some m) (hwalks : m.motionState.Walks)
    (htgt : m.tgtMotionState.Walks) (hready : m.AllDrvReady)
    (hcs : ∀ c ∈ cs, c.WalksOn speed steering) (hend : motionRun m cs = some m')
    (hlong : 50 * slowdown (flimit speed 1 (-1)) (flimit steering 1 (-1)) ≤
      (cs.length - 1 : Nat) * |flimit speed 1 (-1)|) (t : Bool) :
    ∃ k < cs.length, ∃ m₁, motionRun m (cs.take (k + 1)) = some m₁ ∧
      Supports t (flimit speed 1 (-1)) m₁ := by
  have h : m.Walking := ⟨motionRun_inGait hrun, hwalks, htgt, hready⟩
  obtain ⟨k, hk, hhalf⟩ := exists_iterate_mem (flimit_mem speed)
    (turnPhase_mem (flimit_mem speed) (flimit steering 1 (-1)) h.gait.phase) hlong t
  have hlt : k < cs.length := by
    rcases Nat.eq_zero_or_pos cs.length with hempty | hpos
    · have hslow := one_le_slowdown (flimit speed 1 (-1)) (flimit steering 1 (-1))
      rw [hempty] at hlong
      simp only [zero_tsub, Nat.cast_zero, zero_mul] at hlong
      linarith
    · omega
  obtain ⟨m₁, hfirst⟩ : ∃ m₁, motionRun m (cs.take (k + 1)) = some m₁ := by
    rw [← List.take_append_drop (k + 1) cs, motionRun, List.foldlM_append, Option.bind_eq_bind,
      Option.bind_eq_some_iff] at hend
    exact hend.imp fun _ h => h.1
  have htaken : ∀ c ∈ cs.take (k + 1), c.WalksOn speed steering :=
    fun c hc => hcs c (List.mem_of_mem_take hc)
  have hlen : (cs.take (k + 1)).length = k + 1 := List.length_take_of_le hlt
  refine ⟨k, hlt, m₁, hfirst, h.supports htaken (List.ne_nil_of_length_pos (by omega)) hfirst ?_⟩
  rw [(h.run htaken hfirst).2, hlen, Function.iterate_succ_apply]
  exact hhalf

/-- Half a turn and a step at full speed. -/
theorem tripods_alternate_straight : ∃ k < 51, ∃ m₁,
    motionRun ((motionRun motionInit bootCycles).get rfl)
      ((List.replicate 51 ⟨none, rcButtons ∅⟩).take (k + 1)) = some m₁ ∧
    Supports true (flimit 1 1 (-1)) m₁ := by
  have hcs : ∀ c ∈ List.replicate 51 (⟨none, rcButtons ∅⟩ : MotionCycle), c.WalksOn 1 0 := by
    intro c hc
    obtain rfl := List.eq_of_mem_replicate hc
    exact ⟨rfl, rfl, by decide, fun _ hmsg => nomatch hmsg⟩
  refine tripods_alternate (Option.some_get rfl).symm (by decide) (by decide) (by decide) hcs
    (Option.some_get rfl).symm ?_ true
  norm_num [flimit, slowdown]

end Rhex
