import Mathlib

/-!
# Piecewise-linear maps of a circle

A map that has one slope on one half of a turn and another slope on the other half, with the same
length of a turn.

* `Turn.Unwinds` — a map that falls by the length of a circle in each turn;
  `Turn.Unwinds.injOn` and `Turn.Unwinds.exists_circle` read it on the circle.
* `Turn.bend` — a bend on the line; `Turn.bend_eq` gives the two slopes.
* `Turn.bend_strictMono`, `Turn.abs_bend_sub_le` — it is strictly monotone and has no jump;
  `Turn.abs_bend_sub_le_mul` gives the steeper of the two slopes.
-/

namespace Turn

open Set

variable {𝕜 : Type*} [Field 𝕜] [LinearOrder 𝕜]

/-! ## Points of a circle -/

/-- One conditional turn down, and one up. -/
def wrap (q high low x : 𝕜) : 𝕜 :=
  let y := if x > high then x - q else x
  if y < low then y + q else y

theorem coe_wrap (q high low x : 𝕜) :
    ((wrap q high low x : 𝕜) : AddCircle q) = (x : AddCircle q) := by
  have hdown : ((if x > high then x - q else x : 𝕜) : AddCircle q) = (x : AddCircle q) := by
    split_ifs
    · rw [AddCircle.coe_sub, AddCircle.coe_period, sub_zero]
    · rfl
  simp only [wrap]
  rw [← hdown]
  generalize (if x > high then x - q else x) = y
  split_ifs
  · exact AddCircle.coe_add_period q y
  · rfl

variable [IsStrictOrderedRing 𝕜]

theorem coe_eq_iff {q x y : 𝕜} : (x : AddCircle q) = (y : AddCircle q) ↔
    ∃ n : ℤ, x = y + n * q := by
  rw [← sub_eq_zero, ← AddCircle.coe_sub, AddCircle.coe_eq_zero_iff]
  refine exists_congr fun n => ?_
  rw [zsmul_eq_mul]
  constructor <;> intro h <;> linarith

theorem coe_mul_congr {q x y : 𝕜} (h : (x : AddCircle (1 : 𝕜)) = (y : AddCircle (1 : 𝕜))) :
    ((q * x : 𝕜) : AddCircle q) = ((q * y : 𝕜) : AddCircle q) := by
  obtain ⟨n, rfl⟩ := coe_eq_iff.mp h
  exact coe_eq_iff.mpr ⟨n, by ring⟩

/-! ## Maps of a circle -/

/-- A map that falls strictly, by `q` in a turn. -/
structure Unwinds (q : 𝕜) (F : 𝕜 → 𝕜) : Prop where
  anti : StrictAnti F
  turn : ∀ x, F (x + 1) = F x - q

namespace Unwinds

variable {q : 𝕜} {F : 𝕜 → 𝕜}

/-- Within a turn no point of the circle comes twice. -/
theorem eq_of_coe_eq (h : Unwinds q F) {x y : 𝕜} (hx : x ∈ Ico 0 1) (hy : y ∈ Ico 0 1)
    (heq : (F x : AddCircle q) = (F y : AddCircle q)) : x = y := by
  have hend : F 1 = F 0 - q := by
    rw [← h.turn 0, zero_add]
  have hq : 0 < q := by
    linarith [h.anti (zero_lt_one' 𝕜)]
  obtain ⟨n, hn⟩ := coe_eq_iff.mp heq
  have hrange {z : 𝕜} (hz : z ∈ Ico 0 1) : F 0 - q < F z ∧ F z ≤ F 0 :=
    ⟨hend ▸ h.anti hz.2, h.anti.antitone hz.1⟩
  obtain ⟨hx₀, hx₁⟩ := hrange hx
  obtain ⟨hy₀, hy₁⟩ := hrange hy
  have hlow : -1 < n := by
    have hmul : (-1) * q < n * q := by linarith
    exact_mod_cast lt_of_mul_lt_mul_right hmul hq.le
  have hhigh : n < 1 := by
    have hmul : n * q < 1 * q := by linarith
    exact_mod_cast lt_of_mul_lt_mul_right hmul hq.le
  have hzero : n = 0 := by omega
  rw [hzero, Int.cast_zero, zero_mul, add_zero] at hn
  exact h.anti.injective hn

theorem injOn (h : Unwinds q F) {f : 𝕜 → 𝕜}
    (hf : ∀ x ∈ Icc 0 1, (f x : AddCircle q) = (F x : AddCircle q)) : InjOn f (Ico 0 1) := by
  intro x hx y hy heq
  apply h.eq_of_coe_eq hx hy
  rw [← hf x (Ico_subset_Icc_self hx), ← hf y (Ico_subset_Icc_self hy), heq]

/-- The map of the circle. -/
theorem exists_circle [TopologicalSpace 𝕜] [Archimedean 𝕜] (h : Unwinds q F)
    (hF : Continuous F) : ∃ φ : AddCircle (1 : 𝕜) → AddCircle q,
      Continuous φ ∧ Function.Injective φ ∧
        ∀ x : 𝕜, φ (x : AddCircle (1 : 𝕜)) = (F x : AddCircle q) := by
  have hper : Function.Periodic (fun x => (F x : AddCircle q)) 1 := by
    intro x
    simp only
    rw [h.turn, AddCircle.coe_sub, AddCircle.coe_period, sub_zero]
  have hcoe : Continuous fun x => (F x : AddCircle q) := (AddCircle.continuous_mk' q).comp hF
  refine ⟨hper.lift, hcoe.quotient_liftOn' _, fun a b heq => ?_, fun x => rfl⟩
  have hcover (a : AddCircle (1 : 𝕜)) : ∃ x ∈ Ico (0 : 𝕜) (0 + 1), (x : AddCircle (1 : 𝕜)) = a := by
    have ha : a ∈ univ := mem_univ a
    rwa [← AddCircle.coe_image_Ico_eq 1 0] at ha
  rw [zero_add] at hcover
  obtain ⟨x, hx, rfl⟩ := hcover a
  obtain ⟨y, hy, rfl⟩ := hcover b
  rw [h.eq_of_coe_eq hx hy heq]

end Unwinds

/-! ## Bends -/

variable [FloorRing 𝕜]

/-- The distance to the nearest integer. -/
def gap (x : 𝕜) : 𝕜 := |x - round x|

/-- A slope of `1 + c` on the upper half of a turn, and of `1 - c` on the lower half. -/
def bend (c x : 𝕜) : 𝕜 := x + c * gap x

theorem gap_add_intCast (x : 𝕜) (n : ℤ) : gap (x + n) = gap x := by
  rw [gap, gap, round_add_intCast, Int.cast_add, add_sub_add_right_eq_sub]

theorem gap_sub_le (x y : 𝕜) : gap y - gap x ≤ |y - x| := by
  have hround : gap y ≤ |y - round x| := round_le y (round x)
  have htriangle : |y - round x| ≤ |y - x| + |x - round x| := abs_sub_le y x (round x)
  rw [gap] at hround ⊢
  rw [gap]
  linarith

theorem abs_gap_sub_le (x y : 𝕜) : |gap y - gap x| ≤ |y - x| := by
  apply abs_sub_le_iff.mpr
  exact ⟨gap_sub_le x y, abs_sub_comm x y ▸ gap_sub_le y x⟩

theorem gap_of_abs_le {x : 𝕜} (h : |x| ≤ 1 / 2) : gap x = |x| := by
  apply le_antisymm
  · simpa [gap] using round_le x 0
  · by_cases hround : round x = 0
    · simp [gap, hround]
    · -- the nearest integer is at least as far as one half
      have hone : (1 : 𝕜) ≤ |(round x : 𝕜)| := by
        exact_mod_cast Int.one_le_abs hround
      have htriangle : |(round x : 𝕜)| ≤ |x| + |x - round x| := by
        rw [abs_sub_comm]
        simpa using abs_add_le x ((round x : 𝕜) - x)
      rw [gap]
      linarith

theorem bend_add_intCast (c x : 𝕜) (n : ℤ) : bend c (x + n) = bend c x + n := by
  rw [bend, bend, gap_add_intCast]
  ring

theorem bend_sub_one (c x : 𝕜) : bend c (x - 1) = bend c x - 1 := by
  simpa [sub_eq_add_neg] using bend_add_intCast c x (-1)

theorem bend_eq (c : 𝕜) {x : 𝕜} (h : |x| ≤ 1 / 2) :
    bend c x = if x > 0 then (1 + c) * x else (1 - c) * x := by
  rw [bend, gap_of_abs_le h]
  split_ifs with hx
  · rw [abs_of_pos hx]
    ring
  · rw [abs_of_nonpos (not_lt.mp hx)]
    ring

theorem bend_strictMono {c : 𝕜} (hc : |c| < 1) : StrictMono (bend c) := by
  intro x y hlt
  have hpos : 0 < y - x := sub_pos.mpr hlt
  have hgap : |c * (gap y - gap x)| ≤ |c| * (y - x) := by
    rw [abs_mul]
    exact mul_le_mul_of_nonneg_left ((abs_gap_sub_le x y).trans_eq (abs_of_pos hpos))
      (abs_nonneg c)
  have hlow := (abs_le.mp hgap).1
  have hsmall : |c| * (y - x) < y - x := mul_lt_of_lt_one_left hpos hc
  rw [bend, bend]
  linarith

theorem abs_bend_sub_le {c : 𝕜} (hc : |c| ≤ 1) (x y : 𝕜) :
    |bend c y - bend c x| ≤ 2 * |y - x| := by
  have hsplit : bend c y - bend c x = (y - x) + c * (gap y - gap x) := by
    rw [bend, bend]
    ring
  have hgap : |c * (gap y - gap x)| ≤ |y - x| := by
    rw [abs_mul]
    exact (mul_le_of_le_one_left (abs_nonneg _) hc).trans (abs_gap_sub_le x y)
  rw [hsplit]
  linarith [abs_add_le (y - x) (c * (gap y - gap x))]

theorem abs_bend_sub_le_mul (c x y : 𝕜) : |bend c y - bend c x| ≤ (1 + |c|) * |y - x| := by
  have hsplit : bend c y - bend c x = (y - x) + c * (gap y - gap x) := by
    rw [bend, bend]
    ring
  have hgap : |c * (gap y - gap x)| ≤ |c| * |y - x| := by
    rw [abs_mul]
    exact mul_le_mul_of_nonneg_left (abs_gap_sub_le x y) (abs_nonneg c)
  rw [hsplit]
  linarith [abs_add_le (y - x) (c * (gap y - gap x))]

theorem coe_bend_congr (c : 𝕜) {x y : 𝕜}
    (h : (x : AddCircle (1 : 𝕜)) = (y : AddCircle (1 : 𝕜))) :
    ((bend c x : 𝕜) : AddCircle (1 : 𝕜)) = ((bend c y : 𝕜) : AddCircle (1 : 𝕜)) := by
  obtain ⟨n, rfl⟩ := coe_eq_iff.mp h
  exact coe_eq_iff.mpr ⟨n, by rw [mul_one, bend_add_intCast]⟩

end Turn
