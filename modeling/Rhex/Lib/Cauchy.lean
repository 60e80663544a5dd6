import Mathlib

/-!
# Cauchy matrices and systematic erasure codes

A Cauchy matrix has the entries `1 / (x i - y j)`, with the `x i` distinct, the `y j` distinct
and no `x` equal to a `y`. Every such square matrix is injective, and so is every square
submatrix, which is what makes it the parity part of an erasure code: `k` data words `d` are
sent as they are, together with parity words `∑ j, d j / (x i - y j)`, and any `r` parity words
repair any `r` erased data words.

* `cauchy_injective` — a Cauchy matrix sends only zero to zero.
* `parity_split` — a parity word is what the erased words contribute plus what the known ones do.
-/

namespace Cauchy

open Matrix Polynomial

variable {ι κ F : Type*} [Field F]

/-- The Cauchy matrix of the points `x` and `y`. -/
def cauchy (x : ι → F) (y : κ → F) : Matrix ι κ F := fun i j => (x i - y j)⁻¹

section

variable [Fintype ι] [DecidableEq ι]

/-- The numerator of `∑ j, c j / (X - y j)` over the common denominator. -/
noncomputable def numerator (y c : ι → F) : F[X] :=
  ∑ j, C (c j) * ∏ l ∈ Finset.univ.erase j, (X - C (y l))

theorem natDegree_numerator_lt [Nonempty ι] (y c : ι → F) :
    (numerator y c).natDegree < Fintype.card ι := by
  have hle : (numerator y c).natDegree ≤ Fintype.card ι - 1 := by
    apply natDegree_sum_le_of_forall_le _ _
    intro j _
    apply (natDegree_C_mul_le _ _).trans
    rw [natDegree_finsetProd_X_sub_C_eq_card, Finset.card_erase_of_mem (Finset.mem_univ j),
      Finset.card_univ]
  have := Fintype.card_pos (α := ι)
  omega

theorem eval_numerator {y : ι → F} (c : ι → F) {t : F} (ht : ∀ j, t ≠ y j) :
    (numerator y c).eval t = (∏ j, (t - y j)) * ∑ j, (t - y j)⁻¹ * c j := by
  rw [numerator, eval_finsetSum, Finset.mul_sum]
  apply Finset.sum_congr rfl
  intro j _
  have hj : t - y j ≠ 0 := sub_ne_zero.mpr (ht j)
  rw [eval_mul, eval_C, eval_prod, ← Finset.mul_prod_erase _ (fun j => t - y j) (Finset.mem_univ j)]
  simp only [eval_sub, eval_X, eval_C]
  field_simp

/-- At `y j` only the `j`-th term of the numerator is left. -/
theorem eval_numerator_self (y c : ι → F) (j : ι) :
    (numerator y c).eval (y j) = c j * ∏ l ∈ Finset.univ.erase j, (y j - y l) := by
  rw [numerator, eval_finsetSum, Finset.sum_eq_single j]
  · simp [eval_prod]
  · intro i _ hij
    rw [eval_mul, eval_prod, Finset.prod_eq_zero (i := j) (by simp [hij.symm]) (by simp), mul_zero]
  · simp

/-- **Cauchy matrices are injective.** -/
theorem cauchy_injective {x y : ι → F} (hx : Function.Injective x) (hy : Function.Injective y)
    (hxy : ∀ i j, x i ≠ y j) (c : ι → F) (hc : cauchy x y *ᵥ c = 0) : c = 0 := by
  funext j
  have : Nonempty ι := ⟨j⟩
  have hzero : numerator y c = 0 := by
    refine eq_zero_of_natDegree_lt_card_of_eval_eq_zero _ hx (fun i => ?_)
      (natDegree_numerator_lt y c)
    have hi : ∑ j, (x i - y j)⁻¹ * c j = 0 := congrFun hc i
    rw [eval_numerator c (hxy i), hi, mul_zero]
  have hj := eval_numerator_self y c j
  rw [hzero, eval_zero] at hj
  have hprod : ∏ l ∈ Finset.univ.erase j, (y j - y l) ≠ 0 :=
    Finset.prod_ne_zero_iff.mpr fun l hl =>
      sub_ne_zero.mpr fun he => (Finset.ne_of_mem_erase hl) (hy he).symm
  exact (mul_eq_zero.mp hj.symm).resolve_right hprod

end

/-! ## Erasures -/

theorem parity_split {s : Finset κ} {P : κ → Prop} [DecidablePred P] {r : ℕ} {e : Fin r → κ}
    (he : Function.Injective e) (hs : ∀ i, e i ∈ s) (hP : ∀ c, P c ↔ ∃ i, e i = c)
    (w d : κ → F) :
    ∑ j ∈ s, w j * d j =
      ∑ i, w (e i) * d (e i) + ∑ j ∈ s.filter (fun j => ¬P j), w j * d j := by
  classical
  have himage : s.filter P = Finset.univ.image e := by
    ext c
    simp only [Finset.mem_filter, Finset.mem_image, Finset.mem_univ, true_and, hP]
    exact ⟨fun h => h.2, fun ⟨i, hi⟩ => ⟨hi ▸ hs i, i, hi⟩⟩
  rw [← Finset.sum_filter_add_sum_filter_not s P, himage, Finset.sum_image fun a _ b _ h => he h]

end Cauchy
