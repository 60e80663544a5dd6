import Mathlib

/-!
# In-place Gauss–Jordan inversion as an exchange of variables

In-place inversion keeps one square tableau `M` and no second matrix. What the tableau means
while the inversion is under way is a statement about an exchange: of the linear relation
`y = A x`, the columns already used as pivots read an entry of `y`, and the rows already used
produce an entry of `x`. Row swaps permute which `y` a row stands for.

* `Tableau A S ρ M` — the tableau `M` is `A` with the variables of `S` exchanged, under the
  row permutation `ρ`.
* `Tableau.pivot`, `Tableau.swap` — one pivot step and one row swap keep the relation.
* `Tableau.exists_pivot` — as long as a variable is left, an injective `A` has a pivot for it.
* `Tableau.mulVec_univ` — when every variable is exchanged, `M` undoes `A` up to `ρ`.
-/

namespace Exchange

open Matrix

variable {n F : Type*} [Fintype n] [DecidableEq n] [Field F]

/-! ## The exchanged relation -/

/-- What the columns read: an exchanged column reads an output of `A`. The sign makes the
relation hold over any field. -/
def inp (A : Matrix n n F) (S : Finset n) (ρ : Equiv.Perm n) (x : n → F) (j : n) : F :=
  if j ∈ S then (A *ᵥ x) (ρ j) else -x j

/-- What the rows produce: an exchanged row produces an input of `A`. -/
def out (A : Matrix n n F) (S : Finset n) (ρ : Equiv.Perm n) (x : n → F) (i : n) : F :=
  if i ∈ S then x i else -(A *ᵥ x) (ρ i)

/-- `M` is the tableau of `A` with the variables of `S` exchanged and the rows permuted by `ρ`. -/
def Tableau (A : Matrix n n F) (S : Finset n) (ρ : Equiv.Perm n) (M : Matrix n n F) : Prop :=
  ∀ x, M *ᵥ inp A S ρ x = out A S ρ x

theorem tableau_init (A : Matrix n n F) : Tableau A ∅ 1 A := by
  intro x
  funext i
  have hinp : inp A ∅ 1 x = -x := by funext j; simp [inp]
  rw [hinp, mulVec_neg]
  simp [out]

/-! ## One pivot step -/

/-- The pivot step at `p`: divide row `p` by the pivot, with a one in the pivot's place, and
subtract multiples of it from the other rows, with a zero in their pivot column. -/
def pivot (p : n) (M : Matrix n n F) : Matrix n n F := fun i j =>
  if i = p then (M p p)⁻¹ * (if j = p then 1 else M p j)
  else (if j = p then 0 else M i j) - M i p * ((M p p)⁻¹ * (if j = p then 1 else M p j))

theorem mulVec_split (M : Matrix n n F) (v : n → F) (i p : n) :
    (M *ᵥ v) i = M i p * v p + ∑ j ∈ Finset.univ.erase p, M i j * v j := by
  rw [mulVec, dotProduct, Finset.add_sum_erase _ (fun j => M i j * v j) (Finset.mem_univ p)]

theorem inp_insert {A : Matrix n n F} {S : Finset n} {ρ : Equiv.Perm n} {x : n → F} {p j : n}
    (hj : j ≠ p) : inp A (insert p S) ρ x j = inp A S ρ x j := by
  simp [inp, Finset.mem_insert, hj]

theorem out_insert {A : Matrix n n F} {S : Finset n} {ρ : Equiv.Perm n} {x : n → F} {p i : n}
    (hi : i ≠ p) : out A (insert p S) ρ x i = out A S ρ x i := by
  simp [out, Finset.mem_insert, hi]

/-- **A pivot step exchanges its variable.** -/
theorem Tableau.pivot {A : Matrix n n F} {S : Finset n} {ρ : Equiv.Perm n} {M : Matrix n n F}
    (h : Tableau A S ρ M) {p : n} (hp : p ∉ S) (hpp : M p p ≠ 0) :
    Tableau A (insert p S) ρ (Exchange.pivot p M) := by
  intro x
  -- The sums over the columns other than `p` are the ones the old tableau had.
  set rest : n → F := fun i => ∑ j ∈ Finset.univ.erase p, M i j * inp A S ρ x j with hrest
  have hold : ∀ i, M i p * (-x p) + rest i = out A S ρ x i := by
    intro i
    have := congrFun (h x) i
    rw [mulVec_split M _ i p] at this
    rwa [show inp A S ρ x p = -x p by simp [inp, hp]] at this
  have hrow : M p p * (-x p) + rest p = -(A *ᵥ x) (ρ p) := by
    rw [hold p]; simp [out, hp]
  have hx : x p = (M p p)⁻¹ * ((A *ᵥ x) (ρ p) + rest p) := by
    field_simp
    linear_combination -hrow
  have hnew : inp A (insert p S) ρ x p = (A *ᵥ x) (ρ p) := by simp [inp]
  funext i
  rw [mulVec_split _ _ i p, hnew]
  by_cases hi : i = p
  · subst hi
    have hsum : ∑ j ∈ Finset.univ.erase i,
        Exchange.pivot i M i j * inp A (insert i S) ρ x j = (M i i)⁻¹ * rest i := by
      rw [hrest, Finset.mul_sum]
      apply Finset.sum_congr rfl
      intro j hj
      have hji : j ≠ i := Finset.ne_of_mem_erase hj
      rw [inp_insert hji]
      simp [Exchange.pivot, hji, mul_assoc]
    rw [hsum, show out A (insert i S) ρ x i = x i by simp [out], hx]
    simp [Exchange.pivot]
    ring
  · have hsum : ∑ j ∈ Finset.univ.erase p,
        Exchange.pivot p M i j * inp A (insert p S) ρ x j =
          rest i - M i p * ((M p p)⁻¹ * rest p) := by
      rw [hrest, Finset.mul_sum, Finset.mul_sum, ← Finset.sum_sub_distrib]
      apply Finset.sum_congr rfl
      intro j hj
      have hjp : j ≠ p := Finset.ne_of_mem_erase hj
      rw [inp_insert hjp]
      simp only [Exchange.pivot, hi, hjp, if_false]
      ring
    rw [hsum, out_insert hi, ← hold i, hx]
    simp only [Exchange.pivot, hi, if_false, if_true]
    ring

/-! ## Row swaps -/

/-- A row swap among the variables not yet exchanged only changes which output a row is for. -/
theorem Tableau.swap {A : Matrix n n F} {S : Finset n} {ρ : Equiv.Perm n} {M : Matrix n n F}
    (h : Tableau A S ρ M) {a b : n} (ha : a ∉ S) (hb : b ∉ S) :
    Tableau A S (ρ * Equiv.swap a b) (fun i j => M (Equiv.swap a b i) j) := by
  have hfix : ∀ i ∈ S, Equiv.swap a b i = i := by
    intro i hi
    exact Equiv.swap_apply_of_ne_of_ne (fun hia => ha (hia ▸ hi)) (fun hib => hb (hib ▸ hi))
  have hmem : ∀ i, Equiv.swap a b i ∈ S ↔ i ∈ S := by
    intro i
    refine ⟨?_, fun hi => by rwa [hfix i hi]⟩
    intro hi
    have := hfix _ hi
    rw [Equiv.swap_apply_self] at this
    rwa [this]
  intro x
  have hinp : inp A S (ρ * Equiv.swap a b) x = inp A S ρ x := by
    funext j
    by_cases hj : j ∈ S
    · simp [inp, hj, hfix j hj]
    · simp [inp, hj]
  funext i
  have hi := congrFun (h x) (Equiv.swap a b i)
  rw [hinp]
  change (M *ᵥ inp A S ρ x) (Equiv.swap a b i) = _
  rw [hi]
  by_cases hS : i ∈ S
  · simp [out, hS, hfix i hS]
  · simp [out, hS, hmem]

/-! ## A pivot exists -/

/-- The map from a vector to what the columns read. -/
def inpMap (A : Matrix n n F) (S : Finset n) (ρ : Equiv.Perm n) : (n → F) →ₗ[F] (n → F) where
  toFun := inp A S ρ
  map_add' x y := by
    funext j
    by_cases hj : j ∈ S
    · simp [inp, hj, mulVec_add]
    · simp [inp, hj]; ring
  map_smul' c x := by
    funext j
    by_cases hj : j ∈ S <;> simp [inp, hj, mulVec_smul]

theorem Tableau.inp_surjective {A : Matrix n n F} {S : Finset n} {ρ : Equiv.Perm n}
    {M : Matrix n n F} (h : Tableau A S ρ M) : Function.Surjective (inp A S ρ) := by
  apply (LinearMap.injective_iff_surjective (f := inpMap A S ρ)).mp
  apply (injective_iff_map_eq_zero (inpMap A S ρ)).mpr
  intro x hx
  have hinp : inp A S ρ x = 0 := hx
  have hout : out A S ρ x = 0 := by rw [← h x, hinp, mulVec_zero]
  funext j
  by_cases hj : j ∈ S
  · simpa [out, hj] using congrFun hout j
  · simpa [inp, hj] using congrFun hinp j

/-- **A pivot exists.** While a variable is left to exchange, an injective `A` leaves a nonzero
entry in a row and a column not yet used. -/
theorem Tableau.exists_pivot {A : Matrix n n F} {S : Finset n} {ρ : Equiv.Perm n}
    {M : Matrix n n F} (h : Tableau A S ρ M) (hA : ∀ x, A *ᵥ x = 0 → x = 0) {j : n}
    (hj : j ∉ S) : ∃ i ∉ S, M i j ≠ 0 := by
  by_contra hno
  push Not at hno
  obtain ⟨x, hx⟩ := h.inp_surjective (Pi.single j 1)
  have hout : ∀ i, out A S ρ x i = M i j := by
    intro i
    rw [← congrFun (h x) i, hx, mulVec_single_one, col_apply]
  -- Every output of `A` is zero: the exchanged ones are read as zero, the others produce zero.
  have hy : A *ᵥ x = 0 := by
    funext k
    obtain ⟨i, rfl⟩ := ρ.surjective k
    by_cases hi : i ∈ S
    · have hij : i ≠ j := fun he => hj (he ▸ hi)
      have := congrFun hx i
      simpa [inp, hi, hij] using this
    · have := hout i
      rw [hno i hi] at this
      simpa [out, hi] using this
  have hzero := hA x hy
  have := congrFun hx j
  simp [inp, hj, hzero] at this

/-! ## The end of the inversion -/

/-- **When every variable is exchanged, the tableau undoes `A`**, reading the outputs in the
order of the row permutation. -/
theorem Tableau.mulVec_univ {A : Matrix n n F} {ρ : Equiv.Perm n} {M : Matrix n n F}
    (h : Tableau A Finset.univ ρ M) (x : n → F) : M *ᵥ ((A *ᵥ x) ∘ ρ) = x := by
  have hinp : inp A Finset.univ ρ x = (A *ᵥ x) ∘ ρ := by funext j; simp [inp]
  have hout : out A Finset.univ ρ x = x := by funext i; simp [out]
  rw [← hinp, h x, hout]

theorem mulVec_swap_cols (M : Matrix n n F) (a b : n) (z : n → F) :
    (fun i j => M i (Equiv.swap a b j) : Matrix n n F) *ᵥ z = M *ᵥ (z ∘ Equiv.swap a b) := by
  funext i
  change ∑ j, M i (Equiv.swap a b j) * z j = ∑ j, M i j * z (Equiv.swap a b j)
  exact Fintype.sum_equiv (Equiv.swap a b) _ _ fun j => by simp

end Exchange
