import Mathlib
import Rhex.Gf256
import Rhex.Lib.Exchange

/-!
# In-place matrix inversion (`invert_mat`)

`invert_mat` inverts a `k × k` byte matrix in place by Gauss–Jordan elimination with full
pivoting: it takes the diagonal entry if it can, scans for another pivot if it cannot, and undoes
the row swaps as column swaps at the end.

* `invertMat` — the function as `fec.c` computes it; `none` is its nonzero return.
* `invertMat_spec` — on an injective matrix it never fails, and its result undoes the matrix.
* `invertMat_inverse` — it fails on the singular matrices only, and its result is the inverse.
-/

namespace Rhex

open Exchange Matrix

/-- A `k × k` matrix of bytes. -/
abbrev Mat (k : Nat) := Fin k → Fin k → UInt8

/-! ## The pivot search -/

/-- How the scan for a pivot leaves its loops. -/
inductive PivotSearch (k : Nat) where
  | foundPiv (irow icol : Fin k)
  | singular

variable {k : Nat}

/-- The scan over the unused rows and columns. -/
def scanPivot (src : Mat k) (ipiv : Fin k → Nat) : Option (PivotSearch k) :=
  (List.finRange k).findSome? fun row =>
    if ipiv row ≠ 1 then
      (List.finRange k).findSome? fun ix =>
        if ipiv ix = 0 then
          if src row ix ≠ 0 then some (.foundPiv row ix) else none
        else if ipiv ix > 1 then some .singular
        else none
    else none

/-- The pivot for column `col`: the diagonal entry if it is usable, else the first of the scan. -/
def findPivot (src : Mat k) (ipiv : Fin k → Nat) (col : Fin k) : Option (Fin k × Fin k) :=
  if ipiv col ≠ 1 ∧ src col col ≠ 0 then some (col, col)
  else
    match scanPivot src ipiv with
    | some (.foundPiv irow icol) => some (irow, icol)
    | some .singular => none
    | none => none

/-! ## The elimination -/

/-- `SWAP` along two rows. -/
def swapRows (src : Mat k) (a b : Fin k) : Mat k := fun i => src (Equiv.swap a b i)

/-- `SWAP` along two columns. -/
def swapCols (src : Mat k) (a b : Fin k) : Mat k := fun i j => src i (Equiv.swap a b j)

/-- Divide the pivot row by the pivot, with a one in the pivot's place. -/
def scalePivotRow (src : Mat k) (icol : Fin k) (c : UInt8) : Mat k :=
  let pivotRow := Function.update (src icol) icol 1
  Function.update src icol fun ix => gfMul (gfInverse c.toNat) (pivotRow ix)

/-- `id_row`: the unit row that `invert_mat` compares the pivot row with. -/
def idRow (icol : Fin k) : Fin k → UInt8 := Function.update (fun _ => 0) icol 1

/-- Remove multiples of the pivot row from the other rows. -/
def eliminate (src : Mat k) (icol : Fin k) : Mat k := fun ix =>
  if ix ≠ icol then
    let c := src ix icol
    let p := Function.update (src ix) icol 0
    fun j => if c ≠ 0 then p j ^^^ gfMul c (src icol j) else p j
  else src ix

/-- The local variables of `invert_mat` between two columns. -/
structure InvertState (k : Nat) where
  src : Mat k
  ipiv : Fin k → Nat
  /-- The pairs `(indxr[col], indxc[col])`, for the columns done so far. -/
  indx : List (Fin k × Fin k)

/-- One round of the column loop of `invert_mat`. -/
def invertCol (s : InvertState k) (col : Fin k) : Option (InvertState k) := do
  let (irow, icol) ← findPivot s.src s.ipiv col
  let ipiv := Function.update s.ipiv icol (s.ipiv icol + 1)
  let src := if irow ≠ icol then swapRows s.src irow icol else s.src
  let c := src icol icol
  if c = 0 then none
  else
    let src := if c ≠ 1 then scalePivotRow src icol c else src
    let src := if src icol ≠ idRow icol then eliminate src icol else src
    some { src, ipiv, indx := s.indx ++ [(irow, icol)] }

/-- The last loop of `invert_mat`, from the last column back. -/
def unscramble (src : Mat k) (indx : List (Fin k × Fin k)) : Mat k :=
  indx.reverse.foldl (fun src rc => if rc.1 ≠ rc.2 then swapCols src rc.1 rc.2 else src) src

/-- `invert_mat(src, k)`. -/
def invertMat (src : Mat k) : Option (Mat k) := do
  let s ← (List.finRange k).foldlM invertCol ⟨src, fun _ => 0, []⟩
  some (unscramble s.src s.indx)

/-! ## The matrix over the field -/

/-- The byte matrix as a matrix over the field. -/
def Mat.toGf (src : Mat k) : Matrix (Fin k) (Fin k) Gf := fun i j => ⟨src i j⟩

theorem swapRows_self (src : Mat k) (a : Fin k) : swapRows src a a = src := by
  funext i
  simp [swapRows]

theorem swapCols_self (src : Mat k) (a : Fin k) : swapCols src a a = src := by
  funext i j
  simp [swapCols]

theorem scalePivotRow_self (src : Mat k) (p : Fin k) (c : UInt8) (j : Fin k) :
    scalePivotRow src p c p j =
      gfMul (gfInverse c.toNat) (if j = p then 1 else src p j) := by
  simp [scalePivotRow, Function.update_apply]

theorem scalePivotRow_of_ne {src : Mat k} {p i : Fin k} (hi : i ≠ p) (c : UInt8) :
    scalePivotRow src p c i = src i := by
  simp [scalePivotRow, hi]

theorem eliminate_self (src : Mat k) (p : Fin k) : eliminate src p p = src p := by
  simp [eliminate]

theorem eliminate_of_ne {src : Mat k} {p i : Fin k} (hi : i ≠ p) (j : Fin k) :
    eliminate src p i j =
      (if j = p then 0 else src i j) ^^^ gfMul (src i p) (src p j) := by
  rw [eliminate, if_pos hi]
  simp only [xor_gfMul_of_ne, Function.update_apply]

theorem scalePivotRow_one {src : Mat k} {p : Fin k} (h : src p p = 1) :
    scalePivotRow src p 1 = src := by
  funext i j
  by_cases hi : i = p
  · subst hi
    rw [scalePivotRow_self, UInt8.toNat_one, gfInverse_one, gfMul_one_left]
    by_cases hj : j = i
    · subst hj; simp [h]
    · simp [hj]
  · rw [scalePivotRow_of_ne hi]

theorem eliminate_idRow {src : Mat k} {p : Fin k} (h : src p = idRow p) :
    eliminate src p = src := by
  funext i j
  by_cases hi : i = p
  · rw [hi, eliminate_self]
  · rw [eliminate_of_ne hi, h, idRow]
    by_cases hj : j = p
    · subst hj; simp
    · simp [hj]

/-- The division and the elimination are the pivot step of the exchange. -/
theorem eliminate_scalePivotRow (src : Mat k) (p : Fin k) :
    (eliminate (scalePivotRow src p (src p p)) p).toGf = Exchange.pivot p src.toGf := by
  funext i j
  apply Gf.ext
  by_cases hi : i = p
  · subst hi
    simp only [Mat.toGf, Exchange.pivot, eliminate_self, scalePivotRow_self]
    by_cases hj : j = i
    · subst hj; simp
    · simp [hj]
  · simp only [Mat.toGf, Exchange.pivot, eliminate_of_ne hi, scalePivotRow_of_ne hi,
      scalePivotRow_self, Gf.sub_eq_add]
    by_cases hj : j = p
    · subst hj; simp [hi]
    · simp [hi, hj]

/-! ## The invariant of the column loop -/

/-- The row permutation that the recorded swaps amount to. -/
def swaps (indx : List (Fin k × Fin k)) : Equiv.Perm (Fin k) :=
  (indx.map fun rc => Equiv.swap rc.1 rc.2).prod

/-- After some columns: the variables of `S` are exchanged, `ipiv` marks them, and the rows are
permuted by the recorded swaps. -/
structure Inverted (A : Matrix (Fin k) (Fin k) Gf) (S : Finset (Fin k)) (s : InvertState k) :
    Prop where
  tableau : Tableau A S (swaps s.indx) s.src.toGf
  ipiv : ∀ i, s.ipiv i = if i ∈ S then 1 else 0

theorem toGf_ne_zero {src : Mat k} {i j : Fin k} : src.toGf i j ≠ 0 ↔ src i j ≠ 0 :=
  not_congr ⟨fun h => congrArg Gf.byte h, fun h => Gf.ext h⟩

/-- The scan finds an unused row and column with a nonzero entry, if there is one. -/
theorem scanPivot_spec {src : Mat k} {ipiv : Fin k → Nat} {S : Finset (Fin k)}
    (hipiv : ∀ i, ipiv i = if i ∈ S then 1 else 0)
    (hex : ∃ i ∉ S, ∃ j ∉ S, src i j ≠ 0) :
    ∃ irow ∉ S, ∃ icol ∉ S,
      scanPivot src ipiv = some (.foundPiv irow icol) ∧ src irow icol ≠ 0 := by
  obtain ⟨i, hi, j, hj, hne⟩ := hex
  have hrow : ((List.finRange k).findSome? fun ix =>
      if ipiv ix = 0 then
        if src i ix ≠ 0 then some (PivotSearch.foundPiv i ix) else none
      else if ipiv ix > 1 then some .singular
      else none).isSome := by
    rw [List.findSome?_isSome_iff]
    exact ⟨j, List.mem_finRange j, by simp [hipiv, hj, hne]⟩
  have hscan : (scanPivot src ipiv).isSome := by
    rw [scanPivot, List.findSome?_isSome_iff]
    refine ⟨i, List.mem_finRange i, ?_⟩
    rw [if_pos (by simp [hipiv, hi])]
    exact hrow
  obtain ⟨r, hr⟩ := Option.isSome_iff_exists.mp hscan
  obtain ⟨row, -, hrow'⟩ := List.exists_of_findSome?_eq_some hr
  by_cases hrS : row ∈ S
  · simp [hipiv, hrS] at hrow'
  rw [if_pos (by simp [hipiv, hrS])] at hrow'
  obtain ⟨ix, -, hix⟩ := List.exists_of_findSome?_eq_some hrow'
  by_cases hixS : ix ∈ S
  · simp [hipiv, hixS] at hix
  by_cases hentry : src row ix = 0
  · simp [hipiv, hixS, hentry] at hix
  · simp only [hipiv, hixS, if_false, if_true, ne_eq, hentry, not_false_eq_true,
      Option.some.injEq] at hix
    exact ⟨row, hrS, ix, hixS, hix ▸ hr, hentry⟩

theorem findPivot_spec {src : Mat k} {ipiv : Fin k → Nat} {S : Finset (Fin k)}
    (hipiv : ∀ i, ipiv i = if i ∈ S then 1 else 0)
    (hex : ∃ i ∉ S, ∃ j ∉ S, src i j ≠ 0) (col : Fin k) :
    ∃ irow ∉ S, ∃ icol ∉ S,
      findPivot src ipiv col = some (irow, icol) ∧ src irow icol ≠ 0 := by
  by_cases hdiag : ipiv col ≠ 1 ∧ src col col ≠ 0
  · have hcol : col ∉ S := fun h => hdiag.1 (by simp [hipiv, h])
    exact ⟨col, hcol, col, hcol, if_pos hdiag, hdiag.2⟩
  · obtain ⟨irow, hr, icol, hc, hscan, hne⟩ := scanPivot_spec hipiv hex
    exact ⟨irow, hr, icol, hc, by rw [findPivot, if_neg hdiag, hscan], hne⟩

/-- A column with a nonzero pivot in an unused row and column: the pivot's variable joins the
exchanged ones. -/
theorem invertCol_pivot {A : Matrix (Fin k) (Fin k) Gf} {S : Finset (Fin k)} {s : InvertState k}
    (hs : Inverted A S s) {col irow icol : Fin k} (hr : irow ∉ S) (hc : icol ∉ S)
    (hfind : findPivot s.src s.ipiv col = some (irow, icol)) (hne : s.src irow icol ≠ 0) :
    ∃ s', invertCol s col = some s' ∧ Inverted A (insert icol S) s' := by
  -- The swap brings the pivot to the diagonal.
  set src := swapRows s.src irow icol with hsrc
  have hswap : (if irow ≠ icol then swapRows s.src irow icol else s.src) = src := by
    by_cases h : irow = icol
    · rw [hsrc, h, swapRows_self]; simp
    · simp [h, hsrc]
  have hpiv : src icol icol = s.src irow icol := by simp [hsrc, swapRows]
  have hscale : (if src icol icol ≠ 1 then scalePivotRow src icol (src icol icol) else src) =
      scalePivotRow src icol (src icol icol) := by
    by_cases h : src icol icol = 1
    · rw [h, scalePivotRow_one h]; simp
    · simp [h]
  have helim : ∀ m : Mat k,
      (if m icol ≠ idRow icol then eliminate m icol else m) = eliminate m icol := by
    intro m
    by_cases h : m icol = idRow icol
    · rw [eliminate_idRow h]; simp
    · simp [h]
  refine ⟨⟨eliminate (scalePivotRow src icol (src icol icol)) icol,
    Function.update s.ipiv icol (s.ipiv icol + 1), s.indx ++ [(irow, icol)]⟩, ?_, ?_, ?_⟩
  · simp only [invertCol, hfind, Option.bind_eq_bind, Option.bind_some, hswap, hscale, helim]
    rw [if_neg (by rw [hpiv]; exact hne)]
  · have htab := hs.tableau.swap hr hc
    have hpiv' : src.toGf icol icol ≠ 0 := toGf_ne_zero.mpr (by rw [hpiv]; exact hne)
    have := Tableau.pivot (M := src.toGf) htab hc hpiv'
    rw [eliminate_scalePivotRow]
    simpa [swaps] using this
  · intro x
    by_cases hx : x = icol
    · subst hx; simp [hs.ipiv, hc]
    · simp [hx, hs.ipiv]

/-- **One column.** The pivot's variable joins the exchanged ones. -/
theorem invertCol_spec {A : Matrix (Fin k) (Fin k) Gf} (hA : ∀ x, A *ᵥ x = 0 → x = 0)
    {S : Finset (Fin k)} {s : InvertState k} (hs : Inverted A S s) (hS : S.card < k)
    (col : Fin k) :
    ∃ s' p, invertCol s col = some s' ∧ p ∉ S ∧ Inverted A (insert p S) s' := by
  obtain ⟨j, hj⟩ : ∃ j, j ∉ S := by
    by_contra hall
    push Not at hall
    rw [Finset.eq_univ_iff_forall.mpr hall, Finset.card_fin] at hS
    exact lt_irrefl k hS
  obtain ⟨i, hi, hij⟩ := hs.tableau.exists_pivot hA hj
  obtain ⟨irow, hr, icol, hc, hfind, hne⟩ :=
    findPivot_spec hs.ipiv ⟨i, hi, j, hj, toGf_ne_zero.mp hij⟩ col
  obtain ⟨s', hrun, hs'⟩ := invertCol_pivot hs hr hc hfind hne
  exact ⟨s', icol, hrun, hc, hs'⟩

/-- All columns: as many variables are exchanged as columns were done. -/
theorem invertCols_spec {A : Matrix (Fin k) (Fin k) Gf} (hA : ∀ x, A *ᵥ x = 0 → x = 0)
    (cols : List (Fin k)) {S : Finset (Fin k)} {s : InvertState k} (hs : Inverted A S s)
    (hlen : S.card + cols.length ≤ k) :
    ∃ s' S', cols.foldlM invertCol s = some s' ∧ S'.card = S.card + cols.length ∧
      Inverted A S' s' := by
  induction cols generalizing S s with
  | nil => exact ⟨s, S, rfl, rfl, hs⟩
  | cons col cols ih =>
    rw [List.length_cons] at hlen
    obtain ⟨s₁, p, hrun, hp, hs₁⟩ := invertCol_spec hA hs (by omega) col
    have hcard : (insert p S).card = S.card + 1 := Finset.card_insert_of_notMem hp
    obtain ⟨s', S', hrest, hcard', hs'⟩ := ih hs₁ (by omega)
    refine ⟨s', S', ?_, ?_, hs'⟩
    · rw [List.foldlM_cons, hrun]
      exact hrest
    · rw [hcard', hcard, List.length_cons]
      omega

/-- Swapping the columns back reads the inputs through the row permutation. -/
theorem unscramble_mulVec (indx : List (Fin k × Fin k)) (src : Mat k) (z : Fin k → Gf) :
    (unscramble src indx).toGf *ᵥ z = src.toGf *ᵥ (z ∘ swaps indx) := by
  have hstep : ∀ (m : Mat k) (rc : Fin k × Fin k),
      (if rc.1 ≠ rc.2 then swapCols m rc.1 rc.2 else m) = swapCols m rc.1 rc.2 := by
    intro m rc
    by_cases h : rc.1 = rc.2
    · rw [h, swapCols_self]; simp
    · simp [h]
  induction indx using List.reverseRecOn generalizing src z with
  | nil => rfl
  | append_singleton indx rc ih =>
    have hcols := mulVec_swap_cols src.toGf rc.1 rc.2 (z ∘ swaps indx)
    rw [unscramble, List.reverse_append]
    change (unscramble (if rc.1 ≠ rc.2 then swapCols src rc.1 rc.2 else src) indx).toGf *ᵥ z = _
    rw [hstep, ih]
    apply Eq.trans hcols
    simp [swaps, Function.comp_assoc]

/-- **`invert_mat` inverts.** On an injective matrix it never fails, and its result undoes the
matrix. -/
theorem invertMat_spec {src : Mat k} (hA : ∀ x, src.toGf *ᵥ x = 0 → x = 0) :
    ∃ inv, invertMat src = some inv ∧ ∀ x, inv.toGf *ᵥ (src.toGf *ᵥ x) = x := by
  have hinit : Inverted src.toGf ∅ ⟨src, fun _ => 0, []⟩ :=
    ⟨tableau_init src.toGf, fun i => by simp⟩
  obtain ⟨s, S, hrun, hcard, hs⟩ :=
    invertCols_spec hA (List.finRange k) hinit (by simp)
  rw [List.length_finRange, Finset.card_empty, Nat.zero_add] at hcard
  have hS : S = Finset.univ := (Finset.card_eq_iff_eq_univ S).mp (by simp [hcard])
  subst hS
  refine ⟨unscramble s.src s.indx, ?_, ?_⟩
  · rw [invertMat, hrun]
    rfl
  · intro x
    rw [unscramble_mulVec]
    exact hs.tableau.mulVec_univ x

/-! ## Singular matrices -/

/-- A pivot that is found is a nonzero entry of an unused row and column. -/
theorem findPivot_sound {src : Mat k} {ipiv : Fin k → Nat} {S : Finset (Fin k)}
    (hipiv : ∀ i, ipiv i = if i ∈ S then 1 else 0) {col irow icol : Fin k}
    (h : findPivot src ipiv col = some (irow, icol)) :
    irow ∉ S ∧ icol ∉ S ∧ src irow icol ≠ 0 := by
  rw [findPivot] at h
  split at h
  · rename_i hdiag
    obtain ⟨rfl, rfl⟩ := Prod.mk.inj (Option.some.inj h)
    have hcol : col ∉ S := fun hmem => hdiag.1 (by simp [hipiv, hmem])
    exact ⟨hcol, hcol, hdiag.2⟩
  · split at h
    · rename_i row ix hscan
      obtain ⟨rfl, rfl⟩ := Prod.mk.inj (Option.some.inj h)
      obtain ⟨row', -, hrow⟩ := List.exists_of_findSome?_eq_some hscan
      by_cases hrS : row' ∈ S
      · simp [hipiv, hrS] at hrow
      rw [if_pos (by simp [hipiv, hrS])] at hrow
      obtain ⟨ix', -, hix⟩ := List.exists_of_findSome?_eq_some hrow
      by_cases hixS : ix' ∈ S
      · simp [hipiv, hixS] at hix
      rw [if_pos (by simp [hipiv, hixS])] at hix
      split at hix
      · rename_i hne
        obtain ⟨rfl, rfl⟩ := PivotSearch.foundPiv.inj (Option.some.inj hix)
        exact ⟨hrS, hixS, hne⟩
      · cases hix
    · cases h
    · cases h

/-- Columns that do not fail, on any matrix. -/
theorem invertCols_sound {A : Matrix (Fin k) (Fin k) Gf} {cols : List (Fin k)}
    {S : Finset (Fin k)} {s s' : InvertState k} (hs : Inverted A S s)
    (h : cols.foldlM invertCol s = some s') :
    ∃ S' : Finset (Fin k), S'.card = S.card + cols.length ∧ Inverted A S' s' := by
  induction cols generalizing S s with
  | nil => exact ⟨S, rfl, Option.some.inj h ▸ hs⟩
  | cons col cols ih =>
    rw [List.foldlM_cons] at h
    obtain ⟨t, ht, hrest⟩ := Option.bind_eq_some_iff.mp h
    have hfound : ∃ piv, findPivot s.src s.ipiv col = some piv := by
      rw [invertCol] at ht
      obtain ⟨piv, hpiv, -⟩ := Option.bind_eq_some_iff.mp ht
      exact ⟨piv, hpiv⟩
    obtain ⟨⟨irow, icol⟩, hfind⟩ := hfound
    obtain ⟨hr, hc, hne⟩ := findPivot_sound hs.ipiv hfind
    obtain ⟨t', ht', hinv⟩ := invertCol_pivot hs hr hc hfind hne
    obtain rfl := Option.some.inj (ht.symm.trans ht')
    obtain ⟨S', hcard, hs'⟩ := ih hinv hrest
    refine ⟨S', ?_, hs'⟩
    rw [hcard, Finset.card_insert_of_notMem hc, List.length_cons]
    omega

/-- **For matrices of every size, `invert_mat` returns nonzero exactly when the matrix is singular,
and leaves the inverse matrix otherwise.** -/
theorem invertMat_inverse (src : Mat k) :
    ((invertMat src).isSome ↔ IsUnit src.toGf) ∧
      ∀ inv, invertMat src = some inv → inv.toGf * src.toGf = 1 ∧ src.toGf * inv.toGf = 1 := by
  have hinverse : ∀ inv, invertMat src = some inv → inv.toGf * src.toGf = 1 := by
    intro inv hinv
    rw [invertMat] at hinv
    obtain ⟨s, hrun, hinv⟩ := Option.bind_eq_some_iff.mp hinv
    obtain rfl := Option.some.inj hinv
    have hinit : Inverted src.toGf ∅ ⟨src, fun _ => 0, []⟩ :=
      ⟨tableau_init src.toGf, fun i => by simp⟩
    obtain ⟨S, hcard, hs⟩ := invertCols_sound hinit hrun
    rw [List.length_finRange, Finset.card_empty, Nat.zero_add] at hcard
    obtain rfl : S = Finset.univ := (Finset.card_eq_iff_eq_univ S).mp (by simp [hcard])
    apply Matrix.ext_of_mulVec_single
    intro i
    rw [← Matrix.mulVec_mulVec, unscramble_mulVec, Matrix.one_mulVec]
    exact hs.tableau.mulVec_univ _
  refine ⟨⟨fun h => ?_, fun h => ?_⟩, fun inv hinv =>
    ⟨hinverse inv hinv, mul_eq_one_comm.mp (hinverse inv hinv)⟩⟩
  · obtain ⟨inv, hinv⟩ := Option.isSome_iff_exists.mp h
    exact isUnit_iff_exists.mpr
      ⟨inv.toGf, mul_eq_one_comm.mp (hinverse inv hinv), hinverse inv hinv⟩
  · have hA : ∀ x, src.toGf *ᵥ x = 0 → x = 0 := fun x hx =>
      Matrix.mulVec_injective_of_isUnit h (hx.trans (Matrix.mulVec_zero _).symm)
    obtain ⟨inv, hinv, -⟩ := invertMat_spec hA
    rw [hinv]
    rfl

end Rhex
