import Mathlib
import Rhex.InvertMat
import Rhex.Lib.Cauchy
import Rhex.Lib.Memory

/-!
# The erasure code (`fec_encode`, `fec_decode`)

`fec_encode` computes parity blocks whose coefficients are the entries of a Cauchy matrix, read
straight from the table of inverses. `fec_decode` subtracts the received data blocks from the
received parity blocks (`reduce`), inverts the matrix of what is left and multiplies (`resolve`).

* `fecEncode`, `fecDecode` — the functions as `fec.c` computes them, on blocks as buffers; a
  failed assertion is `none`.
* `Erasure` — which blocks a call of `fec_decode` is to repair, and from which parity blocks.
* `fecDecode_spec` — the erased blocks come back on the first `blockSize` bytes, and nothing
  else of the data blocks changes.
* `fec_recovers` — encoding, losing any blocks and decoding.
-/

namespace Rhex

open Memory Matrix

/-! ## Block arithmetic -/

/-- `addmul(dst, src, c, sz)`. -/
def addmul (dst src : Buf) (c : UInt8) (sz : Nat) : Buf :=
  if c ≠ 0 then fun p => if p < sz then dst p ^^^ gfMul c (src p) else dst p else dst

/-- `mul(dst, src, c, sz)`. -/
def mul (dst src : Buf) (c : UInt8) (sz : Nat) : Buf :=
  if c ≠ 0 then fun p => if p < sz then gfMul c (src p) else dst p
  else fun p => if p < sz then 0 else dst p

theorem addmul_apply (dst src : Buf) (c : UInt8) {sz p : Nat} (h : p < sz) :
    addmul dst src c sz p = dst p ^^^ gfMul c (src p) := by
  by_cases hc : c = 0
  · simp [addmul, hc]
  · simp [addmul, hc, h]

theorem addmul_of_ge (dst src : Buf) (c : UInt8) {sz p : Nat} (h : sz ≤ p) :
    addmul dst src c sz p = dst p := by
  by_cases hc : c = 0
  · simp [addmul, hc]
  · simp [addmul, hc, Nat.not_lt.mpr h]

theorem mul_apply (dst src : Buf) (c : UInt8) {sz p : Nat} (h : p < sz) :
    mul dst src c sz p = gfMul c (src p) := by
  by_cases hc : c = 0
  · simp [mul, hc, h]
  · simp [mul, hc, h]

theorem mul_of_ge (dst src : Buf) (c : UInt8) {sz p : Nat} (h : sz ≤ p) :
    mul dst src c sz p = dst p := by
  by_cases hc : c = 0
  · simp [mul, hc, Nat.not_lt.mpr h]
  · simp [mul, hc, Nat.not_lt.mpr h]

/-! ## Encoding -/

/-- The block loop of `fec_encode`: every parity block takes in data block `blockNo`. -/
def encodeBlock (blockSize : Nat) (dataBlocks : Nat → Buf) (nrFecBlocks : Nat)
    (fecBlocks : Nat → Buf) (blockNo : Nat) : Nat → Buf :=
  let col := 128 + blockNo
  fun row =>
    if row < nrFecBlocks then
      addmul (fecBlocks row) (dataBlocks blockNo) (gfInverse (row ^^^ col)) blockSize
    else fecBlocks row

/-- `fec_encode`. Its assertions on the two counts are `none`. -/
def fecEncode (blockSize : Nat) (dataBlocks : Nat → Buf) (nrDataBlocks : Nat)
    (fecBlocks : Nat → Buf) (nrFecBlocks : Nat) : Option (Nat → Buf) :=
  if nrDataBlocks ≤ 128 ∧ nrFecBlocks ≤ 128 then
    if nrDataBlocks = 0 then some fecBlocks
    else
      let fecBlocks := fun row =>
        if row < nrFecBlocks then
          mul (fecBlocks row) (dataBlocks 0) (gfInverse (128 ^^^ row)) blockSize
        else fecBlocks row
      some ((List.range' 1 (nrDataBlocks - 1)).foldl
        (encodeBlock blockSize dataBlocks nrFecBlocks) fecBlocks)
  else none

/-! ## Decoding -/

/-- The variables of the loop of `reduce`. -/
structure ReduceState where
  erasedIdx : Nat
  fecBlocks : Nat → Buf

/-- One column of `reduce`: skip an erased block, subtract a received one. -/
def reduceCol (blockSize : Nat) (dataBlocks : Nat → Buf) (fecBlockNos erasedBlocks : Nat → Nat)
    (nrFecBlocks : Nat) (s : ReduceState) (col : Nat) : ReduceState :=
  if s.erasedIdx < nrFecBlocks ∧ erasedBlocks s.erasedIdx = col then
    { s with erasedIdx := s.erasedIdx + 1 }
  else
    { s with
      fecBlocks := fun j =>
        if j < nrFecBlocks then
          addmul (s.fecBlocks j) (dataBlocks col) (gfInverse (fecBlockNos j ^^^ col ^^^ 128))
            blockSize
        else s.fecBlocks j }

/-- `reduce`, with its closing assertion. -/
def reduce (blockSize : Nat) (dataBlocks : Nat → Buf) (nrDataBlocks : Nat)
    (fecBlocks : Nat → Buf) (fecBlockNos erasedBlocks : Nat → Nat) (nrFecBlocks : Nat) :
    Option (Nat → Buf) :=
  let s := (List.range nrDataBlocks).foldl
    (reduceCol blockSize dataBlocks fecBlockNos erasedBlocks nrFecBlocks) ⟨0, fecBlocks⟩
  if nrFecBlocks = s.erasedIdx then some s.fecBlocks else none

/-- The "mini" encoding matrix of `resolve`. -/
def resolveMatrix (fecBlockNos erasedBlocks : Nat → Nat) (nrFecBlocks : Nat) : Mat nrFecBlocks :=
  fun row col => gfInverse ((128 + fecBlockNos row) ^^^ erasedBlocks col)

/-- One row of the final multiplication of `resolve`. -/
def resolveRow (blockSize : Nat) {nrFecBlocks : Nat} (target : Buf) (fecBlocks : Nat → Buf)
    (matrixRow : Fin nrFecBlocks → UInt8) : Buf :=
  match List.finRange nrFecBlocks with
  | [] => target
  | col₀ :: cols =>
    cols.foldl (fun target (col : Fin nrFecBlocks) =>
        addmul target (fecBlocks col) (matrixRow col) blockSize)
      (mul target (fecBlocks col₀) (matrixRow col₀) blockSize)

/-- `resolve`. A failed inversion is its `assert(0)`. -/
def resolve (blockSize : Nat) (dataBlocks : Nat → Buf) (fecBlocks : Nat → Buf)
    (fecBlockNos erasedBlocks : Nat → Nat) (nrFecBlocks : Nat) : Option (Nat → Buf) := do
  let matrix ← invertMat (resolveMatrix fecBlockNos erasedBlocks nrFecBlocks)
  some ((List.finRange nrFecBlocks).foldl (fun dataBlocks (row : Fin nrFecBlocks) =>
    Function.update dataBlocks (erasedBlocks row)
      (resolveRow blockSize (dataBlocks (erasedBlocks row)) fecBlocks (matrix row))) dataBlocks)

/-- `fec_decode`: the repaired data blocks, and the parity blocks it has worked on. -/
def fecDecode (blockSize : Nat) (dataBlocks : Nat → Buf) (nrDataBlocks : Nat)
    (fecBlocks : Nat → Buf) (fecBlockNos erasedBlocks : Nat → Nat) (nrFecBlocks : Nat) :
    Option ((Nat → Buf) × (Nat → Buf)) := do
  let fecBlocks ←
    reduce blockSize dataBlocks nrDataBlocks fecBlocks fecBlockNos erasedBlocks nrFecBlocks
  let dataBlocks ← resolve blockSize dataBlocks fecBlocks fecBlockNos erasedBlocks nrFecBlocks
  some (dataBlocks, fecBlocks)

/-! ## The coefficients -/

/-- A small number as an element of the field. -/
def Gf.ofNat (n : Nat) : Gf := ⟨.ofNat n⟩

/-- The coefficient of data block `col` in parity block `row`. -/
def coeff (row col : Nat) : Gf := (Gf.ofNat (128 ^^^ row) - Gf.ofNat col)⁻¹

theorem xor_128 {n : Nat} (h : n < 128) : 128 ^^^ n = 128 + n := by
  have : ∀ n < 128, 128 ^^^ n = 128 + n := by decide +kernel
  exact this n h

theorem Gf.ofNat_sub (m n : Nat) : Gf.ofNat m - Gf.ofNat n = Gf.ofNat (m ^^^ n) := by
  apply Gf.ext
  simp [Gf.ofNat, Gf.sub_eq_add]

theorem Gf.ofNat_injOn {m n : Nat} (hm : m < 256) (hn : n < 256)
    (h : Gf.ofNat m = Gf.ofNat n) : m = n := by
  have := congrArg (fun g => g.byte.toNat) h
  simp only [Gf.ofNat, UInt8.toNat_ofNat'] at this
  omega

theorem byte_coeff {row col : Nat} (hrow : row < 128) (hcol : col < 128) :
    (coeff row col).byte = gfInverse (128 ^^^ row ^^^ col) := by
  have hlt : 128 ^^^ row ^^^ col < 2 ^ 8 :=
    Nat.xor_lt_two_pow (Nat.xor_lt_two_pow (by omega) (by omega)) (by omega)
  rw [coeff, Gf.ofNat_sub, Gf.byte_inv, Gf.ofNat, UInt8.toNat_ofNat', Nat.mod_eq_of_lt hlt]

theorem gfInverse_encode {row col : Nat} (hrow : row < 128) (hcol : col < 128) :
    gfInverse (row ^^^ (128 + col)) = (coeff row col).byte := by
  rw [byte_coeff hrow hcol, ← xor_128 hcol, ← Nat.xor_assoc, Nat.xor_comm row 128]

theorem gfInverse_reduce {row col : Nat} (hrow : row < 128) (hcol : col < 128) :
    gfInverse (row ^^^ col ^^^ 128) = (coeff row col).byte := by
  rw [byte_coeff hrow hcol, Nat.xor_comm _ 128, Nat.xor_assoc]

theorem gfInverse_resolve {row col : Nat} (hrow : row < 128) (hcol : col < 128) :
    gfInverse ((128 + row) ^^^ col) = (coeff row col).byte := by
  rw [byte_coeff hrow hcol, xor_128 hrow]

/-- The bytes at one offset, as elements of the field. -/
def gfAt (b : Buf) (p : Nat) : Gf := ⟨b p⟩

theorem gfAt_addmul (dst src : Buf) (c : Gf) {sz p : Nat} (h : p < sz) :
    gfAt (addmul dst src c.byte sz) p = gfAt dst p + c * gfAt src p :=
  Gf.ext (addmul_apply dst src c.byte h)

theorem gfAt_mul (dst src : Buf) (c : Gf) {sz p : Nat} (h : p < sz) :
    gfAt (mul dst src c.byte sz) p = c * gfAt src p :=
  Gf.ext (mul_apply dst src c.byte h)

/-- A parity word: the combination of the data blocks at one offset. -/
def parity (nrDataBlocks : Nat) (dataBlocks : Nat → Buf) (row p : Nat) : Gf :=
  ∑ i ∈ Finset.range nrDataBlocks, coeff row i * gfAt (dataBlocks i) p

/-! ## What encoding computes -/

/-- The block loop, after `m` more data blocks. -/
theorem encodeBlocks_spec (blockSize : Nat) (dataBlocks : Nat → Buf) {nrFecBlocks : Nat}
    (fecBlocks : Nat → Buf) (hfec : nrFecBlocks ≤ 128) {m : Nat} (hm : m + 1 ≤ 128)
    (hfirst : ∀ row < nrFecBlocks, ∀ p < blockSize,
      gfAt (fecBlocks row) p = parity 1 dataBlocks row p) :
    ∀ row < nrFecBlocks, ∀ p < blockSize,
      gfAt ((List.range' 1 m).foldl (encodeBlock blockSize dataBlocks nrFecBlocks) fecBlocks row)
        p = parity (m + 1) dataBlocks row p := by
  induction m with
  | zero => exact hfirst
  | succ m ih =>
    intro row hrow p hp
    rw [List.range'_concat, List.foldl_append, Nat.one_mul, Nat.add_comm 1 m]
    simp only [List.foldl_cons, List.foldl_nil, encodeBlock, if_pos hrow]
    rw [gfInverse_encode (by omega) (by omega), gfAt_addmul _ _ _ hp,
      ih (by omega) row hrow p hp, parity, parity, Finset.sum_range_succ _ (m + 1)]

/-- The block loop leaves what is behind the blocks and behind the block size. -/
theorem encodeBlocks_frame {blockSize nrFecBlocks : Nat} {dataBlocks : Nat → Buf}
    (blockNos : List Nat) (fecBlocks : Nat → Buf) {row p : Nat}
    (h : nrFecBlocks ≤ row ∨ blockSize ≤ p) :
    blockNos.foldl (encodeBlock blockSize dataBlocks nrFecBlocks) fecBlocks row p =
      fecBlocks row p := by
  induction blockNos generalizing fecBlocks with
  | nil => rfl
  | cons blockNo blockNos ih =>
    rw [List.foldl_cons, ih]
    simp only [encodeBlock]
    by_cases hrow : row < nrFecBlocks
    · rw [if_pos hrow, addmul_of_ge _ _ _ (by omega)]
    · rw [if_neg hrow]

/-- **Encoding.** The first bytes of every parity block become the parity words; what lies
behind the block size, and behind the last block, is left alone. -/
theorem fecEncode_spec (blockSize nrDataBlocks nrFecBlocks : Nat) (dataBlocks : Nat → Buf)
    (fecBlocks : Nat → Buf) (hpos : 0 < nrDataBlocks) (hdata : nrDataBlocks ≤ 128)
    (hfec : nrFecBlocks ≤ 128) :
    ∃ fec', fecEncode blockSize dataBlocks nrDataBlocks fecBlocks nrFecBlocks = some fec' ∧
      (∀ row < nrFecBlocks, ∀ p < blockSize,
        gfAt (fec' row) p = parity nrDataBlocks dataBlocks row p) ∧
      ∀ row p, nrFecBlocks ≤ row ∨ blockSize ≤ p → fec' row p = fecBlocks row p := by
  refine ⟨_, by rw [fecEncode, if_pos ⟨hdata, hfec⟩, if_neg (by omega)], ?_, ?_⟩
  · have := encodeBlocks_spec blockSize dataBlocks (fun row =>
        if row < nrFecBlocks then
          mul (fecBlocks row) (dataBlocks 0) (gfInverse (128 ^^^ row)) blockSize
        else fecBlocks row) hfec (show nrDataBlocks - 1 + 1 ≤ 128 by omega) ?_
    · rwa [Nat.sub_add_cancel hpos] at this
    · intro row hrow p hp
      have hcoeff : gfInverse (128 ^^^ row) = (coeff row 0).byte := by
        rw [byte_coeff (by omega) (by omega), Nat.xor_zero]
      simp only [if_pos hrow, hcoeff, gfAt_mul _ _ _ hp, parity, Finset.sum_range_one]
  · intro row p h
    rw [encodeBlocks_frame _ _ h]
    by_cases hrow : row < nrFecBlocks
    · rw [if_pos hrow, mul_of_ge _ _ _ (by omega)]
    · rw [if_neg hrow]

/-! ## What decoding recovers -/

/-- The erased data blocks in increasing order, and as many distinct parity blocks. -/
structure Erasure (nrDataBlocks nrFecBlocks : Nat) (fecBlockNos erasedBlocks : Nat → Nat) :
    Prop where
  data_le : nrDataBlocks ≤ 128
  erased_lt : ∀ i < nrFecBlocks, erasedBlocks i < nrDataBlocks
  erased_mono : ∀ i j, i < j → j < nrFecBlocks → erasedBlocks i < erasedBlocks j
  fec_lt : ∀ j < nrFecBlocks, fecBlockNos j < 128
  fec_ne : ∀ i j, i < j → j < nrFecBlocks → fecBlockNos i ≠ fecBlockNos j

/-- The data block is one of the erased ones. -/
def IsErased (nrFecBlocks : Nat) (erasedBlocks : Nat → Nat) (col : Nat) : Prop :=
  ∃ i < nrFecBlocks, erasedBlocks i = col

instance (nrFecBlocks : Nat) (erasedBlocks : Nat → Nat) (col : Nat) :
    Decidable (IsErased nrFecBlocks erasedBlocks col) :=
  inferInstanceAs (Decidable (∃ i < nrFecBlocks, erasedBlocks i = col))

section

variable {blockSize nrDataBlocks nrFecBlocks : Nat} {fecBlockNos erasedBlocks : Nat → Nat}

/-- What the received data blocks below `m` contribute to a parity word. -/
def known (nrFecBlocks : Nat) (erasedBlocks : Nat → Nat) (dataBlocks : Nat → Buf)
    (m row p : Nat) : Gf :=
  ∑ i ∈ (Finset.range m).filter (fun i => ¬IsErased nrFecBlocks erasedBlocks i),
    coeff row i * gfAt (dataBlocks i) p

/-- The loop of `reduce` after `m` columns. -/
structure Reduced (blockSize nrFecBlocks : Nat) (fecBlockNos erasedBlocks : Nat → Nat)
    (dataBlocks fecBlocks : Nat → Buf) (m : Nat) (s : ReduceState) : Prop where
  idx_le : s.erasedIdx ≤ nrFecBlocks
  passed : ∀ i < s.erasedIdx, erasedBlocks i < m
  ahead : ∀ i, s.erasedIdx ≤ i → i < nrFecBlocks → m ≤ erasedBlocks i
  word : ∀ j < nrFecBlocks, ∀ p < blockSize, gfAt (s.fecBlocks j) p =
    gfAt (fecBlocks j) p + known nrFecBlocks erasedBlocks dataBlocks m (fecBlockNos j) p

/-- One column keeps the loop's invariant. -/
theorem reduceCol_spec (he : Erasure nrDataBlocks nrFecBlocks fecBlockNos erasedBlocks)
    {dataBlocks fecBlocks : Nat → Buf} {m : Nat} (hm : m < nrDataBlocks) {s : ReduceState}
    (hs : Reduced blockSize nrFecBlocks fecBlockNos erasedBlocks dataBlocks fecBlocks m s) :
    Reduced blockSize nrFecBlocks fecBlockNos erasedBlocks dataBlocks fecBlocks (m + 1)
      (reduceCol blockSize dataBlocks fecBlockNos erasedBlocks nrFecBlocks s m) := by
  have hdata := he.data_le
  by_cases hc : s.erasedIdx < nrFecBlocks ∧ erasedBlocks s.erasedIdx = m
  · rw [reduceCol, if_pos hc]
    have herased : IsErased nrFecBlocks erasedBlocks m := ⟨s.erasedIdx, hc⟩
    refine ⟨hc.1, ?_, ?_, ?_⟩
    · intro i hi
      rcases Nat.lt_or_eq_of_le (Nat.lt_succ_iff.mp hi) with hlt | rfl
      · exact Nat.lt_succ_of_lt (hs.passed i hlt)
      · omega
    · intro i hi hir
      have := he.erased_mono s.erasedIdx i hi hir
      omega
    · intro j hj p hp
      rw [known, Finset.range_add_one, Finset.filter_insert, if_neg (by simpa using herased)]
      exact hs.word j hj p hp
  · rw [reduceCol, if_neg hc]
    have hidx : ∀ i, s.erasedIdx ≤ i → i < nrFecBlocks → erasedBlocks i ≠ m := by
      intro i hi hir him
      rcases Nat.lt_or_eq_of_le hi with hlt | rfl
      · have hge := hs.ahead s.erasedIdx le_rfl (by omega)
        have := he.erased_mono s.erasedIdx i hlt hir
        omega
      · exact hc ⟨hir, him⟩
    have hnot : ¬IsErased nrFecBlocks erasedBlocks m := by
      rintro ⟨i, hir, him⟩
      rcases Nat.lt_or_ge i s.erasedIdx with hlt | hge
      · have := hs.passed i hlt
        omega
      · exact hidx i hge hir him
    refine ⟨hs.idx_le, fun i hi => Nat.lt_succ_of_lt (hs.passed i hi), fun i hi hir => ?_,
      fun j hj p hp => ?_⟩
    · have := hs.ahead i hi hir
      have := hidx i hi hir
      omega
    · have hlt := he.fec_lt j hj
      rw [known, Finset.range_add_one, Finset.filter_insert, if_pos hnot,
        Finset.sum_insert (by simp)]
      simp only [if_pos hj]
      rw [gfInverse_reduce hlt (by omega), gfAt_addmul _ _ _ hp, hs.word j hj p hp, known]
      ring

theorem reduceCols_spec (blockSize : Nat)
    (he : Erasure nrDataBlocks nrFecBlocks fecBlockNos erasedBlocks)
    (dataBlocks fecBlocks : Nat → Buf) {m : Nat} (hm : m ≤ nrDataBlocks) :
    Reduced blockSize nrFecBlocks fecBlockNos erasedBlocks dataBlocks fecBlocks m
      ((List.range m).foldl (reduceCol blockSize dataBlocks fecBlockNos erasedBlocks nrFecBlocks)
        ⟨0, fecBlocks⟩) := by
  induction m with
  | zero =>
    refine ⟨Nat.zero_le _, fun i hi => absurd hi (Nat.not_lt_zero i), fun i _ _ => Nat.zero_le _,
      fun j _ p _ => ?_⟩
    simp [known]
  | succ m ih =>
    rw [List.range_succ, List.foldl_append]
    exact reduceCol_spec he hm (ih (by omega))

/-- **`reduce` passes its assertion** and leaves of each parity block what the received data
blocks do not explain. -/
theorem reduce_spec (blockSize : Nat)
    (he : Erasure nrDataBlocks nrFecBlocks fecBlockNos erasedBlocks)
    (dataBlocks fecBlocks : Nat → Buf) :
    ∃ fec', reduce blockSize dataBlocks nrDataBlocks fecBlocks fecBlockNos erasedBlocks
        nrFecBlocks = some fec' ∧
      ∀ j < nrFecBlocks, ∀ p < blockSize, gfAt (fec' j) p = gfAt (fecBlocks j) p +
        known nrFecBlocks erasedBlocks dataBlocks nrDataBlocks (fecBlockNos j) p := by
  have hs := reduceCols_spec blockSize he dataBlocks fecBlocks (le_refl nrDataBlocks)
  refine ⟨_, if_pos ?_, hs.word⟩
  rcases Nat.lt_or_eq_of_le hs.idx_le with hlt | heq
  · have hge := hs.ahead _ le_rfl hlt
    have := he.erased_lt _ hlt
    omega
  · exact heq.symm

/-! ### The inverted system -/

theorem resolveMatrix_toGf (he : Erasure nrDataBlocks nrFecBlocks fecBlockNos erasedBlocks) :
    (resolveMatrix fecBlockNos erasedBlocks nrFecBlocks).toGf =
      fun j i : Fin nrFecBlocks => coeff (fecBlockNos j) (erasedBlocks i) := by
  funext j i
  have hfec := he.fec_lt j j.isLt
  have hcol := he.erased_lt i i.isLt
  have hdata := he.data_le
  exact Gf.ext (gfInverse_resolve hfec (by omega))

theorem Erasure.erased_inj (he : Erasure nrDataBlocks nrFecBlocks fecBlockNos erasedBlocks)
    {i j : Nat} (hi : i < nrFecBlocks) (hj : j < nrFecBlocks)
    (h : erasedBlocks i = erasedBlocks j) : i = j := by
  rcases Nat.lt_trichotomy i j with hlt | heq | hgt
  · have := he.erased_mono i j hlt hj
    omega
  · exact heq
  · have := he.erased_mono j i hgt hi
    omega

/-- The parity blocks at hand determine the erased data blocks. -/
theorem resolveMatrix_injective
    (he : Erasure nrDataBlocks nrFecBlocks fecBlockNos erasedBlocks) (x : Fin nrFecBlocks → Gf)
    (hx : (resolveMatrix fecBlockNos erasedBlocks nrFecBlocks).toGf *ᵥ x = 0) : x = 0 := by
  have hdata := he.data_le
  have hpoint : ∀ j : Fin nrFecBlocks, 128 ^^^ fecBlockNos j = 128 + fecBlockNos j :=
    fun j => xor_128 (he.fec_lt j j.isLt)
  rw [resolveMatrix_toGf he] at hx
  refine Cauchy.cauchy_injective (x := fun j : Fin nrFecBlocks => Gf.ofNat (128 ^^^ fecBlockNos j))
    (y := fun i : Fin nrFecBlocks => Gf.ofNat (erasedBlocks i)) ?_ ?_ ?_ x hx
  · intro i j h
    have hi := he.fec_lt i i.isLt
    have hj := he.fec_lt j j.isLt
    simp only [hpoint] at h
    have hno := Gf.ofNat_injOn (by omega) (by omega) h
    rcases Nat.lt_trichotomy i j with hlt | heq | hgt
    · exact absurd (by omega) (he.fec_ne i j hlt j.isLt)
    · exact Fin.ext heq
    · exact absurd (by omega) (he.fec_ne j i hgt i.isLt)
  · intro i j h
    have hi := he.erased_lt i i.isLt
    have hj := he.erased_lt j j.isLt
    exact Fin.ext (he.erased_inj i.isLt j.isLt (Gf.ofNat_injOn (by omega) (by omega) h))
  · intro j i h
    have hj := he.fec_lt j j.isLt
    have hi := he.erased_lt i i.isLt
    simp only [hpoint] at h
    have := Gf.ofNat_injOn (by omega) (by omega) h
    omega

/-- A row of the final multiplication. -/
theorem gfAt_resolveRow (target : Buf) (fecBlocks : Nat → Buf) (matrixRow : Fin nrFecBlocks → UInt8)
    (hpos : 0 < nrFecBlocks) {p : Nat} (hp : p < blockSize) :
    gfAt (resolveRow blockSize target fecBlocks matrixRow) p =
      ∑ c : Fin nrFecBlocks, (⟨matrixRow c⟩ : Gf) * gfAt (fecBlocks c) p := by
  have hfold : ∀ (cols : List (Fin nrFecBlocks)) (t : Buf),
      gfAt (cols.foldl (fun target (col : Fin nrFecBlocks) =>
        addmul target (fecBlocks col) (matrixRow col) blockSize) t) p =
        gfAt t p + (cols.map fun c : Fin nrFecBlocks =>
          (⟨matrixRow c⟩ : Gf) * gfAt (fecBlocks c) p).sum := by
    intro cols
    induction cols with
    | nil => intro t; simp
    | cons c cols ih =>
      intro t
      rw [List.foldl_cons, ih, gfAt_addmul _ _ ⟨matrixRow c⟩ hp, List.map_cons, List.sum_cons,
        add_assoc]
  rw [Fin.sum_univ_def, resolveRow]
  cases hl : List.finRange nrFecBlocks with
  | nil => simp at hl; omega
  | cons c₀ cols =>
    rw [hfold, gfAt_mul _ _ ⟨matrixRow c₀⟩ hp, List.map_cons, List.sum_cons]

theorem resolveRow_of_ge (target : Buf) (fecBlocks : Nat → Buf)
    (matrixRow : Fin nrFecBlocks → UInt8) {p : Nat} (hp : blockSize ≤ p) :
    resolveRow blockSize target fecBlocks matrixRow p = target p := by
  have hfold : ∀ (cols : List (Fin nrFecBlocks)) (t : Buf),
      cols.foldl (fun target (col : Fin nrFecBlocks) =>
        addmul target (fecBlocks col) (matrixRow col) blockSize) t p = t p := by
    intro cols
    induction cols with
    | nil => intro t; rfl
    | cons c cols ih => intro t; rw [List.foldl_cons, ih, addmul_of_ge _ _ _ hp]
  rw [resolveRow]
  cases List.finRange nrFecBlocks with
  | nil => rfl
  | cons c₀ cols => exact (hfold _ _).trans (mul_of_ge _ _ _ hp)

/-- The rows of the multiplication write different blocks. -/
theorem resolveRows_apply (he : Erasure nrDataBlocks nrFecBlocks fecBlockNos erasedBlocks)
    (f : Fin nrFecBlocks → Buf → Buf) (rows : List (Fin nrFecBlocks)) (hnodup : rows.Nodup)
    (dataBlocks : Nat → Buf) :
    (∀ row ∈ rows, rows.foldl (fun dataBlocks (row : Fin nrFecBlocks) =>
        Function.update dataBlocks (erasedBlocks row) (f row (dataBlocks (erasedBlocks row))))
        dataBlocks (erasedBlocks row) = f row (dataBlocks (erasedBlocks row))) ∧
      ∀ col, (∀ row ∈ rows, erasedBlocks row ≠ col) →
        rows.foldl (fun dataBlocks (row : Fin nrFecBlocks) =>
          Function.update dataBlocks (erasedBlocks row) (f row (dataBlocks (erasedBlocks row))))
          dataBlocks col = dataBlocks col := by
  induction rows generalizing dataBlocks with
  | nil => exact ⟨fun row h => absurd h List.not_mem_nil, fun col _ => rfl⟩
  | cons r rows ih =>
    obtain ⟨hr, hnodup⟩ := List.nodup_cons.mp hnodup
    have hother : ∀ row ∈ rows, erasedBlocks row ≠ erasedBlocks r := by
      intro row hrow h
      exact hr (Fin.ext (he.erased_inj row.isLt r.isLt h) ▸ hrow)
    obtain ⟨hdone, hframe⟩ := ih hnodup
      (Function.update dataBlocks (erasedBlocks r) (f r (dataBlocks (erasedBlocks r))))
    constructor
    · intro row hrow
      rw [List.foldl_cons]
      rcases List.mem_cons.mp hrow with rfl | hrow
      · rw [hframe _ hother, Function.update_self]
      · rw [hdone row hrow, Function.update_of_ne (hother row hrow)]
    · intro col hcol
      rw [List.foldl_cons, hframe col fun row hrow => hcol row (List.mem_cons_of_mem r hrow),
        Function.update_of_ne (hcol r List.mem_cons_self).symm]

/-- **`resolve` always finds its pivots**; it writes the first bytes of the erased blocks only. -/
theorem resolve_spec (blockSize : Nat)
    (he : Erasure nrDataBlocks nrFecBlocks fecBlockNos erasedBlocks)
    (dataBlocks fecBlocks : Nat → Buf) :
    ∃ data', resolve blockSize dataBlocks fecBlocks fecBlockNos erasedBlocks nrFecBlocks =
        some data' ∧
      (∀ x : Nat → Gf, ∀ p < blockSize,
        (∀ j : Fin nrFecBlocks, gfAt (fecBlocks j) p =
          ∑ i : Fin nrFecBlocks, coeff (fecBlockNos j) (erasedBlocks i) * x i) →
        ∀ i < nrFecBlocks, gfAt (data' (erasedBlocks i)) p = x i) ∧
      (∀ col, ¬IsErased nrFecBlocks erasedBlocks col → data' col = dataBlocks col) ∧
      ∀ col p, blockSize ≤ p → data' col p = dataBlocks col p := by
  obtain ⟨inv, hinv, hmul⟩ := invertMat_spec (resolveMatrix_injective he)
  obtain ⟨hdone, hframe⟩ := resolveRows_apply he
    (fun row t => resolveRow blockSize t fecBlocks (inv row)) (List.finRange nrFecBlocks)
    (List.nodup_finRange nrFecBlocks) dataBlocks
  refine ⟨_, by rw [resolve, hinv]; rfl, fun x p hp hx i hi => ?_, fun col hcol => ?_,
    fun col p hp => ?_⟩
  · rw [hdone ⟨i, hi⟩ (List.mem_finRange _), gfAt_resolveRow _ _ _ (by omega) hp]
    have hsys := congrFun (hmul fun i => x i) ⟨i, hi⟩
    rw [resolveMatrix_toGf he] at hsys
    rw [← hsys]
    apply Finset.sum_congr rfl
    intro c _
    rw [hx c]
    rfl
  · exact hframe col fun row _ h => hcol ⟨row, row.isLt, h⟩
  · by_cases hcol : IsErased nrFecBlocks erasedBlocks col
    · obtain ⟨i, hi, rfl⟩ := hcol
      rw [hdone ⟨i, hi⟩ (List.mem_finRange _), resolveRow_of_ge _ _ _ hp]
    · rw [hframe col fun row _ h => hcol ⟨row, row.isLt, h⟩]

/-- **Decoding.** With as many distinct parity blocks as erased data blocks, `fec_decode` passes
its assertions and writes the first bytes of the erased blocks only. Where the received data
blocks are the original ones and the parity blocks are theirs, the erased blocks come back. -/
theorem fecDecode_spec (blockSize : Nat)
    (he : Erasure nrDataBlocks nrFecBlocks fecBlockNos erasedBlocks)
    (dataBlocks fecBlocks : Nat → Buf) :
    ∃ data' fec', fecDecode blockSize dataBlocks nrDataBlocks fecBlocks fecBlockNos erasedBlocks
        nrFecBlocks = some (data', fec') ∧
      (∀ original : Nat → Buf, ∀ p < blockSize,
        (∀ i < nrDataBlocks, ¬IsErased nrFecBlocks erasedBlocks i →
          dataBlocks i p = original i p) →
        (∀ j < nrFecBlocks,
          gfAt (fecBlocks j) p = parity nrDataBlocks original (fecBlockNos j) p) →
        ∀ i < nrDataBlocks, data' i p = original i p) ∧
      (∀ col, ¬IsErased nrFecBlocks erasedBlocks col → data' col = dataBlocks col) ∧
      ∀ col p, blockSize ≤ p → data' col p = dataBlocks col p := by
  obtain ⟨fec', hreduce, hword⟩ := reduce_spec blockSize he dataBlocks fecBlocks
  obtain ⟨data', hresolve, hback, hframe, hbehind⟩ :=
    resolve_spec blockSize he dataBlocks fec'
  refine ⟨data', fec', ?_, ?_, hframe, hbehind⟩
  · rw [fecDecode, hreduce, Option.bind_eq_bind, Option.bind_some, hresolve]
    rfl
  intro original p hp hdata hfec i hi
  by_cases hier : IsErased nrFecBlocks erasedBlocks i
  swap
  · rw [hframe i hier, hdata i hi hier]
  obtain ⟨j, hj, rfl⟩ := hier
  refine congrArg Gf.byte (hback (fun i => gfAt (original (erasedBlocks i)) p) p hp ?_ j hj)
  intro l
  -- Subtracting what the received blocks contribute leaves the erased blocks' part.
  have hknown : known nrFecBlocks erasedBlocks dataBlocks nrDataBlocks (fecBlockNos l) p =
      known nrFecBlocks erasedBlocks original nrDataBlocks (fecBlockNos l) p := by
    apply Finset.sum_congr rfl
    intro i hi
    obtain ⟨hi, hne⟩ := Finset.mem_filter.mp hi
    rw [show gfAt (dataBlocks i) p = gfAt (original i) p from
      Gf.ext (hdata i (Finset.mem_range.mp hi) hne)]
  have hsplit := Cauchy.parity_split (s := Finset.range nrDataBlocks)
    (P := IsErased nrFecBlocks erasedBlocks) (e := fun i : Fin nrFecBlocks => erasedBlocks i)
    (fun a b h => Fin.ext (he.erased_inj a.isLt b.isLt h))
    (fun i => Finset.mem_range.mpr (he.erased_lt i i.isLt))
    (fun c => ⟨fun ⟨i, hi, h⟩ => ⟨⟨i, hi⟩, h⟩, fun ⟨i, h⟩ => ⟨i, i.isLt, h⟩⟩)
    (coeff (fecBlockNos l)) fun i => gfAt (original i) p
  rw [hword l l.isLt p hp, hfec l l.isLt, hknown, parity, hsplit, known, add_assoc,
    ← Gf.sub_eq_add (∑ i ∈ _, _) (∑ i ∈ _, _), sub_self, add_zero]

end

/-! ## Encoding and decoding -/

/-- **Whatever blocks are lost, as many parity blocks as there are lost data blocks bring these
back.** The received blocks stay as they are, and nothing is written behind the block size. -/
theorem fec_recovers {nrDataBlocks nrFecBlocks nrErased : Nat}
    {fecBlockNos erasedBlocks : Nat → Nat} (blockSize : Nat) (hpos : 0 < nrDataBlocks)
    (hfec : nrFecBlocks ≤ 128)
    (he : Erasure nrDataBlocks nrErased fecBlockNos erasedBlocks)
    (hsent : ∀ j < nrErased, fecBlockNos j < nrFecBlocks) (original fecBlocks : Nat → Buf) :
    ∃ encoded, fecEncode blockSize original nrDataBlocks fecBlocks nrFecBlocks = some encoded ∧
      ∀ dataBlocks fecReceived : Nat → Buf,
        (∀ i < nrDataBlocks, ¬IsErased nrErased erasedBlocks i →
          ∀ p < blockSize, dataBlocks i p = original i p) →
        (∀ j < nrErased, ∀ p < blockSize, fecReceived j p = encoded (fecBlockNos j) p) →
        ∃ decoded fec', fecDecode blockSize dataBlocks nrDataBlocks fecReceived fecBlockNos
            erasedBlocks nrErased = some (decoded, fec') ∧
          (∀ i < nrDataBlocks, ∀ p < blockSize, decoded i p = original i p) ∧
          (∀ i, ¬IsErased nrErased erasedBlocks i → decoded i = dataBlocks i) ∧
          ∀ i p, blockSize ≤ p → decoded i p = dataBlocks i p := by
  obtain ⟨encoded, hencode, hparity, -⟩ :=
    fecEncode_spec blockSize nrDataBlocks nrFecBlocks original fecBlocks hpos he.data_le hfec
  refine ⟨encoded, hencode, ?_⟩
  intro dataBlocks fecReceived hdata hreceived
  obtain ⟨decoded, fec', hdecode, hback, hframe, hbehind⟩ :=
    fecDecode_spec blockSize he dataBlocks fecReceived
  refine ⟨decoded, fec', hdecode, ?_, hframe, hbehind⟩
  intro i hi p hp
  refine hback original p hp (fun i hi hne => hdata i hi hne p hp) ?_ i hi
  intro j hj
  rw [← hparity (fecBlockNos j) (hsent j hj) p hp]
  exact Gf.ext (hreceived j hj p hp)

/-- Two of three data blocks are lost, and the first of three parity blocks. -/
theorem fec_recovers_two :
    ∃ encoded, fecEncode 4 (fun i p => .ofNat (5 * i + p)) 3 (fun _ _ => 0) 3 = some encoded ∧
      ∃ decoded fec', fecDecode 4 (fun i p => if i = 1 then .ofNat (5 * i + p) else 9) 3
          (fun j => encoded (j + 1)) (fun j => j + 1) (fun i => 2 * i) 2 = some (decoded, fec') ∧
        ∀ i < 3, ∀ p < 4, decoded i p = .ofNat (5 * i + p) := by
  have he : Erasure 3 2 (fun j => j + 1) (fun i => 2 * i) :=
    ⟨by omega, by omega, by omega, by omega, by omega⟩
  obtain ⟨encoded, hencode, hdecode⟩ := @fec_recovers 3 3 2 _ _ 4 (by omega) (by omega) he
    (by omega) (fun i p => .ofNat (5 * i + p)) fun _ _ => (0 : UInt8)
  refine ⟨encoded, hencode, ?_⟩
  obtain ⟨decoded, fec', hrun, hback, -⟩ := hdecode
    (fun i p => if i = 1 then .ofNat (5 * i + p) else 9) (fun j => encoded (j + 1))
    (fun i hi hne p _ => if_pos (by
      by_contra h1
      exact hne ⟨i / 2, by omega, (by omega : 2 * (i / 2) = i)⟩))
    fun j hj p hp => rfl
  exact ⟨decoded, fec', hrun, hback⟩

end Rhex
