import Mathlib

/-!
# The byte field of `fec.c`

`generate_gf` fills tables of exponentials, logarithms and inverses from the primitive polynomial
`1 + x^2 + x^3 + x^4 + x^8`, and `init_mul_table` derives a multiplication table from them. This
file runs the table loops and proves that the tables make the bytes a field of 256 elements, with
exclusive or as addition.

* `generateGf`, `gfMul`, `gfInverse` — the tables as the code fills them.
* `alpha n` — the `n`-th power of the generator; it has order 255.
* `Gf` — the bytes as a field; its operations are the table lookups themselves.
-/

namespace Rhex

/-! ## The tables -/

/-- `allPp[GF_BITS]`: the coefficients of the primitive polynomial, lowest first. -/
def allPp : List Char := ['1', '0', '1', '1', '1', '0', '0', '0', '1']

/-- The static arrays `gf_exp`, `gf_log` and `inverse`. -/
structure GfTables where
  gfExp : Nat → UInt8
  gfLog : Nat → Nat
  inverse : Nat → UInt8

namespace GfTables

def zero : GfTables := ⟨fun _ => 0, fun _ => 0, fun _ => 0⟩

/-- Set `gf_exp[i]`, and `gf_log` of it. -/
def setExp (t : GfTables) (i : Nat) (x : UInt8) : GfTables :=
  { t with
    gfExp := Function.update t.gfExp i x
    gfLog := Function.update t.gfLog x.toNat i }

end GfTables

/-- One round of the first loop of `generate_gf`, with its running `mask`. -/
def generateGfLow (s : GfTables × UInt8) (i : Nat) : GfTables × UInt8 :=
  let (t, mask) := s
  let t := t.setExp i mask
  let t :=
    if allPp[i]? = some '1' then
      { t with gfExp := Function.update t.gfExp 8 (t.gfExp 8 ^^^ mask) }
    else t
  (t, mask <<< 1)

/-- One round of the second loop of `generate_gf`. -/
def generateGfHigh (t : GfTables) (i : Nat) : GfTables :=
  let mask : UInt8 := 128
  if t.gfExp (i - 1) ≥ mask then
    t.setExp i (t.gfExp 8 ^^^ ((t.gfExp (i - 1) ^^^ mask) <<< 1))
  else t.setExp i (t.gfExp (i - 1) <<< 1)

/-- The second loop of `generate_gf`, for `n` rounds from index 9 on. -/
def generateGfHighLoop (n : Nat) (t : GfTables) : GfTables :=
  (List.range n).foldl (fun t k => generateGfHigh t (9 + k)) t

/-- `generate_gf` up to the end of its second loop. -/
def generateGfPowers : GfTables :=
  let t := ((List.range 8).foldl generateGfLow (GfTables.zero, 1)).1
  generateGfHighLoop 246 { t with gfLog := Function.update t.gfLog (t.gfExp 8).toNat 8 }

/-- The loop that copies `gf_exp` behind itself. -/
def extendExp (n : Nat) (gfExp : Nat → UInt8) : Nat → UInt8 :=
  (List.range n).foldl (fun e i => Function.update e (i + 255) (e i)) gfExp

/-- The loop that fills `inverse` from index 2 on. -/
def fillInverse (n : Nat) (gfExp : Nat → UInt8) (gfLog : Nat → Nat) (inverse : Nat → UInt8) :
    Nat → UInt8 :=
  (List.range n).foldl
    (fun v k => Function.update v (2 + k) (gfExp (255 - gfLog (2 + k)))) inverse

/-- `generate_gf`: the powers, the special logarithm of zero, the second copy of `gf_exp`, and
the inverses. -/
def generateGf : GfTables :=
  let t := generateGfPowers
  let gfLog := Function.update t.gfLog 0 255
  let gfExp := extendExp 255 t.gfExp
  let inverse := Function.update (Function.update t.inverse 0 0) 1 1
  { gfExp, gfLog, inverse := fillInverse 254 gfExp gfLog inverse }

/-- The loop of `modnn`. -/
def modnnLoop : Nat → Nat → Nat
  | 0, x => x
  | fuel + 1, x =>
    if x ≥ 255 then
      let x := x - 255
      modnnLoop fuel ((x >>> 8) + (x &&& 255))
    else x

/-- `modnn`: the remainder by `GF_SIZE`, without a division. -/
def modnn (x : Nat) : Nat := modnnLoop x x

/-- `init_mul_table`: the cell `(i << 8) + j` of `gf_mul_table`. -/
def gfMulTable (i j : Nat) : UInt8 :=
  if i = 0 ∨ j = 0 then 0
  else generateGf.gfExp (modnn (generateGf.gfLog i + generateGf.gfLog j))

/-- `gf_mul(x, y)`: a lookup in the multiplication table. -/
def gfMul (x y : UInt8) : UInt8 := gfMulTable x.toNat y.toNat

/-- `inverse[i]`. -/
def gfInverse (i : Nat) : UInt8 := generateGf.inverse i

theorem modnn_eq {x : Nat} (h : x < 511) : modnn x = x % 255 := by
  have : ∀ x < 511, modnn x = x % 255 := by decide +kernel
  exact this x h

/-! ## Powers of the generator -/

/-- Multiply by the generator: shift, and reduce by the polynomial. -/
def xtime (x : UInt8) : UInt8 :=
  if x ≥ 128 then (29 : UInt8) ^^^ ((x ^^^ 128) <<< 1) else x <<< 1

/-- The powers of the generator. -/
def alpha (n : Nat) : UInt8 := xtime^[n] 1

theorem alpha_succ (n : Nat) : alpha (n + 1) = xtime (alpha n) :=
  Function.iterate_succ_apply' xtime n 1

theorem ge_128_iff_msb (x : UInt8) : x ≥ 128 ↔ x.toBitVec.msb = true := by
  rw [BitVec.msb_eq_decide, decide_eq_true_iff, ge_iff_le, UInt8.le_iff_toNat_le]
  simp

/-- Multiplication by the generator is additive. -/
theorem xtime_xor (x y : UInt8) : xtime (x ^^^ y) = xtime x ^^^ xtime y := by
  have hshift : ∀ z : UInt8, (z ^^^ 128) <<< 1 = z <<< 1 := by
    intro z
    rw [UInt8.shiftLeft_xor, show (128 : UInt8) <<< 1 = 0 by decide, UInt8.xor_zero]
  simp only [xtime, ge_128_iff_msb, UInt8.toBitVec_xor, BitVec.msb_xor, hshift]
  rw [UInt8.shiftLeft_xor]
  generalize x <<< 1 = a
  generalize y <<< 1 = b
  cases x.toBitVec.msb <;> cases y.toBitVec.msb
  · simp
  · simp [← UInt8.xor_assoc, UInt8.xor_comm 29 a]
  · simp [UInt8.xor_assoc]
  · have : (29 : UInt8) ^^^ a ^^^ ((29 : UInt8) ^^^ b) = a ^^^ b := by
      rw [UInt8.xor_comm 29 a, UInt8.xor_assoc, ← UInt8.xor_assoc 29 29 b, UInt8.xor_self,
        UInt8.zero_xor]
    simp [this]

theorem xtime_zero : xtime 0 = 0 := by decide

theorem alpha_periodic : Function.IsPeriodicPt xtime 255 1 := by
  change xtime^[255] 1 = 1
  decide +kernel

/-- **The generator is primitive.** The prime factors of 255 are 3, 5 and 17. -/
theorem minimalPeriod_xtime : Function.minimalPeriod xtime 1 = 255 := by
  have hdvd := alpha_periodic.minimalPeriod_dvd
  have hmem : Function.minimalPeriod xtime 1 ∈ Nat.divisors 255 :=
    Nat.mem_divisors.mpr ⟨hdvd, by decide⟩
  have hper := Function.isPeriodicPt_minimalPeriod xtime (1 : UInt8)
  rw [show Nat.divisors 255 = {1, 3, 5, 15, 17, 51, 85, 255} by decide +kernel] at hmem
  have hno : ∀ d ∈ ({1, 3, 5, 15, 17, 51, 85} : Finset Nat), xtime^[d] 1 ≠ 1 := by
    decide +kernel
  by_contra hne
  refine hno (Function.minimalPeriod xtime 1) ?_ hper
  simp only [Finset.mem_insert, Finset.mem_singleton] at hmem ⊢
  omega

theorem alpha_injOn : Set.InjOn alpha (Set.Iio 255) := by
  have := Function.iterate_injOn_Iio_minimalPeriod (f := xtime) (x := 1)
  rwa [minimalPeriod_xtime] at this

theorem alpha_inj {i j : Nat} (hi : i < 255) (hj : j < 255) : alpha i = alpha j ↔ i = j :=
  ⟨fun h => alpha_injOn hi hj h, fun h => h ▸ rfl⟩

theorem alpha_mod (n : Nat) : alpha (n % 255) = alpha n :=
  alpha_periodic.iterate_mod_apply n

theorem alpha_ne_zero (n : Nat) : alpha n ≠ 0 := by
  intro h
  have hzero : ∀ k, xtime^[k] 0 = 0 := fun k => Function.iterate_fixed xtime_zero k
  have hback : xtime^[255 - n % 255] (alpha (n % 255)) = 1 := by
    rw [alpha, ← Function.iterate_add_apply,
      Nat.sub_add_cancel (Nat.mod_lt n (by decide)).le]
    exact alpha_periodic
  rw [alpha_mod, h, hzero] at hback
  exact absurd hback (by decide)

/-- Every nonzero byte is a power of the generator: the powers are 255 distinct ones. -/
theorem exists_alpha {x : UInt8} (hx : x ≠ 0) : ∃ i < 255, alpha i = x := by
  have hinj : Set.InjOn (fun i => (alpha i).toNat) (Finset.range 255) := by
    intro i hi j hj h
    exact alpha_injOn (by simpa using hi) (by simpa using hj) (UInt8.toNat_inj.mp h)
  have hsub : (Finset.range 255).image (fun i => (alpha i).toNat) ⊆ Finset.Icc 1 255 := by
    intro n hn
    obtain ⟨i, -, rfl⟩ := Finset.mem_image.mp hn
    have hpos : (alpha i).toNat ≠ 0 := fun h => alpha_ne_zero i (UInt8.toNat_inj.mp h)
    have hlt := (alpha i).toNat_lt
    exact Finset.mem_Icc.mpr ⟨by omega, by omega⟩
  have heq := Finset.eq_of_subset_of_card_le hsub (by
    rw [Finset.card_image_of_injOn hinj]; simp)
  have hxmem : x.toNat ∈ Finset.Icc 1 255 := by
    have hpos : x.toNat ≠ 0 := fun h => hx (UInt8.toNat_inj.mp h)
    have hlt := x.toNat_lt
    exact Finset.mem_Icc.mpr ⟨by omega, by omega⟩
  rw [← heq] at hxmem
  obtain ⟨i, hi, h⟩ := Finset.mem_image.mp hxmem
  exact ⟨i, by simpa using hi, UInt8.toNat_inj.mp h⟩

/-! ## What the tables hold -/

/-- The table entries up to `n` are the powers of the generator, and their logarithms. -/
def GfTables.PowersTo (t : GfTables) (n : Nat) : Prop :=
  ∀ j ≤ n, t.gfExp j = alpha j ∧ t.gfLog (alpha j).toNat = j

/-- A round of the second loop adds the next power. -/
theorem generateGfHigh_powersTo {t : GfTables} {n : Nat} (ht : t.PowersTo n) (h8 : 8 ≤ n)
    (hn : n < 254) : (generateGfHigh t (n + 1)).PowersTo (n + 1) := by
  have hstep : generateGfHigh t (n + 1) = t.setExp (n + 1) (alpha (n + 1)) := by
    have h29 : t.gfExp 8 = 29 := (ht 8 h8).1.trans (by decide)
    rw [alpha_succ, ← (ht n le_rfl).1, generateGfHigh, Nat.add_sub_cancel, h29, xtime]
    split_ifs <;> rfl
  rw [hstep]
  intro j hj
  rcases Nat.lt_or_eq_of_le hj with hlt | rfl
  · have hne : j ≠ n + 1 := by omega
    have hkey : (alpha j).toNat ≠ (alpha (n + 1)).toNat := by
      intro h
      exact hne ((alpha_inj (by omega) (by omega)).mp (UInt8.toNat_inj.mp h))
    simpa [GfTables.setExp, hne, hkey] using ht j (by omega)
  · simp [GfTables.setExp]

theorem generateGfHighLoop_powersTo {n : Nat} (hn : n ≤ 246) {t : GfTables}
    (ht : t.PowersTo 8) : (generateGfHighLoop n t).PowersTo (8 + n) := by
  induction n with
  | zero => exact ht
  | succ n ih =>
    have hstep := generateGfHigh_powersTo (ih (by omega)) (by omega) (by omega)
    rw [show 8 + n + 1 = 8 + (n + 1) by omega, show 8 + (n + 1) = 9 + n by omega] at hstep
    rw [generateGfHighLoop, List.range_succ, List.foldl_append, show 8 + (n + 1) = 9 + n by omega]
    exact hstep

theorem generateGfPowers_powersTo : generateGfPowers.PowersTo 254 := by
  rw [generateGfPowers]
  apply generateGfHighLoop_powersTo (n := 246) le_rfl
  intro j hj
  interval_cases j <;> exact ⟨by decide +kernel, by decide +kernel⟩

theorem extendExp_of_lt (n : Nat) (e : Nat → UInt8) {j : Nat} (h : j < 255) :
    extendExp n e j = e j := by
  induction n with
  | zero => rfl
  | succ n ih =>
    rw [extendExp, List.range_succ, List.foldl_append]
    change Function.update (extendExp n e) (n + 255) _ j = e j
    rw [Function.update_of_ne (by omega), ih]

theorem fillInverse_of_lt (n : Nat) (e : Nat → UInt8) (l : Nat → Nat) (v : Nat → UInt8) {j : Nat}
    (h : j < 2) : fillInverse n e l v j = v j := by
  induction n with
  | zero => rfl
  | succ n ih =>
    rw [fillInverse, List.range_succ, List.foldl_append]
    change Function.update (fillInverse n e l v) (2 + n) _ j = v j
    rw [Function.update_of_ne (by omega), ih]

theorem fillInverse_add {n : Nat} (e : Nat → UInt8) (l : Nat → Nat) (v : Nat → UInt8) {k : Nat}
    (h : k < n) : fillInverse n e l v (2 + k) = e (255 - l (2 + k)) := by
  induction n with
  | zero => exact absurd h (Nat.not_lt_zero k)
  | succ n ih =>
    rw [fillInverse, List.range_succ, List.foldl_append]
    change Function.update (fillInverse n e l v) (2 + n) _ (2 + k) = _
    by_cases hk : k = n
    · subst hk; simp
    · rw [Function.update_of_ne (by omega), ih (by omega)]

attribute [irreducible] generateGfPowers extendExp fillInverse

theorem generateGf_gfExp : generateGf.gfExp = extendExp 255 generateGfPowers.gfExp := rfl

theorem generateGf_gfLog : generateGf.gfLog = Function.update generateGfPowers.gfLog 0 255 := rfl

theorem generateGf_inverse : generateGf.inverse =
    fillInverse 254 generateGf.gfExp generateGf.gfLog
      (Function.update (Function.update generateGfPowers.inverse 0 0) 1 1) := rfl

attribute [irreducible] generateGf

theorem gfExp_eq {j : Nat} (h : j < 255) : generateGf.gfExp j = alpha j := by
  rw [generateGf_gfExp, extendExp_of_lt 255 _ h]
  exact (generateGfPowers_powersTo j (by omega)).1

theorem alpha_toNat_ne_zero (j : Nat) : (alpha j).toNat ≠ 0 := fun h =>
  alpha_ne_zero j (UInt8.toNat_inj.mp h)

theorem gfLog_alpha {j : Nat} (h : j < 255) : generateGf.gfLog (alpha j).toNat = j := by
  rw [generateGf_gfLog, Function.update_of_ne (alpha_toNat_ne_zero j)]
  exact (generateGfPowers_powersTo j (by omega)).2

theorem gfInverse_zero : gfInverse 0 = 0 := by
  rw [gfInverse, generateGf_inverse, fillInverse_of_lt 254 _ _ _ (by omega)]
  simp

theorem gfInverse_one : gfInverse 1 = 1 := by
  rw [gfInverse, generateGf_inverse, fillInverse_of_lt 254 _ _ _ (by omega)]
  simp

/-- The inverse table, on the powers of the generator. -/
theorem gfInverse_alpha {j : Nat} (h : j < 255) : gfInverse (alpha j).toNat = alpha (255 - j) := by
  by_cases hj : j = 0
  · subst hj
    rw [Nat.sub_zero, ← alpha_mod 255, Nat.mod_self]
    exact gfInverse_one
  · have hzero := alpha_toNat_ne_zero j
    have hone : (alpha j).toNat ≠ 1 := by
      intro h1
      exact hj ((alpha_inj h (by omega)).mp ((UInt8.toNat_inj.mp h1).trans rfl))
    obtain ⟨k, hk⟩ : ∃ k, (alpha j).toNat = 2 + k := ⟨(alpha j).toNat - 2, by omega⟩
    have hlt := (alpha j).toNat_lt
    have hfill : gfInverse (2 + k) = generateGf.gfExp (255 - generateGf.gfLog (2 + k)) := by
      rw [gfInverse, generateGf_inverse, fillInverse_add _ _ _ (by omega)]
    rw [hk, hfill, ← hk, gfLog_alpha h, gfExp_eq (by omega)]

@[simp] theorem gfMul_zero_left (x : UInt8) : gfMul 0 x = 0 := by
  simp [gfMul, gfMulTable]

@[simp] theorem gfMul_zero_right (x : UInt8) : gfMul x 0 = 0 := by
  simp [gfMul, gfMulTable]

theorem gfMul_alpha (i j : Nat) : gfMul (alpha i) (alpha j) = alpha (i + j) := by
  have hi : i % 255 < 255 := Nat.mod_lt i (by decide)
  have hj : j % 255 < 255 := Nat.mod_lt j (by decide)
  rw [← alpha_mod i, ← alpha_mod j, gfMul, gfMulTable, if_neg (by simp [alpha_toNat_ne_zero]),
    gfLog_alpha hi, gfLog_alpha hj, modnn_eq (by omega), gfExp_eq (Nat.mod_lt _ (by decide)),
    ← Nat.add_mod, alpha_mod]

/-! ## The field -/

/-- A byte as an element of the field. -/
@[ext]
structure Gf where
  byte : UInt8
deriving DecidableEq

namespace Gf

instance : Zero Gf := ⟨⟨0⟩⟩
instance : One Gf := ⟨⟨1⟩⟩
instance : Add Gf := ⟨fun x y => ⟨x.byte ^^^ y.byte⟩⟩
instance : Neg Gf := ⟨fun x => x⟩
instance : Mul Gf := ⟨fun x y => ⟨gfMul x.byte y.byte⟩⟩
instance : Inv Gf := ⟨fun x => ⟨gfInverse x.byte.toNat⟩⟩

@[simp] theorem byte_zero : (0 : Gf).byte = 0 := rfl
@[simp] theorem byte_one : (1 : Gf).byte = 1 := rfl
@[simp] theorem byte_add (x y : Gf) : (x + y).byte = x.byte ^^^ y.byte := rfl
@[simp] theorem byte_neg (x : Gf) : (-x).byte = x.byte := rfl
@[simp] theorem byte_mul (x y : Gf) : (x * y).byte = gfMul x.byte y.byte := rfl
@[simp] theorem byte_inv (x : Gf) : x⁻¹.byte = gfInverse x.byte.toNat := rfl

theorem eq_alpha {x : Gf} (hx : x ≠ 0) : ∃ i < 255, x = ⟨alpha i⟩ := by
  obtain ⟨i, hi, h⟩ := exists_alpha (x := x.byte) fun h => hx (Gf.ext h)
  exact ⟨i, hi, Gf.ext h.symm⟩

theorem alpha_mul_alpha (i j : Nat) : (⟨alpha i⟩ * ⟨alpha j⟩ : Gf) = ⟨alpha (i + j)⟩ :=
  Gf.ext (gfMul_alpha i j)

protected theorem zero_mul (x : Gf) : 0 * x = 0 := Gf.ext (gfMul_zero_left x.byte)

protected theorem mul_zero (x : Gf) : x * 0 = 0 := Gf.ext (gfMul_zero_right x.byte)

protected theorem mul_comm (x y : Gf) : x * y = y * x := by
  by_cases hx : x = 0
  · rw [hx, Gf.zero_mul, Gf.mul_zero]
  by_cases hy : y = 0
  · rw [hy, Gf.zero_mul, Gf.mul_zero]
  obtain ⟨i, -, rfl⟩ := eq_alpha hx
  obtain ⟨j, -, rfl⟩ := eq_alpha hy
  rw [alpha_mul_alpha, alpha_mul_alpha, Nat.add_comm]

protected theorem mul_assoc (x y z : Gf) : x * y * z = x * (y * z) := by
  by_cases hx : x = 0
  · simp only [hx, Gf.zero_mul]
  by_cases hy : y = 0
  · simp only [hy, Gf.zero_mul, Gf.mul_zero]
  by_cases hz : z = 0
  · simp only [hz, Gf.mul_zero]
  obtain ⟨i, -, rfl⟩ := eq_alpha hx
  obtain ⟨j, -, rfl⟩ := eq_alpha hy
  obtain ⟨k, -, rfl⟩ := eq_alpha hz
  simp only [alpha_mul_alpha, Nat.add_assoc]

protected theorem one_mul (x : Gf) : 1 * x = x := by
  by_cases hx : x = 0
  · rw [hx, Gf.mul_zero]
  obtain ⟨i, -, rfl⟩ := eq_alpha hx
  have := alpha_mul_alpha 0 i
  rwa [Nat.zero_add] at this

theorem alpha_mul (i : Nat) (x : Gf) : ⟨alpha i⟩ * x = ⟨xtime^[i] x.byte⟩ := by
  by_cases hx : x = 0
  · subst hx
    rw [Gf.mul_zero]
    exact Gf.ext (Function.iterate_fixed xtime_zero i).symm
  obtain ⟨j, -, rfl⟩ := eq_alpha hx
  rw [alpha_mul_alpha]
  exact Gf.ext (Function.iterate_add_apply xtime i j 1)

theorem iterate_xtime_xor (i : Nat) (x y : UInt8) :
    xtime^[i] (x ^^^ y) = xtime^[i] x ^^^ xtime^[i] y := by
  induction i with
  | zero => rfl
  | succ i ih => simp only [Function.iterate_succ_apply', ih, xtime_xor]

protected theorem mul_add (x y z : Gf) : x * (y + z) = x * y + x * z := by
  by_cases hx : x = 0
  · subst hx
    simp only [Gf.zero_mul]
    exact Gf.ext UInt8.xor_self.symm
  obtain ⟨i, -, rfl⟩ := eq_alpha hx
  simp only [alpha_mul]
  exact Gf.ext (iterate_xtime_xor i y.byte z.byte)

protected theorem mul_inv_cancel (x : Gf) (hx : x ≠ 0) : x * x⁻¹ = 1 := by
  obtain ⟨i, hi, rfl⟩ := eq_alpha hx
  have hinv : (⟨alpha i⟩ : Gf)⁻¹ = ⟨alpha (255 - i)⟩ := Gf.ext (gfInverse_alpha hi)
  rw [hinv, alpha_mul_alpha, Nat.add_sub_cancel' hi.le, ← alpha_mod]
  rfl

/-- **The tables make the bytes a field.** -/
instance : Field Gf where
  add_assoc x y z := Gf.ext (UInt8.xor_assoc _ _ _)
  zero_add x := Gf.ext UInt8.zero_xor
  add_zero x := Gf.ext UInt8.xor_zero
  add_comm x y := Gf.ext (UInt8.xor_comm _ _)
  neg_add_cancel x := Gf.ext UInt8.xor_self
  mul_assoc := Gf.mul_assoc
  one_mul := Gf.one_mul
  mul_one x := by rw [Gf.mul_comm, Gf.one_mul]
  zero_mul := Gf.zero_mul
  mul_zero := Gf.mul_zero
  mul_comm := Gf.mul_comm
  left_distrib := Gf.mul_add
  right_distrib x y z := by rw [Gf.mul_comm, Gf.mul_add, Gf.mul_comm z x, Gf.mul_comm z y]
  exists_pair_ne := ⟨0, 1, fun h => absurd (congrArg byte h) (by decide)⟩
  mul_inv_cancel := Gf.mul_inv_cancel
  inv_zero := Gf.ext gfInverse_zero
  nsmul := nsmulRec
  zsmul := zsmulRec
  nnqsmul := _
  qsmul := _

/-- Subtraction is addition: the characteristic is two. -/
theorem sub_eq_add (x y : Gf) : x - y = x + y := by
  rw [sub_eq_add_neg]
  rfl

end Gf

@[simp] theorem gfMul_one_left (x : UInt8) : gfMul 1 x = x := congrArg Gf.byte (Gf.one_mul ⟨x⟩)

@[simp] theorem gfMul_one_right (x : UInt8) : gfMul x 1 = x :=
  congrArg Gf.byte (mul_one (⟨x⟩ : Gf))

/-- Skipping the multiples by zero, as `addmul` does, changes nothing. -/
theorem xor_gfMul_of_ne (c x y : UInt8) :
    (if c ≠ 0 then y ^^^ gfMul c x else y) = y ^^^ gfMul c x := by
  by_cases hc : c = 0
  · simp [hc]
  · simp [hc]

end Rhex
