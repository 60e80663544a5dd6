import Mathlib
import Rhex.Lib.Crc

/-!
# Errors that a cyclic redundancy check detects

Two messages of the same length differ in some bits, the errors. The registers after them differ in
what the errors alone leave in an empty register.

* `Crc.residue` — what errors leave in an empty register.
* `Crc.residue_burst` — errors that lie in a burst not longer than the register leave something,
* `Crc.residue_pair` — two errors that are less than the period of the register apart do,
* `Crc.ones_residue` — and an odd number of errors does, if an odd number of the bits of the
  polynomial is set.
* `Crc.Strong.bytes_ne`, `Crc.Strong.bytesMsb_ne` — messages of bytes, with either end of a byte
  first.
* `Crc.strong_ccitt` — the polynomial of CRC-16/CCITT has a period of 32767.
-/

namespace Crc

open Finset

variable {w : ℕ}

/-! ## Without input -/

section

variable (poly : BitVec w)

/-- No bit enters the register. -/
def shift (reg : BitVec w) : BitVec w := step poly reg false

theorem step_eq (reg : BitVec w) (bit : Bool) :
    step poly reg bit = shift poly reg ^^^ if bit then poly else 0#w := by
  have h := step_xor poly reg 0#w false bit
  rw [BitVec.xor_zero, Bool.false_xor] at h
  rw [h, shift]
  cases bit <;> simp [step]

theorem shift_zero : shift poly 0#w = 0#w := by
  simp [shift, step]

theorem iterate_shift_zero (k : ℕ) : (shift poly)^[k] 0#w = 0#w :=
  Function.iterate_fixed (shift_zero poly) k

theorem feed_false (reg : BitVec w) (k : ℕ) :
    feed poly reg (fun _ => false) k = (shift poly)^[k] reg := by
  induction k with
  | zero => rfl
  | succ k ih => rw [feed, ih, Function.iterate_succ_apply', shift]

theorem feed_add (reg : BitVec w) (bits : ℕ → Bool) (i k : ℕ) :
    feed poly reg bits (i + k) = feed poly (feed poly reg bits i) (fun j => bits (i + j)) k := by
  induction k with
  | zero => rfl
  | succ k ih => rw [← Nat.add_assoc, feed, feed, ih]

end

/-- The highest bit says whether the polynomial was added, so that nothing is lost. -/
theorem shift_injective {poly : BitVec w} (hpoly : poly.getMsbD 0 = true) :
    Function.Injective (shift poly) := by
  have hw : 0 < w := by
    by_contra h
    obtain rfl : w = 0 := by omega
    simp at hpoly
  have htop (x : BitVec w) : (shift poly x).getLsbD (w - 1) = x.getLsbD 0 := by
    have hshift : (x >>> 1).getLsbD (w - 1) = false := by
      rw [BitVec.getLsbD_ushiftRight]
      exact BitVec.getLsbD_of_ge _ _ (by omega)
    have hmsb : poly.getLsbD (w - 1) = true := by
      rw [BitVec.getMsbD_eq_getLsbD] at hpoly
      simpa using (Bool.and_eq_true _ _ ▸ hpoly).2
    rw [shift, step, Bool.xor_false]
    cases h : x.getLsbD 0
    · simpa using hshift
    · simp [hshift, hmsb]
  intro x y hxy
  have hlow : x.getLsbD 0 = y.getLsbD 0 := by rw [← htop, ← htop, hxy]
  have hrest : x >>> 1 = y >>> 1 := by
    rw [shift, shift, step, step, Bool.xor_false, Bool.xor_false, hlow] at hxy
    split at hxy
    · exact BitVec.xor_left_inj poly |>.mp hxy
    · exact hxy
  apply BitVec.eq_of_getLsbD_eq
  intro i hi
  cases i with
  | zero => exact hlow
  | succ i =>
    have h := congrArg (fun z => z.getLsbD i) hrest
    simpa [BitVec.getLsbD_ushiftRight, Nat.add_comm] using h

/-! ## Errors -/

/-- The bits in which two messages of `n` bits differ. -/
def errors (f g : ℕ → Bool) (n : ℕ) : Finset ℕ := {i ∈ range n | f i ≠ g i}

theorem errors_subset (f g : ℕ → Bool) (n : ℕ) : errors f g n ⊆ range n := filter_subset _ _

/-- What the errors leave in an empty register. -/
def residue (poly : BitVec w) (E : Finset ℕ) (n : ℕ) : BitVec w :=
  feed poly 0#w (fun i => decide (i ∈ E)) n

theorem feed_eq_iff (poly reg : BitVec w) (f g : ℕ → Bool) (n : ℕ) :
    feed poly reg f n = feed poly reg g n ↔ residue poly (errors f g n) n = 0#w := by
  have hbits : ∀ i < n, (f i ^^ g i) = decide (i ∈ errors f g n) := by
    intro i hi
    simp only [errors, mem_filter, mem_range]
    cases hf : f i <;> cases hg : g i <;> simp [hi]
  have hsum : feed poly reg f n ^^^ feed poly reg g n = residue poly (errors f g n) n := by
    rw [← feed_xor, BitVec.xor_self, residue]
    exact feed_congr poly 0#w hbits
  rw [← hsum, BitVec.xor_eq_zero_iff]

variable {poly : BitVec w} {E : Finset ℕ} {n i j : ℕ}

theorem residue_before (h : ∀ e ∈ E, i ≤ e) : residue poly E i = 0#w := by
  rw [residue, feed_congr poly 0#w (g := fun _ => false), feed_false, iterate_shift_zero]
  intro e he
  exact decide_eq_false fun hmem => absurd (h e hmem) (by omega)

theorem residue_after (h : E ⊆ range n) (k : ℕ) :
    residue poly E (n + k) = (shift poly)^[k] (residue poly E n) := by
  rw [residue, feed_add, ← feed_false]
  refine feed_congr poly _ fun e _ => decide_eq_false fun hmem => ?_
  have := mem_range.mp (h hmem)
  omega

theorem residue_eq_zero_iff (hpoly : poly.getMsbD 0 = true) (h : E ⊆ range n) (k : ℕ) :
    residue poly E (n + k) = 0#w ↔ residue poly E n = 0#w := by
  have hinj : Function.Injective (shift poly)^[k] := (shift_injective hpoly).iterate k
  rw [residue_after h]
  refine ⟨fun hzero => hinj (hzero.trans (iterate_shift_zero poly k).symm), fun hzero => ?_⟩
  rw [hzero, iterate_shift_zero]

theorem residue_eq_zero_congr (hpoly : poly.getMsbD 0 = true) {m : ℕ} (hn : E ⊆ range n)
    (hm : E ⊆ range m) : residue poly E n = 0#w ↔ residue poly E m = 0#w := by
  rw [← residue_eq_zero_iff hpoly hn m, ← residue_eq_zero_iff hpoly hm n, Nat.add_comm]

/-- A burst leaves in the register what it is, moved without input. -/
theorem residue_burst (hpoly : poly.getMsbD 0 = true) (hE : E ⊆ range n) (hne : E.Nonempty)
    (hburst : E ⊆ Ico i (i + w)) : residue poly E n ≠ 0#w := by
  have hend : E ⊆ range (i + w) := fun e he => mem_range.mpr (mem_Ico.mp (hburst he)).2
  rw [Ne, residue_eq_zero_congr hpoly hE hend]
  let reg : BitVec w := BitVec.ofFnLE fun j : Fin w => decide (i + j ∈ E)
  have hreg : ∀ j < w, decide (i + j ∈ E) = reg.getLsbD j := by
    intro j hj
    simp [reg, hj]
  have hmoved : residue poly E (i + w) = (shift poly)^[w] reg := by
    rw [residue, feed_add]
    change feed poly (residue poly E i) _ w = _
    rw [residue_before fun e he => (mem_Ico.mp (hburst he)).1, feed_congr poly 0#w hreg]
    have h := feed_xor poly reg reg reg.getLsbD (fun _ => false) w
    simp only [BitVec.xor_self, Bool.xor_false] at h
    rw [h, feed_self, feed_false, BitVec.ushiftRight_eq_zero (Nat.le_refl w), BitVec.zero_xor]
  rw [hmoved, ← iterate_shift_zero poly w, ((shift_injective hpoly).iterate w).eq_iff]
  intro hzero
  obtain ⟨e, he⟩ := hne
  obtain ⟨hie, hlt⟩ := mem_Ico.mp (hburst he)
  have hbit := hreg (e - i) (by omega)
  rw [hzero, Nat.add_sub_cancel' hie, BitVec.getLsbD_zero, decide_eq_false_iff_not] at hbit
  exact hbit he

/-- The second of two errors takes back the first when the register has come round. -/
theorem residue_pair (hpoly : poly.getMsbD 0 = true) (hE : E ⊆ range n) (hij : i < j)
    (hpair : E = {i, j}) (hperiod : j < i + Function.minimalPeriod (shift poly) poly) :
    residue poly E n ≠ 0#w := by
  have hend : E ⊆ range (j + 1) := by
    intro e he
    rw [hpair, mem_insert, mem_singleton] at he
    exact mem_range.mpr (by omega)
  rw [Ne, residue_eq_zero_congr hpoly hE hend]
  have hmem : ∀ e, e ∈ E ↔ e = i ∨ e = j := by
    intro e
    rw [hpair, mem_insert, mem_singleton]
  have hfirst : residue poly E (i + 1) = poly := by
    have hbefore : residue poly E i = 0#w :=
      residue_before fun e he => by have := (hmem e).mp he; omega
    rw [residue, feed]
    change step poly (residue poly E i) _ = _
    rw [hbefore, step_eq, shift_zero, BitVec.zero_xor,
      if_pos (decide_eq_true ((hmem i).mpr (.inl rfl)))]
  have hbetween : residue poly E j = (shift poly)^[j - i - 1] poly := by
    have hj : j = i + 1 + (j - i - 1) := by omega
    rw [residue, hj, feed_add]
    change feed poly (residue poly E (i + 1)) _ _ = _
    rw [hfirst, ← hj, ← feed_false]
    refine feed_congr poly poly fun e he => decide_eq_false fun hin => ?_
    have := (hmem _).mp hin
    omega
  have hsecond : residue poly E (j + 1) = (shift poly)^[j - i] poly ^^^ poly := by
    rw [residue, feed]
    change step poly (residue poly E j) _ = _
    rw [hbetween, step_eq, if_pos (decide_eq_true ((hmem j).mpr (.inr rfl))),
      ← Function.iterate_succ_apply' (shift poly), show (j - i - 1).succ = j - i by omega]
  rw [hsecond, BitVec.xor_eq_zero_iff]
  intro hround
  have hle : Function.minimalPeriod (shift poly) poly ≤ j - i :=
    Function.IsPeriodicPt.minimalPeriod_le (by omega) hround
  omega

/-! ## The number of errors -/

/-- The number of bits that are set, modulo 2. -/
def ones (reg : BitVec w) : ZMod 2 := ∑ i ∈ range w, if reg.getLsbD i then 1 else 0

theorem ones_zero : ones 0#w = 0 := by simp [ones]

theorem ones_xor (x y : BitVec w) : ones (x ^^^ y) = ones x + ones y := by
  rw [ones, ones, ones, ← sum_add_distrib]
  refine sum_congr rfl fun i _ => ?_
  rw [BitVec.getLsbD_xor]
  cases x.getLsbD i <;> cases y.getLsbD i <;> decide

theorem ones_ushiftRight (reg : BitVec w) :
    ones (reg >>> 1) = ones reg + if reg.getLsbD 0 then 1 else 0 := by
  have htwo : ∀ x y : ZMod 2, x = x + y + y := by decide
  have hsplit : ones reg = ones (reg >>> 1) + if reg.getLsbD 0 then 1 else 0 := by
    have htop : reg.getLsbD w = false := BitVec.getLsbD_of_ge reg w le_rfl
    calc ones reg
        = ∑ i ∈ range (w + 1), if reg.getLsbD i then (1 : ZMod 2) else 0 := by
          rw [sum_range_succ, htop, ones]
          simp
      _ = ones (reg >>> 1) + if reg.getLsbD 0 then 1 else 0 := by
          rw [sum_range_succ', ones]
          simp [BitVec.getLsbD_ushiftRight, Nat.add_comm]
  rw [hsplit]
  exact htwo _ _

theorem ones_step (hpoly : ones poly = 1) (reg : BitVec w) (bit : Bool) :
    ones (step poly reg bit) = ones reg + if bit then 1 else 0 := by
  have htwo : (1 : ZMod 2) + 1 = 0 := by decide
  rw [step]
  cases hlow : reg.getLsbD 0 <;> cases bit <;>
    simp [ones_xor, ones_ushiftRight, hlow, hpoly, add_assoc, htwo]

theorem ones_residue (hpoly : ones poly = 1) (n : ℕ) :
    ones (residue poly E n) = (#{e ∈ range n | e ∈ E} : ZMod 2) := by
  induction n with
  | zero => simp [residue, feed, ones_zero]
  | succ n ih =>
    rw [residue, feed, ones_step hpoly]
    change ones (residue poly E n) + _ = _
    rw [ih, range_add_one, filter_insert]
    by_cases he : n ∈ E
    · simp [he]
    · simp [he]

/-! ## What is detected -/

/-- Errors in a burst of `w` bits, two errors less than `period` apart, or an odd number of
errors. -/
def Detected (w period : ℕ) (E : Finset ℕ) : Prop :=
  (E.Nonempty ∧ ∃ i, E ⊆ Ico i (i + w)) ∨ (∃ i j, i < j ∧ j < i + period ∧ E = {i, j}) ∨ Odd #E

/-- A polynomial that detects all of these. -/
structure Strong (poly : BitVec w) (period : ℕ) : Prop where
  top : poly.getMsbD 0 = true
  ones : ones poly = 1
  period_le : period ≤ Function.minimalPeriod (shift poly) poly

namespace Strong

variable {period : ℕ}

theorem residue_ne (hpoly : Strong poly period) (hE : E ⊆ range n) (h : Detected w period E) :
    residue poly E n ≠ 0#w := by
  obtain ⟨hne, i, hburst⟩ | ⟨i, j, hij, hlt, hpair⟩ | hodd := h
  · exact residue_burst hpoly.top hE hne hburst
  · exact residue_pair hpoly.top hE hij hpair (by have := hpoly.period_le; omega)
  · intro hzero
    have hcard := ones_residue (E := E) hpoly.ones n
    rw [hzero, ones_zero, filter_mem_eq_inter, inter_eq_right.mpr hE, eq_comm,
      ZMod.natCast_eq_zero_iff_even] at hcard
    exact (Nat.not_even_iff_odd.mpr hodd) hcard

theorem feed_ne (hpoly : Strong poly period) (reg : BitVec w) {f g : ℕ → Bool}
    (h : Detected w period (errors f g n)) : feed poly reg f n ≠ feed poly reg g n := by
  rw [Ne, feed_eq_iff]
  exact hpoly.residue_ne (errors_subset f g n) h

end Strong

/-! ## Messages of bytes -/

/-- The bits of a message, the lowest bit of a byte first. -/
def messageBits (message : List (BitVec 8)) (i : ℕ) : Bool :=
  (message.getD (i / 8) 0#8).getLsbD (i % 8)

/-- The bits of a message, the highest bit of a byte first. -/
def messageBitsMsb (message : List (BitVec 8)) (i : ℕ) : Bool :=
  (message.getD (i / 8) 0#8).getMsbD (i % 8)

theorem bytes_eq_feed (poly reg : BitVec w) (message : List (BitVec 8)) :
    bytes poly reg message = feed poly reg (messageBits message) (8 * message.length) := by
  induction message generalizing reg with
  | nil => rfl
  | cons x message ih =>
    have hrest (j : ℕ) : messageBits (x :: message) (8 + j) = messageBits message j := by
      rw [messageBits, messageBits, show (8 + j) / 8 = j / 8 + 1 by omega,
        show (8 + j) % 8 = j % 8 by omega, List.getD_cons_succ]
    have hfirst : ∀ j < 8, messageBits (x :: message) j = x.getLsbD j := by
      intro j hj
      rw [messageBits, show j / 8 = 0 by omega, show j % 8 = j by omega, List.getD_cons_zero]
    change bytes poly (byte poly reg x) message = _
    rw [ih, List.length_cons, show 8 * (message.length + 1) = 8 + 8 * message.length by omega,
      feed_add, feed_congr poly reg hfirst]
    exact (feed_congr poly _ fun j _ => hrest j).symm

theorem bytesMsb_reverse (poly reg : BitVec w) (message : List (BitVec 8)) :
    bytesMsb poly reg.reverse (message.map BitVec.reverse) =
      (bytes poly.reverse reg message).reverse := by
  induction message generalizing reg with
  | nil => rfl
  | cons x message ih =>
    change bytesMsb poly (byteMsb poly reg.reverse x.reverse) (message.map BitVec.reverse) = _
    rw [byteMsb_reverse, ih]
    rfl

theorem messageBits_reverse (message : List (BitVec 8)) :
    messageBits (message.map BitVec.reverse) = messageBitsMsb message := by
  funext i
  have hget : (message.map BitVec.reverse).getD (i / 8) 0#8 =
      (message.getD (i / 8) 0#8).reverse := List.getD_map _ 0#8 BitVec.reverse
  rw [messageBits, messageBitsMsb, hget, BitVec.getLsbD_reverse]

section

variable {period : ℕ} {message message' : List (BitVec 8)}

theorem Strong.bytes_ne (hpoly : Strong poly period) (reg : BitVec w)
    (hlen : message'.length = message.length)
    (h : Detected w period
      (errors (messageBits message) (messageBits message') (8 * message.length))) :
    bytes poly reg message' ≠ bytes poly reg message := by
  rw [bytes_eq_feed, bytes_eq_feed, hlen]
  exact (hpoly.feed_ne reg h).symm

theorem bytes_eq_congr (reg reg' : BitVec w) (hlen : message'.length = message.length) :
    bytes poly reg message = bytes poly reg message' ↔
      bytes poly reg' message = bytes poly reg' message' := by
  rw [bytes_eq_feed, bytes_eq_feed, bytes_eq_feed, bytes_eq_feed, hlen, feed_eq_iff, feed_eq_iff]

theorem bytes_injective (hpoly : poly.getMsbD 0 = true) (message : List (BitVec 8)) :
    Function.Injective fun reg => bytes poly reg message := by
  intro reg reg' h
  have hzero (r : BitVec w) : bytes poly r message =
      (shift poly)^[8 * message.length] r ^^^ bytes poly 0#w message := by
    have hsum := feed_xor poly r 0#w (fun _ => false) (messageBits message) (8 * message.length)
    simp only [BitVec.xor_zero, Bool.false_xor] at hsum
    rw [bytes_eq_feed, bytes_eq_feed, ← feed_false, ← hsum]
  change bytes poly reg message = bytes poly reg' message at h
  rw [hzero reg, hzero reg', BitVec.xor_left_inj] at h
  exact (shift_injective hpoly).iterate _ h

theorem Strong.bytesMsb_ne (hpoly : Strong poly.reverse period) (reg : BitVec w)
    (hlen : message'.length = message.length)
    (h : Detected w period
      (errors (messageBitsMsb message) (messageBitsMsb message') (8 * message.length))) :
    bytesMsb poly reg message' ≠ bytesMsb poly reg message := by
  have hmirror (m : List (BitVec 8)) : bytesMsb poly reg m =
      (bytes poly.reverse reg.reverse (m.map BitVec.reverse)).reverse := by
    rw [← bytesMsb_reverse, BitVec.reverse_reverse_eq, List.map_map,
      show BitVec.reverse ∘ BitVec.reverse = id from funext fun x => BitVec.reverse_reverse_eq,
      List.map_id]
  have hinj : Function.Injective (BitVec.reverse (w := w)) :=
    Function.LeftInverse.injective fun x => BitVec.reverse_reverse_eq
  rw [hmirror, hmirror, hinj.ne_iff]
  refine hpoly.bytes_ne reg.reverse (by simpa using hlen) ?_
  rwa [messageBits_reverse, messageBits_reverse, List.length_map]

end

/-! ## CRC-16/CCITT -/

/-- `shift` of 0x8408 on numbers. -/
def shiftNat (x : ℕ) : ℕ := (x >>> 1) ^^^ (x % 2 * 0x8408)

/-- `f`, applied as often as a power of two. -/
def iterateTwoPow (f : ℕ → ℕ) : ℕ → ℕ → ℕ
  | 0, x => f x
  | k + 1, x => iterateTwoPow f k (iterateTwoPow f k x)

theorem iterateTwoPow_eq (f : ℕ → ℕ) (k x : ℕ) : iterateTwoPow f k x = f^[2 ^ k] x := by
  induction k generalizing x with
  | zero => rfl
  | succ k ih => rw [iterateTwoPow, ih, ih, ← Function.iterate_add_apply, ← two_mul, pow_succ']

theorem toNat_iterate_shift (reg : BitVec 16) (k : ℕ) :
    ((shift 0x8408#16)^[k] reg).toNat = shiftNat^[k] reg.toNat := by
  have hstep : Function.Semiconj BitVec.toNat (shift 0x8408#16) shiftNat := by
    intro x
    have hlow : x.getLsbD 0 = decide (x.toNat % 2 = 1) := by
      rw [BitVec.getLsbD, Nat.testBit_zero]
    rw [shift, step, Bool.xor_false, hlow, shiftNat]
    obtain h | h := Nat.mod_two_eq_zero_or_one x.toNat
    · simp [h]
    · simp [h]
  exact hstep.iterate_right k reg

/-- **The polynomial of CRC-16/CCITT, reflected, has a period of 32767.** The prime factors of
32767 are 7, 31 and 151. -/
theorem minimalPeriod_ccitt : Function.minimalPeriod (shift 0x8408#16) 0x8408#16 = 32767 := by
  have hround : shiftNat^[2 ^ 15] 0x8408 = shiftNat 0x8408 := by
    rw [← iterateTwoPow_eq]
    decide +kernel
  have hperiodic : Function.IsPeriodicPt (shift 0x8408#16) 32767 0x8408#16 := by
    apply shift_injective (rfl : (0x8408#16).getMsbD 0 = true)
    rw [← Function.iterate_succ_apply' (shift 0x8408#16)]
    apply BitVec.eq_of_toNat_eq
    exact (toNat_iterate_shift _ _).trans (hround.trans (toNat_iterate_shift 0x8408#16 1).symm)
  have hno (k : ℕ) (h : shiftNat^[k] 0x8408 ≠ 0x8408) :
      ¬Function.minimalPeriod (shift 0x8408#16) 0x8408#16 ∣ k := by
    intro hdvd
    have hk := (Function.isPeriodicPt_minimalPeriod (shift 0x8408#16) 0x8408#16).trans_dvd hdvd
    exact h ((toNat_iterate_shift 0x8408#16 k).symm.trans (congrArg BitVec.toNat hk))
  have h7 := hno (2 ^ 12 + (2 ^ 9 + (2 ^ 6 + (2 ^ 3 + 2 ^ 0)))) (by
    simp only [Function.iterate_add_apply, ← iterateTwoPow_eq]
    decide +kernel)
  have h31 := hno (2 ^ 10 + (2 ^ 5 + 2 ^ 0)) (by
    simp only [Function.iterate_add_apply, ← iterateTwoPow_eq]
    decide +kernel)
  have h151 := hno (2 ^ 7 + (2 ^ 6 + (2 ^ 4 + (2 ^ 3 + 2 ^ 0)))) (by
    simp only [Function.iterate_add_apply, ← iterateTwoPow_eq]
    decide +kernel)
  have hmem : Function.minimalPeriod (shift 0x8408#16) 0x8408#16 ∈ Nat.divisors 32767 :=
    Nat.mem_divisors.mpr ⟨hperiodic.minimalPeriod_dvd, by decide⟩
  generalize Function.minimalPeriod (shift 0x8408#16) 0x8408#16 = m at *
  have hall : ∀ m ∈ Nat.divisors 32767, m ∣ 4681 ∨ m ∣ 1057 ∨ m ∣ 217 ∨ m = 32767 := by
    decide +kernel
  obtain h | h | h | h := hall m hmem
  · exact absurd h h7
  · exact absurd h h31
  · exact absurd h h151
  · exact h

theorem strong_ccitt : Strong 0x8408#16 32767 where
  top := rfl
  ones := by decide
  period_le := minimalPeriod_ccitt.ge

end Crc
