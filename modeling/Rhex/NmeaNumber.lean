import Mathlib
import Rhex.NmeaFields

/-!
# The numbers in a sentence

`minmea_scan` keeps a number as its digits and a scale, a power of ten. It stops at the digits
that no longer fit into 31 bits.

* `NmeaNumber` — the text of a number.
* `scanFloat_number` — the digits that are kept.
* `scanFloat_close` — the number is exact up to a relative error of ten in 2^31.
* `scanFloat_overflow_iff` — the numbers for which the scale does not fit.
-/

namespace Rhex

open CString

/-! ## Digits -/

/-- `value` after some digits. -/
def digitsValue (ds : List UInt8) : ℤ := if ds = [] then -1 else decimal ds

namespace FloatScan

/-- The scan after some digits and no decimal point. -/
def whole (sign : ℤ) (ds : List UInt8) : FloatScan := ⟨sign, digitsValue ds, 0, scale_zero⟩

def decimals (sign : ℤ) (ds : List UInt8) (k : ℕ) (hk : k ≤ 9) : FloatScan :=
  ⟨sign, digitsValue ds, 10 ^ k, .inr ⟨k, hk, rfl⟩⟩

end FloatScan

/-- The digits of a number are digits. -/
def AllDigits (ds : List UInt8) : Prop := ∀ c ∈ ds, isdigit c = true

section

variable {ds es : List UInt8} {c : UInt8} {sign : ℤ}

theorem AllDigits.append (hds : AllDigits ds) (hes : AllDigits es) : AllDigits (ds ++ es) :=
  List.forall_mem_append.mpr ⟨hds, hes⟩

theorem out_of_bits_iff (n : ℕ) (d : ℕ) :
    (intLeast32Max - d) / 10 < (n : ℤ) ↔ intLeast32Max < ((10 * n + d : ℕ) : ℤ) := by
  rw [intLeast32Max]
  push_cast
  omega

theorem number_whole (sign : ℤ) (ds : List UInt8) :
    (FloatScan.whole sign ds).number = decimal ds := by
  by_cases h : ds = []
  · rw [h]
    rfl
  · have hvalue : (FloatScan.whole sign ds).value = decimal ds := if_neg h
    rw [FloatScan.number, hvalue, if_neg (by omega)]

theorem number_decimals (sign : ℤ) (ds : List UInt8) (k : ℕ) (hk : k ≤ 9) :
    (FloatScan.decimals sign ds k hk).number = decimal ds := number_whole sign ds

theorem digitsValue_concat (ds : List UInt8) (c : UInt8) :
    digitsValue (ds ++ [c]) = 10 * decimal ds + digit c := by
  rw [digitsValue, if_neg (by simp), decimal_concat]
  push_cast
  rfl

theorem floatDigit_whole (hfit : (decimal (ds ++ [c]) : ℤ) ≤ intLeast32Max) :
    floatDigit (.whole sign ds) (digit c) = .ok (.whole sign (ds ++ [c]), true) := by
  rw [decimal_concat, ← not_lt, ← out_of_bits_iff] at hfit
  have hscale : (FloatScan.whole sign ds).scale = 0 := rfl
  rw [floatDigit, number_whole, if_neg hfit, if_pos hscale, ← digitsValue_concat]
  rfl

/-- A decimal. -/
theorem floatDigit_decimals {k : ℕ} (hk : k + 1 ≤ 9)
    (hfit : (decimal (ds ++ [c]) : ℤ) ≤ intLeast32Max) :
    floatDigit (.decimals sign ds k (by omega)) (digit c) =
      .ok (.decimals sign (ds ++ [c]) (k + 1) hk, true) := by
  rw [decimal_concat, ← not_lt, ← out_of_bits_iff] at hfit
  have hpow : (FloatScan.decimals sign ds k (by omega)).scale ≠ 0 := by
    simp [FloatScan.decimals]
  have hle : (FloatScan.decimals sign ds k (by omega)).scale * 10 ≤ intLeast32Max := by
    have hk' : (10 : ℤ) ^ (k + 1) ≤ 10 ^ 9 := pow_le_pow_right₀ (by norm_num) hk
    rw [FloatScan.decimals, ← pow_succ, intLeast32Max]
    omega
  rw [floatDigit, number_decimals, if_neg hfit, if_neg hpow, dif_pos hle]
  simp only [FloatScan.decimals, ← digitsValue_concat, pow_succ]

/-- A decimal that does not fit. -/
theorem floatDigit_truncates {k : ℕ} (hk : k ≤ 9)
    (hfit : intLeast32Max < (decimal (ds ++ [c]) : ℤ)) :
    floatDigit (.decimals sign ds k hk) (digit c) = .ok (.decimals sign ds k hk, false) := by
  have hpow : (FloatScan.decimals sign ds k hk).scale ≠ 0 := by
    simp [FloatScan.decimals]
  have hne : ds ≠ [] := by
    rintro rfl
    rw [decimal_concat, intLeast32Max, digit, decimal_nil] at hfit
    have hlt := (c - '0'.toUInt8).toNat_lt
    omega
  rw [decimal_concat, ← out_of_bits_iff] at hfit
  rw [floatDigit, number_decimals, if_pos hfit, if_pos hpow]
  simp only [FloatScan.decimals, digitsValue, if_neg hne]

/-- A digit in a number. -/
theorem floatLoop_digit (st : FloatScan) (hc : isdigit c = true) (p : List UInt8) :
    floatLoop st (c :: p) = (do
      let (st, more) ← floatDigit st (digit c)
      if more then floatLoop st p else return st) := by
  have hplus : ¬(c = '+'.toUInt8 ∧ st.sign = 0 ∧ st.value = -1) := by
    rintro ⟨rfl, -⟩
    exact absurd hc (by decide)
  have hminus : ¬(c = '-'.toUInt8 ∧ st.sign = 0 ∧ st.value = -1) := by
    rintro ⟨rfl, -⟩
    exact absurd hc (by decide)
  have hfield : ¬minmeaIsfield c = false := by
    rw [isfield_of_isdigit hc]
    decide
  have hchar : floatChar st c = floatDigit st (digit c) := by
    rw [floatChar, if_neg hfield, if_neg hplus, if_neg hminus, if_pos hc]
  rw [floatLoop, hchar]

theorem floatLoop_whole (hes : AllDigits es) (hfit : (decimal (ds ++ es) : ℤ) ≤ intLeast32Max)
    (p : List UInt8) :
    floatLoop (.whole sign ds) (es ++ p) = floatLoop (.whole sign (ds ++ es)) p := by
  induction es generalizing ds with
  | nil => rw [List.append_nil, List.nil_append]
  | cons c es ih =>
    obtain ⟨hc, hes⟩ := List.forall_mem_cons.mp hes
    rw [List.append_cons] at hfit ⊢
    have hle : (decimal (ds ++ [c]) : ℤ) ≤ intLeast32Max :=
      le_trans (by exact_mod_cast decimal_le_append (ds ++ [c]) es) hfit
    rw [← ih hes hfit, List.cons_append, floatLoop_digit _ hc, floatDigit_whole hle]
    rfl

/-- Digits before the decimal point that do not fit. -/
theorem floatLoop_whole_parseError (hes : AllDigits es)
    (hfit : (decimal ds : ℤ) ≤ intLeast32Max) (hover : intLeast32Max < (decimal (ds ++ es) : ℤ))
    (p : List UInt8) : floatLoop (.whole sign ds) (es ++ p) = .error .parseError := by
  induction es generalizing ds with
  | nil =>
    rw [List.append_nil] at hover
    omega
  | cons c es ih =>
    obtain ⟨hc, hes⟩ := List.forall_mem_cons.mp hes
    rw [List.append_cons] at hover
    rw [List.cons_append, floatLoop_digit _ hc]
    by_cases hfit' : (decimal (ds ++ [c]) : ℤ) ≤ intLeast32Max
    · rw [floatDigit_whole hfit']
      exact ih hes hfit' hover
    · have hscale : (FloatScan.whole sign ds).scale = 0 := rfl
      rw [not_le, decimal_concat, ← out_of_bits_iff] at hfit'
      rw [floatDigit, number_whole, if_pos hfit', if_neg (not_not.mpr hscale)]
      rfl

/-- The decimals that are kept: as many as fit. -/
structure KeptDigits (int frac : List UInt8) (j : ℕ) : Prop where
  le_length : j ≤ frac.length
  fits : (decimal (int ++ frac.take j) : ℤ) ≤ intLeast32Max
  maximal : j < frac.length → intLeast32Max < (decimal (int ++ frac.take (j + 1)) : ℤ)

/-- The scale of ten decimals is not needed: there are not as many, or their digits do not fit. -/
def ScaleFits (int frac : List UInt8) (k : ℕ) : Prop :=
  10 ≤ k + frac.length → intLeast32Max < (decimal (int ++ frac.take (10 - k)) : ℤ)

theorem floatDigit_overflow (hfit : (decimal (ds ++ [c]) : ℤ) ≤ intLeast32Max) :
    floatDigit (.decimals sign ds 9 le_rfl) (digit c) = .error .overflow := by
  rw [decimal_concat, ← not_lt, ← out_of_bits_iff] at hfit
  have hpow : (FloatScan.decimals sign ds 9 le_rfl).scale ≠ 0 := by
    simp [FloatScan.decimals]
  have hlt : ¬(FloatScan.decimals sign ds 9 le_rfl).scale * 10 ≤ intLeast32Max := by
    rw [show (FloatScan.decimals sign ds 9 le_rfl).scale = 10 ^ 9 from rfl, intLeast32Max]
    decide
  rw [floatDigit, number_decimals, if_neg hfit, if_neg hpow, dif_neg hlt]

/-- The digits behind the decimal point. -/
theorem floatLoop_decimals {k : ℕ} (hk : k ≤ 9) (hes : AllDigits es)
    (hfit : (decimal ds : ℤ) ≤ intLeast32Max) {r : List UInt8} (hr : FieldEnd r) :
    (ScaleFits ds es k → ∃ j, ∃ hj : k + j ≤ 9, KeptDigits ds es j ∧
      floatLoop (.decimals sign ds k hk) (es ++ r) =
        .ok (.decimals sign (ds ++ es.take j) (k + j) hj)) ∧
    (¬ScaleFits ds es k → floatLoop (.decimals sign ds k hk) (es ++ r) = .error .overflow) := by
  induction es generalizing ds k with
  | nil =>
    have hfits : ScaleFits ds [] k := fun h => by
      rw [List.length_nil] at h
      omega
    refine ⟨fun _ => ⟨0, by omega, ⟨le_rfl, by simpa using hfit, by simp⟩, ?_⟩,
      fun h => absurd hfits h⟩
    obtain ⟨c, r, rfl, hc, -⟩ := hr.exists_cons
    rw [List.nil_append, floatLoop, floatChar, if_pos hc, List.take_nil, List.append_nil]
    rfl
  | cons c es ih =>
    obtain ⟨hc, hes⟩ := List.forall_mem_cons.mp hes
    have htake : ∀ i, ds ++ (c :: es).take (i + 1) = ds ++ [c] ++ es.take i := by simp
    rw [List.cons_append, floatLoop_digit _ hc]
    by_cases hfit' : (decimal (ds ++ [c]) : ℤ) ≤ intLeast32Max
    · rcases hk.eq_or_lt with rfl | hk9
      · -- the scale is multiplied by ten once more than it may
        have hnot : ¬ScaleFits ds (c :: es) 9 := by
          intro h
          have hmax := h (by rw [List.length_cons]; omega)
          rw [htake, List.take_zero, List.append_nil] at hmax
          omega
        refine ⟨fun h => absurd h hnot, fun _ => ?_⟩
        rw [floatDigit_overflow hfit']
        rfl
      · have hk1 : k + 1 ≤ 9 := hk9
        have hscale : ScaleFits ds (c :: es) k ↔ ScaleFits (ds ++ [c]) es (k + 1) := by
          rw [ScaleFits, ScaleFits, List.length_cons, show 10 - k = 10 - (k + 1) + 1 by omega,
            htake, Nat.add_right_comm k 1, ← Nat.add_assoc k]
        obtain ⟨hkeep, hover⟩ := ih hk1 hes hfit'
        rw [floatDigit_decimals hk1 hfit', hscale]
        refine ⟨fun h => ?_, hover⟩
        obtain ⟨j, hj, hkept, hloop⟩ := hkeep h
        refine ⟨j + 1, by omega, ⟨Nat.succ_le_succ hkept.le_length, ?_, ?_⟩, ?_⟩
        · rw [htake]
          exact hkept.fits
        · rw [htake, List.length_cons]
          exact fun h => hkept.maximal (by omega)
        · rw [htake]
          simp only [Nat.add_assoc k 1 j, Nat.add_comm 1 j] at hloop
          exact hloop
    · rw [not_le] at hfit'
      have hfits : ScaleFits ds (c :: es) k := by
        intro _
        obtain ⟨i, hi⟩ : ∃ i, 10 - k = i + 1 := ⟨9 - k, by omega⟩
        rw [hi, htake]
        exact lt_of_lt_of_le hfit' (by exact_mod_cast decimal_le_append _ _)
      refine ⟨fun _ => ?_, fun h => absurd hfits h⟩
      rw [floatDigit_truncates hk hfit']
      refine ⟨0, by omega, ⟨Nat.zero_le _, by simpa using hfit, by simpa using hfit'⟩, ?_⟩
      rw [List.take_zero, List.append_nil]
      rfl

end

/-! ## Numbers -/

/-- The text of a number: blanks, a sign, digits, and decimals behind a point. -/
structure NmeaNumber where
  blanks : ℕ
  /-- whether there is a sign, and a negative one -/
  sign : Option Bool
  int : List UInt8
  /-- none if there is no point -/
  frac : Option (List UInt8)
  int_digits : AllDigits int
  frac_digits : AllDigits (frac.getD [])
  ne_nil : int ++ frac.getD [] ≠ []

namespace NmeaNumber

/-- `+` or `-` -/
def signText : Option Bool → List UInt8
  | none => []
  | some negative => [if negative then '-'.toUInt8 else '+'.toUInt8]

/-- `sign` after the sign. -/
def signValue : Option Bool → ℤ
  | none => 0
  | some negative => if negative then -1 else 1

def factor (n : NmeaNumber) : ℤ := if n.sign = some true then -1 else 1

def decimals (n : NmeaNumber) : List UInt8 := n.frac.getD []

/-- The text of the point and the decimals. -/
def fracText : Option (List UInt8) → List UInt8
  | none => []
  | some frac => '.'.toUInt8 :: frac

def text (n : NmeaNumber) : List UInt8 :=
  List.replicate n.blanks ' '.toUInt8 ++ (signText n.sign ++ (n.int ++ fracText n.frac))

/-- The number that the text denotes. -/
def value (n : NmeaNumber) : ℚ :=
  n.factor * decimal (n.int ++ n.decimals) / 10 ^ n.decimals.length

/-- The scale that the decimals need fits into 31 bits. -/
def ScaleFits (n : NmeaNumber) : Prop := Rhex.ScaleFits n.int n.decimals 0

/-- `f` is the number up to its first `j` decimals. -/
structure Scanned (n : NmeaNumber) (j : ℕ) (f : MinmeaFloat) : Prop where
  kept : KeptDigits n.int n.decimals j
  value : f.value.toInt = n.factor * decimal (n.int ++ n.decimals.take j)
  scale : f.scale.toInt = 10 ^ j

end NmeaNumber

theorem floatLoop_blanks (b : ℕ) (p : List UInt8) :
    floatLoop .start (List.replicate b ' '.toUInt8 ++ p) = floatLoop .start p := by
  induction b with
  | zero => rfl
  | succ b ih =>
    rw [List.replicate_succ, List.cons_append, ← ih]
    rfl

theorem floatLoop_sign (sign : Option Bool) (p : List UInt8) :
    floatLoop .start (NmeaNumber.signText sign ++ p) =
      floatLoop (.whole (NmeaNumber.signValue sign) []) p := by
  rcases sign with _ | _ | _ <;> rfl

theorem floatLoop_point (sign : ℤ) (ds p : List UInt8) :
    floatLoop (.whole sign ds) ('.'.toUInt8 :: p) =
      floatLoop (.decimals sign ds 0 (Nat.zero_le 9)) p := by
  rfl

/-- What is stored after some digits. -/
theorem floatResult_stores {st : FloatScan} {ds : List UInt8} {sign : Option Bool} {k : ℕ}
    (hsign : st.sign = NmeaNumber.signValue sign) (hvalue : st.value = digitsValue ds)
    (hk : k ≤ 9) (hscale : st.scale = 0 ∧ k = 0 ∨ st.scale = 10 ^ k) (hne : ds ≠ [])
    (hfit : (decimal ds : ℤ) ≤ intLeast32Max) :
    ∃ f, floatResult st = .ok f ∧
      f.value.toInt = (if sign = some true then -1 else 1) * decimal ds ∧
      f.scale.toInt = 10 ^ k := by
  rw [digitsValue, if_neg hne] at hvalue
  have hpos : st.value ≠ -1 := by omega
  have hfactor : (if st.sign ≠ 0 then st.value * st.sign else st.value) =
      (if sign = some true then -1 else 1) * decimal ds := by
    rw [hsign, hvalue]
    rcases sign with _ | _ | _ <;> simp [NmeaNumber.signValue]
  have hval : (Int32.ofInt (if st.sign ≠ 0 then st.value * st.sign else st.value)).toInt =
      (if sign = some true then -1 else 1) * decimal ds := by
    rw [hfactor]
    rw [intLeast32Max] at hfit
    apply Int32.toInt_ofInt_of_le
    · split_ifs <;> omega
    · split_ifs <;> omega
  rw [floatResult, if_neg (fun h => hpos h.2), if_neg hpos]
  obtain ⟨h0, rfl⟩ | h10 := hscale
  · rw [if_pos h0]
    exact ⟨_, rfl, hval, rfl⟩
  · have h0 : st.scale ≠ 0 := by
      rw [h10]
      positivity
    have hle : (10 : ℤ) ^ k ≤ 10 ^ 9 := pow_le_pow_right₀ (by norm_num) hk
    have hpow : (0 : ℤ) < 10 ^ k := by positivity
    rw [if_neg h0]
    refine ⟨_, rfl, hval, ?_⟩
    rw [← h10] at hle hpow ⊢
    exact Int32.toInt_ofInt_of_le (by omega) (by omega)

theorem KeptDigits.ne_nil {int frac : List UInt8} {j : ℕ} (h : KeptDigits int frac j)
    (hne : int ++ frac ≠ []) : int ++ frac.take j ≠ [] := by
  intro hnil
  obtain ⟨rfl, htake⟩ := List.append_eq_nil_iff.mp hnil
  rw [List.nil_append] at hne
  obtain ⟨c, frac, rfl⟩ := List.exists_cons_of_ne_nil hne
  obtain rfl : j = 0 := by
    cases j with
    | zero => rfl
    | succ j => cases htake
  have hmax := h.maximal (Nat.succ_pos _)
  have hlt := (c - '0'.toUInt8).toNat_lt
  rw [List.take_succ_cons, List.take_zero, decimal_concat, intLeast32Max, digit,
    decimal_nil] at hmax
  omega

theorem scanFloat_text (n : NmeaNumber) (r : List UInt8)
    (hfit : (decimal n.int : ℤ) ≤ intLeast32Max) :
    scanFloat (some (n.text ++ r)) = (do
      let st ← floatLoop (.whole (NmeaNumber.signValue n.sign) n.int)
        (NmeaNumber.fracText n.frac ++ r)
      floatResult st) := by
  rw [scanFloat, NmeaNumber.text, List.append_assoc, floatLoop_blanks, List.append_assoc,
    floatLoop_sign, List.append_assoc, floatLoop_whole n.int_digits (by simpa using hfit),
    List.nil_append]

theorem scanFloat_parseError (n : NmeaNumber) (r : List UInt8)
    (hover : intLeast32Max < (decimal n.int : ℤ)) :
    scanFloat (some (n.text ++ r)) = .error .parseError := by
  rw [scanFloat, NmeaNumber.text, List.append_assoc, floatLoop_blanks, List.append_assoc,
    floatLoop_sign, List.append_assoc,
    floatLoop_whole_parseError n.int_digits (show (decimal [] : ℤ) ≤ intLeast32Max by decide) hover]
  rfl

/-- A number whose integer part fits into 31 bits is scanned up to the last of its decimals with
which its digits do. -/
theorem scanFloat_number (n : NmeaNumber) {r : List UInt8} (hr : FieldEnd r)
    (hfit : (decimal n.int : ℤ) ≤ intLeast32Max) (hscale : n.ScaleFits) :
    ∃ j f, scanFloat (some (n.text ++ r)) = .ok f ∧ n.Scanned j f := by
  have hne := n.ne_nil
  rw [scanFloat_text n r hfit]
  cases hfrac : n.frac with
  | none =>
    have hdec : n.decimals = [] := by rw [NmeaNumber.decimals, hfrac]; rfl
    have hkept : KeptDigits n.int n.decimals 0 :=
      ⟨Nat.zero_le _, by simpa using hfit, by simp [hdec]⟩
    have hloop : floatLoop (.whole (NmeaNumber.signValue n.sign) n.int) r =
        .ok (.whole (NmeaNumber.signValue n.sign) n.int) := by
      obtain ⟨c, r, rfl, hc, -⟩ := hr.exists_cons
      rw [floatLoop, floatChar, if_pos hc]
      rfl
    rw [hfrac, Option.getD_none, List.append_nil] at hne
    obtain ⟨f, hf, hvalue, hone⟩ := @floatResult_stores
      (.whole (NmeaNumber.signValue n.sign) n.int) n.int n.sign 0 rfl rfl (by omega)
      (.inl ⟨rfl, rfl⟩) hne hfit
    refine ⟨0, f, ?_, hkept, by rw [hdec, List.take_nil, List.append_nil]; exact hvalue, hone⟩
    rw [NmeaNumber.fracText, List.nil_append, hloop]
    exact hf
  | some frac =>
    have hdec : n.decimals = frac := by rw [NmeaNumber.decimals, hfrac]; rfl
    have hdigits := n.frac_digits
    rw [hfrac, Option.getD_some] at hdigits hne
    rw [NmeaNumber.ScaleFits, hdec] at hscale
    obtain ⟨j, hj, hkept, hloop⟩ := (floatLoop_decimals (Nat.zero_le 9) hdigits hfit hr).1 hscale
    simp only [Nat.zero_add] at hloop hj
    obtain ⟨f, hf, hvalue, hpow⟩ := @floatResult_stores
      (.decimals (NmeaNumber.signValue n.sign) (n.int ++ frac.take j) j hj) _ n.sign j rfl rfl hj
      (.inr rfl) (hkept.ne_nil hne) hkept.fits
    refine ⟨j, f, ?_, hdec ▸ hkept, by rw [hdec]; exact hvalue, hpow⟩
    rw [NmeaNumber.fracText, List.cons_append, floatLoop_point, hloop]
    exact hf

/-- **Scanning a number overflows `scale` exactly when it has ten decimals at least and its digits
up to the tenth decimal fit into 31 bits.** -/
theorem scanFloat_overflow_iff (n : NmeaNumber) (r : List UInt8) (hr : FieldEnd r) :
    scanFloat (some (n.text ++ r)) = .error .overflow ↔
      10 ≤ n.decimals.length ∧ (decimal (n.int ++ n.decimals.take 10) : ℤ) ≤ intLeast32Max := by
  have hscale : n.ScaleFits ↔ ¬(10 ≤ n.decimals.length ∧
      (decimal (n.int ++ n.decimals.take 10) : ℤ) ≤ intLeast32Max) := by
    rw [not_and, not_le, NmeaNumber.ScaleFits, ScaleFits, Nat.zero_add]
  constructor
  · intro hover
    by_contra hnot
    by_cases hfit : (decimal n.int : ℤ) ≤ intLeast32Max
    · obtain ⟨j, f, hok, -⟩ := scanFloat_number n hr hfit (hscale.mpr hnot)
      cases hover.symm.trans hok
    · cases hover.symm.trans (scanFloat_parseError n r (not_le.mp hfit))
  · intro hten
    have hfit : (decimal n.int : ℤ) ≤ intLeast32Max :=
      le_trans (by exact_mod_cast decimal_le_append n.int _) hten.2
    have hnot : ¬ScaleFits n.int n.decimals 0 := fun h => hscale.mp h hten
    cases hfrac : n.frac with
    | none =>
      have hdec : n.decimals = [] := by rw [NmeaNumber.decimals, hfrac]; rfl
      rw [hdec] at hten
      exact absurd hten.1 (by decide)
    | some frac =>
      have hdec : n.decimals = frac := by rw [NmeaNumber.decimals, hfrac]; rfl
      have hdigits := n.frac_digits
      rw [hfrac, Option.getD_some] at hdigits
      rw [hdec] at hnot
      rw [scanFloat_text n r hfit, hfrac, NmeaNumber.fracText, List.cons_append, floatLoop_point,
        (floatLoop_decimals (Nat.zero_le 9) hdigits hfit hr).2 hnot]
      rfl

/-- `0.0000000001` -/
def tenDecimals : NmeaNumber :=
  ⟨0, none, [0x30], some (List.replicate 9 0x30 ++ [0x31]), List.all_iff_forall_prop.mp rfl,
    List.all_iff_forall_prop.mp rfl, by decide⟩

/-- The last of ten decimals. -/
theorem scanFloat_overflow_iff_ten :
    scanFloat (some (tenDecimals.text ++ [0])) = .error .overflow ↔
      10 ≤ tenDecimals.decimals.length ∧
        (decimal (tenDecimals.int ++ tenDecimals.decimals.take 10) : ℤ) ≤ intLeast32Max :=
  scanFloat_overflow_iff tenDecimals [0] fieldEnd_zero

/-! ## The error -/

theorem decimal_append_drop (int frac : List UInt8) (j : ℕ) :
    decimal (int ++ frac) =
      decimal (int ++ frac.take j) * 10 ^ (frac.drop j).length + decimal (frac.drop j) := by
  rw [← decimal_append, List.append_assoc, List.take_append_drop]

/-- The digits that are not kept. -/
theorem KeptDigits.dropped_le {int frac : List UInt8} {j : ℕ} (h : KeptDigits int frac j)
    (hfrac : AllDigits frac) : decimal (frac.drop j) * 2 ^ 31 ≤ decimal (int ++ frac) * 10 := by
  rcases h.le_length.eq_or_lt with rfl | hlt
  · simp
  · have hmax := h.maximal hlt
    rw [intLeast32Max] at hmax
    have hmax' : 2 ^ 31 ≤ decimal (int ++ frac.take (j + 1)) := by omega
    have hdrop : decimal (frac.drop j) < 10 ^ (frac.drop j).length :=
      decimal_lt fun c hc => hfrac c (List.mem_of_mem_drop hc)
    have hlen : (frac.drop j).length = (frac.drop (j + 1)).length + 1 := by
      rw [List.length_drop, List.length_drop]
      omega
    rw [hlen] at hdrop
    calc decimal (frac.drop j) * 2 ^ 31
        ≤ 10 ^ ((frac.drop (j + 1)).length + 1) * decimal (int ++ frac.take (j + 1)) :=
          Nat.mul_le_mul hdrop.le hmax'
      _ = decimal (int ++ frac.take (j + 1)) * 10 ^ (frac.drop (j + 1)).length * 10 := by ring
      _ ≤ decimal (int ++ frac) * 10 := by
          rw [decimal_append_drop int frac (j + 1)]
          exact Nat.mul_le_mul_right 10 (Nat.le_add_right _ _)

namespace NmeaNumber

theorem abs_factor (n : NmeaNumber) : |(n.factor : ℚ)| = 1 := by
  unfold factor
  split_ifs <;> simp

theorem Scanned.value_sub {n : NmeaNumber} {j : ℕ} {f : MinmeaFloat} (h : n.Scanned j f) :
    n.value - f.value.toInt / f.scale.toInt =
      n.factor * (decimal (n.decimals.drop j) / 10 ^ n.decimals.length) := by
  have hlen : n.decimals.length = j + (n.decimals.drop j).length := by
    have hle := h.kept.le_length
    rw [List.length_drop]
    omega
  rw [NmeaNumber.value, h.value, h.scale, decimal_append_drop n.int n.decimals j, hlen, pow_add]
  push_cast
  field_simp
  ring

/-- **The number that is stored is exact if its digits fit into 31 bits, and otherwise has a
relative error of ten in 2^31 at most.** -/
theorem scanFloat_close (n : NmeaNumber) (r : List UInt8) (hr : FieldEnd r)
    (hfit : (decimal n.int : ℤ) ≤ intLeast32Max) (hscale : n.ScaleFits) :
    ∃ f x, scanFloat (some (n.text ++ r)) = .ok f ∧ f.tofloat = some x ∧
      |n.value - x| ≤ |n.value| * (10 / 2 ^ 31) ∧
      ((decimal (n.int ++ n.decimals) : ℤ) ≤ intLeast32Max → x = n.value) := by
  obtain ⟨j, f, hscan, hf⟩ := scanFloat_number n hr hfit hscale
  have hpow : f.scale ≠ 0 := by
    intro h0
    have h10 := hf.scale
    rw [h0] at h10
    exact absurd h10.symm (by positivity)
  refine ⟨f, f.value.toInt / f.scale.toInt, hscan, ?_, ?_, ?_⟩
  · rw [MinmeaFloat.tofloat, if_neg hpow]
  · have habs : |n.value| = decimal (n.int ++ n.decimals) / 10 ^ n.decimals.length := by
      rw [value, mul_div_assoc, abs_mul, abs_factor, one_mul]
      exact abs_of_nonneg (by positivity)
    have hcast : (decimal (n.decimals.drop j) : ℚ) * 2 ^ 31 ≤
        decimal (n.int ++ n.decimals) * 10 := by
      exact_mod_cast hf.kept.dropped_le n.frac_digits
    rw [hf.value_sub, abs_mul, abs_factor, one_mul, habs, abs_of_nonneg (by positivity),
      div_mul_div_comm, div_le_div_iff₀ (by positivity) (by positivity)]
    calc (decimal (n.decimals.drop j) : ℚ) * (10 ^ n.decimals.length * 2 ^ 31)
        = decimal (n.decimals.drop j) * 2 ^ 31 * 10 ^ n.decimals.length := by ring
      _ ≤ (decimal (n.int ++ n.decimals) : ℚ) * 10 * 10 ^ n.decimals.length :=
          mul_le_mul_of_nonneg_right hcast (by positivity)
  · intro hall
    have hj : j = n.decimals.length := by
      refine hf.kept.le_length.antisymm (not_lt.mp fun hlt => ?_)
      have hmax := hf.kept.maximal hlt
      have hle := decimal_le_append (n.int ++ n.decimals.take (j + 1)) (n.decimals.drop (j + 1))
      rw [List.append_assoc, List.take_append_drop] at hle
      omega
    have hsub := hf.value_sub
    rw [hj, List.drop_length, decimal_nil, Nat.cast_zero, zero_div, mul_zero, sub_eq_zero] at hsub
    exact hsub.symm

/-- `12.5` -/
def twelveAndHalf : NmeaNumber :=
  ⟨0, none, [0x31, 0x32], some [0x35], List.all_iff_forall_prop.mp rfl,
    List.all_iff_forall_prop.mp rfl, by decide⟩

/-- A number with few digits. -/
theorem scanFloat_close_fraction :
    ∃ f x, scanFloat (some (twelveAndHalf.text ++ [0])) = .ok f ∧ f.tofloat = some x ∧
      |twelveAndHalf.value - x| ≤ |twelveAndHalf.value| * (10 / 2 ^ 31) ∧
      ((decimal (twelveAndHalf.int ++ twelveAndHalf.decimals) : ℤ) ≤ intLeast32Max →
        x = twelveAndHalf.value) :=
  scanFloat_close twelveAndHalf [0] fieldEnd_zero (by decide) (fun h => absurd h (by decide))

end NmeaNumber

end Rhex
