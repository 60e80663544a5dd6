import Mathlib
import Rhex.Lib.CString

/-!
# The check of a sentence

A sentence is `$`, the text, and then `*` and two hexadecimal digits, the exclusive or of all
bytes of the text. `parse_line` asks `minmea_check` first, and not strictly: a sentence may come
without a checksum.

* `minmeaCheck` — it has no result when it reads behind the string.
* `NmeaText` — a sentence that is well formed.
* `minmeaCheck_iff` — exactly the well formed sentences are accepted.
* `minmeaCheck_corrupt` — a sentence with a checksum is not accepted with another byte.
-/

namespace Rhex

open CString

/-! ## The check -/

/-- `MINMEA_MAX_LENGTH` -/
def minmeaMaxLength : ℕ := 80

/-- `hex2int`, with no result where the code returns -1. -/
def hex2int (c : UInt8) : Option UInt8 :=
  if '0'.toUInt8 ≤ c ∧ c ≤ '9'.toUInt8 then some (c - '0'.toUInt8)
  else if 'A'.toUInt8 ≤ c ∧ c ≤ 'F'.toUInt8 then some (c - 'A'.toUInt8 + 10)
  else if 'a'.toUInt8 ≤ c ∧ c ≤ 'f'.toUInt8 then some (c - 'a'.toUInt8 + 10)
  else none

/-- The loop over the bytes between `$` and `*`: the checksum, and the rest. -/
def checksumLoop : List UInt8 → UInt8 → Option (UInt8 × List UInt8)
  | [], _ => none
  | c :: sentence, checksum =>
    if c ≠ 0 ∧ c ≠ '*'.toUInt8 ∧ isprint c then checksumLoop sentence (checksum ^^^ c)
    else some (checksum, c :: sentence)

/-- The end of `minmea_check`: the only stuff allowed is a newline. -/
def checkLineEnd (sentence : List UInt8) : Option Bool := do
  let c ← sentence.head?
  if c = 0 then
    return true
  else
    let lf ← strcmpEq sentence ['\n'.toUInt8, 0]
    let crlf ← strcmpEq sentence ['\r'.toUInt8, '\n'.toUInt8, 0]
    return lf || crlf

/-- The check of the digits behind `*`, and of what follows. -/
def checkDigits (checksum : UInt8) (sentence : List UInt8) : Option Bool := do
  let c ← sentence.head?
  match hex2int c with
  | none => return false
  | some upper =>
    let d ← sentence.tail.head?
    match hex2int d with
    | none => return false
    | some lower =>
      if checksum ≠ upper <<< 4 ||| lower then return false
      else checkLineEnd sentence.tail.tail

/-- `minmea_check` -/
def minmeaCheck (sentence : List UInt8) (strict : Bool) : Option Bool := do
  let len ← strlen sentence
  if minmeaMaxLength + 3 < len then
    return false
  else
    let c ← sentence.head?
    if c ≠ '$'.toUInt8 then
      return false
    else
      let (checksum, sentence) ← checksumLoop sentence.tail 0
      let c ← sentence.head?
      if c = '*'.toUInt8 then checkDigits checksum sentence.tail
      else if strict then return false
      else checkLineEnd sentence

/-! ## Well formed sentences -/

/-- The exclusive or of all bytes. -/
def xorBytes (body : List UInt8) : UInt8 := body.foldl (· ^^^ ·) 0

/-- A byte that may stand between `$` and `*`. -/
def InBody (c : UInt8) : Prop := isprint c = true ∧ c ≠ '*'.toUInt8

instance (c : UInt8) : Decidable (InBody c) := inferInstanceAs (Decidable (_ ∧ _))

/-- The line ends that a sentence may have. -/
def nmeaLineEnds : List (List UInt8) := [[], ['\n'.toUInt8], ['\r'.toUInt8, '\n'.toUInt8]]

theorem nil_mem_nmeaLineEnds : [] ∈ nmeaLineEnds := List.mem_cons_self

/-- The two digits of a checksum. -/
def Hexadecimal (digits : UInt8 × UInt8) (checksum : UInt8) : Prop :=
  ∃ upper lower, hex2int digits.1 = some upper ∧ hex2int digits.2 = some lower ∧
    checksum = upper <<< 4 ||| lower

/-- `*` and the digits. -/
def sumText : Option (UInt8 × UInt8) → List UInt8
  | none => []
  | some (upper, lower) => ['*'.toUInt8, upper, lower]

/-- The check has a result, which is whether `P`. -/
def Decides (r : Option Bool) (P : Prop) : Prop := ∃ b, r = some b ∧ (b = true ↔ P)

/-- A sentence: what stands behind `$`, the digits of the checksum if there is one, and the line
end. -/
structure NmeaText where
  body : List UInt8
  digits : Option (UInt8 × UInt8)
  lineEnd : List UInt8
  body_print : ∀ c ∈ body, InBody c
  checksum : ∀ ds, digits = some ds → Hexadecimal ds (xorBytes body)
  lineEnd_mem : lineEnd ∈ nmeaLineEnds
  length_le : (sumText digits).length + body.length + lineEnd.length ≤ 82

def NmeaText.text (t : NmeaText) : List UInt8 :=
  '$'.toUInt8 :: (t.body ++ (sumText t.digits ++ t.lineEnd))

/-! ## The parts of the check -/

theorem xorBytes_append (xs ys : List UInt8) :
    xorBytes (xs ++ ys) = ys.foldl (· ^^^ ·) (xorBytes xs) := List.foldl_append

theorem foldl_xor (ys : List UInt8) (x : UInt8) :
    ys.foldl (· ^^^ ·) x = x ^^^ xorBytes ys := by
  induction ys using List.reverseRecOn with
  | nil => simp [xorBytes]
  | append_singleton ys y ih =>
    rw [List.foldl_append, ih, xorBytes_append]
    simp [UInt8.xor_assoc]

theorem InBody.ne_zero {c : UInt8} (h : InBody c) : c ≠ 0 := ne_zero_of_isprint h.1

theorem checksumLoop_append {body rest : List UInt8} {c : UInt8} (hbody : ∀ x ∈ body, InBody x)
    (hc : ¬InBody c) (checksum : UInt8) :
    checksumLoop (body ++ c :: rest) checksum =
      some (body.foldl (· ^^^ ·) checksum, c :: rest) := by
  induction body generalizing checksum with
  | nil =>
    rw [List.nil_append, checksumLoop, if_neg]
    · rfl
    · exact fun h => hc ⟨h.2.2, h.2.1⟩
  | cons x body ih =>
    have hx := hbody x List.mem_cons_self
    rw [List.cons_append, checksumLoop, if_pos ⟨hx.ne_zero, hx.2, hx.1⟩,
      ih fun y hy => hbody y (List.mem_cons_of_mem x hy)]
    rfl

theorem checkLineEnd_eq {s : List UInt8} (h : 0 ∉ s) :
    checkLineEnd (s ++ [0]) = some (decide (s ∈ nmeaLineEnds)) := by
  have hlf := strcmpEq_eq h (show 0 ∉ ['\n'.toUInt8] by decide)
  have hcrlf := strcmpEq_eq h (show 0 ∉ ['\r'.toUInt8, '\n'.toUInt8] by decide)
  simp only [List.cons_append, List.nil_append] at hlf hcrlf
  rw [checkLineEnd, hlf, hcrlf]
  cases s with
  | nil => rfl
  | cons c s =>
    rw [List.mem_cons, not_or] at h
    simp [nmeaLineEnds, Ne.symm h.1]

/-- The digits and the line end are accepted exactly when they are well formed. -/
theorem checkDigits_decides {s : List UInt8} (h : 0 ∉ s) (checksum : UInt8) :
    Decides (checkDigits checksum (s ++ [0]))
      (∃ ds e, s = ds.1 :: ds.2 :: e ∧ Hexadecimal ds checksum ∧ e ∈ nmeaLineEnds) := by
  have hzero : hex2int 0 = none := rfl
  rcases s with _ | ⟨c, _ | ⟨d, e⟩⟩
  · refine ⟨false, rfl, iff_of_false Bool.false_ne_true ?_⟩
    rintro ⟨ds, e, hs, -⟩
    exact List.cons_ne_nil _ _ hs.symm
  · refine ⟨false, ?_, iff_of_false Bool.false_ne_true ?_⟩
    · cases hc : hex2int c <;> simp [checkDigits, hc, hzero]
    · rintro ⟨ds, e, hs, -⟩
      simp at hs
  · rw [List.mem_cons, List.mem_cons, not_or, not_or] at h
    have hsplit : (∃ ds e', c :: d :: e = ds.1 :: ds.2 :: e' ∧ Hexadecimal ds checksum ∧
        e' ∈ nmeaLineEnds) ↔ Hexadecimal (c, d) checksum ∧ e ∈ nmeaLineEnds := by
      constructor
      · rintro ⟨ds, e', hs, hhex, he⟩
        obtain ⟨rfl, rfl, rfl⟩ : c = ds.1 ∧ d = ds.2 ∧ e = e' := by simpa using hs
        exact ⟨hhex, he⟩
      · rintro ⟨hhex, he⟩
        exact ⟨(c, d), e, rfl, hhex, he⟩
    rw [hsplit, Hexadecimal]
    simp only [checkDigits, List.cons_append, List.head?_cons, List.tail_cons,
      Option.bind_eq_bind, Option.bind_some]
    cases hc : hex2int c with
    | none => exact ⟨false, rfl, by simp⟩
    | some upper =>
      cases hd : hex2int d with
      | none => exact ⟨false, rfl, by simp⟩
      | some lower =>
        by_cases hsum : checksum = upper <<< 4 ||| lower
        · rw [checkLineEnd_eq h.2.2]
          exact ⟨_, if_neg (not_not.mpr hsum), by simp [hsum]⟩
        · exact ⟨false, if_pos hsum, by simp [hsum]⟩

/-! ## The check of a sentence -/

theorem exists_body (s : List UInt8) :
    ∃ body rest, s = body ++ rest ∧ (∀ c ∈ body, InBody c) ∧ ∀ c ∈ rest.head?, ¬InBody c := by
  induction s with
  | nil => exact ⟨[], [], rfl, by simp, by simp⟩
  | cons c s ih =>
    by_cases hc : InBody c
    · obtain ⟨body, rest, rfl, hbody, hrest⟩ := ih
      exact ⟨c :: body, rest, rfl, by simpa [hc] using hbody, hrest⟩
    · exact ⟨[], c :: s, rfl, by simp, by simpa using hc⟩

/-- The body of a string is unique. -/
theorem body_unique {body body' rest rest' : List UInt8} (hbody : ∀ c ∈ body, InBody c)
    (hbody' : ∀ c ∈ body', InBody c) (hrest : ∀ c ∈ rest.head?, ¬InBody c)
    (hrest' : ∀ c ∈ rest'.head?, ¬InBody c) (h : body ++ rest = body' ++ rest') :
    body = body' ∧ rest = rest' := by
  induction body generalizing body' with
  | nil =>
    cases body' with
    | nil => exact ⟨rfl, h⟩
    | cons c body' =>
      rw [List.nil_append, List.cons_append] at h
      exact absurd (hbody' c List.mem_cons_self) (hrest c (by rw [h]; rfl))
  | cons c body ih =>
    cases body' with
    | nil =>
      rw [List.nil_append, List.cons_append] at h
      exact absurd (hbody c List.mem_cons_self) (hrest' c (by rw [← h]; rfl))
    | cons d body' =>
      rw [List.cons_append, List.cons_append, List.cons.injEq] at h
      obtain ⟨rfl, h⟩ := h
      obtain ⟨rfl, rfl⟩ := ih (fun x hx => hbody x (List.mem_cons_of_mem c hx))
        (fun x hx => hbody' x (List.mem_cons_of_mem c hx)) h
      exact ⟨rfl, rfl⟩

theorem not_inBody_star : ¬InBody '*'.toUInt8 := fun h => h.2 rfl

theorem not_inBody_of_lineEnd {e : List UInt8} (he : e ∈ nmeaLineEnds) :
    ∀ c ∈ e.head?, ¬InBody c := by
  intro c hc
  simp only [nmeaLineEnds, List.mem_cons, List.not_mem_nil, or_false] at he
  obtain rfl | rfl | rfl := he
  · cases hc
  · obtain rfl := Option.some.inj hc
    decide
  · obtain rfl := Option.some.inj hc
    decide

theorem NmeaText.stops (t : NmeaText) : ∀ c ∈ (sumText t.digits ++ t.lineEnd).head?, ¬InBody c := by
  cases h : t.digits with
  | none => exact not_inBody_of_lineEnd t.lineEnd_mem
  | some ds =>
    intro c hc
    obtain rfl : '*'.toUInt8 = c := by simpa [sumText] using hc
    exact not_inBody_star

/-- The well formed sentences with a given body. -/
theorem exists_text_iff {body rest : List UInt8} (hbody : ∀ c ∈ body, InBody c)
    (hrest : ∀ c ∈ rest.head?, ¬InBody c) (hlen : body.length + rest.length ≤ 82)
    (strict : Bool) :
    (∃ t : NmeaText, t.text = '$'.toUInt8 :: (body ++ rest) ∧ (strict → t.digits.isSome)) ↔
      (strict = false ∧ rest ∈ nmeaLineEnds) ∨
        ∃ ds e, rest = '*'.toUInt8 :: ds.1 :: ds.2 :: e ∧ Hexadecimal ds (xorBytes body) ∧
          e ∈ nmeaLineEnds := by
  constructor
  · rintro ⟨t, htext, hstrict⟩
    obtain ⟨hb, hr⟩ := body_unique t.body_print hbody t.stops hrest (List.cons.inj htext).2
    cases hdigits : t.digits with
    | none =>
      rw [hdigits] at hr hstrict
      refine .inl ⟨by simpa using hstrict, ?_⟩
      rw [← hr]
      exact t.lineEnd_mem
    | some ds =>
      rw [hdigits] at hr
      exact .inr ⟨ds, t.lineEnd, hr.symm, hb ▸ t.checksum ds hdigits, t.lineEnd_mem⟩
  · rintro (⟨rfl, he⟩ | ⟨ds, e, rfl, hhex, he⟩)
    · exact ⟨⟨body, none, rest, hbody, by simp, he, by simpa [sumText] using hlen⟩, rfl, by simp⟩
    · refine ⟨⟨body, some ds, e, hbody, by simpa using hhex, he, ?_⟩, rfl, by simp⟩
      simp only [sumText, List.length_cons, List.length_nil] at hlen ⊢
      omega

/-- What `minmea_check` does behind `$`. -/
theorem minmeaCheck_body {body rest : List UInt8} (hbody : ∀ c ∈ body, InBody c)
    (hrest : ∀ c ∈ rest.head?, ¬InBody c) (hzero : 0 ∉ rest)
    (hlen : body.length + rest.length ≤ 82) (strict : Bool) :
    Decides (minmeaCheck ('$'.toUInt8 :: (body ++ rest) ++ [0]) strict)
      ((strict = false ∧ rest ∈ nmeaLineEnds) ∨
        ∃ ds e, rest = '*'.toUInt8 :: ds.1 :: ds.2 :: e ∧ Hexadecimal ds (xorBytes body) ∧
          e ∈ nmeaLineEnds) := by
  have hzero' : 0 ∉ '$'.toUInt8 :: (body ++ rest) := by
    rw [List.mem_cons, List.mem_append, not_or, not_or]
    exact ⟨by decide, fun h => (hbody 0 h).ne_zero rfl, hzero⟩
  have hle : ¬minmeaMaxLength + 3 < ('$'.toUInt8 :: (body ++ rest)).length := by
    simp only [minmeaMaxLength, List.length_cons, List.length_append]
    omega
  obtain ⟨c, tail, hc, hloop⟩ : ∃ c tail, rest ++ [0] = c :: tail ∧
      checksumLoop (body ++ c :: tail) 0 = some (xorBytes body, c :: tail) := by
    cases rest with
    | nil => exact ⟨0, [], rfl, checksumLoop_append hbody (fun h => h.ne_zero rfl) 0⟩
    | cons c tail => exact ⟨c, tail ++ [0], rfl, checksumLoop_append hbody (hrest c rfl) 0⟩
  rw [minmeaCheck, strlen_eq hzero']
  simp only [Option.bind_eq_bind, Option.bind_some, hle, if_false, List.cons_append,
    List.head?_cons, List.tail_cons, ne_eq, not_true_eq_false, List.append_assoc, hc, hloop]
  by_cases hstar : c = '*'.toUInt8
  · obtain ⟨s, rfl⟩ : ∃ s, rest = '*'.toUInt8 :: s := by
      cases rest with
      | nil => exact absurd (hstar ▸ (List.cons.inj hc).1) (by decide)
      | cons d s => exact ⟨s, by rw [(List.cons.inj hc).1, hstar]⟩
    obtain rfl : s ++ [0] = tail := (List.cons.inj hc).2
    rw [List.mem_cons, not_or] at hzero
    rw [if_pos hstar]
    have hend : '*'.toUInt8 :: s ∉ nmeaLineEnds := by
      simp [nmeaLineEnds, show '*'.toUInt8 ≠ '\n'.toUInt8 by decide,
        show '*'.toUInt8 ≠ '\r'.toUInt8 by decide]
    simpa [hend] using checkDigits_decides hzero.2 (xorBytes body)
  · have hds : ¬∃ ds e, rest = '*'.toUInt8 :: ds.1 :: ds.2 :: e ∧
        Hexadecimal ds (xorBytes body) ∧ e ∈ nmeaLineEnds := by
      rintro ⟨ds, e, rfl, -⟩
      exact hstar (List.cons.inj hc).1.symm
    rw [if_neg hstar, or_iff_left hds]
    cases strict with
    | true => exact ⟨false, rfl, by simp⟩
    | false =>
      rw [if_neg Bool.false_ne_true, ← hc, checkLineEnd_eq hzero]
      exact ⟨_, rfl, by simp⟩

/-- **`minmea_check` stays in the string, and accepts exactly the well formed sentences, with a
checksum if it is strict.** -/
theorem minmeaCheck_iff (s : List UInt8) (hs : 0 ∉ s) (strict : Bool) :
    Decides (minmeaCheck (s ++ [0]) strict)
      (∃ t : NmeaText, t.text = s ∧ (strict → t.digits.isSome)) := by
  by_cases hlen : s.length ≤ 83
  · obtain ⟨r, rfl⟩ | hdollar : (∃ r, s = '$'.toUInt8 :: r) ∨ ∀ r, s ≠ '$'.toUInt8 :: r := by
      by_cases h : ∃ r, s = '$'.toUInt8 :: r
      · exact .inl h
      · exact .inr (not_exists.mp h)
    · obtain ⟨body, rest, rfl, hbody, hrest⟩ := exists_body r
      have hlen' : body.length + rest.length ≤ 82 := by
        simp only [List.length_cons, List.length_append] at hlen
        omega
      rw [exists_text_iff hbody hrest hlen' strict]
      refine minmeaCheck_body hbody hrest (fun h => hs ?_) hlen' strict
      exact List.mem_cons_of_mem _ (List.mem_append_right _ h)
    · refine ⟨false, ?_, iff_of_false Bool.false_ne_true ?_⟩
      · rw [minmeaCheck, strlen_eq hs]
        cases s with
        | nil => rfl
        | cons c s =>
          have hc : c ≠ '$'.toUInt8 := fun h => hdollar s (by rw [h])
          simp [hc]
      · rintro ⟨t, rfl, -⟩
        exact hdollar _ rfl
  · refine ⟨false, ?_, iff_of_false Bool.false_ne_true ?_⟩
    · rw [minmeaCheck, strlen_eq hs]
      have hlt : minmeaMaxLength + 3 < s.length := by
        rw [minmeaMaxLength]
        omega
      simp [hlt]
    · rintro ⟨t, rfl, -⟩
      have hle := t.length_le
      simp only [NmeaText.text, List.length_cons, List.length_append] at hlen
      omega

-- `$A*41`
example : minmeaCheck [0x24, 0x41, 0x2a, 0x34, 0x31, 0] true = some true := by decide

/-! ## Corrupted sentences -/

theorem Decides.eq_false {r : Option Bool} {P : Prop} (h : Decides r P) (hP : ¬P) :
    r = some false := by
  obtain ⟨b, rfl, hb⟩ := h
  rw [Bool.eq_false_iff.mpr fun hb' => hP (hb.mp hb')]

theorem xorBytes_ne {pre post : List UInt8} {x y : UInt8} (h : y ≠ x) :
    xorBytes (pre ++ y :: post) ≠ xorBytes (pre ++ x :: post) := by
  intro heq
  simp only [xorBytes_append, List.foldl_cons, foldl_xor] at heq
  rw [UInt8.xor_assoc, UInt8.xor_assoc, UInt8.xor_right_inj] at heq
  exact h ((UInt8.xor_left_inj _).mp heq)

theorem star_not_mem_lineEnd {e : List UInt8} (he : e ∈ nmeaLineEnds) : '*'.toUInt8 ∉ e := by
  simp only [nmeaLineEnds, List.mem_cons, List.not_mem_nil, or_false] at he
  obtain rfl | rfl | rfl := he <;> decide

theorem Hexadecimal.unique {ds : UInt8 × UInt8} {a b : UInt8} (ha : Hexadecimal ds a)
    (hb : Hexadecimal ds b) : a = b := by
  obtain ⟨upper, lower, hu, hl, rfl⟩ := ha
  obtain ⟨upper', lower', hu', hl', rfl⟩ := hb
  rw [Option.some.inj (hu.symm.trans hu'), Option.some.inj (hl.symm.trans hl')]

/-- Behind a `*` that is not the one of the checksum, there is no checksum. -/
theorem not_hexadecimal_star {post e e' : List UInt8} {upper lower checksum : UInt8}
    {ds : UInt8 × UInt8} (hs : post ++ '*'.toUInt8 :: upper :: lower :: e = ds.1 :: ds.2 :: e')
    (hhex : Hexadecimal ds checksum) (he : e' ∈ nmeaLineEnds) : False := by
  obtain ⟨u, l, hu, hl, -⟩ := hhex
  rcases post with _ | ⟨a, _ | ⟨b, post⟩⟩
  · obtain ⟨h1, -⟩ := List.cons.inj hs
    rw [← h1, show hex2int '*'.toUInt8 = none from rfl] at hu
    cases hu
  · obtain ⟨-, h2⟩ := List.cons.inj hs
    rw [← (List.cons.inj h2).1, show hex2int '*'.toUInt8 = none from rfl] at hl
    cases hl
  · obtain ⟨-, h2⟩ := List.cons.inj hs
    refine star_not_mem_lineEnd he ?_
    rw [← (List.cons.inj h2).2]
    exact List.mem_append_right _ List.mem_cons_self

theorem ne_zero_of_hex2int {c d : UInt8} (h : hex2int c = some d) : c ≠ 0 := by
  rintro rfl
  cases (show hex2int 0 = none from rfl).symm.trans h

theorem zero_not_mem_lineEnd {e : List UInt8} (he : e ∈ nmeaLineEnds) : 0 ∉ e := by
  simp only [nmeaLineEnds, List.mem_cons, List.not_mem_nil, or_false] at he
  obtain rfl | rfl | rfl := he <;> decide

theorem NmeaText.digits_of_star {t : NmeaText} {rest : List UInt8} (hstar : '*'.toUInt8 ∈ rest)
    (h : sumText t.digits ++ t.lineEnd = rest) :
    ∃ ds, t.digits = some ds ∧ rest = '*'.toUInt8 :: ds.1 :: ds.2 :: t.lineEnd := by
  cases hdigits : t.digits with
  | none =>
    rw [hdigits, sumText, List.nil_append] at h
    rw [← h] at hstar
    exact absurd hstar (star_not_mem_lineEnd t.lineEnd_mem)
  | some ds =>
    rw [hdigits] at h
    exact ⟨ds, rfl, h.symm⟩

/-- The characters of a sentence without its line end. -/
theorem NmeaText.forall_text {P : UInt8 → Prop} (t : NmeaText)
    (hbody : ∀ c, InBody c → P c) (hstar : P '*'.toUInt8)
    (hhex : ∀ c d, hex2int c = some d → P c) (hend : ∀ c ∈ t.lineEnd, P c) :
    ∀ c ∈ t.text, P c := by
  have hsum : ∀ c ∈ sumText t.digits, P c := by
    cases hdigits : t.digits with
    | none => exact fun c hc => absurd hc List.not_mem_nil
    | some ds =>
      obtain ⟨u, l, hu, hl, -⟩ := t.checksum ds hdigits
      intro c hc
      simp only [sumText, List.mem_cons, List.not_mem_nil, or_false] at hc
      obtain rfl | rfl | rfl := hc
      · exact hstar
      · exact hhex _ _ hu
      · exact hhex _ _ hl
  simp only [text, List.forall_mem_cons, List.forall_mem_append]
  exact ⟨hbody _ (by decide), fun c hc => hbody c (t.body_print c hc), hsum, hend⟩

/-- **A sentence with a checksum is not accepted when one byte of its text is another one, even
if that byte ends the text.** -/
theorem minmeaCheck_corrupt (t : NmeaText) (pre post : List UInt8) (x y upper lower : UInt8)
    (hdigits : t.digits = some (upper, lower)) (hbody : t.body = pre ++ x :: post) (hne : y ≠ x)
    (hy : y ≠ 0) (strict : Bool) :
    minmeaCheck ('$'.toUInt8 :: (pre ++ y :: post ++ '*'.toUInt8 :: upper :: lower :: t.lineEnd) ++
      [0]) strict = some false := by
  have hsum := t.checksum _ hdigits
  rw [hbody] at hsum
  have hpre : ∀ c ∈ pre, InBody c := fun c hc =>
    t.body_print c (hbody ▸ List.mem_append_left _ hc)
  have hpost : ∀ c ∈ post, InBody c := fun c hc =>
    t.body_print c (hbody ▸ List.mem_append_right _ (List.mem_cons_of_mem x hc))
  have hzero : 0 ∉ '$'.toUInt8 ::
      (pre ++ y :: post ++ '*'.toUInt8 :: upper :: lower :: t.lineEnd) := by
    obtain ⟨u, l, hu, hl, -⟩ := hsum
    simp only [List.mem_cons, List.mem_append, not_or]
    exact ⟨by decide, ⟨fun h => (hpre 0 h).ne_zero rfl, hy.symm, fun h =>
      (hpost 0 h).ne_zero rfl⟩, by decide, (ne_zero_of_hex2int hu).symm,
      (ne_zero_of_hex2int hl).symm, zero_not_mem_lineEnd t.lineEnd_mem⟩
  refine (minmeaCheck_iff _ hzero strict).eq_false ?_
  rintro ⟨t', htext, -⟩
  have htext := (List.cons.inj htext).2
  by_cases hyb : InBody y
  · -- the text has the same end, and another checksum
    have hstop : ∀ c ∈ ('*'.toUInt8 :: upper :: lower :: t.lineEnd).head?, ¬InBody c := by
      intro c hc
      obtain rfl := Option.some.inj hc
      exact not_inBody_star
    obtain ⟨hb, hr⟩ := body_unique t'.body_print
      (by simpa [or_imp, forall_and, hyb] using ⟨hpre, hpost⟩) t'.stops hstop htext
    obtain ⟨ds, hds, hrest⟩ := NmeaText.digits_of_star List.mem_cons_self hr
    obtain rfl : (upper, lower) = ds := by
      simp only [List.cons.injEq, true_and] at hrest
      exact Prod.ext hrest.1 hrest.2.1
    exact xorBytes_ne hne (hb ▸ (t'.checksum _ hds).unique hsum)
  · -- the text ends at the byte
    rw [List.append_assoc, List.cons_append] at htext
    have hstop : ∀ c ∈ (y :: (post ++ '*'.toUInt8 :: upper :: lower :: t.lineEnd)).head?,
        ¬InBody c := by
      intro c hc
      obtain rfl := Option.some.inj hc
      exact hyb
    obtain ⟨-, hr⟩ := body_unique t'.body_print hpre t'.stops hstop htext
    obtain ⟨ds, hds, hrest⟩ := NmeaText.digits_of_star (by simp) hr
    exact not_hexadecimal_star (List.cons.inj hrest).2 (t'.checksum _ hds) t'.lineEnd_mem

/-- `$A*41` with a `B` for its `A`. -/
theorem minmeaCheck_corrupt_b : minmeaCheck [0x24, 0x42, 0x2a, 0x34, 0x31, 0] true = some false :=
  minmeaCheck_corrupt
    ⟨[0x41], some (0x34, 0x31), [], fun c hc => List.mem_singleton.mp hc ▸ by decide,
      fun ds h => Option.some.inj h ▸ ⟨4, 1, rfl, rfl, rfl⟩, by decide, by decide⟩
    [] [] 0x41 0x42 0x34 0x31 rfl rfl (by decide) (by decide) true

end Rhex
