import Mathlib
import Rhex.GpsFix
import Rhex.Nmea

/-!
# The scanner of sentences

`minmea_scan` goes through a sentence and a format at the same time: each letter of the format
takes one field, which ends at the next comma.

* `scanField` — what each letter does with its field.
* `minmeaScan` — all letters.
* `minmeaScan_no_overread` — the scanner stays in the string, whatever the string and the format.
-/

namespace Rhex

open CString

/-! ## Stops -/

/-- What stops `minmea_scan` before the end of the format. -/
inductive ScanStop where
  /-- `goto parse_error` -/
  | parseError
  /-- a read behind the terminating zero -/
  | overread
  /-- a multiplication of `int_least32_t` with a result that does not fit -/
  | overflow
  deriving DecidableEq, Repr

/-- Read something with a function that has no result behind the string. -/
def readString {α : Type} : Option α → Except ScanStop α
  | none => .error .overread
  | some a => .ok a

/-- `minmea_isfield` -/
def minmeaIsfield (c : UInt8) : Bool := isprint c ∧ c ≠ ','.toUInt8 ∧ c ≠ '*'.toUInt8

/-- `field && minmea_isfield(*field)`, with the character. -/
def fieldChar : Option (List UInt8) → Except ScanStop (Option UInt8)
  | none => .ok none
  | some [] => .error .overread
  | some (c :: _) => .ok (if minmeaIsfield c then some c else none)

/-- Exactly `n` characters that satisfy a test, and what follows them. -/
def takeChars (test : UInt8 → Bool) :
    ℕ → List UInt8 → Except ScanStop (List UInt8 × List UInt8)
  | 0, field => .ok ([], field)
  | _ + 1, [] => .error .overread
  | n + 1, c :: field =>
    if test c then do
      let (chars, rest) ← takeChars test n field
      return (c :: chars, rest)
    else
      .error .parseError

/-! ## Characters and strings -/

/-- `c` -/
def scanChar (field : Option (List UInt8)) : Except ScanStop UInt8 := do
  match ← fieldChar field with
  | none => return 0
  | some c => return c

/-- `d`: north and east are 1, south and west are -1. -/
def scanDirection (field : Option (List UInt8)) : Except ScanStop Int32 := do
  match ← fieldChar field with
  | none => return 0
  | some c =>
    if c = 'N'.toUInt8 ∨ c = 'E'.toUInt8 then return 1
    else if c = 'S'.toUInt8 ∨ c = 'W'.toUInt8 then return -1
    else throw .parseError

def fieldChars : List UInt8 → Except ScanStop (List UInt8)
  | [] => .error .overread
  | c :: field =>
    if minmeaIsfield c then do
      let chars ← fieldChars field
      return c :: chars
    else
      .ok []

/-- `s` -/
def scanString : Option (List UInt8) → Except ScanStop (List UInt8)
  | none => .ok []
  | some field => fieldChars field

/-- `t`: the talker and the type of the sentence. -/
def scanType : Option (List UInt8) → Except ScanStop (List UInt8)
  | none => .error .parseError
  | some [] => .error .overread
  | some (c :: field) =>
    if c ≠ '$'.toUInt8 then
      .error .parseError
    else do
      let (chars, _) ← takeChars minmeaIsfield 5 field
      return chars

/-! ## Numbers -/

/-- `INT_LEAST32_MAX` -/
def intLeast32Max : ℤ := 2147483647

/-- `sign`, `value` and `scale` while a fraction is scanned. -/
structure FloatScan where
  sign : ℤ
  /-- -1 before the first digit -/
  value : ℤ
  /-- 0 before the decimal point -/
  scale : ℤ
  scale_eq : scale = 0 ∨ ∃ k ≤ 9, scale = 10 ^ k

namespace FloatScan

theorem scale_zero : (0 : ℤ) = 0 ∨ ∃ k ≤ 9, (0 : ℤ) = 10 ^ k := .inl rfl

theorem scale_one : (1 : ℤ) = 0 ∨ ∃ k ≤ 9, (1 : ℤ) = 10 ^ k := .inr ⟨0, Nat.zero_le 9, rfl⟩

/-- Before the first character. -/
def start : FloatScan := ⟨0, -1, 0, scale_zero⟩

/-- `value` before a digit is added. -/
def number (st : FloatScan) : ℤ := if st.value = -1 then 0 else st.value

theorem scale_mul_ten {st : FloatScan} (h : st.scale * 10 ≤ intLeast32Max) :
    st.scale * 10 = 0 ∨ ∃ k ≤ 9, st.scale * 10 = 10 ^ k := by
  obtain h0 | ⟨k, hk, hscale⟩ := st.scale_eq
  · exact .inl (by rw [h0]; rfl)
  · refine .inr ⟨k + 1, ?_, by rw [hscale, pow_succ]⟩
    by_contra hlt
    obtain rfl : k = 9 := by omega
    rw [hscale] at h
    exact absurd h (by decide)

end FloatScan

/-- A digit of a fraction, and whether the loop goes on. -/
def floatDigit (st : FloatScan) (digit : ℕ) : Except ScanStop (FloatScan × Bool) :=
  if (intLeast32Max - digit) / 10 < st.number then
    -- out of bits: the precision is truncated, or the number does not fit
    if st.scale ≠ 0 then .ok ({ st with value := st.number }, false) else .error .parseError
  else if st.scale = 0 then
    .ok ({ st with value := 10 * st.number + digit }, true)
  else if h : st.scale * 10 ≤ intLeast32Max then
    .ok (⟨st.sign, 10 * st.number + digit, st.scale * 10, st.scale_mul_ten h⟩, true)
  else
    .error .overflow

/-- A character of a fraction, and whether the loop goes on. -/
def floatChar (st : FloatScan) (c : UInt8) : Except ScanStop (FloatScan × Bool) :=
  if minmeaIsfield c = false then .ok (st, false)
  else if c = '+'.toUInt8 ∧ st.sign = 0 ∧ st.value = -1 then .ok ({ st with sign := 1 }, true)
  else if c = '-'.toUInt8 ∧ st.sign = 0 ∧ st.value = -1 then .ok ({ st with sign := -1 }, true)
  else if isdigit c then floatDigit st (digit c)
  else if c = '.'.toUInt8 ∧ st.scale = 0 then
    .ok ({ st with scale := 1, scale_eq := FloatScan.scale_one }, true)
  else if c = ' '.toUInt8 then
    if st.sign ≠ 0 ∨ st.value ≠ -1 ∨ st.scale ≠ 0 then .error .parseError else .ok (st, true)
  else .error .parseError

/-- The loop over the characters of a fraction. -/
def floatLoop (st : FloatScan) : List UInt8 → Except ScanStop FloatScan
  | [] => .error .overread
  | c :: field => do
    let (st, more) ← floatChar st c
    if more then floatLoop st field else return st

theorem toInt_scale {scale : ℤ} (h : scale = 0 ∨ ∃ k ≤ 9, scale = 10 ^ k) :
    Int32.ofInt scale = 0 ∨ ∃ k ≤ 9, (Int32.ofInt scale).toInt = 10 ^ k := by
  obtain rfl | ⟨k, hk, rfl⟩ := h
  · exact .inl rfl
  · refine .inr ⟨k, hk, ?_⟩
    interval_cases k <;> rfl

/-- What is stored after the loop. -/
def floatResult (st : FloatScan) : Except ScanStop MinmeaFloat :=
  if (st.sign ≠ 0 ∨ st.scale ≠ 0) ∧ st.value = -1 then
    .error .parseError
  else if st.value = -1 then
    .ok ⟨0, 0, toInt_scale FloatScan.scale_zero⟩
  else
    let value := Int32.ofInt (if st.sign ≠ 0 then st.value * st.sign else st.value)
    if st.scale = 0 then .ok ⟨value, 1, toInt_scale FloatScan.scale_one⟩
    else .ok ⟨value, .ofInt st.scale, toInt_scale st.scale_eq⟩

/-- `f` -/
def scanFloat : Option (List UInt8) → Except ScanStop MinmeaFloat
  | none => floatResult .start
  | some field => do
    let st ← floatLoop .start field
    floatResult st

/-- `i`: `strtol` and the conversion to `int`. -/
def scanInt : Option (List UInt8) → Except ScanStop Int32
  | none => .ok 0
  | some field => do
    let (value, endptr) ← readString (strtol field)
    match ← fieldChar (some endptr) with
    | none => return .ofInt value
    | some _ => throw .parseError

/-! ## Dates and times -/

/-- `struct minmea_date` -/
structure MinmeaDate where
  day : Int32
  month : Int32
  year : Int32

/-- `struct minmea_time` -/
structure MinmeaTime where
  hours : Int32
  minutes : Int32
  seconds : Int32
  microseconds : Int32

/-- `strtol` on the characters in an array that ends with a zero. -/
def scanDigits (chars : List UInt8) : Except ScanStop Int32 := do
  let (value, _) ← readString (strtol (chars ++ [0]))
  return .ofInt value

/-- `D`: always six digits. -/
def scanDate : Option (List UInt8) → Except ScanStop MinmeaDate
  | none => .ok ⟨-1, -1, -1⟩
  | some field => do
    match ← fieldChar (some field) with
    | none => return ⟨-1, -1, -1⟩
    | some _ =>
      let (chars, _) ← takeChars isdigit 6 field
      let day ← scanDigits (chars.take 2)
      let month ← scanDigits ((chars.drop 2).take 2)
      let year ← scanDigits (chars.drop 4)
      return ⟨day, month, year⟩

/-- The loop over the fraction of a second. -/
def microsLoop (value scale : Int32) : List UInt8 → Except ScanStop Int32
  | [] => .error .overread
  | c :: field =>
    if isdigit c ∧ 1 < scale then microsLoop (value * 10 + .ofNat (digit c)) (scale / 10) field
    else .ok (value * scale)

/-- The fraction of a second behind the six digits. -/
def scanMicros (field : List UInt8) : Except ScanStop Int32 := do
  let c ← readString field.head?
  if c = '.'.toUInt8 then microsLoop 0 1000000 field.tail else return 0

/-- `T`: six digits at least, and a fraction that is saved as microseconds. -/
def scanTime : Option (List UInt8) → Except ScanStop MinmeaTime
  | none => .ok ⟨-1, -1, -1, -1⟩
  | some field => do
    match ← fieldChar (some field) with
    | none => return ⟨-1, -1, -1, -1⟩
    | some _ =>
      let (chars, rest) ← takeChars isdigit 6 field
      let hours ← scanDigits (chars.take 2)
      let minutes ← scanDigits ((chars.drop 2).take 2)
      let seconds ← scanDigits (chars.drop 4)
      let micros ← scanMicros rest
      return ⟨hours, minutes, seconds, micros⟩

/-! ## The scanner -/

/-- The letters of a format. -/
inductive Conversion where
  /-- `c` -/
  | char
  /-- `d` -/
  | direction
  /-- `f` -/
  | float
  /-- `i` -/
  | int
  /-- `s` -/
  | string
  /-- `t` -/
  | type
  /-- `D` -/
  | date
  /-- `T` -/
  | time
  /-- `_` -/
  | ignore
  /-- `;`: all further fields are optional -/
  | optional
  /-- any other letter -/
  | unknown
  deriving DecidableEq, Repr

/-- What a letter stores through its argument. -/
@[reducible]
def Conversion.Arg : Conversion → Type
  | char => UInt8
  | direction => Int32
  | float => MinmeaFloat
  | int => Int32
  | string => List UInt8
  | type => List UInt8
  | date => MinmeaDate
  | time => MinmeaTime
  | ignore => Unit
  | optional => Unit
  | unknown => Empty

/-- What the letters of a format store. -/
inductive ScanArgs : List Conversion → Type
  | nil : ScanArgs []
  | cons {conv : Conversion} {format : List Conversion} (arg : conv.Arg)
      (args : ScanArgs format) : ScanArgs (conv :: format)

/-- The body of the `switch` on the letter. -/
def scanField : (conv : Conversion) → Option (List UInt8) → Except ScanStop conv.Arg
  | .char, field => scanChar field
  | .direction, field => scanDirection field
  | .float, field => scanFloat field
  | .int, field => scanInt field
  | .string, field => scanString field
  | .type, field => scanType field
  | .date, field => scanDate field
  | .time, field => scanTime field
  | .ignore, _ => .ok ()
  | .optional, _ => .ok ()
  | .unknown, _ => .error .parseError

/-- `next_field`: the rest of the sentence, and the field. -/
def nextField : List UInt8 → Except ScanStop (List UInt8 × Option (List UInt8))
  | [] => .error .overread
  | c :: sentence =>
    if minmeaIsfield c then nextField sentence
    else if c = ','.toUInt8 then .ok (sentence, some sentence)
    else .ok (c :: sentence, none)

def scanLoop : (format : List Conversion) → List UInt8 → Option (List UInt8) → Bool →
    Except ScanStop (ScanArgs format)
  | [], _, _, _ => .ok .nil
  | conv :: format, sentence, field, optional => do
    if conv = .optional then
      let arg ← scanField conv none
      let args ← scanLoop format sentence field true
      return .cons arg args
    else if field = none ∧ optional = false then
      throw .parseError
    else
      let arg ← scanField conv field
      let (sentence, field) ← nextField sentence
      let args ← scanLoop format sentence field optional
      return .cons arg args

/-- `minmea_scan` -/
def minmeaScan (sentence : List UInt8) (format : List Conversion) :
    Except ScanStop (ScanArgs format) := scanLoop format sentence (some sentence) false

/-! ## The scanner stays in the string -/

/-- A result that satisfies `P`, or a stop that is not a read behind the string. -/
def Safe {α : Type} (r : Except ScanStop α) (P : α → Prop) : Prop :=
  match r with
  | .ok a => P a
  | .error e => e ≠ .overread

section Safe

variable {α β : Type} {r : Except ScanStop α} {P : α → Prop} {Q : β → Prop}

theorem Safe.bind {f : α → Except ScanStop β} (h : Safe r P) (hf : ∀ a, P a → Safe (f a) Q) :
    Safe (r >>= f) Q := by
  cases r with
  | ok a => exact hf a h
  | error e => exact h

theorem Safe.imp {P' : α → Prop} (h : Safe r P) (hP : ∀ a, P a → P' a) : Safe r P' := by
  cases r with
  | ok a => exact hP a h
  | error e => exact h

theorem safe_parseError : Safe (.error .parseError) P := ScanStop.noConfusion

theorem safe_readString {o : Option α} (h : ∃ a, o = some a ∧ P a) : Safe (readString o) P := by
  obtain ⟨a, rfl, ha⟩ := h
  exact ha

end Safe

theorem not_isfield_zero : minmeaIsfield 0 = false := rfl

theorem zero_mem_tail {c : UInt8} {p : List UInt8} (h : 0 ∈ c :: p) {test : UInt8 → Bool}
    (hc : test c = true) (htest : test 0 = false) : 0 ∈ p := by
  refine (List.mem_cons.mp h).resolve_left ?_
  rintro rfl
  rw [htest] at hc
  exact Bool.false_ne_true hc

theorem safe_fieldChar {field : Option (List UInt8)} (h : ∀ p ∈ field, 0 ∈ p) :
    Safe (fieldChar field) fun _ => True := by
  rcases field with _ | (_ | ⟨c, p⟩)
  · trivial
  · exact absurd (h [] rfl) List.not_mem_nil
  · trivial

theorem safe_takeChars {test : UInt8 → Bool} (htest : test 0 = false) (n : ℕ) {p : List UInt8}
    (h : 0 ∈ p) : Safe (takeChars test n p) fun r => 0 ∈ r.2 := by
  induction n generalizing p with
  | zero => exact h
  | succ n ih =>
    cases p with
    | nil => exact absurd h List.not_mem_nil
    | cons c p =>
      rw [takeChars]
      split_ifs with hc
      · exact (ih (zero_mem_tail h hc htest)).bind fun a ha => ha
      · exact safe_parseError

theorem safe_fieldChars {p : List UInt8} (h : 0 ∈ p) :
    Safe (fieldChars p) fun _ => True := by
  induction p with
  | nil => exact absurd h List.not_mem_nil
  | cons c p ih =>
    rw [fieldChars]
    split_ifs with hc
    · exact (ih (zero_mem_tail h hc not_isfield_zero)).bind fun a ha => ha
    · trivial

/-- A character of a fraction after which the loop goes on is not the zero. -/
theorem safe_floatChar (st : FloatScan) (c : UInt8) :
    Safe (floatChar st c) fun r => r.2 = true → minmeaIsfield c = true := by
  have hdigit : Safe (floatDigit st (digit c)) fun _ => True := by
    unfold floatDigit
    split_ifs
    all_goals first | trivial | exact ScanStop.noConfusion
  unfold floatChar
  split_ifs with hc
  · exact fun h => absurd h Bool.false_ne_true
  all_goals have hc' := Bool.eq_true_of_not_eq_false hc
  · exact fun _ => hc'
  · exact fun _ => hc'
  · exact hdigit.imp fun r _ _ => hc'
  · exact fun _ => hc'
  · exact safe_parseError
  · exact fun _ => hc'
  · exact safe_parseError

theorem safe_floatLoop {p : List UInt8} (h : 0 ∈ p) (st : FloatScan) :
    Safe (floatLoop st p) fun _ => True := by
  induction p generalizing st with
  | nil => exact absurd h List.not_mem_nil
  | cons c p ih =>
    refine (safe_floatChar st c).bind fun ⟨st', more⟩ hmore => ?_
    cases more with
    | true => exact ih (zero_mem_tail h (hmore rfl) not_isfield_zero) st'
    | false => trivial

theorem safe_floatResult (st : FloatScan) : Safe (floatResult st) fun _ => True := by
  unfold floatResult
  split
  · exact safe_parseError
  · split
    · trivial
    · dsimp only
      split <;> trivial

theorem safe_scanDigits (chars : List UInt8) : Safe (scanDigits chars) fun _ => True := by
  obtain ⟨n, q, hq, -⟩ := strtol_isSome (show 0 ∈ chars ++ [0] by simp)
  rw [scanDigits, hq]
  trivial

theorem safe_microsLoop {p : List UInt8} (h : 0 ∈ p) (value scale : Int32) :
    Safe (microsLoop value scale p) fun _ => True := by
  induction p generalizing value scale with
  | nil => exact absurd h List.not_mem_nil
  | cons c p ih =>
    rw [microsLoop]
    split_ifs with hc
    · exact ih (zero_mem_tail h hc.1 rfl) _ _
    · trivial

theorem safe_scanMicros {p : List UInt8} (h : 0 ∈ p) :
    Safe (scanMicros p) fun _ => True := by
  cases p with
  | nil => exact absurd h List.not_mem_nil
  | cons c p =>
    have hread : Safe (readString (c :: p).head?) fun d => c = d := safe_readString ⟨c, rfl, rfl⟩
    refine hread.bind fun d hd => ?_
    subst hd
    split_ifs with hc
    · exact safe_microsLoop ((List.mem_cons.mp h).resolve_left (by rw [hc]; decide)) _ _
    · trivial

/-- A letter reads nothing behind the string of its field. -/
theorem safe_scanField (conv : Conversion) {field : Option (List UInt8)}
    (h : ∀ p ∈ field, 0 ∈ p) : Safe (scanField conv field) fun _ => True := by
  have hchar := safe_fieldChar h
  cases conv with
  | char =>
    refine hchar.bind fun c _ => ?_
    cases c <;> trivial
  | direction =>
    refine hchar.bind fun c _ => ?_
    cases c with
    | none => trivial
    | some c =>
      simp only
      split_ifs
      · trivial
      · trivial
      · exact safe_parseError
  | float =>
    cases field with
    | none => exact safe_floatResult .start
    | some p => exact (safe_floatLoop (h p rfl) _).bind fun st _ => safe_floatResult st
  | int =>
    cases field with
    | none => trivial
    | some p =>
      obtain ⟨n, q, hq, hzero⟩ := strtol_isSome (h p rfl)
      have hread : Safe (readString (strtol p)) fun r => 0 ∈ r.2 :=
        safe_readString ⟨(n, q), hq, hzero⟩
      refine hread.bind fun r hr => ?_
      refine (safe_fieldChar (by simpa using hr)).bind fun c _ => ?_
      cases c
      · trivial
      · exact safe_parseError
  | string =>
    cases field with
    | none => trivial
    | some p => exact safe_fieldChars (h p rfl)
  | type =>
    rcases field with _ | (_ | ⟨c, p⟩)
    · exact safe_parseError
    · exact absurd (h [] rfl) List.not_mem_nil
    · simp only [scanField, scanType]
      split_ifs with hc
      · exact safe_parseError
      · rw [not_not] at hc
        have hp : 0 ∈ p := (List.mem_cons.mp (h _ rfl)).resolve_left (by rw [hc]; decide)
        exact (safe_takeChars not_isfield_zero 5 hp).bind fun r _ => trivial
  | date =>
    cases field with
    | none => trivial
    | some p =>
      refine hchar.bind fun c _ => ?_
      cases c with
      | none => trivial
      | some c =>
        refine (safe_takeChars rfl 6 (h p rfl)).bind fun r _ => ?_
        refine (safe_scanDigits _).bind fun day _ => ?_
        refine (safe_scanDigits _).bind fun month _ => ?_
        exact (safe_scanDigits _).bind fun year _ => trivial
  | time =>
    cases field with
    | none => trivial
    | some p =>
      refine hchar.bind fun c _ => ?_
      cases c with
      | none => trivial
      | some c =>
        refine (safe_takeChars rfl 6 (h p rfl)).bind fun r hr => ?_
        refine (safe_scanDigits _).bind fun hours _ => ?_
        refine (safe_scanDigits _).bind fun minutes _ => ?_
        refine (safe_scanDigits _).bind fun seconds _ => ?_
        exact (safe_scanMicros hr).bind fun micros _ => trivial
  | ignore => trivial
  | optional => trivial
  | unknown => exact safe_parseError

theorem safe_nextField {p : List UInt8} (h : 0 ∈ p) :
    Safe (nextField p) fun r => 0 ∈ r.1 ∧ ∀ q ∈ r.2, 0 ∈ q := by
  induction p with
  | nil => exact absurd h List.not_mem_nil
  | cons c p ih =>
    rw [nextField]
    split_ifs with hc hcomma
    · exact ih (zero_mem_tail h hc not_isfield_zero)
    · have hp : 0 ∈ p := (List.mem_cons.mp h).resolve_left (by rw [hcomma]; decide)
      exact ⟨hp, by simpa using hp⟩
    · exact ⟨h, by simp⟩

theorem safe_scanLoop (format : List Conversion) {p : List UInt8} {field : Option (List UInt8)}
    (h : 0 ∈ p) (hfield : ∀ q ∈ field, 0 ∈ q) (optional : Bool) :
    Safe (scanLoop format p field optional) fun _ => True := by
  induction format generalizing p field optional with
  | nil => trivial
  | cons conv format ih =>
    rw [scanLoop]
    by_cases hopt : conv = .optional
    · rw [if_pos hopt]
      refine (@safe_scanField conv none (by simp)).bind fun arg _ => ?_
      exact (ih h hfield true).bind fun args _ => trivial
    · rw [if_neg hopt]
      by_cases hend : field = none ∧ optional = false
      · rw [if_pos hend]
        exact safe_parseError
      · rw [if_neg hend]
        refine (safe_scanField conv hfield).bind fun arg _ => ?_
        refine (safe_nextField h).bind fun r hr => ?_
        exact (ih hr.1 hr.2 optional).bind fun args _ => trivial

/-- **`minmea_scan` reads nothing behind the terminating zero, whatever the string and the
format.** -/
theorem minmeaScan_no_overread (s : List UInt8) (format : List Conversion) :
    minmeaScan (s ++ [0]) format ≠ .error .overread := by
  have hzero : 0 ∈ s ++ [0] := by simp
  have hsafe : Safe (scanLoop format (s ++ [0]) (some (s ++ [0])) false) fun _ => True :=
    safe_scanLoop format hzero (by simp) false
  intro h
  rw [minmeaScan] at h
  rw [h] at hsafe
  exact hsafe rfl

end Rhex
