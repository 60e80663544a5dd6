import Mathlib

/-!
# Strings of C

A pointer into a string is what is left of it, with the terminating zero: the character it points
to is the head, and the pointer behind the zero is the empty list, which must not be read.

* `strlen`, `strcmpEq`, `strtol` — no result when they read behind the string.
* `decimal` — the number that some digits denote.
* `strtol_isSome` — `strtol` stays in a string that ends with a zero.
-/

namespace CString

/-! ## Characters -/

/-- `isprint` in the C locale. -/
def isprint (c : UInt8) : Bool := 0x20 ≤ c ∧ c ≤ 0x7e

/-- `isdigit` -/
def isdigit (c : UInt8) : Bool := '0'.toUInt8 ≤ c ∧ c ≤ '9'.toUInt8

/-- `isspace` in the C locale. -/
def isspace (c : UInt8) : Bool := c = 0x20 ∨ (0x09 ≤ c ∧ c ≤ 0x0d)

/-- `c - '0'` -/
def digit (c : UInt8) : ℕ := (c - '0'.toUInt8).toNat

theorem isprint_of_isdigit {c : UInt8} (h : isdigit c = true) : isprint c = true := by
  simp only [isdigit, isprint, decide_eq_true_eq, UInt8.le_iff_toNat_le] at h ⊢
  have h0 : '0'.toUInt8.toNat = 48 := rfl
  have h9 : '9'.toUInt8.toNat = 57 := rfl
  have hlo : (0x20 : UInt8).toNat = 32 := rfl
  have hhi : (0x7e : UInt8).toNat = 126 := rfl
  omega

theorem ne_zero_of_isprint {c : UInt8} (h : isprint c = true) : c ≠ 0 := by
  rintro rfl
  exact absurd h (by decide)

theorem digit_le {c : UInt8} (h : isdigit c = true) : digit c ≤ 9 := by
  simp only [isdigit, decide_eq_true_eq] at h
  rw [digit, UInt8.toNat_sub_of_le _ _ h.1]
  have hle := UInt8.le_iff_toNat_le.mp h.2
  have h0 : '0'.toUInt8.toNat = 48 := rfl
  have h9 : '9'.toUInt8.toNat = 57 := rfl
  omega

/-! ## `strlen` and `strcmp` -/

/-- `strlen` -/
def strlen : List UInt8 → Option ℕ
  | [] => none
  | c :: p => if c = 0 then some 0 else (strlen p).map (· + 1)

/-- `strcmp(p, q) == 0` -/
def strcmpEq : List UInt8 → List UInt8 → Option Bool
  | c :: p, d :: q => if c ≠ d then some false else if c = 0 then some true else strcmpEq p q
  | _, _ => none

theorem strlen_eq {s : List UInt8} (h : 0 ∉ s) : strlen (s ++ [0]) = some s.length := by
  induction s with
  | nil => rfl
  | cons c s ih =>
    rw [List.mem_cons, not_or] at h
    rw [List.cons_append, strlen, if_neg (Ne.symm h.1), ih h.2]
    rfl

theorem strcmpEq_eq {s t : List UInt8} (hs : 0 ∉ s) (ht : 0 ∉ t) :
    strcmpEq (s ++ [0]) (t ++ [0]) = some (decide (s = t)) := by
  induction s generalizing t with
  | nil =>
    cases t with
    | nil => rfl
    | cons d t =>
      rw [List.mem_cons, not_or] at ht
      simp [strcmpEq, ht.1]
  | cons c s ih =>
    rw [List.mem_cons, not_or] at hs
    cases t with
    | nil => simp [strcmpEq, Ne.symm hs.1]
    | cons d t =>
      rw [List.mem_cons, not_or] at ht
      rw [List.cons_append, List.cons_append, strcmpEq, ih hs.2 ht.2]
      by_cases hcd : c = d
      · simp [hcd, Ne.symm ht.1]
      · simp [hcd]

/-! ## Numbers -/

/-- The number that some digits denote. -/
def decimal (ds : List UInt8) : ℕ := ds.foldl (fun n c => 10 * n + digit c) 0

@[simp]
theorem decimal_nil : decimal [] = 0 := rfl

theorem decimal_concat (ds : List UInt8) (c : UInt8) :
    decimal (ds ++ [c]) = 10 * decimal ds + digit c := by
  rw [decimal, List.foldl_append]
  rfl

theorem decimal_append (ds es : List UInt8) :
    decimal (ds ++ es) = decimal ds * 10 ^ es.length + decimal es := by
  induction es using List.reverseRecOn with
  | nil => simp
  | append_singleton es c ih =>
    rw [← List.append_assoc, decimal_concat, ih, decimal_concat, List.length_append,
      List.length_singleton, pow_succ]
    ring

theorem decimal_lt {ds : List UInt8} (h : ∀ c ∈ ds, isdigit c = true) :
    decimal ds < 10 ^ ds.length := by
  induction ds using List.reverseRecOn with
  | nil => simp
  | append_singleton ds c ih =>
    rw [decimal_concat, List.length_append, List.length_singleton, pow_succ]
    have hds := ih fun x hx => h x (List.mem_append_left _ hx)
    have hc := digit_le (h c (List.mem_append_right _ (List.mem_singleton_self c)))
    omega

theorem decimal_le_append (ds es : List UInt8) : decimal ds ≤ decimal (ds ++ es) := by
  rw [decimal_append]
  have hpos : 0 < 10 ^ es.length := by positivity
  have hle := Nat.le_mul_of_pos_right (decimal ds) hpos
  omega

/-! ## `strtol` -/

def skipSpace : List UInt8 → Option (List UInt8)
  | [] => none
  | c :: p => if isspace c then skipSpace p else some (c :: p)

/-- The loop over digits, with the number before them. -/
def digitsLoop : List UInt8 → ℕ → Option (ℕ × List UInt8)
  | [], _ => none
  | c :: p, n => if isdigit c then digitsLoop p (10 * n + digit c) else some (n, c :: p)

/-- `LONG_MIN` and `LONG_MAX` bound what `strtol` returns; `long` has 64 bits. -/
def clampLong (n : ℤ) : ℤ := max (-2 ^ 63) (min n (2 ^ 63 - 1))

/-- The number at `q`, behind the sign; if there is none, `endptr` is `p`. -/
def strtolNumber (p q : List UInt8) (negative : Bool) : Option (ℤ × List UInt8) := do
  let d ← q.head?
  if isdigit d then
    let (n, endptr) ← digitsLoop q 0
    return (clampLong (if negative then -n else n), endptr)
  else
    return (0, p)

/-- `strtol(p, &endptr, 10)`: the number, and `endptr`. -/
def strtol (p : List UInt8) : Option (ℤ × List UInt8) := do
  let start ← skipSpace p
  let c ← start.head?
  if c = '-'.toUInt8 then strtolNumber p start.tail true
  else if c = '+'.toUInt8 then strtolNumber p start.tail false
  else strtolNumber p start false

theorem isSome_skipSpace {p : List UInt8} (h : 0 ∈ p) : ∃ q, skipSpace p = some q ∧ 0 ∈ q := by
  induction p with
  | nil => simp at h
  | cons c p ih =>
    rw [skipSpace]
    split_ifs with hc
    · refine ih ((List.mem_cons.mp h).resolve_left ?_)
      rintro rfl
      exact absurd hc (by decide)
    · exact ⟨c :: p, rfl, h⟩

theorem isSome_digitsLoop {p : List UInt8} (h : 0 ∈ p) (n : ℕ) :
    ∃ m q, digitsLoop p n = some (m, q) ∧ 0 ∈ q := by
  induction p generalizing n with
  | nil => simp at h
  | cons c p ih =>
    rw [digitsLoop]
    split_ifs with hc
    · refine ih ((List.mem_cons.mp h).resolve_left ?_) _
      rintro rfl
      exact absurd hc (by decide)
    · exact ⟨n, c :: p, rfl, h⟩

theorem isSome_strtolNumber {p q : List UInt8} (hp : 0 ∈ p) (hq : 0 ∈ q) (negative : Bool) :
    ∃ n r, strtolNumber p q negative = some (n, r) ∧ 0 ∈ r := by
  obtain ⟨d, tail, rfl⟩ := List.exists_cons_of_ne_nil (List.ne_nil_of_mem hq)
  rw [strtolNumber, List.head?_cons, Option.bind_eq_bind, Option.bind_some]
  by_cases hd : isdigit d = true
  · obtain ⟨m, r, hloop, hr⟩ := isSome_digitsLoop hq 0
    rw [if_pos hd, hloop]
    exact ⟨_, r, rfl, hr⟩
  · rw [if_neg hd]
    exact ⟨0, p, rfl, hp⟩

theorem strtol_isSome {p : List UInt8} (h : 0 ∈ p) : ∃ n q, strtol p = some (n, q) ∧ 0 ∈ q := by
  obtain ⟨start, hstart, hzero⟩ := isSome_skipSpace h
  obtain ⟨c, rest, rfl⟩ := List.exists_cons_of_ne_nil (List.ne_nil_of_mem hzero)
  have hrest : ∀ d, d ≠ 0 → c = d → 0 ∈ rest := fun d hd hc =>
    (List.mem_cons.mp hzero).resolve_left fun h0 => hd (hc.symm.trans h0.symm)
  rw [strtol, hstart]
  simp only [Option.bind_eq_bind, Option.bind_some, List.head?_cons, List.tail_cons]
  split_ifs with hminus hplus
  · exact isSome_strtolNumber h (hrest _ (by decide) hminus) true
  · exact isSome_strtolNumber h (hrest _ (by decide) hplus) false
  · exact isSome_strtolNumber h hzero false

end CString
