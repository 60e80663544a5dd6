import Mathlib
import Rhex.NmeaScan

/-!
# The fields of a sentence

The scanner looks at a sentence as one string. Each letter of its format depends on one field
only, and so scans that field alone.

* `convertFields` — a format on the texts of the fields, each with a string of its own.
* `scanField_local` — a letter does not look behind its field.
* `minmeaScan_accepted` — scanning an accepted sentence is converting the texts between its commas.
-/

namespace Rhex

open CString

/-! ## Converting fields -/

/-- The letters of a format convert some texts, one after the other. -/
def convertFields : (format : List Conversion) → List (List UInt8) → Bool →
    Except ScanStop (ScanArgs format)
  | [], _, _ => .ok .nil
  | conv :: format, fields, optional => do
    if conv = .optional then
      let arg ← scanField conv none
      let args ← convertFields format fields true
      return .cons arg args
    else if fields = [] ∧ optional = false then
      throw .parseError
    else
      let arg ← scanField conv (fields.head?.map (· ++ [0]))
      let args ← convertFields format fields.tail optional
      return .cons arg args

/-- What may follow a field: a line end, a comma or an asterisk. -/
inductive FieldEnd : List UInt8 → Prop
  | lineEnd {e : List UInt8} (he : e ∈ nmeaLineEnds) : FieldEnd (e ++ [0])
  | comma (r : List UInt8) : FieldEnd (','.toUInt8 :: r)
  | star (r : List UInt8) : FieldEnd ('*'.toUInt8 :: r)

/-- The text of a field. -/
def IsField (f : List UInt8) : Prop := ∀ c ∈ f, minmeaIsfield c = true

theorem fieldEnd_zero : FieldEnd [0] := .lineEnd nil_mem_nmeaLineEnds

theorem isField_cons {c : UInt8} {f : List UInt8} :
    IsField (c :: f) ↔ minmeaIsfield c = true ∧ IsField f := List.forall_mem_cons

/-! ## Each letter stays in its field -/

theorem FieldEnd.exists_cons {r : List UInt8} (h : FieldEnd r) :
    ∃ c r', r = c :: r' ∧ minmeaIsfield c = false ∧ isdigit c = false := by
  cases h with
  | lineEnd he =>
    simp only [nmeaLineEnds, List.mem_cons, List.not_mem_nil, or_false] at he
    obtain rfl | rfl | rfl := he <;> exact ⟨_, _, rfl, rfl, rfl⟩
  | comma r => exact ⟨_, r, rfl, rfl, rfl⟩
  | star r => exact ⟨_, r, rfl, rfl, rfl⟩

theorem FieldEnd.skipSpace {r : List UInt8} (h : FieldEnd r) :
    ∃ c r', skipSpace r = some (c :: r') ∧ c ≠ '-'.toUInt8 ∧ c ≠ '+'.toUInt8 ∧
      isdigit c = false := by
  cases h with
  | lineEnd he =>
    simp only [nmeaLineEnds, List.mem_cons, List.not_mem_nil, or_false] at he
    obtain rfl | rfl | rfl := he <;> exact ⟨0, [], rfl, by decide, by decide, rfl⟩
  | comma r => exact ⟨_, r, rfl, by decide, by decide, rfl⟩
  | star r => exact ⟨_, r, rfl, by decide, by decide, rfl⟩

section

variable {f r : List UInt8}

theorem fieldChar_local (hr : FieldEnd r) :
    fieldChar (some (f ++ r)) = fieldChar (some (f ++ [0])) := by
  cases f with
  | nil =>
    obtain ⟨c, r', rfl, hc, -⟩ := hr.exists_cons
    simp [fieldChar, hc, not_isfield_zero]
  | cons c f => rfl

/-- Some characters of a field are taken, or are not, whatever follows. -/
theorem takeChars_local {test : UInt8 → Bool} (htest : ∀ c, test c = true → minmeaIsfield c = true)
    (n : ℕ) (f : List UInt8) :
    (∃ g h, f = g ++ h ∧ ∀ r, FieldEnd r → takeChars test n (f ++ r) = .ok (g, h ++ r)) ∨
      ∀ r, FieldEnd r → takeChars test n (f ++ r) = .error .parseError := by
  induction n generalizing f with
  | zero => exact .inl ⟨[], f, rfl, fun r _ => rfl⟩
  | succ n ih =>
    cases f with
    | nil =>
      refine .inr fun r hr => ?_
      obtain ⟨c, r', rfl, hc, -⟩ := hr.exists_cons
      have hc' : test c = false := by
        by_contra h
        rw [htest c (Bool.eq_true_of_not_eq_false h)] at hc
        cases hc
      simp [takeChars, hc']
    | cons c f =>
      by_cases hc : test c = true
      · obtain ⟨g, h, rfl, hok⟩ | herr := ih f
        · refine .inl ⟨c :: g, h, rfl, fun r hr => ?_⟩
          rw [List.cons_append, takeChars, if_pos hc, hok r hr]
          rfl
        · refine .inr fun r hr => ?_
          rw [List.cons_append, takeChars, if_pos hc, herr r hr]
          rfl
      · refine .inr fun r _ => ?_
        rw [List.cons_append, takeChars, if_neg hc]

/-- As many characters as there are in a field. -/
theorem takeChars_field {f r : List UInt8} (hf : IsField f) (hr : FieldEnd r) (n : ℕ) :
    takeChars minmeaIsfield n (f ++ r) =
      if n ≤ f.length then .ok (f.take n, f.drop n ++ r) else .error .parseError := by
  induction n generalizing f with
  | zero => rfl
  | succ n ih =>
    cases f with
    | nil =>
      obtain ⟨c, r', rfl, hc, -⟩ := hr.exists_cons
      simp [takeChars, hc]
    | cons c f =>
      obtain ⟨hc, hf⟩ := isField_cons.mp hf
      rw [List.cons_append, takeChars, if_pos hc, ih hf, List.length_cons]
      by_cases hn : n ≤ f.length
      · rw [if_pos hn, if_pos (Nat.succ_le_succ hn)]
        rfl
      · rw [if_neg hn, if_neg (by omega)]
        rfl

theorem fieldChars_append (hf : IsField f) (hr : FieldEnd r) : fieldChars (f ++ r) = .ok f := by
  induction f with
  | nil =>
    obtain ⟨c, r', rfl, hc, -⟩ := hr.exists_cons
    simp [fieldChars, hc]
  | cons c f ih =>
    obtain ⟨hc, hf⟩ := isField_cons.mp hf
    rw [List.cons_append, fieldChars, if_pos hc, ih hf]
    rfl

theorem floatLoop_local (hr : FieldEnd r) (st : FloatScan) :
    floatLoop st (f ++ r) = floatLoop st (f ++ [0]) := by
  induction f generalizing st with
  | nil =>
    obtain ⟨c, r', rfl, hc, -⟩ := hr.exists_cons
    have hstop : ∀ d p, minmeaIsfield d = false → floatLoop st (d :: p) = .ok st := by
      intro d p hd
      rw [floatLoop, floatChar, if_pos hd]
      rfl
    exact (hstop c r' hc).trans (hstop 0 [] not_isfield_zero).symm
  | cons c f ih =>
    simp only [List.cons_append, floatLoop]
    refine bind_congr fun a => ?_
    obtain ⟨st', more⟩ := a
    simp only [ih]

theorem microsLoop_local (hr : FieldEnd r) (value scale : Int32) :
    microsLoop value scale (f ++ r) = microsLoop value scale (f ++ [0]) := by
  induction f generalizing value scale with
  | nil =>
    obtain ⟨c, r', rfl, -, hc⟩ := hr.exists_cons
    simp [microsLoop, hc, show isdigit 0 = false from rfl]
  | cons c f ih =>
    simp only [List.cons_append, microsLoop, ih]

theorem scanMicros_local (hr : FieldEnd r) :
    scanMicros (f ++ r) = scanMicros (f ++ [0]) := by
  cases f with
  | nil =>
    obtain ⟨c, r', rfl, hc, -⟩ := hr.exists_cons
    have hdot : c ≠ '.'.toUInt8 := by
      rintro rfl
      exact absurd hc (by decide)
    have hread : scanMicros (c :: r') =
        if c = '.'.toUInt8 then microsLoop 0 1000000 r' else .ok 0 := rfl
    rw [List.nil_append, hread, if_neg hdot]
    rfl
  | cons c f =>
    have hread : ∀ q, scanMicros (c :: f ++ q) =
        if c = '.'.toUInt8 then microsLoop 0 1000000 (f ++ q) else .ok 0 := fun q => rfl
    rw [hread, hread, microsLoop_local hr]

/-- A field is white space and what follows it. -/
theorem skipSpace_append (f : List UInt8) :
    (∀ r, skipSpace (f ++ r) = skipSpace r) ∨
      ∃ c g, (∃ sp, f = sp ++ c :: g) ∧ ∀ r, skipSpace (f ++ r) = some (c :: g ++ r) := by
  induction f with
  | nil => exact .inl fun r => rfl
  | cons c f ih =>
    by_cases hc : isspace c = true
    · have hskip : ∀ r, skipSpace (c :: f ++ r) = skipSpace (f ++ r) := by
        intro r
        rw [List.cons_append, skipSpace, if_pos hc]
      obtain h | ⟨d, g, ⟨sp, rfl⟩, h⟩ := ih
      · exact .inl fun r => (hskip r).trans (h r)
      · exact .inr ⟨d, g, ⟨c :: sp, rfl⟩, fun r => (hskip r).trans (h r)⟩
    · refine .inr ⟨c, f, ⟨[], rfl⟩, fun r => ?_⟩
      rw [List.cons_append, skipSpace, if_neg hc]

/-- The digits that a field starts with. -/
theorem digitsLoop_local (f : List UInt8) (n : ℕ) :
    ∃ m h, h <:+ f ∧ ∀ r, FieldEnd r → digitsLoop (f ++ r) n = some (m, h ++ r) := by
  induction f generalizing n with
  | nil =>
    refine ⟨n, [], List.nil_suffix, fun r hr => ?_⟩
    obtain ⟨c, r', rfl, -, hc⟩ := hr.exists_cons
    simp [digitsLoop, hc]
  | cons c f ih =>
    by_cases hc : isdigit c = true
    · obtain ⟨m, h, hsuffix, hloop⟩ := ih (10 * n + digit c)
      refine ⟨m, h, hsuffix.trans (List.suffix_cons c f), fun r hr => ?_⟩
      rw [List.cons_append, digitsLoop, if_pos hc, hloop r hr]
    · refine ⟨n, c :: f, List.suffix_rfl, fun r hr => ?_⟩
      rw [List.cons_append, digitsLoop, if_neg hc]

theorem strtolNumber_local {f g : List UInt8} (hg : g <:+ f) (negative : Bool) :
    ∃ n h, h <:+ f ∧
      ∀ r, FieldEnd r → strtolNumber (f ++ r) (g ++ r) negative = some (n, h ++ r) := by
  have hnone : ∀ q, isdigit q = false → ∀ r tail, g ++ r = q :: tail →
      strtolNumber (f ++ r) (g ++ r) negative = some (0, f ++ r) := by
    intro q hq r tail hqr
    simp [strtolNumber, hqr, hq]
  cases g with
  | nil =>
    refine ⟨0, f, List.suffix_rfl, fun r hr => ?_⟩
    obtain ⟨c, r', rfl, -, hc⟩ := hr.exists_cons
    exact hnone c hc _ r' rfl
  | cons d g =>
    by_cases hd : isdigit d = true
    · obtain ⟨m, h, hsuffix, hloop⟩ := digitsLoop_local (d :: g) 0
      refine ⟨clampLong (if negative then -m else m), h, hsuffix.trans hg, fun r hr => ?_⟩
      have hhead : (d :: g ++ r).head? = some d := rfl
      rw [strtolNumber, hhead, Option.bind_eq_bind, Option.bind_some, if_pos hd, hloop r hr]
      rfl
    · exact ⟨0, f, List.suffix_rfl, fun r _ =>
        hnone d (Bool.eq_false_of_not_eq_true hd) r (g ++ r) rfl⟩

/-- `strtol` stays in a field, whatever follows. -/
theorem strtol_local (f : List UInt8) :
    ∃ n h, h <:+ f ∧ ∀ r, FieldEnd r → strtol (f ++ r) = some (n, h ++ r) := by
  obtain hskip | ⟨c, g, ⟨sp, rfl⟩, hskip⟩ := skipSpace_append f
  · refine ⟨0, f, List.suffix_rfl, fun r hr => ?_⟩
    obtain ⟨c, r', hr', hminus, hplus, hc⟩ := hr.skipSpace
    rw [strtol, hskip, hr']
    simp [hminus, hplus, strtolNumber, hc]
  · have hsuffix : g <:+ sp ++ c :: g := (List.suffix_cons c g).trans (List.suffix_append sp _)
    have hstrtol : ∀ r, strtol (sp ++ c :: g ++ r) =
        if c = '-'.toUInt8 then strtolNumber (sp ++ c :: g ++ r) (g ++ r) true
        else if c = '+'.toUInt8 then strtolNumber (sp ++ c :: g ++ r) (g ++ r) false
        else strtolNumber (sp ++ c :: g ++ r) (c :: g ++ r) false := by
      intro r
      rw [strtol, hskip]
      rfl
    simp only [hstrtol]
    split_ifs
    · exact strtolNumber_local hsuffix true
    · exact strtolNumber_local hsuffix false
    · exact strtolNumber_local (List.suffix_append sp (c :: g)) false

theorem isfield_of_isdigit {c : UInt8} (h : isdigit c = true) : minmeaIsfield c = true := by
  have hcomma : c ≠ ','.toUInt8 := by
    rintro rfl
    exact absurd h (by decide)
  have hstar : c ≠ '*'.toUInt8 := by
    rintro rfl
    exact absurd h (by decide)
  simp [minmeaIsfield, isprint_of_isdigit h, hcomma, hstar]

theorem scanInt_local (hr : FieldEnd r) :
    scanInt (some (f ++ r)) = scanInt (some (f ++ [0])) := by
  obtain ⟨n, h, -, hstrtol⟩ := strtol_local f
  have hscan : ∀ r, FieldEnd r → scanInt (some (f ++ r)) =
      (fieldChar (some (h ++ r)) >>= fun c =>
        if c.isNone then pure (.ofInt n) else throw .parseError) := by
    intro r hr
    rw [scanInt, hstrtol r hr]
    change fieldChar (some (h ++ r)) >>= _ = _
    refine congrArg (fieldChar (some (h ++ r)) >>= ·) (funext fun c => ?_)
    cases c <;> rfl
  rw [hscan r hr, hscan [0] fieldEnd_zero, fieldChar_local hr]

theorem scanType_local (hr : FieldEnd r) :
    scanType (some (f ++ r)) = scanType (some (f ++ [0])) := by
  cases f with
  | nil =>
    have hne : ∀ q, FieldEnd q → scanType (some q) = .error .parseError := by
      intro q hq
      obtain ⟨c, q', rfl, hc, -⟩ := hq.exists_cons
      have hdollar : c ≠ '$'.toUInt8 := by
        rintro rfl
        exact absurd hc (by decide)
      rw [scanType, if_pos hdollar]
    rw [List.nil_append, hne r hr, List.nil_append, hne [0] fieldEnd_zero]
  | cons c f =>
    simp only [List.cons_append, scanType]
    obtain ⟨g, h, -, hok⟩ | herr := takeChars_local (fun _ => id) 5 f
    · rw [hok r hr, hok [0] fieldEnd_zero]
      rfl
    · rw [herr r hr, herr [0] fieldEnd_zero]

theorem scanDate_local (hr : FieldEnd r) :
    scanDate (some (f ++ r)) = scanDate (some (f ++ [0])) := by
  simp only [scanDate, fieldChar_local hr]
  obtain ⟨g, h, -, hok⟩ | herr := takeChars_local (fun _ => isfield_of_isdigit) 6 f
  · simp only [hok r hr, hok [0] fieldEnd_zero]
    rfl
  · simp only [herr r hr, herr [0] fieldEnd_zero]

theorem scanTime_local (hr : FieldEnd r) :
    scanTime (some (f ++ r)) = scanTime (some (f ++ [0])) := by
  simp only [scanTime, fieldChar_local hr]
  obtain ⟨g, h, -, hok⟩ | herr := takeChars_local (fun _ => isfield_of_isdigit) 6 f
  · have htime : ∀ r, FieldEnd r → ∀ k : List UInt8 × List UInt8 → Except ScanStop MinmeaTime,
        takeChars isdigit 6 (f ++ r) >>= k = k (g, h ++ r) := by
      intro r hr k
      rw [hok r hr]
      rfl
    simp only [htime r hr, htime [0] fieldEnd_zero, scanMicros_local hr]
  · simp only [herr r hr, herr [0] fieldEnd_zero]

/-- A letter does not look behind its field. -/
theorem scanField_local (conv : Conversion) (hf : IsField f) (hr : FieldEnd r) :
    scanField conv (some (f ++ r)) = scanField conv (some (f ++ [0])) := by
  cases conv with
  | char =>
    simp only [scanField]
    rw [scanChar, scanChar, fieldChar_local hr]
  | direction =>
    simp only [scanField]
    rw [scanDirection, scanDirection, fieldChar_local hr]
  | float =>
    simp only [scanField]
    rw [scanFloat, scanFloat, floatLoop_local hr]
  | int => exact scanInt_local hr
  | string =>
    simp only [scanField]
    rw [scanString, scanString, fieldChars_append hf hr, fieldChars_append hf fieldEnd_zero]
  | type => exact scanType_local hr
  | date => exact scanDate_local hr
  | time => exact scanTime_local hr
  | ignore => rfl
  | optional => rfl
  | unknown => rfl

end

/-! ## The fields between the commas -/

/-- The fields, with commas between them, and what follows. -/
def fieldsText : List (List UInt8) → List UInt8 → List UInt8
  | [], rest => rest
  | f :: fs, rest => f ++ (fs.flatMap (','.toUInt8 :: ·) ++ rest)

/-- `field` at the first of some fields. -/
def fieldsCursor (fields : List (List UInt8)) (rest : List UInt8) : Option (List UInt8) :=
  if fields = [] then none else some (fieldsText fields rest)

/-- What follows the last field. -/
structure SentenceEnd (rest : List UInt8) : Prop where
  fieldEnd : FieldEnd rest
  no_comma : ∀ c ∈ rest.head?, c ≠ ','.toUInt8

section

variable {rest : List UInt8}

theorem SentenceEnd.commas (h : SentenceEnd rest) (fs : List (List UInt8)) :
    FieldEnd (fs.flatMap (','.toUInt8 :: ·) ++ rest) := by
  cases fs with
  | nil => exact h.fieldEnd
  | cons f fs => exact .comma _

theorem nextField_append {f r : List UInt8} (hf : IsField f) :
    nextField (f ++ r) = nextField r := by
  induction f with
  | nil => rfl
  | cons c f ih =>
    obtain ⟨hc, hf⟩ := isField_cons.mp hf
    rw [List.cons_append, nextField, if_pos hc, ih hf]

/-- `next_field` goes on to the next field. -/
theorem nextField_text (h : SentenceEnd rest) {fields : List (List UInt8)}
    (hfields : ∀ f ∈ fields, IsField f) :
    nextField (fieldsText fields rest) =
      .ok (fieldsText fields.tail rest, fieldsCursor fields.tail rest) := by
  have hend : nextField rest = .ok (rest, none) := by
    obtain ⟨c, r, rfl, hc, -⟩ := h.fieldEnd.exists_cons
    rw [nextField, hc, if_neg Bool.false_ne_true, if_neg (h.no_comma c rfl)]
  rcases fields with _ | ⟨f, _ | ⟨g, fs⟩⟩
  · exact hend
  · rw [fieldsText, nextField_append (hfields f List.mem_cons_self)]
    exact hend
  · rw [fieldsText, nextField_append (hfields f List.mem_cons_self), List.flatMap_cons,
      List.cons_append, List.cons_append, List.append_assoc, nextField,
      show minmeaIsfield ','.toUInt8 = false from rfl]
    rfl

theorem scanField_text (h : SentenceEnd rest) (conv : Conversion) {fields : List (List UInt8)}
    (hfields : ∀ f ∈ fields, IsField f) :
    scanField conv (fieldsCursor fields rest) =
      scanField conv (fields.head?.map (· ++ [0])) := by
  cases fields with
  | nil => rfl
  | cons f fs => exact scanField_local conv (hfields f List.mem_cons_self) (h.commas fs)

theorem scanLoop_eq (h : SentenceEnd rest) (format : List Conversion)
    {fields : List (List UInt8)} (hfields : ∀ f ∈ fields, IsField f) (optional : Bool) :
    scanLoop format (fieldsText fields rest) (fieldsCursor fields rest) optional =
      convertFields format fields optional := by
  induction format generalizing fields optional with
  | nil => rfl
  | cons conv format ih =>
    have hnone : fieldsCursor fields rest = none ↔ fields = [] := by simp [fieldsCursor]
    have htail : ∀ f ∈ fields.tail, IsField f := fun f hf => hfields f (List.mem_of_mem_tail hf)
    rw [scanLoop, convertFields, ih hfields true, scanField_text h conv hfields,
      nextField_text h hfields]
    simp only [hnone]
    split_ifs
    · rfl
    · rfl
    · refine bind_congr fun arg => ?_
      rw [← ih htail optional]
      rfl

end

/-! ## Sentences -/

/-- The texts between the commas are fields. -/
theorem isField_of_mem_splitOn {body : List UInt8} (hbody : ∀ c ∈ body, InBody c) :
    ∀ f ∈ body.splitOn ','.toUInt8, IsField f := by
  induction body with
  | nil =>
    intro f hf
    obtain rfl : f = [] := by simpa using hf
    exact fun c hc => absurd hc List.not_mem_nil
  | cons c body ih =>
    obtain ⟨hc, hbody⟩ := List.forall_mem_cons.mp hbody
    have ih := ih hbody
    rw [List.splitOn_cons_eq_if_modifyHead]
    split_ifs with hcomma
    · rintro f (_ | ⟨_, hf⟩)
      · exact fun c hc => absurd hc List.not_mem_nil
      · exact ih f hf
    · obtain ⟨g, gs, hgs⟩ := List.exists_cons_of_ne_nil (List.splitOn_ne_nil ','.toUInt8 body)
      rw [hgs] at ih ⊢
      rintro f (_ | ⟨_, hf⟩)
      · have hfield : minmeaIsfield c = true := by
          simpa [minmeaIsfield, hc.1, hc.2] using hcomma
        exact isField_cons.mpr ⟨hfield, ih g List.mem_cons_self⟩
      · exact ih f (List.mem_cons_of_mem g hf)

/-- The texts between the commas, with the commas, are the whole text. -/
theorem fieldsText_splitOn (body rest : List UInt8) :
    fieldsText (body.splitOn ','.toUInt8) rest = body ++ rest := by
  induction body with
  | nil => rfl
  | cons c body ih =>
    obtain ⟨g, gs, hgs⟩ := List.exists_cons_of_ne_nil (List.splitOn_ne_nil ','.toUInt8 body)
    rw [hgs] at ih
    rw [List.splitOn_cons_eq_if_modifyHead, hgs]
    split_ifs with hcomma
    · rw [fieldsText, List.nil_append, List.flatMap_cons, List.cons_append, List.cons_append,
        List.append_assoc, beq_iff_eq.mp hcomma, List.cons_append, ← ih]
      rfl
    · rw [List.modifyHead_cons, fieldsText, List.cons_append, ← fieldsText, ih]
      rfl

/-- What follows the body of a sentence. -/
theorem NmeaText.sentenceEnd (t : NmeaText) :
    SentenceEnd (sumText t.digits ++ t.lineEnd ++ [0]) := by
  cases t.digits with
  | none =>
    refine ⟨.lineEnd t.lineEnd_mem, ?_⟩
    have he := t.lineEnd_mem
    simp only [nmeaLineEnds, List.mem_cons, List.not_mem_nil, or_false] at he
    intro c hc
    obtain he | he | he := he
    all_goals
      rw [he] at hc
      obtain rfl := Option.some.inj hc
      decide
  | some ds =>
    refine ⟨.star _, fun c hc => ?_⟩
    obtain rfl := Option.some.inj hc
    decide

theorem inBody_dollar : InBody '$'.toUInt8 := by decide

theorem NmeaText.zero_not_mem (t : NmeaText) : 0 ∉ t.text := by
  intro h
  refine t.forall_text (P := fun c => c ≠ 0) ?_ (by decide) ?_ ?_ 0 h rfl
  · exact fun c hc => hc.ne_zero
  · exact fun c d hd => ne_zero_of_hex2int hd
  · rintro c hc rfl
    exact zero_not_mem_lineEnd t.lineEnd_mem hc

/-- The fields of a sentence. The first one starts with `$`. -/
def NmeaText.fields (t : NmeaText) : List (List UInt8) :=
  ('$'.toUInt8 :: t.body).splitOn ','.toUInt8

theorem NmeaText.fields_eq (t : NmeaText) :
    ∃ g fs, t.fields = ('$'.toUInt8 :: g) :: fs := by
  obtain ⟨g, fs, hgs⟩ := List.exists_cons_of_ne_nil (List.splitOn_ne_nil ','.toUInt8 t.body)
  refine ⟨g, fs, ?_⟩
  rw [fields, List.splitOn_cons_eq_if_modifyHead, hgs, if_neg (by decide)]
  rfl

theorem NmeaText.isField_fields (t : NmeaText) : ∀ f ∈ t.fields, IsField f :=
  isField_of_mem_splitOn (List.forall_mem_cons.mpr ⟨inBody_dollar, t.body_print⟩)

theorem NmeaText.cursor_eq (t : NmeaText) :
    fieldsText t.fields (sumText t.digits ++ t.lineEnd ++ [0]) = t.text ++ [0] ∧
      fieldsCursor t.fields (sumText t.digits ++ t.lineEnd ++ [0]) = some (t.text ++ [0]) := by
  have htext : fieldsText t.fields (sumText t.digits ++ t.lineEnd ++ [0]) = t.text ++ [0] := by
    rw [fields, fieldsText_splitOn, text]
    simp
  refine ⟨htext, ?_⟩
  rw [fieldsCursor, if_neg (show t.fields ≠ [] from List.splitOn_ne_nil _ _), htext]

theorem minmeaScan_text (t : NmeaText) (format : List Conversion) :
    minmeaScan (t.text ++ [0]) format = convertFields format t.fields false := by
  have hloop := scanLoop_eq t.sentenceEnd format t.isField_fields false
  rwa [t.cursor_eq.1, t.cursor_eq.2] at hloop

/-- The body of a sentence is what stops the check. -/
theorem NmeaText.takeWhile_text (t : NmeaText) :
    t.text.takeWhile (fun c => InBody c) = '$'.toUInt8 :: t.body := by
  have hbody : ∀ c ∈ '$'.toUInt8 :: t.body, decide (InBody c) = true := by
    intro c hc
    rw [List.mem_cons] at hc
    obtain rfl | hc := hc
    · exact decide_eq_true inBody_dollar
    · exact decide_eq_true (t.body_print c hc)
  rw [text, ← List.cons_append, List.takeWhile_append_of_pos hbody]
  have hstop := t.stops
  cases hrest : sumText t.digits ++ t.lineEnd with
  | nil => rw [List.takeWhile_nil, List.append_nil]
  | cons c rest =>
    rw [hrest] at hstop
    rw [List.takeWhile_cons, decide_eq_false (hstop c rfl)]
    simp

/-- **When `minmea_check` accepts a string, `minmea_scan` converts the texts between the commas of
its body, each of them as if there were nothing else.** -/
theorem minmeaScan_accepted (s : List UInt8) (hs : 0 ∉ s) (strict : Bool)
    (h : minmeaCheck (s ++ [0]) strict = some true) (format : List Conversion) :
    minmeaScan (s ++ [0]) format =
      convertFields format ((s.takeWhile (fun c => InBody c)).splitOn ','.toUInt8) false := by
  obtain ⟨b, hb, hiff⟩ := minmeaCheck_iff s hs strict
  obtain rfl : true = b := Option.some.inj (h.symm.trans hb)
  obtain ⟨t, rfl, -⟩ := hiff.mp rfl
  rw [minmeaScan_text, t.takeWhile_text]
  rfl

/-- `$A,B` -/
theorem minmeaScan_accepted_ab :
    minmeaScan ([0x24, 0x41, 0x2c, 0x42] ++ [0]) [.string, .char] =
      convertFields [.string, .char]
        ((List.takeWhile (fun c => InBody c) [0x24, 0x41, 0x2c, 0x42]).splitOn ','.toUInt8) false :=
  minmeaScan_accepted [0x24, 0x41, 0x2c, 0x42] (by decide) false (by decide) [.string, .char]

end Rhex
