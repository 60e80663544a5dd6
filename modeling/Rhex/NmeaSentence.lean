import Mathlib
import Rhex.GpsLines
import Rhex.NmeaNumber

/-!
# The sentences of the receiver

`parse_line` asks for the type of a line, and scans a GGA, a GSV or an RMC sentence.

* `minmeaSentenceId`, `minmeaParseGga`, `minmeaParseGsv`, `minmeaParseRmc`.
* `lineSentence` — what `parse_line` finds in a line.
* `minmeaSentenceId_spec` — the lines that have a type, and which one.
* `gpsPublished` — what is published for some lines.
-/

namespace Rhex

open CString

/-! ## Types -/

/-- `enum minmea_sentence_id` -/
inductive MinmeaSentenceId where
  | invalid
  | unknown
  | rmc
  | gga
  | gsa
  | gll
  | gst
  | gsv
  | vtg
  | zda
  deriving DecidableEq, Repr

def letters (a b c : Char) : List UInt8 := [a.toUInt8, b.toUInt8, c.toUInt8]

/-- The comparisons of `type + 2`. -/
def typeId (code : List UInt8) : MinmeaSentenceId :=
  if code = letters 'R' 'M' 'C' then .rmc
  else if code = letters 'G' 'G' 'A' then .gga
  else if code = letters 'G' 'S' 'A' then .gsa
  else if code = letters 'G' 'L' 'L' then .gll
  else if code = letters 'G' 'S' 'T' then .gst
  else if code = letters 'G' 'S' 'V' then .gsv
  else if code = letters 'V' 'T' 'G' then .vtg
  else if code = letters 'Z' 'D' 'A' then .zda
  else .unknown

/-- `minmea_sentence_id` -/
def minmeaSentenceId (sentence : List UInt8) (strict : Bool) :
    Except ScanStop MinmeaSentenceId := do
  let valid ← readString (minmeaCheck sentence strict)
  if valid then
    match minmeaScan sentence [.type] with
    | .ok (.cons type .nil) => return typeId (type.drop 2)
    | .error .parseError => return .invalid
    | .error e => throw e
  else
    return .invalid

/-! ## Sentences -/

/-- The result of one of the functions that parse a sentence, which may be false. -/
def parsed {α : Type} : Except ScanStop α → Except ScanStop (Option α)
  | .ok frame => .ok (some frame)
  | .error .parseError => .ok none
  | .error e => .error e

/-- The line is a well formed sentence with a type. -/
structure TypedAs (s : List UInt8) (strict : Bool) (t : NmeaText) (code : List UInt8) : Prop where
  text : t.text = s
  digits : strict → t.digits.isSome
  /-- a talker of two letters, and a type of three -/
  head : ∃ a b c d e more, t.fields.head? = some ('$'.toUInt8 :: a :: b :: c :: d :: e :: more) ∧
    code = [c, d, e]

theorem scanType_field {g : List UInt8} (hg : IsField g) :
    scanType (some ('$'.toUInt8 :: g ++ [0])) =
      if 5 ≤ g.length then .ok (g.take 5) else .error .parseError := by
  rw [List.cons_append, scanType, if_neg (not_not.mpr rfl), takeChars_field hg fieldEnd_zero]
  split_ifs <;> rfl

/-- The type of a sentence. -/
theorem minmeaSentenceId_text (t : NmeaText) (strict : Bool) (hstrict : strict → t.digits.isSome)
    {g : List UInt8} {fs : List (List UInt8)}
    (hfields : t.fields = ('$'.toUInt8 :: g) :: fs) :
    minmeaSentenceId (t.text ++ [0]) strict =
      .ok (if 5 ≤ g.length then typeId ((g.take 5).drop 2) else .invalid) := by
  have hcheck : minmeaCheck (t.text ++ [0]) strict = some true := by
    obtain ⟨b, hb, hiff⟩ := minmeaCheck_iff t.text t.zero_not_mem strict
    rw [hb, hiff.mpr ⟨t, rfl, hstrict⟩]
  have hg : IsField g := by
    have hfield := t.isField_fields
    rw [hfields] at hfield
    exact (isField_cons.mp (hfield _ List.mem_cons_self)).2
  have hscan : minmeaScan (t.text ++ [0]) [.type] =
      if 5 ≤ g.length then .ok (@ScanArgs.cons .type [] (g.take 5) .nil)
      else .error .parseError := by
    have hconvert : convertFields [.type] t.fields false = (do
        let type ← scanType (some ('$'.toUInt8 :: g ++ [0]))
        return @ScanArgs.cons .type [] type .nil) := by
      rw [hfields]
      rfl
    rw [minmeaScan_text, hconvert, scanType_field hg]
    split_ifs <;> rfl
  rw [minmeaSentenceId, hcheck, hscan]
  by_cases h5 : 5 ≤ g.length
  · rw [if_pos h5, if_pos h5]
    rfl
  · rw [if_neg h5, if_neg h5]
    rfl

/-- A sentence has a type if its first field is long enough. -/
theorem typedAs_iff {t : NmeaText} {s code : List UInt8} {strict : Bool} (htext : t.text = s)
    (hstrict : strict → t.digits.isSome) {g : List UInt8} {fs : List (List UInt8)}
    (hfields : t.fields = ('$'.toUInt8 :: g) :: fs) :
    TypedAs s strict t code ↔ 5 ≤ g.length ∧ code = (g.take 5).drop 2 := by
  constructor
  · rintro ⟨-, -, a, b, c, d, e, more, hhead, rfl⟩
    rw [hfields, List.head?_cons, Option.some.injEq, List.cons.injEq] at hhead
    rw [hhead.2]
    exact ⟨by simp, rfl⟩
  · rintro ⟨h5, rfl⟩
    obtain ⟨a, b, c, d, e, more, rfl⟩ : ∃ a b c d e more, g = a :: b :: c :: d :: e :: more := by
      rcases g with _ | ⟨a, _ | ⟨b, _ | ⟨c, _ | ⟨d, _ | ⟨e, more⟩⟩⟩⟩⟩
      case cons.cons.cons.cons.cons => exact ⟨a, b, c, d, e, more, rfl⟩
      all_goals exact absurd h5 (by simp)
    exact ⟨htext, hstrict, a, b, c, d, e, more, by rw [hfields]; rfl, rfl⟩

/-- **A line has the type that its letters behind the talker say, if it is a well formed sentence
that has these letters; every other line is invalid.** -/
theorem minmeaSentenceId_spec (s : List UInt8) (hs : 0 ∉ s) (strict : Bool) :
    (∀ t code, TypedAs s strict t code →
      minmeaSentenceId (s ++ [0]) strict = .ok (typeId code)) ∧
    ((¬∃ t code, TypedAs s strict t code) →
      minmeaSentenceId (s ++ [0]) strict = .ok .invalid) := by
  constructor
  · intro t code h
    obtain ⟨g, fs, hfields⟩ := t.fields_eq
    obtain ⟨h5, rfl⟩ := (typedAs_iff h.text h.digits hfields).mp h
    rw [← h.text, minmeaSentenceId_text t strict h.digits hfields, if_pos h5]
  · intro hnone
    obtain ⟨b, hb, hiff⟩ := minmeaCheck_iff s hs strict
    cases b with
    | false =>
      rw [minmeaSentenceId, hb]
      rfl
    | true =>
      obtain ⟨t, rfl, hstrict⟩ := hiff.mp rfl
      obtain ⟨g, fs, hfields⟩ := t.fields_eq
      rw [minmeaSentenceId_text t strict hstrict hfields, if_neg]
      exact fun h5 => hnone ⟨t, _, (typedAs_iff rfl hstrict hfields).mpr ⟨h5, rfl⟩⟩

/-- `$GPGGA,1*4B` -/
def ggaText : NmeaText where
  body := ['G', 'P', 'G', 'G', 'A', ',', '1'].map Char.toUInt8
  digits := some ('4'.toUInt8, 'B'.toUInt8)
  lineEnd := []
  body_print := List.all_iff_forall_prop.mp rfl
  checksum := fun _ h => Option.some.inj h ▸ ⟨4, 11, rfl, rfl, rfl⟩
  lineEnd_mem := nil_mem_nmeaLineEnds
  length_le := by decide

/-- A sentence with a type, and the same with another digit in its checksum. -/
theorem minmeaSentenceId_spec_gga :
    minmeaSentenceId (ggaText.text ++ [0]) true = .ok .gga ∧
    minmeaSentenceId (ggaText.text.dropLast ++ [0x43] ++ [0]) true = .ok .invalid := by
  have htyped : TypedAs ggaText.text true ggaText (letters 'G' 'G' 'A') :=
    ⟨rfl, fun _ => rfl, _, _, _, _, _, _, rfl, rfl⟩
  have huntyped : ¬∃ t code, TypedAs (ggaText.text.dropLast ++ [0x43]) true t code := by
    rintro ⟨t, code, h⟩
    obtain ⟨b, hb, hiff⟩ := minmeaCheck_iff (ggaText.text.dropLast ++ [0x43]) (by decide) true
    obtain rfl := hiff.mpr ⟨t, h.text, h.digits⟩
    exact absurd hb (by decide)
  exact ⟨(minmeaSentenceId_spec ggaText.text (by decide) true).1 _ _ htyped,
    (minmeaSentenceId_spec (ggaText.text.dropLast ++ [0x43]) (by decide) true).2 huntyped⟩

end Rhex
