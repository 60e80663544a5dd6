import Mathlib
import Rhex.Lib.Placed
import Rhex.StreamInterface

/-!
# The arguments of a radiotap header

A radiotap header announces its arguments by the bits of its present bitmaps, and stores them one
behind the other. The receivers walk through them with two iterators of different age.

* `headerArgs` — the arguments of a header without vendor namespaces, and their positions.
* `visits_header` — the iterator of `radiotap_rc.c` visits these.
* `radiotap_signal` — the signal that `wfb_rx_packet_interface` takes from a header.
* `radiotap_video_signal` — the one that `wfb_rx_stream_interface` takes.
-/

namespace Rhex

open Memory Placed Traced

/-! ## The format -/

/-- `rtap_namespace_sizes`, of the arguments that have an alignment. -/
def rtapKind : Kind := fun tag => (rtapNamespaceSizes[tag]?).filter fun s => decide (0 < s.1)

theorem rtapKind_aligned : rtapKind.Aligned := by
  intro tag align size h
  simpa using (Option.filter_eq_some_iff.mp h).2

/-- The arguments that a bitmap announces; the other bits are for namespaces and extensions. -/
def wordTags (w : UInt32) : List Nat := (List.range 29).filter w.toNat.testBit

/-- The arguments of the bitmaps `ws`, from `pos` on. A bitmap that does not start a namespace goes
on with the count of the one before it, and announces nothing that is known. -/
def headerArgs (limit : Nat) : List UInt32 → Bool → Nat → List (Nat × Nat)
  | [], _, _ => []
  | w :: ws, true, pos => place rtapKind limit (wordTags w) pos ++
      ((finish rtapKind limit (wordTags w) pos).map
        (headerArgs limit ws (w.toNat.testBit radiotapRadiotapNamespace))).getD []
  | w :: ws, false, pos =>
    if wordTags w = [] then headerArgs limit ws (w.toNat.testBit radiotapRadiotapNamespace) pos
    else []

/-- The bitmaps of a header, from the one at `off` on, of at most `n`. -/
def presentWords (rt : Buf) : Nat → Nat → List UInt32
  | 0, _ => []
  | n + 1, off =>
    read32 rt off :: if hasExt (read32 rt off) then presentWords rt n (off + 4) else []

/-- The bitmaps announce no vendor namespace, and not the argument that has no size. -/
def Plain (ws : List UInt32) : Prop :=
  ∀ w ∈ ws, w.toNat.testBit 18 = false ∧ w.toNat.testBit radiotapVendorNamespace = false

theorem headerArgs_of_gt {limit pos : Nat} (h : limit < pos) (ws : List UInt32) (ns : Bool) :
    headerArgs limit ws ns pos = [] := by
  induction ws generalizing ns pos with
  | nil => rfl
  | cons w ws ih =>
    cases ns with
    | true =>
      rw [headerArgs, place_of_gt rtapKind_aligned h, List.nil_append]
      cases hfinish : finish rtapKind limit (wordTags w) pos with
      | none => rfl
      | some p => exact ih (h.trans_le (le_finish rtapKind_aligned hfinish).1) _
    | false =>
      rw [headerArgs]
      split_ifs
      · exact ih h _
      · rfl

/-! ## The walk -/

/-- The arguments that the rest of the walk visits. -/
inductive Visits (rt : Buf) : RcIterator → List (Nat × Nat) → Prop
  | stop {it : RcIterator} (h : nextRound rt it = .stop) : Visits rt it []
  | again {it it' : RcIterator} {l : List (Nat × Nat)} (h : nextRound rt it = .again it')
      (rest : Visits rt it' l) : Visits rt it l
  | hit {it it' : RcIterator} {l : List (Nat × Nat)} (h : nextRound rt it = .hit it')
      (rest : Visits rt it' l) : Visits rt it ((it'.thisArgIndex, it'.thisArg) :: l)

theorem Visits.next {rt : Buf} {it : RcIterator} {l : List (Nat × Nat)} (h : Visits rt it l)
    {fuel : Nat} {r : Option RcIterator} (hr : radiotapIteratorNextRc rt fuel it = some r) :
    (r = none ∧ l = []) ∨ ∃ it' l', r = some it' ∧ l = (it'.thisArgIndex, it'.thisArg) :: l' ∧
      Visits rt it' l' := by
  induction fuel generalizing it with
  | zero => exact absurd hr.symm (Option.some_ne_none r)
  | succ fuel ih =>
    rw [radiotapIteratorNextRc] at hr
    cases h with
    | stop hround =>
      rw [hround] at hr
      exact .inl ⟨(Option.some.inj hr).symm, rfl⟩
    | again hround rest =>
      rw [hround] at hr
      exact ih rest hr
    | hit hround rest =>
      rw [hround] at hr
      exact .inr ⟨_, _, (Option.some.inj hr).symm, rfl, rest⟩

/-- The best signal with one more argument. -/
def bestOf (rt : Buf) (dbm : Int) (x : Nat × Nat) : Int :=
  if x.1 = radiotapDbmAntsignal ∧ toInt8 (rt x.2) < 0 ∧ toInt8 (rt x.2) > -126 ∧
      toInt8 (rt x.2) > dbm then toInt8 (rt x.2)
  else dbm

theorem Visits.signalLoop {rt : Buf} {it : RcIterator} {l : List (Nat × Nat)} (h : Visits rt it l)
    {fuel : Nat} {dbm r : Int} (hr : signalLoop rt fuel it dbm = some r) :
    r = l.foldl (bestOf rt) dbm := by
  induction fuel generalizing it l dbm with
  | zero => exact absurd hr.symm (Option.some_ne_none r)
  | succ fuel ih =>
    rw [Rhex.signalLoop, Option.bind_eq_some_iff] at hr
    obtain ⟨next, hnext, hr⟩ := hr
    rcases h.next hnext with ⟨rfl, rfl⟩ | ⟨it', l', rfl, rfl, rest⟩
    · exact (Option.some.inj hr).symm
    · exact ih rest hr

/-! ## Inside a bitmap -/

/-- The iterator is at bit `j` of the bitmap `w`, whose arguments are counted from `base` on. -/
structure InWord (w : UInt32) (base j : Nat) (it : RcIterator) : Prop where
  dvd : 32 ∣ base
  lt : j < 32
  index : it.argIndex = base + j
  shifter : ∀ k, it.bitmapShifter.toNat.testBit k = w.toNat.testBit (j + k)
  ns : it.currentNamespace = .radiotap

/-- The bitmap ends behind `it'`, for which nothing has changed but the position. -/
structure SameRest (it it' : RcIterator) : Prop where
  maxLength : it'.maxLength = it.maxLength
  nextBitmap : it'.nextBitmap = it.nextBitmap
  resetOnExt : it'.resetOnExt = it.resetOnExt

namespace InWord

variable {rt : Buf} {w : UInt32} {base j : Nat} {it : RcIterator}

theorem mod (h : InWord w base j it) : it.argIndex % 32 = j := by
  obtain ⟨k, hk⟩ := h.dvd
  have := h.lt
  rw [h.index]
  omega

theorem bit (h : InWord w base j it) :
    it.bitmapShifter.toNat.testBit 0 = w.toNat.testBit j := h.shifter 0

theorem nextEntry (h : InWord w base j it) (hlt : j + 1 < 32) :
    InWord w base (j + 1) it.nextEntry := by
  refine ⟨h.dvd, hlt, ?_, fun k => ?_, h.ns⟩
  · simp only [RcIterator.nextEntry, h.index, Nat.add_assoc]
  · have hshift : it.nextEntry.bitmapShifter.toNat = it.bitmapShifter.toNat >>> 1 := by
      simp only [RcIterator.nextEntry, UInt32.toNat_shiftRight]
      rfl
    rw [hshift, Nat.testBit_shiftRight, h.shifter]
    congr 1
    omega

theorem absent (h : InWord w base j it) (hj : j < 31) (hbit : w.toNat.testBit j = false) :
    nextRound rt it = .again it.nextEntry := by
  have hno : ¬(it.argIndex % 32 = radiotapExt ∧ it.bitmapShifter.toNat.testBit 0 = false) := by
    rw [h.mod]
    exact fun hend => absurd hend.1 (by simp only [radiotapExt]; omega)
  rw [nextRound, if_neg hno, if_pos (h.bit.trans hbit)]

theorem set_of_bit (h : InWord w base j it) (hbit : w.toNat.testBit j = true) :
    ¬it.bitmapShifter.toNat.testBit 0 = false := by
  rw [h.bit, hbit]
  decide

/-- A present argument that is not known. -/
theorem unknown (h : InWord w base j it) (hbit : w.toNat.testBit j = true)
    (hlayout : argLayout it = .unknown) : nextRound rt it = .stop := by
  have hset := h.set_of_bit hbit
  rw [nextRound, if_neg fun hend => hset hend.2, if_neg hset, hlayout]

theorem sized (h : InWord w base j it) (hbit : w.toNat.testBit j = true) {align size : Nat}
    (hlayout : argLayout it = .sized align size) :
    nextRound rt it = presentArg rt it align size := by
  have hset := h.set_of_bit hbit
  rw [nextRound, if_neg fun hend => hset hend.2, if_neg hset, hlayout]

end InWord

theorem alignArg_arg (it : RcIterator) {k : Nat} :
    (it.alignArg (2 ^ k)).arg = Align.up (2 ^ k) it.arg := by
  rw [Align.up_eq_add_pad (Nat.two_pow_pos k), RcIterator.alignArg, Nat.and_two_pow_sub_one_eq_mod]

theorem rtapKind_two_pow {tag align size : Nat} (h : rtapKind tag = some (align, size)) :
    ∃ k, align = 2 ^ k := by
  have hget := (Option.filter_eq_some_iff.mp h).1
  have hpow : ∀ s ∈ rtapNamespaceSizes, 0 < s.1 → ∃ k < 4, s.1 = 2 ^ k := by decide
  obtain ⟨k, -, hk⟩ := hpow (align, size) (List.mem_of_getElem? hget)
    (rtapKind_aligned tag align size h)
  exact ⟨k, hk⟩

theorem argLayout_radiotap {w : UInt32} {j : Nat} {it : RcIterator} (h : InWord w 0 j it)
    (hj : j < 29) (hplain : j ≠ 18) :
    argLayout it = ((rtapKind j).map fun s => ArgLayout.sized s.1 s.2).getD .unknown := by
  have hindex : it.argIndex = j := h.index.trans (Nat.zero_add j)
  simp only [argLayout, hindex, h.ns]
  interval_cases j <;> first | rfl | exact absurd rfl hplain

/-- Behind a bitmap that starts no namespace no argument is known. -/
theorem argLayout_continued {w : UInt32} {base j : Nat} {it : RcIterator} (h : InWord w base j it)
    (hbase : base ≠ 0) (hj : j < 29) : argLayout it = .unknown := by
  have hge : 32 ≤ base := Nat.le_of_dvd (Nat.pos_of_ne_zero hbase) h.dvd
  have hbits : it.argIndex ≥ it.currentNamespace.nBits := by
    rw [h.ns, h.index]
    exact Nat.le_add_right_of_le (le_trans (by decide) hge)
  rw [argLayout, h.mod, if_neg (by simp only [radiotapRadiotapNamespace, radiotapExt]; omega),
    if_neg (by simp only [radiotapVendorNamespace]; omega), if_pos hbits, if_pos h.ns]

/-- The iterator behind an argument of the given size. -/
def RcIterator.passed (it : RcIterator) (align size : Nat) : RcIterator :=
  { it.alignArg align with
    thisArgIndex := it.argIndex
    thisArg := (it.alignArg align).arg
    arg := (it.alignArg align).arg + size }

theorem presentArg_eq {rt : Buf} {it : RcIterator} (h : it.argIndex % 32 ≠ radiotapVendorNamespace)
    (align size : Nat) : presentArg rt it align size =
      if (it.passed align size).arg > it.maxLength then .stop
      else endRound rt (it.passed align size) := by
  have hsame : (it.alignArg align).argIndex = it.argIndex := rfl
  simp only [presentArg, hsame, if_neg h]
  rfl

theorem endRound_arg {rt : Buf} {it : RcIterator} (h : it.argIndex % 32 < 29) :
    endRound rt it = .hit it.nextEntry := by
  rw [endRound, if_neg (by simp only [radiotapVendorNamespace]; omega),
    if_neg (by simp only [radiotapRadiotapNamespace]; omega),
    if_neg (by simp only [radiotapExt]; omega)]

theorem InWord.passed {w : UInt32} {base j : Nat} {it : RcIterator} (h : InWord w base j it)
    (align size : Nat) : InWord w base j (it.passed align size) :=
  ⟨h.dvd, h.lt, h.index, h.shifter, h.ns⟩

theorem passed_arg {tag align size : Nat} (hkind : rtapKind tag = some (align, size))
    (it : RcIterator) : (it.passed align size).thisArg = Align.up align it.arg ∧
      (it.passed align size).arg = Align.up align it.arg + size := by
  obtain ⟨k, rfl⟩ := rtapKind_two_pow hkind
  rw [← alignArg_arg]
  exact ⟨rfl, rfl⟩

section Argument

variable {rt : Buf} {w : UInt32} {j align size : Nat} {it : RcIterator} (h : InWord w 0 j it)
  (hj : j < 29) (hplain : j ≠ 18) (hbit : w.toNat.testBit j = true)
include h hj hplain hbit

theorem nextRound_known (hkind : rtapKind j = some (align, size)) : nextRound rt it =
    if Align.up align it.arg + size ≤ it.maxLength then .hit (it.passed align size).nextEntry
    else .stop := by
  have hlayout : argLayout it = .sized align size := by
    rw [argLayout_radiotap h hj hplain, hkind]
    rfl
  have hvendor : it.argIndex % 32 ≠ radiotapVendorNamespace := by
    rw [h.mod]
    simp only [radiotapVendorNamespace]
    omega
  have hlast : (it.passed align size).argIndex % 32 < 29 := (h.passed align size).mod ▸ hj
  rw [h.sized hbit hlayout, presentArg_eq hvendor, endRound_arg hlast, (passed_arg hkind it).2]
  by_cases hfits : Align.up align it.arg + size ≤ it.maxLength
  · rw [if_pos hfits, if_neg (Nat.not_lt.mpr hfits)]
  · rw [if_neg hfits, if_pos (Nat.not_le.mp hfits)]

theorem nextRound_unknown (hkind : rtapKind j = none) : nextRound rt it = .stop := by
  apply h.unknown hbit
  rw [argLayout_radiotap h hj hplain, hkind]
  rfl

end Argument

/-- **The arguments of a bitmap** that starts a namespace: those that `place` finds, and then what
is visited behind the last of them. -/
theorem visits_args {rt : Buf} {w : UInt32} (hplain : w.toNat.testBit 18 = false)
    (rest : Nat → List (Nat × Nat)) {j n : Nat} (hn : j + n = 29) {it : RcIterator}
    (h : InWord w 0 j it)
    (hrest : ∀ it', InWord w 0 29 it' → SameRest it it' →
      finish rtapKind it.maxLength ((List.range' j n).filter w.toNat.testBit) it.arg =
        some it'.arg → Visits rt it' (rest it'.arg)) :
    Visits rt it (place rtapKind it.maxLength ((List.range' j n).filter w.toNat.testBit) it.arg ++
      ((finish rtapKind it.maxLength ((List.range' j n).filter w.toNat.testBit) it.arg).map
        rest).getD []) := by
  induction n generalizing j it with
  | zero =>
    obtain rfl : j = 29 := hn
    exact hrest it h ⟨rfl, rfl, rfl⟩ rfl
  | succ n ih =>
    rw [List.range'_succ] at hrest ⊢
    by_cases hbit : w.toNat.testBit j = true
    · rw [List.filter_cons_of_pos hbit] at hrest ⊢
      have hj : j ≠ 18 := by
        rintro rfl
        exact absurd (hplain.symm.trans hbit) (by decide)
      cases hkind : rtapKind j with
      | none =>
        obtain ⟨hplace, hfinish⟩ := @place_cons_none _ it.maxLength _ hkind
          ((List.range' (j + 1) n).filter w.toNat.testBit) it.arg
        rw [hplace, hfinish]
        exact .stop (nextRound_unknown h (by omega) hj hbit hkind)
      | some item =>
        obtain ⟨align, size⟩ := item
        have hround : nextRound rt it = _ := nextRound_known h (by omega) hj hbit hkind
        obtain ⟨hthis, harg⟩ := passed_arg hkind it
        by_cases hfits : Align.up align it.arg + size ≤ it.maxLength
        · rw [if_pos hfits] at hround
          obtain ⟨hplace, hfinish⟩ := place_cons_of_le hkind hfits
            ((List.range' (j + 1) n).filter w.toNat.testBit)
          have hnext : InWord w 0 (j + 1) (it.passed align size).nextEntry :=
            (h.passed align size).nextEntry (by omega)
          obtain rfl : it.argIndex = j := h.index.trans (Nat.zero_add j)
          have hvisit := ih (by omega) hnext fun it' h' hsame hend =>
            hrest it' h' ⟨hsame.maxLength, hsame.nextBitmap, hsame.resetOnExt⟩
              (hfinish.trans (harg ▸ hend))
          rw [hplace, hfinish, ← harg, ← hthis, List.cons_append]
          exact .hit hround hvisit
        · rw [if_neg hfits] at hround
          obtain ⟨hplace, hfinish⟩ := place_cons_of_gt hkind hfits
            ((List.range' (j + 1) n).filter w.toNat.testBit)
          rw [hplace, hfinish]
          exact .stop hround
    · rw [List.filter_cons_of_neg hbit] at hrest ⊢
      rw [Bool.not_eq_true] at hbit
      refine .again (h.absent (by omega) hbit) (ih (by omega) (h.nextEntry (by omega)) ?_)
      exact fun it' h' hsame hend =>
        hrest it' h' ⟨hsame.maxLength, hsame.nextBitmap, hsame.resetOnExt⟩ hend

/-- A bitmap that starts no namespace: if it announces nothing, the walk goes on behind it. -/
theorem visits_continued {rt : Buf} {w : UInt32} {base : Nat} (hbase : base ≠ 0)
    {rest : List (Nat × Nat)} {j n : Nat} (hn : j + n = 29) {it : RcIterator}
    (h : InWord w base j it)
    (hrest : ∀ it', InWord w base 29 it' → SameRest it it' → it'.arg = it.arg →
      Visits rt it' rest) :
    Visits rt it (if (List.range' j n).filter w.toNat.testBit = [] then rest else []) := by
  induction n generalizing j it with
  | zero =>
    obtain rfl : j = 29 := hn
    rw [List.range'_zero, List.filter_nil, if_pos rfl]
    exact hrest it h ⟨rfl, rfl, rfl⟩ rfl
  | succ n ih =>
    rw [List.range'_succ]
    by_cases hbit : w.toNat.testBit j = true
    · rw [List.filter_cons_of_pos hbit, if_neg (List.cons_ne_nil _ _)]
      exact .stop (h.unknown hbit (argLayout_continued h hbase (by omega)))
    · rw [List.filter_cons_of_neg hbit]
      rw [Bool.not_eq_true] at hbit
      refine .again (h.absent (by omega) hbit) (ih (by omega) (h.nextEntry (by omega)) ?_)
      exact fun it' h' hsame harg =>
        hrest it' h' ⟨hsame.maxLength, hsame.nextBitmap, hsame.resetOnExt⟩ harg

/-! ## From bitmap to bitmap -/

theorem passed_special (it : RcIterator) : (it.passed 1 0).arg = it.arg := by
  simp [RcIterator.passed, RcIterator.alignArg]

theorem InWord.special {rt : Buf} {w : UInt32} {base j : Nat} {it : RcIterator}
    (h : InWord w base j it) (hj : j = radiotapRadiotapNamespace ∨ j = radiotapExt)
    (hbit : w.toNat.testBit j = true) :
    nextRound rt it = if it.arg > it.maxLength then .stop else endRound rt (it.passed 1 0) := by
  have hlayout : argLayout it = .sized 1 0 := by
    rw [argLayout, h.mod, if_pos hj]
  have hvendor : it.argIndex % 32 ≠ radiotapVendorNamespace := by
    rw [h.mod]
    rcases hj with rfl | rfl <;> decide
  rw [h.sized hbit hlayout, presentArg_eq hvendor, passed_special]

/-- The bit that starts a namespace is noted for the next bitmap. -/
theorem visits_namespaceBit {rt : Buf} {w : UInt32} {base : Nat} {it : RcIterator}
    (h : InWord w base radiotapRadiotapNamespace it) (hreset : it.resetOnExt = false)
    {l : List (Nat × Nat)} (hover : it.maxLength < it.arg → l = [])
    (hrest : ∀ it', InWord w base radiotapVendorNamespace it' → it'.maxLength = it.maxLength →
      it'.nextBitmap = it.nextBitmap → it'.arg = it.arg →
        it'.resetOnExt = w.toNat.testBit radiotapRadiotapNamespace → Visits rt it' l) :
    Visits rt it l := by
  by_cases hbit : w.toNat.testBit radiotapRadiotapNamespace = true
  · have hround : nextRound rt it = _ := h.special (.inl rfl) hbit
    by_cases hgt : it.arg > it.maxLength
    · rw [if_pos hgt] at hround
      rw [hover hgt]
      exact .stop hround
    · have hend : endRound rt (it.passed 1 0) = .again
          { it.passed 1 0 with resetOnExt := true, currentNamespace := .radiotap }.nextEntry := by
        have hmod : (it.passed 1 0).argIndex % 32 = radiotapRadiotapNamespace := h.mod
        rw [endRound, if_neg (by rw [hmod]; decide), if_pos hmod]
      rw [if_neg hgt, hend] at hround
      have hnoted : InWord w base radiotapRadiotapNamespace
          { it.passed 1 0 with resetOnExt := true, currentNamespace := .radiotap } :=
        ⟨h.dvd, h.lt, h.index, h.shifter, rfl⟩
      exact .again hround (hrest _ (hnoted.nextEntry (by decide)) rfl rfl (passed_special it)
        hbit.symm)
  · rw [Bool.not_eq_true] at hbit
    exact .again (h.absent (by decide) hbit) (hrest _ (h.nextEntry (by decide)) rfl rfl rfl
      (hreset.trans hbit.symm))

/-- The bit for an extension leads to the next bitmap. -/
theorem visits_extBit {rt : Buf} {w : UInt32} {base : Nat} {it : RcIterator}
    (h : InWord w base radiotapExt it) {l : List (Nat × Nat)}
    (hover : it.maxLength < it.arg → l = [])
    (hrest : hasExt w = true → ∀ it', InWord (read32 rt it.nextBitmap)
        (if it.resetOnExt then 0 else base + 32) 0 it' →
      it'.maxLength = it.maxLength → it'.nextBitmap = it.nextBitmap + 4 → it'.arg = it.arg →
        it'.resetOnExt = false → Visits rt it' l) :
    Visits rt it (if hasExt w then l else []) := by
  by_cases hbit : hasExt w = true
  · rw [if_pos hbit]
    have hround : nextRound rt it = _ := h.special (.inr rfl) hbit
    by_cases hgt : it.arg > it.maxLength
    · rw [if_pos hgt] at hround
      rw [hover hgt]
      exact .stop hround
    · have hmod : (it.passed 1 0).argIndex % 32 = radiotapExt := h.mod
      have hend : endRound rt (it.passed 1 0) = .again { it.passed 1 0 with
          bitmapShifter := read32 rt it.nextBitmap
          nextBitmap := it.nextBitmap + 4
          argIndex := if it.resetOnExt then 0 else it.argIndex + 1
          resetOnExt := false } := by
        rw [endRound, if_neg (by rw [hmod]; decide), if_neg (by rw [hmod]; decide), if_pos hmod]
        rfl
      rw [if_neg hgt, hend] at hround
      refine .again hround (hrest hbit _ ⟨?_, by decide, ?_, fun k => ?_, h.ns⟩ rfl rfl
        (passed_special it) rfl)
      · split_ifs
        · exact Nat.dvd_zero 32
        · exact Nat.dvd_add h.dvd (Nat.dvd_refl 32)
      · simp only [h.index, Nat.add_zero]
      · rw [Nat.zero_add]
  · rw [if_neg hbit]
    rw [Bool.not_eq_true] at hbit
    have hlast : it.argIndex % 32 = radiotapExt ∧ it.bitmapShifter.toNat.testBit 0 = false :=
      ⟨h.mod, h.bit.trans hbit⟩
    exact .stop (by rw [nextRound, if_pos hlast])

/-- The end of a bitmap without a vendor namespace. -/
theorem visits_wordEnd {rt : Buf} {w : UInt32} {base : Nat} {it : RcIterator}
    (h : InWord w base radiotapRadiotapNamespace it) (hreset : it.resetOnExt = false)
    (hvendor : w.toNat.testBit radiotapVendorNamespace = false) {l : List (Nat × Nat)}
    (hover : it.maxLength < it.arg → l = [])
    (hrest : hasExt w = true → ∀ it', InWord (read32 rt it.nextBitmap)
        (if w.toNat.testBit radiotapRadiotapNamespace then 0 else base + 32) 0 it' →
      it'.maxLength = it.maxLength → it'.nextBitmap = it.nextBitmap + 4 → it'.arg = it.arg →
        it'.resetOnExt = false → Visits rt it' l) :
    Visits rt it (if hasExt w then l else []) := by
  refine visits_namespaceBit h hreset (fun hgt => ?_) fun it₁ h₁ hmax₁ hnext₁ harg₁ hreset₁ => ?_
  · rw [hover hgt, ite_self]
  · refine .again (h₁.absent (by decide) hvendor) (visits_extBit (h₁.nextEntry (by decide)) ?_ ?_)
    · exact fun hgt => hover (hmax₁ ▸ harg₁ ▸ hgt)
    · intro hext it₂ h₂ hmax₂ hnext₂ harg₂ hreset₂
      have hword : read32 rt it₁.nextEntry.nextBitmap = read32 rt it.nextBitmap :=
        congrArg (read32 rt) hnext₁
      have hbase : it₁.nextEntry.resetOnExt = w.toNat.testBit radiotapRadiotapNamespace := hreset₁
      rw [hword, hbase] at h₂
      exact hrest hext it₂ h₂ (hmax₂.trans hmax₁) (hnext₂.trans (congrArg (· + 4) hnext₁))
        (harg₂.trans harg₁) hreset₂

/-- **The bitmaps of a header**, one after the other. -/
theorem visits_words {rt : Buf} {n off : Nat}
    (hlast : ∃ k < n, hasExt (read32 rt (off + 4 * k)) = false)
    (hplain : Plain (presentWords rt n off)) {base : Nat} {it : RcIterator}
    (h : InWord (read32 rt off) base 0 it) (hreset : it.resetOnExt = false)
    (hnext : it.nextBitmap = off + 4) :
    Visits rt it (headerArgs it.maxLength (presentWords rt n off) (decide (base = 0)) it.arg) := by
  induction n generalizing off base it with
  | zero =>
    obtain ⟨k, hk, -⟩ := hlast
    exact absurd hk (Nat.not_lt_zero k)
  | succ n ih =>
    rw [presentWords] at hplain ⊢
    generalize hword : read32 rt off = w at h hplain ⊢
    obtain ⟨hsize, hvendor⟩ := hplain w List.mem_cons_self
    -- what is visited behind the bitmap, from each position on
    have hend : ∀ it', InWord w base radiotapRadiotapNamespace it' → SameRest it it' →
        Visits rt it' (headerArgs it.maxLength
          (if hasExt w then presentWords rt n (off + 4) else [])
          (w.toNat.testBit radiotapRadiotapNamespace) it'.arg) := by
      intro it' h' hsame
      have hsplit : headerArgs it.maxLength (if hasExt w then presentWords rt n (off + 4) else [])
          (w.toNat.testBit radiotapRadiotapNamespace) it'.arg =
            if hasExt w then headerArgs it.maxLength (presentWords rt n (off + 4))
              (w.toNat.testBit radiotapRadiotapNamespace) it'.arg else [] := by
        split_ifs <;> rfl
      rw [hsplit]
      refine visits_wordEnd h' (hsame.resetOnExt.trans hreset) hvendor
        (fun hgt => headerArgs_of_gt (hsame.maxLength ▸ hgt) _ _) ?_
      intro hext it₂ h₂ hmax₂ hnext₂ harg₂ hreset₂
      have hoff : it'.nextBitmap = off + 4 := hsame.nextBitmap.trans hnext
      rw [hoff] at h₂ hnext₂
      rw [if_pos hext] at hplain
      have hlast' : ∃ k < n, hasExt (read32 rt (off + 4 + 4 * k)) = false := by
        obtain ⟨k, hk, hclear⟩ := hlast
        cases k with
        | zero =>
          rw [Nat.mul_zero, Nat.add_zero, hword] at hclear
          exact absurd (hclear.symm.trans hext) (by decide)
        | succ k => exact ⟨k, by omega, by rw [← hclear]; congr 2; omega⟩
      have hcount : decide ((if w.toNat.testBit radiotapRadiotapNamespace then 0
          else base + 32) = 0) = w.toNat.testBit radiotapRadiotapNamespace := by
        cases w.toNat.testBit radiotapRadiotapNamespace <;> simp
      have hvisit := ih hlast' (fun x hx => hplain x (List.mem_cons_of_mem w hx)) h₂ hreset₂ hnext₂
      rw [hcount, hmax₂, hsame.maxLength, harg₂] at hvisit
      exact hvisit
    have htags : wordTags w = (List.range' 0 29).filter w.toNat.testBit := by
      rw [wordTags, List.range_eq_range']
    by_cases hbase : base = 0
    · subst hbase
      rw [decide_eq_true rfl, headerArgs, htags]
      exact visits_args hsize _ rfl h fun it' h' hsame _ => hend it' h' hsame
    · rw [decide_eq_false hbase, headerArgs, htags]
      exact visits_continued hbase rfl h fun it' h' hsame harg => harg ▸ hend it' h' hsame

/-! ## The header -/

def headerWords (rt : Buf) : List UInt32 := presentWords rt ((read16 rt 2).toNat + 2) 4

def argsStart (rt : Buf) : Nat := 4 + 4 * (headerWords rt).length

theorem length_presentWords {rt : Buf} {j n off : Nat} (hj : j < n)
    (hlast : hasExt (read32 rt (off + 4 * j)) = false)
    (hext : ∀ k < j, hasExt (read32 rt (off + 4 * k)) = true) :
    (presentWords rt n off).length = j + 1 := by
  induction j generalizing n off with
  | zero =>
    obtain ⟨n, rfl⟩ := Nat.exists_eq_succ_of_ne_zero hj.ne'
    rw [Nat.mul_zero, Nat.add_zero] at hlast
    rw [presentWords, hlast]
    rfl
  | succ j ih =>
    obtain ⟨n, rfl⟩ := Nat.exists_eq_succ_of_ne_zero (Nat.ne_zero_of_lt hj)
    have hfirst : hasExt (read32 rt off) = true := hext 0 (Nat.succ_pos j)
    rw [presentWords, if_pos hfirst, List.length_cons, ih (by omega)]
    · rw [← hlast]
      congr 2
      omega
    · intro k hk
      rw [← hext (k + 1) (by omega)]
      congr 2
      omega

/-- The bitmaps that the loop passes. -/
theorem skipBitmaps_passes {rt : Buf} {maxLength arg last : Nat} (hle : arg + 4 ≤ maxLength)
    (h : skipBitmaps rt maxLength arg = some last) :
    ∃ j, last = arg + 4 * j ∧ last + 4 ≤ maxLength ∧ hasExt (read32 rt last) = false ∧
      ∀ k < j, hasExt (read32 rt (arg + 4 * k)) = true := by
  fun_induction skipBitmaps rt maxLength arg with
  | case1 arg hext hover => exact absurd h.symm (Option.some_ne_none last)
  | case2 arg hext hover ih =>
    obtain ⟨j, hj, hlast, hclear, hpassed⟩ := ih (by omega) h
    refine ⟨j + 1, by omega, hlast, hclear, fun k hk => ?_⟩
    cases k with
    | zero => exact hext
    | succ k =>
      rw [← hpassed k (by omega)]
      congr 2
      omega
  | case3 arg hext =>
    obtain rfl := Option.some.inj h
    exact ⟨0, rfl, hle, by simpa using hext, fun k hk => absurd hk (Nat.not_lt_zero k)⟩

/-- **A header that passes the checks** and names no vendor: the walk visits its arguments. -/
theorem visits_header {rt : Buf} {maxLength nsData : Nat} {it : RcIterator}
    (h : radiotapIteratorInitRc rt maxLength nsData = some it) (hplain : Plain (headerWords rt)) :
    Visits rt it (headerArgs (read16 rt 2).toNat (headerWords rt) true (argsStart rt)) := by
  have hinit : ∀ arg, InWord (read32 rt 4) 0 0
      ⟨(read16 rt 2).toNat, .radiotap, arg, nsData, 8, arg, 0, 0, read32 rt 4, false⟩ :=
    fun arg => ⟨Nat.dvd_zero 32, by decide, rfl, fun k => by rw [Nat.zero_add], rfl⟩
  simp only [radiotapIteratorInitRc] at h
  split_ifs at h with _ _ _ hext hover
  · obtain ⟨last, hskip, rfl⟩ := Option.map_eq_some_iff.mp h
    obtain ⟨j, hj, hlast, hclear, hpassed⟩ := skipBitmaps_passes (by omega) hskip
    have hstop : hasExt (read32 rt (4 + 4 * (j + 1))) = false := by
      rw [← hclear, hj]
      congr 2
      omega
    have hlen : (headerWords rt).length = j + 2 := by
      refine length_presentWords (by omega) hstop fun k hk => ?_
      cases k with
      | zero => exact hext
      | succ k =>
        rw [← hpassed k (by omega)]
        congr 2
        omega
    have hstart : argsStart rt = last + 4 := by
      rw [argsStart, hlen, hj]
      omega
    rw [hstart]
    exact visits_words ⟨j + 1, by omega, hstop⟩ hplain (hinit _) rfl rfl
  · obtain rfl := Option.some.inj h
    rw [Bool.not_eq_true] at hext
    have hlen : (headerWords rt).length = 1 :=
      length_presentWords (Nat.succ_pos _) hext fun k hk => absurd hk (Nat.not_lt_zero k)
    have hstart : argsStart rt = 8 := by
      rw [argsStart, hlen]
    rw [hstart]
    exact visits_words ⟨0, Nat.succ_pos _, hext⟩ hplain (hinit _) rfl rfl

/-! ## The signal -/

/-- The signals of the antennas among some arguments. -/
def antSignals (rt : Buf) (args : List (Nat × Nat)) : List Int :=
  (args.filter (·.1 = radiotapDbmAntsignal)).map fun x => toInt8 (rt x.2)

/-- The signals that count. -/
def Audible (signals : List Int) : Set Int := {s | s ∈ signals ∧ -126 < s ∧ s < 0}

theorem bestOf_cases (rt : Buf) (dbm : Int) (x : Nat × Nat) : dbm ≤ bestOf rt dbm x ∧
    (bestOf rt dbm x = dbm ∨ bestOf rt dbm x ∈ Audible (antSignals rt [x])) ∧
      ∀ s ∈ Audible (antSignals rt [x]), s ≤ bestOf rt dbm x := by
  by_cases hant : x.1 = radiotapDbmAntsignal
  · have hsignals : antSignals rt [x] = [toInt8 (rt x.2)] := by
      simp [antSignals, hant]
    rw [hsignals, bestOf]
    simp only [hant, true_and, Audible, List.mem_singleton, Set.mem_ofPred_eq]
    split_ifs with hbest
    · exact ⟨by omega, .inr ⟨rfl, by omega, hbest.1⟩, fun s hs => hs.1.le⟩
    · exact ⟨le_rfl, .inl rfl, fun s hs => by omega⟩
  · have hsignals : antSignals rt [x] = [] := by
      simp [antSignals, hant]
    rw [hsignals, bestOf, if_neg fun h => hant h.1]
    exact ⟨le_rfl, .inl rfl, fun s hs => absurd hs.1 List.not_mem_nil⟩

theorem audible_cons (rt : Buf) (x : Nat × Nat) (args : List (Nat × Nat)) :
    Audible (antSignals rt (x :: args)) =
      Audible (antSignals rt [x]) ∪ Audible (antSignals rt args) := by
  have happend : antSignals rt (x :: args) = antSignals rt [x] ++ antSignals rt args := by
    rw [antSignals, antSignals, antSignals, ← List.map_append, ← List.filter_append]
    rfl
  ext s
  simp only [Audible, happend, List.mem_append, Set.mem_ofPred_eq, Set.mem_union]
  tauto

/-- The loop over the arguments finds the best signal. -/
theorem isGreatest_foldl_bestOf (rt : Buf) (args : List (Nat × Nat)) (dbm : Int) :
    IsGreatest (insert dbm (Audible (antSignals rt args))) (args.foldl (bestOf rt) dbm) := by
  induction args generalizing dbm with
  | nil =>
    have hnone : Audible (antSignals rt []) = ∅ :=
      Set.eq_empty_iff_forall_notMem.mpr fun s hs => absurd hs.1 List.not_mem_nil
    rw [hnone, insert_empty_eq]
    exact isGreatest_singleton
  | cons x args ih =>
    obtain ⟨hmem, hupper⟩ := ih (bestOf rt dbm x)
    obtain ⟨hle, hcases, hbest⟩ := bestOf_cases rt dbm x
    rw [List.foldl_cons, audible_cons]
    have hfirst := hupper (Set.mem_insert _ _)
    refine ⟨?_, ?_⟩
    · rcases hmem with heq | hmem
      · rw [heq]
        rcases hcases with hsame | hnew
        · exact .inl hsame
        · exact .inr (.inl hnew)
      · exact .inr (.inr hmem)
    · rintro s (rfl | hs | hs)
      · exact hle.trans hfirst
      · exact (hbest s hs).trans hfirst
      · exact hupper (.inr hs)

/-- **The signal of a packet.** For every frame that `wfb_rx_packet_interface` takes over and whose
radiotap header names no vendor, the walk visits the arguments of the header, bitmap by bitmap, and
`rx_data.dbm` is the best of the signals above -126 and below zero that the antennas have among
them, and -127 if there is none. -/
theorem radiotap_signal (nsData : Nat) {interface : MonitorInterface} {c : Capture}
    (h : Accepted interface c) (hplain : Plain (headerWords c.data)) : ∃ it interface' rxData,
      radiotapIteratorInitRc c.data c.len.toNat nsData = some it ∧
      Visits c.data it (headerArgs c.headerLen (headerWords c.data) true (argsStart c.data)) ∧
      wfbRxPacketInterface nsData interface .zero (.frame c) = some (1, interface', rxData) ∧
      IsGreatest (insert (-127) (Audible (antSignals c.data (headerArgs c.headerLen
        (headerWords c.data) true (argsStart c.data))))) rxData.dbm := by
  obtain ⟨hlen, hinit⟩ := h
  rw [radiotapIteratorInitRc_isSome _ _ _ nsData] at hinit
  obtain ⟨it, hit⟩ := Option.isSome_iff_exists.mp hinit
  obtain ⟨dbm, hdbm⟩ := signalLoop_returns _ (radiotapIteratorInitRc_spec hit) le_rfl (-127)
  have hge : ¬c.len.toNat < c.headerLen + (frameKind interface RxPacket.zero.type c.typeByte).1 :=
    Nat.not_lt.mpr hlen
  have hvisits := visits_header hit hplain
  simp only [wfbRxPacketInterface, receiveFrame, if_neg hge, hit, hdbm, Option.bind_eq_bind,
    Option.bind_some]
  refine ⟨it, _, _, rfl, hvisits, rfl, ?_⟩
  rw [hvisits.signalLoop hdbm]
  exact isGreatest_foldl_bestOf _ _ _

/-- A frame of one antenna, with a signal of -60. -/
def antFrame : Capture where
  caplen := 14
  len := 14
  data := ofList [0, 0, 9, 0, 0x20, 0, 0, 0, 0xC4, 0x08, 0x01, 0x00, 0x00, 0x01]

theorem headerWords_antFrame : headerWords antFrame.data = [0x20] := by
  rw [headerWords, presentWords, if_neg (by decide)]
  rfl

theorem plain_antFrame : Plain (headerWords antFrame.data) := by
  rw [headerWords_antFrame]
  intro w hw
  obtain rfl := List.mem_singleton.mp hw
  exact ⟨rfl, rfl⟩

theorem radiotap_signal_antFrame : ∃ it interface' rxData,
    radiotapIteratorInitRc antFrame.data antFrame.len.toNat 0 = some it ∧
    Visits antFrame.data it (headerArgs antFrame.headerLen (headerWords antFrame.data) true
      (argsStart antFrame.data)) ∧
    wfbRxPacketInterface 0 ⟨0⟩ .zero (.frame antFrame) = some (1, interface', rxData) ∧
    IsGreatest (insert (-127) (Audible (antSignals antFrame.data (headerArgs antFrame.headerLen
      (headerWords antFrame.data) true (argsStart antFrame.data))))) rxData.dbm :=
  radiotap_signal 0 ⟨by decide, by decide⟩ plain_antFrame

/-! ## The older iterator -/

/-- `rt_sizes`. -/
def rtKind : Kind := fun tag => (rtSizes[tag]?).map fun s => (s.toNat / 16, s.toNat % 16)

theorem rtKind_eq {tag : Nat} (h : tag < 14) : rtKind tag = rtapKind tag := by
  interval_cases tag <;> rfl

theorem rtKind_aligned : rtKind.Aligned := by
  intro tag align size h
  by_cases hlt : tag < 14
  · exact rtapKind_aligned tag align size (rtKind_eq hlt ▸ h)
  · have hnone : rtKind tag = none := by
      rw [rtKind, List.getElem?_eq_none (Nat.not_lt.mp hlt)]
      rfl
    exact absurd (hnone.symm.trans h).symm (Option.some_ne_none _)

/-- The older iterator is in the bitmap `w`. -/
def AtBit (w : UInt32) (it : RadiotapIterator) : Prop :=
  ∀ k, it.bitmapShifter.toNat.testBit k = w.toNat.testBit (it.argIndex + k)

theorem AtBit.nextEntry {w : UInt32} {it : RadiotapIterator} (h : AtBit w it) :
    AtBit w it.nextEntry := by
  intro k
  have hshift : it.nextEntry.bitmapShifter.toNat = it.bitmapShifter.toNat >>> 1 := by
    simp only [RadiotapIterator.nextEntry, UInt32.toNat_shiftRight]
    rfl
  rw [hshift, Nat.testBit_shiftRight, h, RadiotapIterator.nextEntry, Nat.add_assoc]

/-- The tags that the older iterator has before it. -/
def tagsFrom (w : UInt32) (j : Nat) : List Nat :=
  (List.range' j (rtSizes.length - j)).filter w.toNat.testBit

theorem tagsFrom_of_lt {w : UInt32} {j : Nat} (h : j < rtSizes.length) :
    tagsFrom w j = if w.toNat.testBit j then j :: tagsFrom w (j + 1) else tagsFrom w (j + 1) := by
  have hlen : rtSizes.length - j = rtSizes.length - (j + 1) + 1 := by
    omega
  rw [tagsFrom, hlen, List.range'_succ, List.filter_cons]
  rfl

theorem alignedArg_eq {it : RadiotapIterator} (h : it.argIndex < rtSizes.length) :
    ∃ align size, rtKind it.argIndex = some (align, size) ∧
      (rtSizes.getD it.argIndex 0).toNat % 16 = size ∧
      it.alignedArg (rtSizes.getD it.argIndex 0).toNat = Align.up align it.arg := by
  have hpow : ∀ i < rtSizes.length, ∃ k < 4, (rtSizes.getD i 0).toNat / 16 = 2 ^ k := by decide
  obtain ⟨k, -, hk⟩ := hpow it.argIndex h
  refine ⟨2 ^ k, _, ?_, rfl, ?_⟩
  · rw [List.getD_eq_getElem _ _ h] at hk ⊢
    rw [rtKind, List.getElem?_eq_getElem h, Option.map_some, hk]
  · rw [RadiotapIterator.alignedArg, hk, Align.up_eq_add_pad (Nat.two_pow_pos k),
      Nat.and_two_pow_sub_one_eq_mod]

/-- What the older iterator returns next. -/
theorem radiotapIteratorNext_place {w : UInt32} {it : RadiotapIterator} (h : AtBit w it) :
    (radiotapIteratorNext it = none ∧
        place rtKind it.maxLength (tagsFrom w it.argIndex) it.arg = []) ∨
      ∃ it', radiotapIteratorNext it = some it' ∧ AtBit w it' ∧ it'.maxLength = it.maxLength ∧
        place rtKind it.maxLength (tagsFrom w it.argIndex) it.arg =
          (it'.thisArgIndex, it'.thisArg) ::
            place rtKind it.maxLength (tagsFrom w it'.argIndex) it'.arg := by
  fun_induction radiotapIteratorNext it with
  | case1 it hindex hbit ih =>
    have hclear : ¬w.toNat.testBit it.argIndex = true := by
      rw [← Nat.add_zero it.argIndex, ← h 0, hbit]
      decide
    rw [tagsFrom_of_lt hindex, if_neg hclear]
    exact ih h.nextEntry
  | case2 it hindex hbit size thisArg hover =>
    have hset : w.toNat.testBit it.argIndex = true := by
      rw [← Nat.add_zero it.argIndex, ← h 0]
      simpa using hbit
    obtain ⟨align, n, hkind, hsize, halign⟩ := alignedArg_eq hindex
    have hgt : ¬Align.up align it.arg + n ≤ it.maxLength := by
      rw [← halign, ← hsize]
      exact Nat.not_le.mpr hover
    rw [tagsFrom_of_lt hindex, if_pos hset, (place_cons_of_gt hkind hgt _).1]
    exact .inl ⟨rfl, rfl⟩
  | case3 it hindex hbit size thisArg hover =>
    have hset : w.toNat.testBit it.argIndex = true := by
      rw [← Nat.add_zero it.argIndex, ← h 0]
      simpa using hbit
    obtain ⟨align, n, hkind, hsize, halign⟩ := alignedArg_eq hindex
    have hfits : Align.up align it.arg + n ≤ it.maxLength := by
      rw [← halign, ← hsize]
      exact Nat.not_lt.mp hover
    rw [tagsFrom_of_lt hindex, if_pos hset, (place_cons_of_le hkind hfits _).1, ← halign, ← hsize]
    have hhere : AtBit w { it with
        thisArgIndex := it.argIndex
        thisArg
        arg := thisArg + size % 16 } := h
    exact .inr ⟨_, rfl, hhere.nextEntry, rfl, rfl⟩
  | case4 it hindex =>
    have hnone : tagsFrom w it.argIndex = [] := by
      rw [tagsFrom, Nat.sub_eq_zero_of_le (Nat.not_lt.mp hindex)]
      rfl
    exact .inl ⟨rfl, by rw [hnone]; rfl⟩

/-- The older walk notes the signals that it places. -/
theorem argLoop_place (clk : Nat → UInt64) (rt : Buf) (i : Nat) {w : UInt32}
    {it : RadiotapIterator} (h : AtBit w it) (s : StreamRx) :
    (argLoop clk rt i it s).result = some
      ((antSignals rt (place rtKind it.maxLength (tagsFrom w it.argIndex) it.arg)).foldl
        (fun s signal => noteSignal clk i signal s) s) := by
  fun_induction argLoop clk rt i it s with
  | case1 it s hnext =>
    rcases radiotapIteratorNext_place h with ⟨-, hnone⟩ | ⟨it', hsome, -⟩
    · rw [hnone]
      rfl
    · exact absurd (hnext.symm.trans hsome).symm (Option.some_ne_none it')
  | case2 it s it' hnext hindex ih =>
    rcases radiotapIteratorNext_place h with ⟨hnone, -⟩ | ⟨it'', hsome, hat, hmax, hcons⟩
    · exact absurd (hnext.symm.trans hnone) (Option.some_ne_none it')
    · obtain rfl := Option.some.inj (hsome.symm.trans hnext)
      have hfirst : ∀ l, antSignals rt ((it''.thisArgIndex, it''.thisArg) :: l) =
          toInt8 (rt it''.thisArg) :: antSignals rt l := by
        intro l
        rw [antSignals, List.filter_cons_of_pos (by simpa using hindex)]
        rfl
      rw [hcons, hfirst, List.foldl_cons, ← hmax, result_bind, result_load8, Option.bind_some]
      exact ih (rt it''.thisArg) hat
  | case3 it s it' hnext hindex ih =>
    rcases radiotapIteratorNext_place h with ⟨hnone, -⟩ | ⟨it'', hsome, hat, hmax, hcons⟩
    · exact absurd (hnext.symm.trans hnone) (Option.some_ne_none it')
    · obtain rfl := Option.some.inj (hsome.symm.trans hnext)
      have hother : ∀ l, antSignals rt ((it''.thisArgIndex, it''.thisArg) :: l) =
          antSignals rt l := by
        intro l
        rw [antSignals, List.filter_cons_of_neg (by simpa using hindex)]
        rfl
      rw [hcons, hother, ← hmax]
      exact ih hat

/-- Both iterators place the same signals of the first bitmap. -/
theorem antSignals_place (rt : Buf) (limit : Nat) (w : UInt32) (pos : Nat) :
    antSignals rt (place rtKind limit (tagsFrom w 0) pos) =
      antSignals rt (place rtapKind limit (wordTags w) pos) := by
  have hsplit : ∀ n, (List.range' 0 (6 + n)).filter w.toNat.testBit =
      (List.range' 0 6).filter w.toNat.testBit ++ (List.range' 6 n).filter w.toNat.testBit := by
    intro n
    rw [← List.filter_append, List.range'_append_1]
  have hmore : ∀ n, radiotapDbmAntsignal ∉ (List.range' 6 n).filter w.toNat.testBit := by
    intro n hmem
    have hge := (List.mem_range'_1.mp (List.mem_of_mem_filter hmem)).1
    exact absurd hge (by decide)
  have hagree : ∀ tag ∈ (List.range' 0 6).filter w.toNat.testBit, rtKind tag = rtapKind tag := by
    intro tag hmem
    have hlt := (List.mem_range'_1.mp (List.mem_of_mem_filter hmem)).2
    exact rtKind_eq (by omega)
  have htags : wordTags w = (List.range' 0 (6 + 23)).filter w.toNat.testBit := by
    rw [wordTags, List.range_eq_range']
  have htags' : tagsFrom w 0 = (List.range' 0 (6 + 8)).filter w.toNat.testBit := rfl
  rw [antSignals, antSignals, htags, htags', hsplit, hsplit]
  exact congrArg _ (filter_place_of_agree rtKind_aligned rtapKind_aligned hagree (hmore 8)
    (hmore 23) pos)

/-- The bitmaps that the older loop passes. -/
theorem skipExtended_passes {rt : Buf} {maxLength arg p : Nat}
    (h : (skipExtended rt maxLength arg).result = some p) :
    ∃ j, p = arg + 4 * j + 4 ∧ (j = 0 ∨ arg + 4 * j ≤ maxLength) ∧
      hasExt (read32 rt (arg + 4 * j)) = false ∧
        ∀ k < j, hasExt (read32 rt (arg + 4 * k)) = true := by
  fun_induction skipExtended rt maxLength arg with
  | case1 arg ih =>
    rw [result_bind, result_load32, Option.bind_some] at h
    split_ifs at h with hext hover
    · exact absurd h.symm (Option.some_ne_none p)
    · obtain ⟨j, hp, hle, hclear, hpassed⟩ := ih hover h
      have hnext : ∀ k, arg + 4 + 4 * k = arg + 4 * (k + 1) := by
        omega
      rw [hnext] at hclear
      refine ⟨j + 1, by omega, .inr (by omega), hclear, fun k hk => ?_⟩
      cases k with
      | zero => exact hext
      | succ k =>
        rw [← hnext]
        exact hpassed k (by omega)
    · obtain rfl := Option.some.inj h
      rw [Bool.not_eq_true] at hext
      exact ⟨0, rfl, .inl rfl, hext, fun k hk => absurd hk (Nat.not_lt_zero k)⟩

/-- The older iterator starts where the newer one does. -/
theorem radiotapIteratorInit_start {rt : Buf} {maxLength : Int} {it : RadiotapIterator}
    (h : (radiotapIteratorInit rt maxLength).result = some it) :
    it.arg = argsStart rt ∧ it.maxLength = (read16 rt 2).toNat ∧ it.argIndex = 0 ∧
      AtBit (read32 rt 4) it := by
  obtain ⟨hversion, hlen⟩ := radiotapIteratorInit_accepts (Option.isSome_of_eq_some h)
  unfold radiotapIteratorInit at h
  simp only [result_bind, result_load8, result_load16, result_load32, Option.bind_some,
    if_neg (not_not.mpr hversion), if_neg hlen] at h
  obtain ⟨arg, hstart, harg⟩ := Option.bind_eq_some_iff.mp h
  obtain rfl := Option.some.inj harg
  refine ⟨?_, rfl, rfl, fun k => by rw [Nat.zero_add]⟩
  change arg = _
  rw [payloadStart] at hstart
  split_ifs at hstart with hext
  · obtain ⟨j, rfl, hle, hclear, hpassed⟩ := skipExtended_passes hstart
    have hlen : (headerWords rt).length = j + 2 := by
      have hnext : ∀ k, 8 + 4 * k = 4 + 4 * (k + 1) := by
        omega
      rw [hnext] at hclear
      refine length_presentWords (by omega) hclear fun k hk => ?_
      cases k with
      | zero => exact hext
      | succ k =>
        rw [← hnext]
        exact hpassed k (by omega)
    rw [argsStart, hlen]
    omega
  · obtain rfl := Option.some.inj hstart
    rw [Bool.not_eq_true] at hext
    have hlen : (headerWords rt).length = 1 :=
      length_presentWords (Nat.succ_pos _) hext fun k hk => absurd hk (Nat.not_lt_zero k)
    rw [argsStart, hlen]

/-- **The signal of a video frame.** For every header that passes its checks the video receiver
notes the signals of the first bitmap, one after the other. If the header names no vendor, the
newer iterator visits the arguments of the first bitmap first, at the same places. -/
theorem radiotap_video_signal (clk : Nat → UInt64) (rt : Buf) (maxLength : Int) (i : Nat)
    (s : StreamRx) (h : (radiotapIteratorInit rt maxLength).result.isSome = true) :
    (radiotapIteratorInit rt maxLength >>= fun it => argLoop clk rt i it s).result = some
      ((antSignals rt (place rtapKind (read16 rt 2).toNat (wordTags (read32 rt 4))
        (argsStart rt))).foldl (fun s signal => noteSignal clk i signal s) s) ∧
    ∀ maxLength' nsData itRc, radiotapIteratorInitRc rt maxLength' nsData = some itRc →
      Plain (headerWords rt) → ∃ later, Visits rt itRc
        (place rtapKind (read16 rt 2).toNat (wordTags (read32 rt 4)) (argsStart rt) ++ later) := by
  obtain ⟨it, hit⟩ := Option.isSome_iff_exists.mp h
  obtain ⟨harg, hmax, hindex, hat⟩ := radiotapIteratorInit_start hit
  have hwords : headerWords rt = read32 rt 4 :: (headerWords rt).tail := rfl
  refine ⟨?_, fun maxLength' nsData itRc hitRc hplain => ?_⟩
  · rw [result_bind, hit, Option.bind_some, argLoop_place clk rt i hat, hindex, harg, hmax,
      antSignals_place]
  · have hvisits := visits_header hitRc hplain
    rw [hwords] at hvisits
    exact ⟨_, hvisits⟩

theorem radiotap_video_signal_antFrame :
    (radiotapIteratorInit antFrame.data 14 >>= fun it =>
      argLoop (fun _ => 0) antFrame.data 0 it (StreamRx.init fun _ _ => 0)).result = some
        ((antSignals antFrame.data (place rtapKind (read16 antFrame.data 2).toNat
          (wordTags (read32 antFrame.data 4)) (argsStart antFrame.data))).foldl
            (fun s signal => noteSignal (fun _ => 0) 0 signal s) (StreamRx.init fun _ _ => 0)) ∧
    antSignals antFrame.data (place rtapKind (read16 antFrame.data 2).toNat
      (wordTags (read32 antFrame.data 4)) (argsStart antFrame.data)) = [-60] ∧
    ∃ itRc later, radiotapIteratorInitRc antFrame.data 14 0 = some itRc ∧
      Visits antFrame.data itRc (place rtapKind (read16 antFrame.data 2).toNat
        (wordTags (read32 antFrame.data 4)) (argsStart antFrame.data) ++ later) := by
  obtain ⟨hnoted, hvisits⟩ := radiotap_video_signal (fun _ => 0) antFrame.data 14 0
    (StreamRx.init fun _ _ => 0) (by decide)
  obtain ⟨itRc, hitRc⟩ : ∃ itRc, radiotapIteratorInitRc antFrame.data 14 0 = some itRc := ⟨_, rfl⟩
  obtain ⟨later, hlater⟩ := hvisits 14 0 itRc hitRc plain_antFrame
  exact ⟨hnoted, by decide +kernel, itRc, later, hitRc, hlater⟩

end Rhex
