import Mathlib
import Rhex.Lib.Memory

/-!
# The radiotap iterator (`radiotap_rc.c`)

A captured frame starts with a radiotap header: a chain of present bitmaps and the arguments that
they announce. The iterator walks through the arguments.

* `radiotapIteratorInitRc` — the checks of the header, and the iterator before the first argument.
* `radiotapIteratorNextRc` — the next argument.
* `nextRc_returns` — an iterator that passed the checks comes to an end, since the chain of bitmaps
  does.

Pointers are offsets from the start of the header.
-/

namespace Rhex

open Memory

/-! ## Namespaces -/

/-- `IEEE80211_RADIOTAP_DBM_ANTSIGNAL`. -/
@[simp] abbrev radiotapDbmAntsignal : Nat := 5

/-- `IEEE80211_RADIOTAP_RADIOTAP_NAMESPACE`. -/
@[simp] abbrev radiotapRadiotapNamespace : Nat := 29

/-- `IEEE80211_RADIOTAP_VENDOR_NAMESPACE`. -/
@[simp] abbrev radiotapVendorNamespace : Nat := 30

/-- `IEEE80211_RADIOTAP_EXT`. -/
@[simp] abbrev radiotapExt : Nat := 31

/-- `current_namespace`: `radiotap_ns`, the one entry of the `vns_array` of `wfb_rx.c`, or
`NULL`. -/
inductive RadiotapNs where
  | radiotap
  | vendor
  | null
deriving DecidableEq

/-- `rtap_namespace_sizes`: alignment and size of each argument. Index 18 is not defined. -/
def rtapNamespaceSizes : List (Nat × Nat) :=
  [(8, 8), (1, 1), (1, 1), (2, 4), (2, 2), (1, 1), (1, 1), (2, 2), (2, 2), (2, 2), (1, 1), (1, 1),
    (1, 1), (1, 1), (2, 2), (2, 2), (1, 1), (1, 1), (0, 0), (1, 3), (4, 8), (2, 12), (8, 12)]

/-- `align_size_000000_00`, of which two entries are defined. -/
def alignSize000000 (i : Nat) : Nat × Nat := if i = 0 ∨ i = 52 then (1, 4) else (0, 0)

namespace RadiotapNs

def nBits : RadiotapNs → Nat
  | radiotap => rtapNamespaceSizes.length
  | vendor => 53
  | null => 0

def alignSize : RadiotapNs → Nat → Nat × Nat
  | radiotap, i => rtapNamespaceSizes.getD i (0, 0)
  | vendor, i => alignSize000000 i
  | null, _ => (0, 0)

end RadiotapNs

/-- `find_ns` over the `vns_array` of `wfb_rx.c`. -/
def findNs (oui : Nat) (subns : UInt8) : RadiotapNs :=
  if oui = 0 ∧ subns = 0 then .vendor else .null

/-! ## The iterator -/

/-- `ieee80211_radiotap_iterator`. -/
structure RcIterator where
  maxLength : Nat
  currentNamespace : RadiotapNs
  arg : Nat
  nextNsData : Nat
  nextBitmap : Nat
  thisArg : Nat
  thisArgIndex : Nat
  argIndex : Nat
  bitmapShifter : UInt32
  resetOnExt : Bool

/-- Bit 31 of a present bitmap: another bitmap follows. -/
def hasExt (bitmap : UInt32) : Bool := bitmap.toNat.testBit radiotapExt

/-- The loop that finds the last of the extended bitmaps. -/
def skipBitmaps (rt : Buf) (maxLength arg : Nat) : Option Nat :=
  if hasExt (read32 rt arg) then
    if arg + 4 + 4 > maxLength then none else skipBitmaps rt maxLength (arg + 4)
  else some arg
termination_by maxLength - arg

/-- `ieee80211_radiotap_iterator_init_rc`; `none` is `-EINVAL`. `nextNsData` is what the iterator
happens to hold, it is not initialised. -/
def radiotapIteratorInitRc (rt : Buf) (maxLength nextNsData : Nat) : Option RcIterator :=
  let itLen := (read16 rt 2).toNat
  let itPresent := read32 rt 4
  if maxLength < 8 then none
  else if rt 0 ≠ 0 then none
  else if maxLength < itLen then none
  else
    let it (arg : Nat) : RcIterator :=
      ⟨itLen, .radiotap, arg, nextNsData, 8, arg, 0, 0, itPresent, false⟩
    if hasExt itPresent then
      if 8 + 4 > itLen then none
      else (skipBitmaps rt itLen 8).map fun arg => it (arg + 4)
    else some (it 8)

/-- Alignment and size of the argument at `_arg_index`. -/
inductive ArgLayout where
  /-- No more arguments are known: `-ENOENT`. -/
  | unknown
  /-- The namespace is given up. -/
  | giveUp
  | sized (align size : Nat)

/-- The switch that looks up alignment and size. -/
def argLayout (it : RcIterator) : ArgLayout :=
  if it.argIndex % 32 = radiotapRadiotapNamespace ∨ it.argIndex % 32 = radiotapExt then .sized 1 0
  else if it.argIndex % 32 = radiotapVendorNamespace then .sized 2 6
  else if it.argIndex ≥ it.currentNamespace.nBits then
    if it.currentNamespace = .radiotap then .unknown else .giveUp
  else if (it.currentNamespace.alignSize it.argIndex).1 = 0 then .giveUp
  else
    .sized (it.currentNamespace.alignSize it.argIndex).1
      (it.currentNamespace.alignSize it.argIndex).2

/-- `next_entry`. -/
def RcIterator.nextEntry (it : RcIterator) : RcIterator :=
  { it with bitmapShifter := it.bitmapShifter >>> 1, argIndex := it.argIndex + 1 }

/-- Skip the padding before an argument. -/
def RcIterator.alignArg (it : RcIterator) (align : Nat) : RcIterator :=
  let pad := it.arg &&& (align - 1)
  { it with arg := if pad ≠ 0 then it.arg + (align - pad) else it.arg }

/-- The header of a vendor namespace, and the size of the argument with it. -/
def RcIterator.enterNs (it : RcIterator) (rt : Buf) (size : Nat) : RcIterator × Nat :=
  let oui := (rt it.arg).toNat * 2 ^ 16 + (rt (it.arg + 1)).toNat * 2 ^ 8 + (rt (it.arg + 2)).toNat
  let ns := findNs oui (rt (it.arg + 3))
  let vnslen := (read16 rt (it.arg + 4)).toNat
  ({ it with currentNamespace := ns, nextNsData := it.arg + size + vnslen },
    if ns = .null then size + vnslen else size)

/-- What one round of the loop of `ieee80211_radiotap_iterator_next_rc` comes to. -/
inductive Round where
  /-- `-ENOENT` or `-EINVAL`. -/
  | stop
  | again (it : RcIterator)
  /-- An argument to handle. -/
  | hit (it : RcIterator)

/-- The end of a round: the special arguments are valid in each bitmap word. -/
def endRound (rt : Buf) (it : RcIterator) : Round :=
  if it.argIndex % 32 = radiotapVendorNamespace then
    let it := { it with resetOnExt := true, thisArgIndex := radiotapVendorNamespace }
    if it.currentNamespace = .null then .hit it.nextEntry else .again it.nextEntry
  else if it.argIndex % 32 = radiotapRadiotapNamespace then
    .again { it with resetOnExt := true, currentNamespace := .radiotap }.nextEntry
  else if it.argIndex % 32 = radiotapExt then
    .again { it with
      bitmapShifter := read32 rt it.nextBitmap
      nextBitmap := it.nextBitmap + 4
      argIndex := if it.resetOnExt then 0 else it.argIndex + 1
      resetOnExt := false }
  else .hit it.nextEntry

/-- Move on by the size of the argument. -/
def takeArg (rt : Buf) (it : RcIterator) (size : Nat) : Round :=
  let it := { it with thisArgIndex := it.argIndex, thisArg := it.arg, arg := it.arg + size }
  if it.arg > it.maxLength then .stop else endRound rt it

/-- A present argument of known size. -/
def presentArg (rt : Buf) (it : RcIterator) (align size : Nat) : Round :=
  let it := it.alignArg align
  if it.argIndex % 32 = radiotapVendorNamespace then
    if it.arg + size > it.maxLength then .stop
    else takeArg rt (it.enterNs rt size).1 (it.enterNs rt size).2
  else takeArg rt it size

/-- One round of the loop of `ieee80211_radiotap_iterator_next_rc`. -/
def nextRound (rt : Buf) (it : RcIterator) : Round :=
  if it.argIndex % 32 = radiotapExt ∧ it.bitmapShifter.toNat.testBit 0 = false then .stop
  else if it.bitmapShifter.toNat.testBit 0 = false then .again it.nextEntry
  else
    match argLayout it with
    | .unknown => .stop
    | .giveUp => .again { it with arg := it.nextNsData, currentNamespace := .null }.nextEntry
    | .sized align size => presentArg rt it align size

/-- `ieee80211_radiotap_iterator_next_rc`, of at most `fuel` rounds: `some none` is a negative
return value, `some (some it)` an argument. -/
def radiotapIteratorNextRc (rt : Buf) : Nat → RcIterator → Option (Option RcIterator)
  | 0, _ => none
  | fuel + 1, it =>
    match nextRound rt it with
    | .stop => some none
    | .again it' => radiotapIteratorNextRc rt fuel it'
    | .hit it' => some (some it')

/-! ## The walk comes to an end -/

/-- Bit 31 of the bitmap that the iterator is in. -/
def RcIterator.ext (it : RcIterator) : Bool :=
  it.bitmapShifter.toNat.testBit (31 - it.argIndex % 32)

/-- At most `m` rounds are left: the rest of this bitmap, and at most `k` whole ones. -/
def RoundsLeft (rt : Buf) (it : RcIterator) (m : Nat) : Prop :=
  ∃ k, (it.ext = true → ∃ j < k, hasExt (read32 rt (it.nextBitmap + 4 * j)) = false) ∧
    m = 32 * k + (32 - it.argIndex % 32)

theorem RoundsLeft.pos {rt : Buf} {it : RcIterator} {m : Nat} (h : RoundsLeft rt it m) : 0 < m := by
  obtain ⟨k, -, rfl⟩ := h
  have := Nat.mod_lt it.argIndex (show 0 < 32 by decide)
  omega

theorem RoundsLeft.nextEntry {rt : Buf} {it : RcIterator} {m : Nat} (h : RoundsLeft rt it m)
    (hpos : it.argIndex % 32 ≠ 31) : ∃ m' < m, RoundsLeft rt it.nextEntry m' := by
  obtain ⟨k, hext, rfl⟩ := h
  have hlt := Nat.mod_lt it.argIndex (show 0 < 32 by decide)
  have hmod : (it.argIndex + 1) % 32 = it.argIndex % 32 + 1 := by omega
  have hsame : it.nextEntry.ext = it.ext := by
    simp only [RcIterator.ext, RcIterator.nextEntry, UInt32.toNat_shiftRight]
    rw [show (1 : UInt32).toNat % 32 = 1 from rfl, Nat.testBit_shiftRight]
    congr 1
    omega
  refine ⟨32 * k + (32 - (it.argIndex + 1) % 32), by omega, k, ?_, rfl⟩
  intro h
  exact hext (hsame ▸ h)

/-- The round ends the walk, or leaves fewer than `m` rounds. -/
def Round.Within (rt : Buf) (m : Nat) : Round → Prop
  | .stop => True
  | .again it | .hit it => ∃ m' < m, RoundsLeft rt it m'

theorem RoundsLeft.endRound {rt : Buf} {it : RcIterator} {m : Nat} (h : RoundsLeft rt it m)
    (hbit : it.bitmapShifter.toNat.testBit 0 = true) : (endRound rt it).Within rt m := by
  unfold Rhex.endRound
  by_cases hvendor : it.argIndex % 32 = radiotapVendorNamespace
  · have hnext : ∃ m' < m, RoundsLeft rt it.nextEntry m' :=
      h.nextEntry (by rw [hvendor]; decide)
    simp only [if_pos hvendor]
    split_ifs
    · exact hnext
    · exact hnext
  · rw [if_neg hvendor]
    by_cases hns : it.argIndex % 32 = radiotapRadiotapNamespace
    · rw [if_pos hns]
      exact h.nextEntry (by rw [hns]; decide)
    · rw [if_neg hns]
      by_cases hlast : it.argIndex % 32 = radiotapExt
      · -- Bit 31 is set: the next bitmap is one of the `k` that are left.
        rw [if_pos hlast]
        obtain ⟨k, hext, rfl⟩ := h
        have hmod : (if it.resetOnExt then 0 else it.argIndex + 1) % 32 = 0 := by
          simp only [radiotapExt] at hlast
          split_ifs <;> omega
        obtain ⟨j, hj, hclear⟩ := hext (by rw [RcIterator.ext, hlast]; exact hbit)
        refine ⟨32 * (k - 1) + (32 - (if it.resetOnExt then 0 else it.argIndex + 1) % 32), by omega,
          k - 1, fun hset => ?_, rfl⟩
        rw [RcIterator.ext] at hset
        simp only [hmod] at hset
        cases j with
        | zero =>
          rw [hasExt, Nat.mul_zero, Nat.add_zero] at hclear
          exact absurd (hclear.symm.trans hset) (by decide)
        | succ j => exact ⟨j, by omega, by rw [← hclear]; congr 2; simp only; omega⟩
      · rw [if_neg hlast]
        exact h.nextEntry hlast

theorem RoundsLeft.takeArg {rt : Buf} {it : RcIterator} {m : Nat} (h : RoundsLeft rt it m)
    (hbit : it.bitmapShifter.toNat.testBit 0 = true) (size : Nat) :
    (takeArg rt it size).Within rt m := by
  unfold Rhex.takeArg
  have htaken : RoundsLeft rt
      { it with thisArgIndex := it.argIndex, thisArg := it.arg, arg := it.arg + size } m := h
  dsimp only
  split_ifs
  · trivial
  · exact htaken.endRound hbit

theorem RoundsLeft.presentArg {rt : Buf} {it : RcIterator} {m : Nat} (h : RoundsLeft rt it m)
    (hbit : it.bitmapShifter.toNat.testBit 0 = true) (align size : Nat) :
    (presentArg rt it align size).Within rt m := by
  unfold Rhex.presentArg
  have haligned : RoundsLeft rt (it.alignArg align) m := h
  have hentered : RoundsLeft rt ((it.alignArg align).enterNs rt size).1 m := h
  dsimp only
  split_ifs
  · trivial
  · exact hentered.takeArg hbit _
  · exact haligned.takeArg hbit size

/-- **One round**: unless it ends the walk, fewer rounds are left. -/
theorem RoundsLeft.nextRound {rt : Buf} {it : RcIterator} {m : Nat} (h : RoundsLeft rt it m) :
    (nextRound rt it).Within rt m := by
  unfold Rhex.nextRound
  by_cases hend : it.argIndex % 32 = radiotapExt ∧ it.bitmapShifter.toNat.testBit 0 = false
  · rw [if_pos hend]
    trivial
  · rw [if_neg hend]
    by_cases hbit : it.bitmapShifter.toNat.testBit 0 = false
    · rw [if_pos hbit]
      exact h.nextEntry fun hlast => hend ⟨hlast, hbit⟩
    · rw [if_neg hbit]
      rw [Bool.not_eq_false] at hbit
      cases hlayout : argLayout it with
      | unknown => trivial
      | giveUp =>
        have hgiven :
            RoundsLeft rt { it with arg := it.nextNsData, currentNamespace := .null } m := h
        apply hgiven.nextEntry
        intro hlast
        rw [argLayout, if_pos (Or.inr hlast)] at hlayout
        exact absurd hlayout (by simp)
      | sized align size => exact h.presentArg hbit align size

/-- With enough fuel the next argument is found, or the walk is over. -/
theorem nextRc_returns {rt : Buf} (fuel : Nat) {it : RcIterator} {m : Nat}
    (h : RoundsLeft rt it m) (hfuel : m ≤ fuel) :
    ∃ r, radiotapIteratorNextRc rt fuel it = some r ∧
      ∀ it', r = some it' → ∃ m' < m, RoundsLeft rt it' m' := by
  induction fuel generalizing it m with
  | zero =>
    have := h.pos
    omega
  | succ fuel ih =>
    have hround := h.nextRound
    rw [radiotapIteratorNextRc]
    cases hr : nextRound rt it with
    | stop => exact ⟨none, rfl, fun it' hit => absurd hit (by simp)⟩
    | hit it' =>
      rw [hr] at hround
      refine ⟨some it', rfl, ?_⟩
      intro jt hjt
      obtain rfl := Option.some.inj hjt
      exact hround
    | again it' =>
      rw [hr] at hround
      obtain ⟨m', hlt, hleft⟩ := hround
      obtain ⟨r, hrun, hres⟩ := ih hleft (by omega)
      refine ⟨r, hrun, ?_⟩
      intro jt hjt
      obtain ⟨m'', hlt', hleft'⟩ := hres jt hjt
      exact ⟨m'', by omega, hleft'⟩

/-! ## A header that passes the checks -/

theorem skipBitmaps_spec {rt : Buf} {maxLength arg last : Nat} (hle : arg + 4 ≤ maxLength)
    (h : skipBitmaps rt maxLength arg = some last) :
    ∃ j, last = arg + 4 * j ∧ last + 4 ≤ maxLength ∧ hasExt (read32 rt last) = false := by
  fun_induction skipBitmaps rt maxLength arg with
  | case1 arg hext hover => exact absurd h (by simp)
  | case2 arg hext hover ih =>
    obtain ⟨j, hj, hlast, hclear⟩ := ih (by omega) h
    exact ⟨j + 1, by omega, hlast, hclear⟩
  | case3 arg hext =>
    obtain rfl := Option.some.inj h
    exact ⟨0, rfl, hle, by simpa using hext⟩

/-- **The walk of a header that passed the checks** is bounded by its length. -/
theorem radiotapIteratorInitRc_spec {rt : Buf} {maxLength nextNsData : Nat} {it : RcIterator}
    (h : radiotapIteratorInitRc rt maxLength nextNsData = some it) :
    RoundsLeft rt it (32 * it.maxLength + 32) := by
  simp only [radiotapIteratorInitRc] at h
  split_ifs at h with _ _ _ hext hover
  · obtain ⟨last, hskip, rfl⟩ := Option.map_eq_some_iff.mp h
    obtain ⟨j, hj, hlast, hclear⟩ := skipBitmaps_spec (by omega) hskip
    refine ⟨(read16 rt 2).toNat, fun _ => ⟨j, by omega, ?_⟩, rfl⟩
    rw [← hclear, hj]
  · obtain rfl := Option.some.inj h
    refine ⟨(read16 rt 2).toNat, ?_, rfl⟩
    intro hset
    exact absurd hset hext

theorem skipBitmaps_congr {b c : Buf} {maxLength arg : Nat} (h : ∀ i < maxLength, b i = c i)
    (hle : arg + 4 ≤ maxLength) : skipBitmaps b maxLength arg = skipBitmaps c maxLength arg := by
  have hread : ∀ off, off + 4 ≤ maxLength → read32 b off = read32 c off := by
    intro off hoff
    exact read32_congr (slice_congr fun k hk => h _ (by omega))
  fun_induction skipBitmaps b maxLength arg with
  | case1 arg hext hover =>
    rw [skipBitmaps, if_pos (hread arg hle ▸ hext), if_pos hover]
  | case2 arg hext hover ih =>
    rw [ih (by omega), skipBitmaps.eq_1 c maxLength arg, if_pos (hread arg hle ▸ hext),
      if_neg hover]
  | case3 arg hext =>
    rw [skipBitmaps, if_neg (hread arg hle ▸ hext)]

theorem radiotapIteratorInitRc_congr {b c : Buf} {n maxLength maxLength' : Nat} (nextNsData : Nat)
    (h : ∀ i < n, b i = c i) (hn : 8 ≤ n) (hlen : (read16 c 2).toNat = n) (hle : n ≤ maxLength)
    (hle' : n ≤ maxLength') : radiotapIteratorInitRc b maxLength nextNsData =
      radiotapIteratorInitRc c maxLength' nextNsData := by
  have hlen₁ : read16 b 2 = read16 c 2 := read16_congr (slice_congr fun k hk => h _ (by omega))
  have hpresent : read32 b 4 = read32 c 4 := read32_congr (slice_congr fun k hk => h _ (by omega))
  simp only [radiotapIteratorInitRc, hlen₁, hpresent, h 0 (by omega), hlen]
  rw [if_neg (by omega), if_neg (show ¬maxLength' < 8 by omega),
    if_neg (show ¬maxLength < n by omega), if_neg (show ¬maxLength' < n by omega)]
  by_cases hover : 8 + 4 > n
  · simp only [if_pos hover]
  · simp only [if_neg hover, skipBitmaps_congr h (show 8 + 4 ≤ n by omega)]

end Rhex
