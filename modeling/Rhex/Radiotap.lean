import Mathlib
import Rhex.Lib.Traced
import Rhex.RadiotapRc

/-!
# The radiotap iterator of the video receiver (`radiotap.c`)

An older iterator than the one of `radiotap_rc.c`: it knows fourteen arguments, in one bitmap, and
steps over the other bitmaps. Its accesses to the header are part of the model.

* `radiotapIteratorInit` — the checks of the header, and the iterator before the first argument.
* `radiotapIteratorNext` — the next argument.
* `radiotapIteratorInit_within` — how much of a frame the checks read.
-/

namespace Rhex

open Memory Traced

/-- `ieee80211_radiotap_iterator`. Nothing reads `next_bitmap`: `arg_index` stays below 32. -/
structure RadiotapIterator where
  maxLength : Nat
  thisArgIndex : Nat
  thisArg : Nat
  argIndex : Nat
  arg : Nat
  bitmapShifter : UInt32

/-- `rt_sizes`: alignment and length of each argument, in the two halves of a byte. -/
def rtSizes : List UInt8 :=
  [0x88, 0x11, 0x11, 0x24, 0x22, 0x11, 0x11, 0x22, 0x22, 0x22, 0x11, 0x11, 0x11, 0x11]

/-- The loop over the extended bitmaps, to the first argument behind them. -/
def skipExtended (rt : Buf) (maxLength arg : Nat) : Traced Nat := do
  let bitmap ← load32 rt arg
  if hasExt bitmap then
    if arg + 4 > maxLength then fail else skipExtended rt maxLength (arg + 4)
  else pure (arg + 4)
termination_by maxLength - arg

/-- Where the arguments start, behind any extended bitmaps. -/
def payloadStart (rt : Buf) (maxLength : Nat) (itPresent : UInt32) : Traced Nat :=
  if hasExt itPresent then skipExtended rt maxLength 8 else pure 8

/-- `ieee80211_radiotap_iterator_init`. -/
def radiotapIteratorInit (rt : Buf) (maxLength : Int) : Traced RadiotapIterator := do
  let itVersion ← load8 rt 0
  if itVersion ≠ 0 then fail
  else
    let itLen ← load16 rt 2
    if maxLength < itLen.toNat then fail
    else
      let itPresent ← load32 rt 4
      let arg ← payloadStart rt itLen.toNat itPresent
      pure ⟨itLen.toNat, 0, 0, 0, arg, itPresent⟩

/-- `next_entry`. -/
def RadiotapIterator.nextEntry (it : RadiotapIterator) : RadiotapIterator :=
  { it with argIndex := it.argIndex + 1, bitmapShifter := it.bitmapShifter >>> 1 }

/-- Where an argument of the given size starts, behind its padding. -/
def RadiotapIterator.alignedArg (it : RadiotapIterator) (size : Nat) : Nat :=
  let pad := it.arg &&& (size / 16 - 1)
  if pad ≠ 0 then it.arg + (size / 16 - pad) else it.arg

/-- `ieee80211_radiotap_iterator_next`; `none` is `-ENOENT` or `-EINVAL`. -/
def radiotapIteratorNext (it : RadiotapIterator) : Option RadiotapIterator :=
  if it.argIndex < rtSizes.length then
    if it.bitmapShifter.toNat.testBit 0 = false then radiotapIteratorNext it.nextEntry
    else
      let size := (rtSizes.getD it.argIndex 0).toNat
      let thisArg := it.alignedArg size
      if thisArg + size % 16 > it.maxLength then none
      else some { it with
        thisArgIndex := it.argIndex
        thisArg
        arg := thisArg + size % 16 }.nextEntry
  else none
termination_by rtSizes.length - it.argIndex
decreasing_by
  rename_i h _
  exact Nat.sub_lt_sub_left h (Nat.lt_succ_self _)

/-- An argument that is returned lies in the header, and the iterator moves on. -/
theorem radiotapIteratorNext_spec {it it' : RadiotapIterator}
    (h : radiotapIteratorNext it = some it') :
    it.argIndex < it'.argIndex ∧ it'.argIndex ≤ rtSizes.length ∧ it'.maxLength = it.maxLength ∧
      it'.thisArg < it'.maxLength := by
  fun_induction radiotapIteratorNext it with
  | case1 it hindex hbit ih =>
    obtain ⟨hlt, hle, hmax, harg⟩ := ih h
    exact ⟨Nat.lt_of_succ_lt hlt, hle, hmax, harg⟩
  | case2 it hindex hbit size thisArg hover => exact absurd h (by simp)
  | case3 it hindex hbit size thisArg hover =>
    obtain rfl := Option.some.inj h
    have hsize : 0 < size % 16 := by
      have : ∀ i < rtSizes.length, 0 < (rtSizes.getD i 0).toNat % 16 := by decide
      exact this it.argIndex hindex
    refine ⟨Nat.lt_succ_self _, hindex, rfl, ?_⟩
    have hle := Nat.not_lt.mp hover
    exact Nat.lt_of_lt_of_le (Nat.lt_add_of_pos_right hsize) hle
  | case4 it hindex => exact absurd h (by simp)

/-! ## How much the checks read -/

theorem skipExtended_within (rt : Buf) (maxLength arg : Nat) {n : Nat} (hmax : maxLength + 4 ≤ n) :
    (skipExtended rt maxLength arg).Within n ↔ arg + 4 ≤ n := by
  fun_induction skipExtended rt maxLength arg with
  | case1 arg ih =>
    simp only [within_bind, within_load32, result_load32, Option.some.injEq, forall_eq']
    refine ⟨fun h => h.1, fun h => ⟨h, ?_⟩⟩
    split_ifs with hext hover
    · exact within_fail
    · exact (ih hover).mpr (by omega)
    · exact within_pure _

/-- The checks that an accepted header has passed. -/
theorem radiotapIteratorInit_accepts {rt : Buf} {maxLength : Int}
    (h : (radiotapIteratorInit rt maxLength).result.isSome = true) :
    rt 0 = 0 ∧ ¬maxLength < (read16 rt 2).toNat := by
  unfold radiotapIteratorInit at h
  rw [result_bind, result_load8, Option.bind_some] at h
  by_cases hversion : rt 0 ≠ 0
  · rw [if_pos hversion] at h
    exact absurd h (by decide)
  · rw [if_neg hversion, result_bind, result_load16, Option.bind_some] at h
    refine ⟨not_not.mp hversion, ?_⟩
    intro hlen
    rw [if_pos hlen] at h
    exact absurd h (by decide)

theorem radiotapIteratorInit_spec {rt : Buf} {maxLength : Int} {it : RadiotapIterator}
    (h : (radiotapIteratorInit rt maxLength).result = some it) :
    it.maxLength = (read16 rt 2).toNat := by
  obtain ⟨hversion, hlen⟩ := radiotapIteratorInit_accepts (Option.isSome_of_eq_some h)
  unfold radiotapIteratorInit at h
  simp only [result_bind, result_load8, result_load16, result_load32, Option.bind_some,
    if_neg (not_not.mpr hversion), if_neg hlen] at h
  obtain ⟨arg, -, harg⟩ := Option.bind_eq_some_iff.mp h
  obtain rfl := Option.some.inj harg
  rfl

/-- **The checks of a header that is accepted** read its first eight bytes, four more if the bitmap
is extended, and no more than the header and a word. -/
theorem radiotapIteratorInit_within {rt : Buf} {maxLength : Int} {n : Nat}
    (hmax : (read16 rt 2).toNat + 4 ≤ n)
    (h : (radiotapIteratorInit rt maxLength).result.isSome = true) :
    (radiotapIteratorInit rt maxLength).Within n ↔
      8 ≤ n ∧ (hasExt (read32 rt 4) = true → 12 ≤ n) := by
  obtain ⟨hversion, hlen⟩ := radiotapIteratorInit_accepts h
  have hstart : (payloadStart rt (read16 rt 2).toNat (read32 rt 4)).Within n ↔
      (hasExt (read32 rt 4) = true → 12 ≤ n) := by
    unfold payloadStart
    by_cases hext : hasExt (read32 rt 4) = true
    · rw [if_pos hext, skipExtended_within rt _ 8 hmax]
      exact ⟨fun h _ => h, fun h => h hext⟩
    · rw [if_neg hext]
      exact ⟨fun _ h => absurd h hext, fun _ => within_pure 8⟩
  unfold radiotapIteratorInit
  simp only [within_bind, within_load8, within_load16, within_load32, result_load8, result_load16,
    result_load32, Option.some.injEq, forall_eq', if_neg (not_not.mpr hversion), if_neg hlen,
    within_pure, implies_true, and_true, hstart]
  constructor
  · rintro ⟨-, -, h8, h12⟩
    exact ⟨h8, h12⟩
  · rintro ⟨h8, h12⟩
    exact ⟨by omega, by omega, h8, h12⟩

end Rhex
