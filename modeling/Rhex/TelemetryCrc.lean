import Mathlib
import Rhex.Lib.Crc
import Rhex.Lib.CrcErrors

/-!
# The checksum of the telemetry

`vt_crc16` goes through the bytes with a counter of 16 bits; `vt_crc16worker` takes one byte by
nibble swaps, masks and shifts in a union of a word with its two bytes.

* `crc16Ccitt` — CRC-16/CCITT, bit by bit.
* `vtCrc16worker_eq` — a byte of the worker is eight bits of it.
* `vtCrc16Loop_eq`, `vtCrc16Loop_endless` — the loop takes every byte, unless the counter is too
  narrow for the array; then it does not end.
* `vt_crc16_detects` — the errors in a record that change its checksum.
-/

namespace Rhex

/-! ## The code -/

/-- The union of `vt_crc16worker` on a little-endian machine, by its bytes. -/
structure CrcUnion where
  crcl : UInt8
  crch : UInt8
  deriving DecidableEq, Repr

def CrcUnion.crc16 (u : CrcUnion) : UInt16 := u.crcl.toUInt16 ||| (u.crch.toUInt16 <<< 8)

/-- Store a word in the union. -/
def CrcUnion.ofCrc16 (crc16 : UInt16) : CrcUnion := ⟨crc16.toUInt8, (crc16 >>> 8).toUInt8⟩

def vtCrc16worker (icrc : UInt16) (r0 : UInt8) : UInt16 :=
  let u := CrcUnion.ofCrc16 icrc
  let r0 := r0 ^^^ u.crch
  let a1 := u.crcl
  let u := { u with crch := r0 }
  let u := { u with crch := (u.crch <<< 4) ||| (u.crch >>> 4) }
  let u := { u with crcl := u.crch ^^^ r0 }
  let u := CrcUnion.ofCrc16 (u.crc16 &&& 0x0FF0)
  let r0 := r0 ^^^ u.crch
  let a1 := a1 ^^^ u.crcl
  let u := CrcUnion.ofCrc16 (u.crc16 <<< 1)
  let u := { u with crcl := u.crcl ^^^ r0 }
  let u := { u with crch := u.crch ^^^ a1 }
  u.crc16

/-- The loop of `vt_crc16`: the counter has 16 bits. There is no result when the rounds run out, or
for a byte behind the data. -/
def vtCrc16Loop (data : List UInt8) (size : Nat) : Nat → UInt16 → UInt16 → Option UInt16
  | 0, _, _ => none
  | rounds + 1, i, crc =>
    if i.toNat < size then
      match data[i.toNat]? with
      | none => none
      | some x => vtCrc16Loop data size rounds (i + 1) (vtCrc16worker crc x)
    else
      some crc

/-- `vt_crc16`; a counter that has come round once never leaves the loop. -/
def vtCrc16 (data : List UInt8) (size : Nat) (seed : UInt16) : Option UInt16 :=
  vtCrc16Loop data size (2 ^ 16) 0 seed

/-! ## The standard -/

/-- The polynomial of the checksum, the highest bit first. -/
def ccittPoly : BitVec 16 := 0x1021

/-- CRC-16/CCITT from a seed, without a final sum. -/
def crc16Ccitt (seed : UInt16) (message : List UInt8) : UInt16 :=
  .ofBitVec (Crc.bytesMsb ccittPoly seed.toBitVec (message.map UInt8.toBitVec))

/-- The check value of CRC-16/CCITT, for the digits from 1 to 9. -/
example : crc16Ccitt 0xFFFF [0x31, 0x32, 0x33, 0x34, 0x35, 0x36, 0x37, 0x38, 0x39] = 0x29B1 := by
  decide +kernel

/-! ## A byte -/

theorem vtCrc16worker_zero (x : BitVec 8) :
    (vtCrc16worker 0 (.ofBitVec x)).toBitVec = Crc.byteMsb ccittPoly 0#16 x := by
  revert x
  decide +kernel

theorem CrcUnion.crc16_xor (u : CrcUnion) (x : UInt8) :
    CrcUnion.crc16 { u with crch := x ^^^ u.crch } = (x.toUInt16 <<< 8) ^^^ u.crc16 := by
  apply UInt16.toBitVec_inj.mp
  apply BitVec.eq_of_getLsbD_eq
  intro i hi
  by_cases h : i < 8
  · simp [CrcUnion.crc16, h]
  · have hhigh : u.crcl.toBitVec.getLsbD i = false := BitVec.getLsbD_of_ge _ _ (by omega)
    simp [CrcUnion.crc16, h, hi, hhigh]

theorem toUInt8_shiftLeft (c : UInt16) : c.toUInt8.toUInt16 <<< 8 = c <<< 8 := by
  apply UInt16.toBitVec_inj.mp
  simp only [UInt16.toBitVec_shiftLeft, UInt8.toBitVec_toUInt16, UInt16.toBitVec_toUInt8]
  apply BitVec.eq_of_getLsbD_eq
  intro i hi
  by_cases h : i < 8
  · simp [h]
  · have hlt : i - 8 < 8 := by omega
    simp [h, hi, hlt, BitVec.getLsbD_eq_getElem (by omega : i - 8 < 16)]

theorem vtCrc16worker_split (icrc : UInt16) (r0 : UInt8) :
    vtCrc16worker icrc r0 =
      (icrc <<< 8) ^^^ vtCrc16worker 0 (r0 ^^^ (icrc >>> 8).toUInt8) := by
  have hzero : CrcUnion.ofCrc16 0 = ⟨0, 0⟩ := rfl
  rw [vtCrc16worker, vtCrc16worker, hzero, ← toUInt8_shiftLeft, ← CrcUnion.crc16_xor]
  simp only [CrcUnion.ofCrc16, UInt8.xor_zero, UInt8.zero_xor]
  congr 2
  ac_rfl

theorem vtCrc16worker_eq (icrc : UInt16) (r0 : UInt8) :
    (vtCrc16worker icrc r0).toBitVec =
      Crc.byteMsb ccittPoly icrc.toBitVec r0.toBitVec := by
  have hhigh : r0.toBitVec ^^^ (icrc.toBitVec >>> (16 - 8)).setWidth 8 =
      (r0 ^^^ (icrc >>> 8).toUInt8).toBitVec := by
    simp
  rw [Crc.byteMsb_eq _ _ _ (by decide), hhigh, ← vtCrc16worker_zero, UInt8.ofBitVec_toBitVec,
    vtCrc16worker_split]
  simp

theorem crc16Ccitt_cons (seed : UInt16) (x : UInt8) (message : List UInt8) :
    crc16Ccitt seed (x :: message) = crc16Ccitt (vtCrc16worker seed x) message := by
  rw [crc16Ccitt, crc16Ccitt, vtCrc16worker_eq]
  rfl

theorem crc16Ccitt_append (seed : UInt16) (l r : List UInt8) :
    crc16Ccitt seed (l ++ r) = crc16Ccitt (crc16Ccitt seed l) r := by
  simp [crc16Ccitt, Crc.bytesMsb]

/-! ## The loop -/

/-- In a round the counter is an index of the array; the rest of the array is still to be taken. -/
theorem vtCrc16Loop_eq (data : List UInt8) (hsize : data.length < 2 ^ 16) {rounds : Nat}
    {i : UInt16} (crc : UInt16) (hi : i.toNat ≤ data.length)
    (hrounds : data.length - i.toNat < rounds) :
    vtCrc16Loop data data.length rounds i crc = some (crc16Ccitt crc (data.drop i.toNat)) := by
  induction rounds generalizing i crc with
  | zero => omega
  | succ rounds ih =>
    rw [vtCrc16Loop]
    by_cases hlt : i.toNat < data.length
    · have hnext : (i + 1).toNat = i.toNat + 1 := by
        rw [UInt16.toNat_add]
        exact Nat.mod_eq_of_lt (by simp; omega)
      rw [if_pos hlt, List.getElem?_eq_getElem hlt]
      simp only
      rw [ih _ (by omega) (by omega), hnext, List.drop_eq_getElem_cons hlt, crc16Ccitt_cons]
    · rw [if_neg hlt, List.drop_eq_nil_of_le (by omega)]
      rfl

/-- A counter of 16 bits never leaves an array that is longer. -/
theorem vtCrc16Loop_endless (data : List UInt8) (hsize : 2 ^ 16 ≤ data.length) (rounds : Nat)
    (i crc : UInt16) : vtCrc16Loop data data.length rounds i crc = none := by
  induction rounds generalizing i crc with
  | zero => rfl
  | succ rounds ih =>
    have hlt : i.toNat < data.length := lt_of_lt_of_le i.toNat_lt hsize
    rw [vtCrc16Loop, if_pos hlt, List.getElem?_eq_getElem hlt]
    exact ih _ _

theorem vtCrc16_eq (data : List UInt8) (seed : UInt16) (hsize : data.length ≤ 65535) :
    vtCrc16 data data.length seed = some (crc16Ccitt seed data) :=
  vtCrc16Loop_eq data (by omega) seed (Nat.zero_le _) (by simp; omega)

/-- **The checksum is CRC-16/CCITT from the seed, and it can be taken in two parts**, the checksum
of the first as the seed of the second. -/
theorem vt_crc16_ccitt (data : List UInt8) (seed : UInt16) (hsize : data.length ≤ 65535) :
    vtCrc16 data data.length seed = some (crc16Ccitt seed data) ∧
      ∀ l r, data = l ++ r →
        ((vtCrc16 l l.length seed).bind fun crc => vtCrc16 r r.length crc) =
          vtCrc16 data data.length seed := by
  refine ⟨vtCrc16_eq data seed hsize, ?_⟩
  rintro l r rfl
  rw [List.length_append] at hsize
  rw [vtCrc16_eq l seed (by omega), Option.bind_some, vtCrc16_eq r _ (by omega),
    vtCrc16_eq (l ++ r) seed (by rw [List.length_append]; omega), crc16Ccitt_append]

/-- The digits from 1 to 9 from the seed of the telemetry, in one part or in two. -/
theorem vt_crc16_digits :
    vtCrc16 [0x31, 0x32, 0x33, 0x34, 0x35, 0x36, 0x37, 0x38, 0x39] 9 0xFFFF = some 0x29B1 ∧
      ((vtCrc16 [0x31, 0x32, 0x33, 0x34] 4 0xFFFF).bind fun crc =>
        vtCrc16 [0x35, 0x36, 0x37, 0x38, 0x39] 5 crc) = some 0x29B1 := by
  have h := vt_crc16_ccitt [0x31, 0x32, 0x33, 0x34, 0x35, 0x36, 0x37, 0x38, 0x39] 0xFFFF (by decide)
  have hcheck : crc16Ccitt 0xFFFF [0x31, 0x32, 0x33, 0x34, 0x35, 0x36, 0x37, 0x38, 0x39] =
      0x29B1 := by
    decide +kernel
  rw [hcheck] at h
  exact ⟨h.1, (h.2 [0x31, 0x32, 0x33, 0x34] [0x35, 0x36, 0x37, 0x38, 0x39] rfl).trans h.1⟩

/-! ## Errors -/

/-- **Two records of the same length have different checksums if they differ only in a burst of 16
bits, in two bits less than 32767 apart, or in an odd number of bits.** -/
theorem vt_crc16_detects (data data' : List UInt8) (seed : UInt16) (hsize : data.length ≤ 65535)
    (hlen : data'.length = data.length)
    (herrors : Crc.Detected 16 32767 (Crc.errors
      (Crc.messageBitsMsb (data.map UInt8.toBitVec)) (Crc.messageBitsMsb (data'.map UInt8.toBitVec))
      (8 * data.length))) :
    vtCrc16 data' data'.length seed ≠ vtCrc16 data data.length seed := by
  have hstrong : Crc.Strong ccittPoly.reverse 32767 := Crc.strong_ccitt
  rw [vtCrc16_eq data seed hsize, vtCrc16_eq data' seed (by omega)]
  have hmap : (data'.map UInt8.toBitVec).length = (data.map UInt8.toBitVec).length := by
    simpa using hlen
  rw [← List.length_map UInt8.toBitVec] at herrors
  intro h
  exact hstrong.bytesMsb_ne seed.toBitVec hmap herrors
    (congrArg UInt16.toBitVec (Option.some.inj h))

/-- The last bit of a byte and the first one of the next byte are neighbours. -/
theorem vt_crc16_detects_neighbours :
    vtCrc16 [1, 3, 130] [1, 3, 130].length 0xFFFF ≠ vtCrc16 [1, 2, 2] [1, 2, 2].length 0xFFFF :=
  vt_crc16_detects [1, 2, 2] [1, 3, 130] 0xFFFF (by decide) rfl
    (.inr (.inl ⟨15, 16, by decide, by decide, by decide +kernel⟩))

end Rhex
