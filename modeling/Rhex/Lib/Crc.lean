import Mathlib

/-!
# Cyclic redundancy checks, bit by bit

A register takes the bits of a message at its low end, the lowest bit of a byte first, as a
reflected polynomial has it.

* `Crc.feed_xor` — the register is linear in what it holds and what it takes.
* `Crc.feed_self` — bits that the register holds are shifted out of it.
* `Crc.byte_eq` — a byte depends on the low end of the register only through their sum, so that a
  table of 256 entries is enough.
* `Crc.byteMsb_reverse`, `Crc.byteMsb_eq` — the other convention, where the bits enter at the high
  end, the highest bit of a byte first, is the mirror image, and a byte meets the high end only.
-/

namespace Crc

variable {w : Nat} (poly : BitVec w)

/-- A bit enters the register. -/
def step (reg : BitVec w) (bit : Bool) : BitVec w :=
  if reg.getLsbD 0 ^^ bit then (reg >>> 1) ^^^ poly else reg >>> 1

/-- The first bits of a message. -/
def feed (reg : BitVec w) (bits : Nat → Bool) : Nat → BitVec w
  | 0 => reg
  | k + 1 => step poly (feed reg bits k) (bits k)

def byte (reg : BitVec w) (x : BitVec 8) : BitVec w := feed poly reg x.getLsbD 8

def bytes (reg : BitVec w) (message : List (BitVec 8)) : BitVec w := message.foldl (byte poly) reg

theorem step_xor (r s : BitVec w) (a b : Bool) :
    step poly (r ^^^ s) (a ^^ b) = step poly r a ^^^ step poly s b := by
  have hcancel (x y : BitVec w) : x ^^^ poly ^^^ (y ^^^ poly) = x ^^^ y := by
    rw [BitVec.xor_comm y, BitVec.xor_assoc, ← BitVec.xor_assoc poly, BitVec.xor_self,
      BitVec.zero_xor]
  have hleft (x y : BitVec w) : x ^^^ poly ^^^ y = x ^^^ y ^^^ poly := by
    rw [BitVec.xor_assoc, BitVec.xor_comm poly, BitVec.xor_assoc]
  simp only [step, BitVec.getLsbD_xor, BitVec.ushiftRight_xor_distrib]
  cases r.getLsbD 0 <;> cases s.getLsbD 0 <;> cases a <;> cases b <;>
    simp [hcancel, hleft, BitVec.xor_assoc]

theorem feed_xor (r s : BitVec w) (f g : Nat → Bool) (k : Nat) :
    feed poly (r ^^^ s) (fun i => f i ^^ g i) k = feed poly r f k ^^^ feed poly s g k := by
  induction k with
  | zero => rfl
  | succ k ih => rw [feed, feed, feed, ih, step_xor]

theorem feed_self (reg : BitVec w) (k : Nat) : feed poly reg reg.getLsbD k = reg >>> k := by
  induction k with
  | zero => simp [feed]
  | succ k ih =>
    rw [feed, ih, step, BitVec.getLsbD_ushiftRight, Nat.add_zero, Bool.xor_self]
    simp [BitVec.shiftRight_add]

theorem feed_congr (reg : BitVec w) {f g : Nat → Bool} {k : Nat} (h : ∀ i < k, f i = g i) :
    feed poly reg f k = feed poly reg g k := by
  induction k with
  | zero => rfl
  | succ k ih => rw [feed, feed, ih fun i hi => h i (by omega), h k (by omega)]

/-- A byte moves the register by its length, and adds what the sum of the byte and the low end
gives in an empty register. -/
theorem byte_eq (reg : BitVec w) (x : BitVec 8) :
    byte poly reg x = (reg >>> 8) ^^^ byte poly 0#w (x ^^^ reg.setWidth 8) := by
  have hbits : ∀ i < 8, x.getLsbD i = (reg.getLsbD i ^^ (x ^^^ reg.setWidth 8).getLsbD i) := by
    intro i hi
    rw [BitVec.getLsbD_xor, BitVec.getLsbD_setWidth, decide_eq_true hi, Bool.true_and,
      Bool.xor_comm, Bool.xor_assoc, Bool.xor_self, Bool.xor_false]
  calc byte poly reg x
      = feed poly (reg ^^^ 0#w) (fun i => reg.getLsbD i ^^ (x ^^^ reg.setWidth 8).getLsbD i) 8 := by
        rw [BitVec.xor_zero]
        exact feed_congr poly reg hbits
    _ = (reg >>> 8) ^^^ byte poly 0#w (x ^^^ reg.setWidth 8) := by
        rw [feed_xor, feed_self]
        rfl

/-! ## The highest bit first -/

/-- A bit enters the register at its high end. -/
def stepMsb (reg : BitVec w) (bit : Bool) : BitVec w :=
  if reg.getMsbD 0 ^^ bit then (reg <<< 1) ^^^ poly else reg <<< 1

/-- The first bits of a message. -/
def feedMsb (reg : BitVec w) (bits : Nat → Bool) : Nat → BitVec w
  | 0 => reg
  | k + 1 => stepMsb poly (feedMsb reg bits k) (bits k)

/-- The bits of a byte, the highest first. -/
def byteMsb (reg : BitVec w) (x : BitVec 8) : BitVec w := feedMsb poly reg x.getMsbD 8

def bytesMsb (reg : BitVec w) (message : List (BitVec 8)) : BitVec w :=
  message.foldl (byteMsb poly) reg

theorem reverse_xor (x y : BitVec w) : (x ^^^ y).reverse = x.reverse ^^^ y.reverse := by
  apply BitVec.eq_of_getLsbD_eq
  intro i hi
  simp [BitVec.getLsbD_reverse, BitVec.getMsbD_xor]

theorem reverse_ushiftRight (x : BitVec w) (k : Nat) : (x >>> k).reverse = x.reverse <<< k := by
  apply BitVec.eq_of_getMsbD_eq
  intro i hi
  rw [BitVec.getMsbD_reverse, BitVec.getLsbD_ushiftRight, BitVec.getMsbD_shiftLeft,
    BitVec.getMsbD_reverse, Nat.add_comm]

theorem stepMsb_reverse (reg : BitVec w) (bit : Bool) :
    stepMsb poly reg.reverse bit = (step poly.reverse reg bit).reverse := by
  rw [stepMsb, step, BitVec.getMsbD_reverse]
  split
  · rw [reverse_xor, reverse_ushiftRight, BitVec.reverse_reverse_eq]
  · rw [reverse_ushiftRight]

theorem feedMsb_reverse (reg : BitVec w) (bits : Nat → Bool) (k : Nat) :
    feedMsb poly reg.reverse bits k = (feed poly.reverse reg bits k).reverse := by
  induction k with
  | zero => rfl
  | succ k ih => rw [feedMsb, feed, ih, stepMsb_reverse]

theorem byteMsb_reverse (reg : BitVec w) (x : BitVec 8) :
    byteMsb poly reg.reverse x.reverse = (byte poly.reverse reg x).reverse := by
  have hbits : x.reverse.getMsbD = x.getLsbD := funext fun i => BitVec.getMsbD_reverse
  rw [byteMsb, hbits, feedMsb_reverse, byte]

theorem reverse_setWidth (reg : BitVec w) (h : 8 ≤ w) :
    (reg.setWidth 8).reverse = (reg.reverse >>> (w - 8)).setWidth 8 := by
  apply BitVec.eq_of_getLsbD_eq
  intro i hi
  rw [BitVec.getLsbD_reverse, BitVec.getMsbD_eq_getLsbD, BitVec.getLsbD_setWidth,
    BitVec.getLsbD_setWidth, BitVec.getLsbD_ushiftRight, BitVec.getLsbD_reverse,
    BitVec.getMsbD_eq_getLsbD]
  have hidx : w - 1 - (w - 8 + i) = 8 - 1 - i := by omega
  rw [hidx, decide_eq_true hi, decide_eq_true (by omega : w - 8 + i < w),
    decide_eq_true (by omega : 8 - 1 - i < 8)]

/-- A byte moves the register by its length, and adds what the sum of the byte and the high end
gives in an empty register. -/
theorem byteMsb_eq (reg : BitVec w) (x : BitVec 8) (h : 8 ≤ w) :
    byteMsb poly reg x =
      (reg <<< 8) ^^^ byteMsb poly 0#w (x ^^^ (reg >>> (w - 8)).setWidth 8) := by
  have hzero : (0#w).reverse = 0#w := BitVec.reverse_eq_zero_iff.mpr rfl
  calc byteMsb poly reg x
      = (byte poly.reverse reg.reverse x.reverse).reverse := by
        rw [← byteMsb_reverse, BitVec.reverse_reverse_eq, BitVec.reverse_reverse_eq]
    _ = (reg <<< 8) ^^^ byteMsb poly 0#w (x ^^^ (reg >>> (w - 8)).setWidth 8) := by
        rw [byte_eq, reverse_xor, reverse_ushiftRight, ← byteMsb_reverse, reverse_xor,
          reverse_setWidth _ h, hzero, BitVec.reverse_reverse_eq, BitVec.reverse_reverse_eq]

end Crc
