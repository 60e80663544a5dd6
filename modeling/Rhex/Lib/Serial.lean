import Mathlib

/-!
# Serial numbers

Sequence numbers of 32 bits wrap around, and are compared by the distance between them: one number
is newer than another when it is less than half the circle ahead.
-/

namespace Serial

/-- `a` is newer than `b`. -/
def Newer (a b : UInt32) : Prop := 0 < (a - b).toNat ∧ (a - b).toNat < 2 ^ 31

instance (a b : UInt32) : Decidable (Newer a b) := inferInstanceAs (Decidable (_ ∧ _))

theorem toNat_sub_of_le {a b : UInt32} (h : b.toNat ≤ a.toNat) :
    (a - b).toNat = a.toNat - b.toNat := by
  have ha := a.toNat_lt
  rw [UInt32.toNat_sub]
  omega

theorem toNat_sub_of_lt {a b : UInt32} (h : a.toNat < b.toNat) :
    (a - b).toNat = a.toNat + 2 ^ 32 - b.toNat := by
  have hb := b.toNat_lt
  rw [UInt32.toNat_sub]
  omega

theorem newer_of_le {a b : UInt32} (h : b.toNat ≤ a.toNat) :
    Newer a b ↔ b.toNat < a.toNat ∧ a.toNat < b.toNat + 2 ^ 31 := by
  rw [Newer, toNat_sub_of_le h]
  omega

theorem newer_of_lt {a b : UInt32} (h : a.toNat < b.toNat) :
    Newer a b ↔ a.toNat + 2 ^ 31 < b.toNat := by
  have hb := b.toNat_lt
  rw [Newer, toNat_sub_of_lt h]
  omega

theorem newer_of_lower {a b : UInt32} (ha : a.toNat < 2 ^ 31) (hb : b.toNat < 2 ^ 31) :
    Newer a b ↔ b.toNat < a.toNat := by
  rcases Nat.lt_or_ge a.toNat b.toNat with h | h
  · rw [newer_of_lt h]
    omega
  · rw [newer_of_le h]
    omega

end Serial
