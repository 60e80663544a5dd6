import Mathlib
import Rhex.ShmServices

/-!
# The slots of a segment

`align_size`, `shm_map_init`, `calc_shm_size` and the address computations of `shm_map_read` and
`shm_map_write` have to agree about where the four slots lie, for each width of a pointer.

* `LaidOut` — the slots are apart, behind the header and within what is mapped.
* `shm_layout` — they are where pointers have the size of a `uint64_t`.
-/

namespace Rhex

open Memory

/-- The slots, each of the declared size, lie apart from one another, behind the header and within
what `calc_shm_size` gives. -/
structure LaidOut (w : PtrWidth) (size : Nat) (seg : Segment) : Prop where
  apart : ∀ a < shmCopies, ∀ b < shmCopies, a ≠ b →
    seg.slotAddr w.bytes a + size ≤ seg.slotAddr w.bytes b ∨
      seg.slotAddr w.bytes b + size ≤ seg.slotAddr w.bytes a
  behind_header : ∀ slot < shmCopies, sizeofShmHeader ≤ seg.slotAddr w.bytes slot
  mapped : ∀ slot < shmCopies,
    seg.slotAddr w.bytes slot + size ≤ calcShmSize w.bytes size shmCopies

theorem shmRun_slotAddr {ptr : Nat} {events : List ShmEvent} {r r' : ShmRun}
    (hrun : shmRun ptr r events = some r') (slot : Nat) :
    r'.seg.slotAddr ptr slot = r.seg.slotAddr ptr slot := by
  rw [Segment.slotAddr, shmRun_header hrun, Segment.slotAddr]

theorem slots_disjoint (w : PtrWidth) (size : Nat) {a b : Nat} (hab : a < b) :
    8 / w.bytes * (Align.up w.bytes size * a) + size ≤
      8 / w.bytes * (Align.up w.bytes size * b) := by
  have hup := Align.le_up (a := w.bytes) (by cases w <;> decide) size
  have hapart := slots_apart (8 / w.bytes) (Align.up w.bytes size) (by cases w <;> decide) hab
  omega

/-- **The slots of a segment lie apart and within what is mapped exactly if pointers have eight
bytes**, for every size and in every run of its writer. -/
theorem shm_layout (w : PtrWidth) (size : Nat) (hpos : 1 ≤ size) (hsize : size ≤ 2 ^ 24)
    (bytes : Buf) (events : List ShmEvent) (r : ShmRun)
    (hrun : shmRun w.bytes (.start w.bytes size bytes) events = some r) :
    LaidOut w size r.seg ↔ w = .eight := by
  have haddr : ∀ slot < shmCopies, r.seg.slotAddr w.bytes slot =
      sizeofShmHeader + 8 / w.bytes * (Align.up w.bytes size * slot) := by
    intro slot hslot
    rw [shmRun_slotAddr hrun]
    exact slotAddr_bytes w hsize hslot rfl
  have hup := Align.le_up (a := w.bytes) (by cases w <;> decide) size
  constructor
  · intro h
    have hlast := h.mapped 3 (by decide)
    rw [haddr 3 (by decide), calcShmSize_bytes w hsize] at hlast
    cases w with
    | eight => rfl
    | four =>
      simp only [PtrWidth.bytes, shmCopies] at hup hlast
      omega
  · rintro rfl
    refine ⟨fun a ha b hb hne => ?_, fun slot hslot => ?_, fun slot hslot => ?_⟩
    · rw [haddr a ha, haddr b hb]
      rcases Nat.lt_or_gt_of_ne hne with hlt | hgt
      · have := slots_disjoint .eight size hlt
        omega
      · have := slots_disjoint .eight size hgt
        omega
    · rw [haddr slot hslot]
      exact Nat.le_add_right _ _
    · rw [haddr slot hslot, calcShmSize_bytes .eight hsize]
      have := slots_disjoint .eight size hslot
      simp only [PtrWidth.bytes, shmCopies] at this ⊢
      omega

/-- A segment of 100 bytes that was written once. -/
theorem shm_layout_hundred :
    LaidOut .eight 100 (((shmMapInit 8 100 (ofList [])).copy 8 [1, 2]).publish 0xFFFFFFFF) :=
  (shm_layout .eight 100 (by decide) (by decide) (ofList []) [.copy [1, 2], .publish] _ rfl).mpr rfl

/-- With pointers of four bytes the last slot of a segment of one byte starts behind its end. -/
theorem shm_layout_four :
    (shmMapInit 4 1 (ofList [])).slotAddr 4 3 = 112 ∧ calcShmSize 4 1 shmCopies = 104 ∧
      ¬LaidOut .four 1 (shmMapInit 4 1 (ofList [])) :=
  ⟨by decide, by decide, fun h => absurd (h.mapped 3 (by decide)) (by decide)⟩

end Rhex
