import Mathlib

/-!
# The last values, in a ring

A ring of `n` cells is written round and round, and so holds the last `n` values written. `recent`
lists all values, the newest first.

* `Window.Holds.push` — writing a value.
* `Window.Holds.mem_iff`, `Window.Holds.perm` — what is in the ring.
-/

namespace Window

variable {α : Type*}

/-- The position after `pos`. -/
def advance (n pos : Nat) : Nat := if n ≤ pos + 1 then 0 else pos + 1

/-- The cell of the value that is `age` values old, when `pos` is written next. -/
def cell (n pos age : Nat) : Nat := if age < pos then pos - 1 - age else pos + n - 1 - age

/-- The cells hold the last `n` values. -/
structure Holds (n : Nat) (cells : Nat → α) (pos : Nat) (recent : List α) : Prop where
  pos_lt : pos < n
  cell : ∀ age < n, recent[age]? = some (cells (cell n pos age))

theorem cell_lt {n pos age : Nat} (hpos : pos < n) (hage : age < n) : cell n pos age < n := by
  unfold cell
  split_ifs <;> omega

theorem exists_age {n pos i : Nat} (hpos : pos < n) (hi : i < n) :
    ∃ age < n, cell n pos age = i := by
  refine ⟨if i < pos then pos - 1 - i else pos + n - 1 - i, ?_, ?_⟩
  · split_ifs <;> omega
  · unfold cell
    split_ifs <;> omega

theorem advance_lt {n pos : Nat} (hpos : pos < n) : advance n pos < n := by
  unfold advance
  split_ifs <;> omega

theorem cell_advance_zero {n pos : Nat} (hpos : pos < n) : cell n (advance n pos) 0 = pos := by
  unfold cell advance
  split_ifs <;> omega

theorem cell_advance_succ {n pos age : Nat} (hpos : pos < n) (hage : age + 1 < n) :
    cell n (advance n pos) (age + 1) = cell n pos age := by
  unfold cell advance
  split_ifs <;> omega

theorem cell_ne {n pos age : Nat} (hage : age + 1 < n) : cell n pos age ≠ pos := by
  unfold cell
  split_ifs <;> omega

theorem advance_mod {n : Nat} (hn : 0 < n) (i : Nat) : advance n (i % n) = (i + 1) % n := by
  have hlt := Nat.mod_lt i hn
  rw [advance, Nat.add_mod i 1 n, Nat.add_mod_mod]
  split_ifs with hend
  · have hlast : i % n + 1 = n := by omega
    rw [hlast, Nat.mod_self]
  · exact (Nat.mod_eq_of_lt (by omega)).symm

/-- The cells of all ages are all cells. -/
theorem cell_perm {n pos : Nat} (hpos : pos < n) :
    ((List.range n).map (cell n pos)).Perm (List.range n) := by
  have hinj : ∀ a ∈ List.range n, ∀ b ∈ List.range n, cell n pos a = cell n pos b → a = b := by
    intro a ha b hb heq
    rw [List.mem_range] at ha hb
    unfold cell at heq
    split_ifs at heq <;> omega
  rw [List.perm_ext_iff_of_nodup (List.nodup_range.map_on hinj) List.nodup_range]
  intro i
  rw [List.mem_map, List.mem_range]
  constructor
  · rintro ⟨age, hage, rfl⟩
    exact cell_lt hpos (List.mem_range.mp hage)
  · intro hi
    obtain ⟨age, hage, heq⟩ := exists_age hpos hi
    exact ⟨age, List.mem_range.mpr hage, heq⟩

namespace Holds

variable {n pos : Nat} {cells : Nat → α} {recent : List α}

theorem init {n pos : Nat} (hpos : pos < n) (z : α) :
    Holds n (fun _ => z) pos (List.replicate n z) :=
  ⟨hpos, fun age hage => by rw [List.getElem?_replicate, if_pos hage]⟩

/-- **Writing a value.** -/
theorem push (h : Holds n cells pos recent) (x : α) :
    Holds n (Function.update cells pos x) (advance n pos) (x :: recent) := by
  refine ⟨advance_lt h.pos_lt, ?_⟩
  intro age hage
  cases age with
  | zero => rw [cell_advance_zero h.pos_lt, Function.update_self, List.getElem?_cons_zero]
  | succ age =>
    rw [cell_advance_succ h.pos_lt hage, Function.update_of_ne (cell_ne hage),
      List.getElem?_cons_succ]
    exact h.cell age (by omega)

/-- **What is in the ring** is among the last `n` values. -/
theorem mem_iff (h : Holds n cells pos recent) {x : α} :
    (∃ i < n, cells i = x) ↔ x ∈ recent.take n := by
  rw [List.mem_take_iff_getElem]
  constructor
  · rintro ⟨i, hi, rfl⟩
    obtain ⟨age, hage, rfl⟩ := exists_age h.pos_lt hi
    obtain ⟨hlt, heq⟩ := List.getElem?_eq_some_iff.mp (h.cell age hage)
    exact ⟨age, by omega, heq⟩
  · rintro ⟨age, hage, rfl⟩
    have hlt : age < n := by omega
    obtain ⟨_, heq⟩ := List.getElem?_eq_some_iff.mp (h.cell age hlt)
    exact ⟨_, cell_lt h.pos_lt hlt, heq.symm⟩

/-- **The ring** holds the last `n` values, in an order of its own. -/
theorem perm (h : Holds n cells pos recent) :
    ((List.range n).map cells).Perm (recent.take n) := by
  have hrecent : recent.take n = ((List.range n).map (Window.cell n pos)).map cells := by
    apply List.ext_getElem?
    intro age
    rw [List.getElem?_take, List.map_map, List.getElem?_map]
    by_cases hage : age < n
    · rw [if_pos hage, h.cell age hage, List.getElem?_range hage]
      rfl
    · rw [if_neg hage, List.getElem?_eq_none (by simpa using Nat.le_of_not_lt hage)]
      rfl
  rw [hrecent]
  exact ((cell_perm h.pos_lt).map cells).symm

end Holds

end Window
