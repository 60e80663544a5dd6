import Mathlib

/-!
# Ring buffers

A ring of `n` places with a head, where the next item is put, and a tail, where the next item is
taken. It is empty when the two are equal, so that at most `n - 1` items are in it.

* `Ring.Queued` — the items between tail and head, as a list.
* `Queued.push`, `Queued.pop` — putting and taking an item.
* `Queued.last` — the place before the head.
-/

namespace Ring

variable {α : Type*} {n : Nat} [NeZero n]

/-- The place `i` places behind another. -/
def behind (place : Fin n) (i : Nat) : Fin n := Fin.ofNat n (place.val + i)

@[simp] theorem behind_zero (place : Fin n) : behind place 0 = place :=
  Fin.ext (Nat.mod_eq_of_lt place.isLt)

theorem behind_add_one (place : Fin n) (i : Nat) : behind (place + 1) i = behind place (i + 1) := by
  apply Fin.ext
  simp only [behind, Fin.val_ofNat, Fin.val_add, Fin.val_one']
  rw [Nat.mod_add_mod, Nat.add_right_comm, ← Nat.add_mod_mod, Nat.mod_mod, Nat.add_mod_mod,
    Nat.add_assoc]

theorem behind_succ (place : Fin n) (i : Nat) : behind place i + 1 = behind place (i + 1) := by
  apply Fin.ext
  simp only [behind, Fin.val_ofNat, Fin.val_add, Fin.val_one', Nat.mod_add_mod, Nat.add_mod_mod,
    Nat.add_assoc]

theorem behind_ne {place : Fin n} {i j : Nat} (hij : i < j) (hj : j < n) :
    behind place i ≠ behind place j := by
  intro h
  have hmod : (place.val + i) % n = (place.val + j) % n := congrArg Fin.val h
  have := Nat.ModEq.add_left_cancel' place.val hmod
  rw [Nat.ModEq, Nat.mod_eq_of_lt (hij.trans hj), Nat.mod_eq_of_lt hj] at this
  exact hij.ne this

/-- The items between tail and head are those of the list, the oldest first. -/
structure Queued (head tail : Fin n) (items : Fin n → α) (l : List α) : Prop where
  head_eq : head = behind tail l.length
  length_lt : l.length < n
  item : ∀ i (h : i < l.length), items (behind tail i) = l[i]

namespace Queued

variable {head tail : Fin n} {items : Fin n → α} {l : List α} {x : α}

theorem nil (tail : Fin n) (items : Fin n → α) : Queued tail tail items [] :=
  ⟨(behind_zero tail).symm, Nat.pos_of_neZero n, fun _ h => absurd h (Nat.not_lt_zero _)⟩

theorem head_eq_tail_iff (h : Queued head tail items l) : head = tail ↔ l = [] := by
  rw [h.head_eq]
  constructor
  · intro heq
    by_contra hne
    have hpos : 0 < l.length := List.length_pos_iff.mpr hne
    exact behind_ne hpos h.length_lt (by rw [heq, behind_zero])
  · rintro rfl
    exact behind_zero tail

theorem push (h : Queued head tail items l) (hroom : l.length + 1 < n) (x : α) :
    Queued (head + 1) tail (Function.update items head x) (l ++ [x]) := by
  refine ⟨?_, by simpa using hroom, fun i hi => ?_⟩
  · rw [h.head_eq, behind_succ, List.length_append, List.length_singleton]
  · rw [List.length_append, List.length_singleton] at hi
    rcases Nat.lt_succ_iff_lt_or_eq.mp hi with hlt | rfl
    · rw [h.head_eq, Function.update_of_ne (behind_ne hlt h.length_lt), h.item i hlt,
        List.getElem_append_left hlt]
    · rw [h.head_eq, Function.update_self, List.getElem_concat_length rfl]

theorem first (h : Queued head tail items (x :: l)) : items tail = x := by
  rw [← behind_zero tail]
  exact h.item 0 (Nat.succ_pos _)

theorem pop (h : Queued head tail items (x :: l)) : Queued head (tail + 1) items l := by
  refine ⟨?_, (Nat.lt_succ_self _).trans h.length_lt, fun i hi => ?_⟩
  · rw [behind_add_one, h.head_eq, List.length_cons]
  · rw [behind_add_one, h.item (i + 1) (Nat.succ_lt_succ hi), List.getElem_cons_succ]

theorem last (h : Queued head tail items (l ++ [x])) :
    ∃ place, place + 1 = head ∧ items place = x := by
  have hlen : (l ++ [x]).length = l.length + 1 := by simp
  refine ⟨behind tail l.length, ?_, ?_⟩
  · rw [behind_succ, h.head_eq, hlen]
  · rw [h.item l.length (by omega), List.getElem_concat_length rfl]

end Queued

end Ring
