import Mathlib

/-!
# Letting values through once

A window remembers the last `n` values that it has let through, and stops copies of them. `recent`
lists the values that it has let through, the newest first.

* `Once.passed` — what a window lets through.
* `Once.CopiesWithin` — copies of a value come soon after one another.
* `Once.eraseDups_append_passed` — then each value is let through when it comes first, and never
  again.
-/

namespace Once

variable {α : Type*} [DecidableEq α]

/-- What the window lets through. -/
def passed (n : Nat) (recent : List α) : List α → List α
  | [] => []
  | x :: xs => if x ∈ recent.take n then passed n recent xs else x :: passed n (x :: recent) xs

/-- Between two copies of a value there are less than `n` others. -/
def CopiesWithin (n : Nat) (xs : List α) : Prop :=
  ∀ pre x mid post, xs = pre ++ x :: (mid ++ x :: post) → mid.toFinset.card < n

theorem CopiesWithin.of_card {n : Nat} {xs : List α} (h : xs.toFinset.card < n) :
    CopiesWithin n xs := by
  rintro pre x mid post rfl
  refine lt_of_le_of_lt (Finset.card_le_card fun y hy => ?_) h
  rw [List.mem_toFinset] at hy ⊢
  exact List.mem_append_right _ (List.mem_cons_of_mem x (List.mem_append_left _ hy))

/-! ## The values without their copies -/

theorem nodup_eraseDups (xs : List α) : xs.eraseDups.Nodup := by
  induction hlen : xs.length using Nat.strong_induction_on generalizing xs with
  | _ len ih =>
    cases xs with
    | nil => exact List.nodup_nil
    | cons x xs =>
      have hle := List.length_filter_le (fun y => !y == x) xs
      rw [List.eraseDups_cons, List.nodup_cons]
      refine ⟨fun hmem => ?_, ih _ (by rw [← hlen, List.length_cons]; omega) _ rfl⟩
      have hfilter := List.mem_filter.mp (List.mem_eraseDups.mp hmem)
      simp at hfilter

theorem length_eraseDups (xs : List α) : xs.eraseDups.length = xs.toFinset.card := by
  rw [← List.toFinset_card_of_nodup (nodup_eraseDups xs)]
  congr 1
  ext x
  rw [List.mem_toFinset, List.mem_toFinset, List.mem_eraseDups]

theorem eraseDups_concat (xs : List α) (x : α) :
    (xs ++ [x]).eraseDups = if x ∈ xs then xs.eraseDups else xs.eraseDups ++ [x] := by
  rw [List.eraseDups_append, List.removeAll, List.filter_cons]
  split_ifs with hnot hmem hmem
  · simp_all
  · rfl
  · rw [List.filter_nil, List.eraseDups_nil, List.append_nil]
  · simp_all

/-- A copy that comes soon is in the window. -/
theorem mem_take_of_copy {n : Nat} {seen post : List α} {x : α}
    (h : CopiesWithin n (seen ++ x :: post)) (hmem : x ∈ seen) :
    x ∈ seen.eraseDups.reverse.take n := by
  obtain ⟨pre, mid, rfl, hfirst⟩ := List.eq_append_cons_of_mem hmem
  have hfew : mid.toFinset.card < n := by
    refine h pre x mid post ?_
    rw [List.append_assoc, List.cons_append]
  obtain ⟨later, hlater, hsub⟩ : ∃ later : List α, (pre ++ x :: mid).eraseDups =
      pre.eraseDups ++ x :: later.eraseDups ∧ later.toFinset ⊆ mid.toFinset := by
    refine ⟨(mid.removeAll pre).filter fun y => !y == x, ?_, fun y hy => ?_⟩
    · rw [List.eraseDups_append, List.removeAll, List.filter_cons, if_pos (by simpa using hfirst),
        List.eraseDups_cons]
      rfl
    · rw [List.mem_toFinset] at hy ⊢
      exact (List.mem_filter.mp (List.mem_filter.mp hy).1).1
  have hlen : later.eraseDups.reverse.length < n := by
    rw [List.length_reverse, length_eraseDups]
    exact lt_of_le_of_lt (Finset.card_le_card hsub) hfew
  rw [hlater, List.reverse_append, List.reverse_cons, List.append_assoc, List.singleton_append,
    List.mem_take_iff_getElem]
  refine ⟨later.eraseDups.reverse.length, ?_, ?_⟩
  · rw [List.length_append, List.length_cons]
    omega
  · rw [List.getElem_append_right (le_refl _)]
    simp

/-! ## What is let through -/

/-- **Each value is let through once**, when it comes first. -/
theorem eraseDups_append_passed {n : Nat} {seen xs : List α} (h : CopiesWithin n (seen ++ xs)) :
    (seen ++ xs).eraseDups = seen.eraseDups ++ passed n seen.eraseDups.reverse xs := by
  induction xs generalizing seen with
  | nil => rw [passed, List.append_nil, List.append_nil]
  | cons x xs ih =>
    have hseen : CopiesWithin n ((seen ++ [x]) ++ xs) := by rwa [List.append_assoc]
    have hnext := ih hseen
    rw [List.append_assoc, List.singleton_append, eraseDups_concat] at hnext
    rw [hnext, passed]
    by_cases hmem : x ∈ seen
    · rw [if_pos hmem, if_pos (mem_take_of_copy h hmem)]
    · have hnot : x ∉ seen.eraseDups.reverse.take n := fun hin => hmem
        (List.mem_eraseDups.mp (List.mem_reverse.mp (List.mem_of_mem_take hin)))
      rw [if_neg hmem, if_neg hnot, List.reverse_append, List.append_assoc]
      rfl

/-- Of a value that fills the whole window at the start, one copy is enough. -/
theorem passed_replicate {n : Nat} (hn : 0 < n) (z : α) (recent xs : List α) :
    passed n (recent ++ List.replicate n z) xs = passed n (recent ++ [z]) xs := by
  induction xs generalizing recent with
  | nil => rfl
  | cons x xs ih =>
    have hmem : x ∈ (recent ++ List.replicate n z).take n ↔ x ∈ (recent ++ [z]).take n := by
      rw [List.take_append, List.take_append, List.mem_append, List.mem_append,
        List.take_replicate]
      by_cases hfull : n ≤ recent.length
      · rw [Nat.sub_eq_zero_of_le hfull]
        simp
      · rw [List.take_of_length_le (show [z].length ≤ n - recent.length by simp; omega),
          List.mem_singleton, List.mem_replicate]
        have hpos : min (n - recent.length) n ≠ 0 := by omega
        tauto
    simp only [passed, hmem]
    split_ifs
    · exact ih recent
    · rw [← List.cons_append, ih (x :: recent), List.cons_append]

/-- **From the start**: a window that is full of one value lets each other value through once. -/
theorem passed_start {n : Nat} (hn : 0 < n) {z : α} {xs : List α}
    (h : CopiesWithin n (z :: xs)) :
    passed n (List.replicate n z) xs = (xs.filter fun x => !x == z).eraseDups := by
  have hseen := @eraseDups_append_passed _ _ n [z] xs h
  rw [List.singleton_append, List.eraseDups_cons, List.eraseDups_cons, List.filter_nil,
    List.eraseDups_nil, List.singleton_append, List.reverse_singleton] at hseen
  have hstart := passed_replicate hn z [] xs
  rw [List.nil_append, List.nil_append] at hstart
  rw [hstart]
  exact (List.cons.inj hseen).2.symm

end Once
