import Mathlib
import Rhex.Lib.Align

/-!
# Items placed one behind the other

A format that announces its items by tags stores each of them behind the one before, at the next
position that is a multiple of its alignment. A reader that knows only some of the tags, or finds
an item cut off by the end, has to stop there.

* `Placed.place`, `Placed.finish` — the items with their positions, and where they end.
* `Placed.place_append` — a list of tags may be read in parts.
* `Placed.mem_place` — items are aligned and inside.
* `Placed.filter_place_of_agree` — readers that know different tags agree on those both know.
-/

namespace Placed

/-- Alignment and size of an item by its tag. -/
abbrev Kind := Nat → Option (Nat × Nat)

variable (kind : Kind) (limit : Nat)

/-- The items with the given tags and their positions, from `pos` on, up to the first that is not
known or does not end by `limit`. -/
def place : List Nat → Nat → List (Nat × Nat)
  | [], _ => []
  | tag :: tags, pos =>
    match kind tag with
    | none => []
    | some (align, size) =>
      if Align.up align pos + size ≤ limit then
        (tag, Align.up align pos) :: place tags (Align.up align pos + size)
      else []

/-- Where the last item ends, if all of them are placed. -/
def finish : List Nat → Nat → Option Nat
  | [], pos => some pos
  | tag :: tags, pos =>
    match kind tag with
    | none => none
    | some (align, size) =>
      if Align.up align pos + size ≤ limit then finish tags (Align.up align pos + size) else none

/-- No item is aligned to zero. -/
def Kind.Aligned (kind : Kind) : Prop := ∀ tag align size, kind tag = some (align, size) → 0 < align

variable {kind limit}

/-! ## One item -/

theorem place_cons_none {tag : Nat} (h : kind tag = none) (tags : List Nat) (pos : Nat) :
    place kind limit (tag :: tags) pos = [] ∧ finish kind limit (tag :: tags) pos = none := by
  simp only [place, finish, h, and_self]

theorem place_cons_of_le {tag align size : Nat} (h : kind tag = some (align, size))
    {pos : Nat} (hfits : Align.up align pos + size ≤ limit) (tags : List Nat) :
    place kind limit (tag :: tags) pos =
        (tag, Align.up align pos) :: place kind limit tags (Align.up align pos + size) ∧
      finish kind limit (tag :: tags) pos = finish kind limit tags (Align.up align pos + size) := by
  simp only [place, finish, h, if_pos hfits, and_self]

theorem place_cons_of_gt {tag align size : Nat} (h : kind tag = some (align, size))
    {pos : Nat} (hover : ¬Align.up align pos + size ≤ limit) (tags : List Nat) :
    place kind limit (tag :: tags) pos = [] ∧ finish kind limit (tag :: tags) pos = none := by
  simp only [place, finish, h, if_neg hover, and_self]

/-! ## Lists of items -/

/-- Tags read in two parts. -/
theorem place_append (tags tags' : List Nat) (pos : Nat) :
    place kind limit (tags ++ tags') pos = place kind limit tags pos ++
      ((finish kind limit tags pos).map fun p => place kind limit tags' p).getD [] := by
  induction tags generalizing pos with
  | nil => rfl
  | cons tag tags ih =>
    rw [List.cons_append]
    cases hkind : kind tag with
    | none =>
      obtain ⟨hplace, hfinish⟩ := @place_cons_none _ limit _ hkind tags pos
      rw [hplace, hfinish, (place_cons_none hkind _ pos).1]
      rfl
    | some item =>
      obtain ⟨align, size⟩ := item
      by_cases hfits : Align.up align pos + size ≤ limit
      · obtain ⟨hplace, hfinish⟩ := place_cons_of_le hkind hfits tags
        rw [hplace, hfinish, (place_cons_of_le hkind hfits _).1, ih, List.cons_append]
      · obtain ⟨hplace, hfinish⟩ := place_cons_of_gt hkind hfits tags
        rw [hplace, hfinish, (place_cons_of_gt hkind hfits _).1]
        rfl

/-- The positions are aligned, and the items inside. -/
theorem mem_place (hkind : kind.Aligned) {tags : List Nat} {pos : Nat} {x : Nat × Nat}
    (h : x ∈ place kind limit tags pos) : x.1 ∈ tags ∧ pos ≤ x.2 ∧
      ∃ align size, kind x.1 = some (align, size) ∧ align ∣ x.2 ∧ x.2 + size ≤ limit := by
  induction tags generalizing pos with
  | nil => exact absurd h List.not_mem_nil
  | cons tag tags ih =>
    cases hitem : kind tag with
    | none =>
      rw [(place_cons_none hitem tags pos).1] at h
      exact absurd h List.not_mem_nil
    | some item =>
      obtain ⟨align, size⟩ := item
      have hup := Align.le_up (hkind tag align size hitem) pos
      by_cases hfits : Align.up align pos + size ≤ limit
      · rw [(place_cons_of_le hitem hfits tags).1] at h
        rcases List.mem_cons.mp h with rfl | h
        · exact ⟨List.mem_cons_self, hup, align, size, hitem, Align.dvd_up align pos, hfits⟩
        · obtain ⟨hmem, hle, hrest⟩ := ih h
          exact ⟨List.mem_cons_of_mem tag hmem, by omega, hrest⟩
      · rw [(place_cons_of_gt hitem hfits tags).1] at h
        exact absurd h List.not_mem_nil

theorem place_of_gt (hkind : kind.Aligned) {pos : Nat} (h : limit < pos) (tags : List Nat) :
    place kind limit tags pos = [] := by
  apply List.eq_nil_iff_forall_not_mem.mpr
  intro x hx
  obtain ⟨-, hle, align, size, -, -, hfits⟩ := mem_place hkind hx
  omega

theorem le_finish (hkind : kind.Aligned) {tags : List Nat} {pos p : Nat}
    (h : finish kind limit tags pos = some p) : pos ≤ p ∧ (p ≤ limit ∨ tags = []) := by
  induction tags generalizing pos with
  | nil =>
    obtain rfl := Option.some.inj h
    exact ⟨le_rfl, .inr rfl⟩
  | cons tag tags ih =>
    cases hitem : kind tag with
    | none =>
      rw [(place_cons_none hitem tags pos).2] at h
      exact absurd h.symm (Option.some_ne_none p)
    | some item =>
      obtain ⟨align, size⟩ := item
      have hup := Align.le_up (hkind tag align size hitem) pos
      by_cases hfits : Align.up align pos + size ≤ limit
      · rw [(place_cons_of_le hitem hfits tags).2] at h
        obtain ⟨hle, hend⟩ := ih h
        refine ⟨by omega, .inl ?_⟩
        rcases hend with hend | rfl
        · exact hend
        · obtain rfl := Option.some.inj h
          exact hfits
      · rw [(place_cons_of_gt hitem hfits tags).2] at h
        exact absurd h.symm (Option.some_ne_none p)

/-! ## Readers that know different tags -/

theorem place_congr {kind' : Kind} {tags : List Nat} (h : ∀ tag ∈ tags, kind tag = kind' tag)
    (pos : Nat) : place kind limit tags pos = place kind' limit tags pos ∧
      finish kind limit tags pos = finish kind' limit tags pos := by
  induction tags generalizing pos with
  | nil => exact ⟨rfl, rfl⟩
  | cons tag tags ih =>
    have htail := ih fun t ht => h t (List.mem_cons_of_mem tag ht)
    simp only [place, finish, h tag List.mem_cons_self]
    cases kind' tag with
    | none => exact ⟨rfl, rfl⟩
    | some item => simp only [(htail _).1, (htail _).2, and_self]

/-- Both readers find the same items with the tags before those that only one of them knows. -/
theorem filter_place_of_agree {kind' : Kind} (hkind : kind.Aligned) (hkind' : kind'.Aligned)
    {tags more more' : List Nat} (h : ∀ tag ∈ tags, kind tag = kind' tag) {tag : Nat}
    (hmore : tag ∉ more) (hmore' : tag ∉ more') (pos : Nat) :
    (place kind limit (tags ++ more) pos).filter (·.1 = tag) =
      (place kind' limit (tags ++ more') pos).filter (·.1 = tag) := by
  have hnone : ∀ {k : Kind}, k.Aligned → ∀ {l : List Nat}, tag ∉ l → ∀ q : Option Nat,
      ((q.map fun p => place k limit l p).getD []).filter (·.1 = tag) = [] := by
    intro k hk l hl q
    apply List.filter_eq_nil_iff.mpr
    intro x hx
    cases q with
    | none => exact absurd hx List.not_mem_nil
    | some p =>
      have hmem := (mem_place hk hx).1
      simp only [decide_eq_true_eq]
      rintro rfl
      exact hl hmem
  rw [place_append, place_append, List.filter_append, List.filter_append, hnone hkind hmore,
    hnone hkind' hmore', (place_congr h pos).1]

end Placed
