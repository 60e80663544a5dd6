import Mathlib
import Rhex.Rc

/-!
# The counters of the control receiver

`rc_main` counts the frames it applies, and those that were lost by the distance of each frame to
`last_seqno`. As `last_seqno` stays 0, the distance is the number of the frame itself.

* `NumberedFrame` — a frame with its number in the transmitter's count, which does not wrap.
* `Accounts` — the counters behind a frame that is applied.
* `rc_accounting` — they are right only up to the second frame that is applied.
-/

namespace Rhex

open Memory

/-- A frame of the transmitter, with its number before the wrap to 32 bits. -/
structure NumberedFrame where
  number : Nat
  rxData : RxPacket
  seqno : rcSeqno rxData.data = .ofNat number

/-- One frame of a run, with the numbers of the frames applied so far, the newest first. -/
def rcCountStep (s : RcState × List Nat) (f : NumberedFrame) : Option (RcState × List Nat) :=
  let r := rcPacket s.1 f.rxData
  some (r.1, if r.2.isSome then f.number :: s.2 else s.2)

/-- The numbers from the first to the latest that were not applied. -/
def skippedNumbers (first latest : Nat) (applied : List Nat) : Finset Nat :=
  Finset.Icc first latest \ applied.toFinset

/-- After a frame is applied, `received_packet_cnt` is the number of frames that were, without
copies, and `lost_packet_cnt` that of the numbers skipped since the first of them. -/
def Accounts (s : RcState × List Nat) (f : NumberedFrame) : Prop :=
  (rcPacket s.1 f.rxData).2.isSome = true → ∀ first ∈ (f.number :: s.2).getLast?,
    let status := (rcPacket s.1 f.rxData).1.rcStatus
    status.receivedPacketCnt = .ofNat (f.number :: s.2).toFinset.card ∧
      status.lostPacketCnt =
        .ofNat (skippedNumbers first f.number (f.number :: s.2)).card ∧
      status.lostPacketCnt + status.receivedPacketCnt = .ofNat (f.number - first + 1)

/-- The numbers that arrive, as they are sent, without those that are judged old. -/
def appliedNumbers (frames : List NumberedFrame) : List Nat :=
  (frames.map fun f => f.number % 2 ^ 32).filter (· < halfRange)

/-- The numbers are 0, 1, a start of that, or 1 alone. -/
def FirstTwo (l : List Nat) : Prop := l <+: [0, 1] ∨ l <+: [1]

/-! ## One frame -/

section

variable {s : RcState} {f : NumberedFrame}

theorem rcFresh_numbered (hs : s.lastSeqno = 0) :
    rcFresh s f.rxData.data ↔ f.number % 2 ^ 32 < halfRange := by
  rw [rcFresh, hs, UInt32.sub_zero, f.seqno, UInt32.toNat_ofNat']

theorem rcPacket_old (hs : s.lastSeqno = 0) (hold : ¬f.number % 2 ^ 32 < halfRange) :
    (rcPacket s f.rxData).2 = none ∧
      (rcPacket s f.rxData).1.rcStatus.receivedPacketCnt = s.rcStatus.receivedPacketCnt ∧
      (rcPacket s f.rxData).1.rcStatus.lostPacketCnt = s.rcStatus.lostPacketCnt := by
  rw [rcPacket, if_neg fun h => hold ((rcFresh_numbered hs).mp h)]
  exact ⟨rfl, rfl, rfl⟩

/-- A frame that is applied counts as received, and its number as lost. -/
theorem rcPacket_applied (hs : s.lastSeqno = 0) (hlow : f.number % 2 ^ 32 < halfRange) :
    (rcPacket s f.rxData).2.isSome = true ∧
      (rcPacket s f.rxData).1.rcStatus.receivedPacketCnt = s.rcStatus.receivedPacketCnt + 1 ∧
      (rcPacket s f.rxData).1.rcStatus.lostPacketCnt = s.rcStatus.lostPacketCnt +
        if 1 < f.number % 2 ^ 32 then .ofNat f.number else 0 := by
  have hahead : rcSeqno f.rxData.data - s.lastSeqno > 1 ↔ 1 < f.number % 2 ^ 32 := by
    rw [hs, UInt32.sub_zero, f.seqno, gt_iff_lt, UInt32.lt_iff_toNat_lt, UInt32.toNat_ofNat']
    rfl
  rw [rcPacket, if_pos ((rcFresh_numbered hs).mpr hlow)]
  refine ⟨rfl, rfl, ?_⟩
  simp only [hahead]
  split_ifs
  · rw [hs, UInt32.sub_zero, f.seqno]
  · exact (UInt32.add_zero _).symm

end

/-! ## Runs -/

/-- The numbers that were applied: none, one of which the count is right, or 0 and 1. -/
inductive Started : List Nat → Prop where
  | none : Started []
  | one (k : Nat) (hk : k % 2 ^ 32 ≤ 1) : Started [k]
  | two (k₁ k₀ : Nat) (hk₀ : k₀ % 2 ^ 32 = 0) (hk₁ : k₁ % 2 ^ 32 = 1) (hlt : k₀ < k₁) :
      Started [k₁, k₀]

/-- What holds while the counters are right: nothing counts as lost. -/
structure Counted (s : RcState × List Nat) : Prop where
  lastSeqno : s.1.lastSeqno = 0
  received : s.1.rcStatus.receivedPacketCnt = .ofNat s.2.length
  lost : s.1.rcStatus.lostPacketCnt = 0
  started : Started s.2

theorem card_skippedNumbers {first latest : Nat} {applied : List Nat}
    (h : ∀ k ∈ applied, first ≤ k ∧ k ≤ latest) :
    (skippedNumbers first latest applied).card + applied.toFinset.card = latest + 1 - first := by
  have hsub : applied.toFinset ⊆ Finset.Icc first latest := by
    intro k hk
    rw [Finset.mem_Icc]
    exact h k (List.mem_toFinset.mp hk)
  rw [skippedNumbers, Finset.card_sdiff_add_card_eq_card hsub, Nat.card_Icc]

section

variable {s : RcState × List Nat} {f : NumberedFrame}

/-- Where every number from the first to the latest was applied or skipped, the sum is right if
the two counters are. -/
theorem accounts_counters (hsome : (rcPacket s.1 f.rxData).2.isSome = true) {first : Nat}
    (hfirst : (f.number :: s.2).getLast? = some first) (hle : first ≤ f.number)
    (hcard : (skippedNumbers first f.number (f.number :: s.2)).card +
      (f.number :: s.2).toFinset.card = f.number + 1 - first) :
    Accounts s f ↔
      (rcPacket s.1 f.rxData).1.rcStatus.receivedPacketCnt =
          .ofNat (f.number :: s.2).toFinset.card ∧
        (rcPacket s.1 f.rxData).1.rcStatus.lostPacketCnt =
          .ofNat (skippedNumbers first f.number (f.number :: s.2)).card := by
  constructor
  · intro hacc
    obtain ⟨hreceived, hlost, -⟩ := hacc hsome first hfirst
    exact ⟨hreceived, hlost⟩
  · rintro ⟨hreceived, hlost⟩ _ x hx
    obtain rfl := Option.some.inj (hfirst.symm.trans hx)
    refine ⟨hreceived, hlost, ?_⟩
    rw [hlost, hreceived, ← UInt32.ofNat_add, hcard]
    congr 1
    omega

/-- The counters behind a frame that is applied, as equations between natural numbers. -/
theorem accounts_iff (h : Counted s) (hlow : f.number % 2 ^ 32 < halfRange)
    (horder : ∀ k ∈ s.2, k ≤ f.number) (first : Nat)
    (hfirst : (f.number :: s.2).getLast? = some first) (hle : ∀ k ∈ s.2, first ≤ k) :
    Accounts s f ↔
      (s.2.length + 1) % 2 ^ 32 = (f.number :: s.2).toFinset.card % 2 ^ 32 ∧
        (if 1 < f.number % 2 ^ 32 then f.number % 2 ^ 32 else 0) =
          (f.number + 1 - first - (f.number :: s.2).toFinset.card) % 2 ^ 32 := by
  obtain ⟨hsome, hreceived, hlost⟩ := rcPacket_applied h.lastSeqno hlow
  have hmem : first ∈ f.number :: s.2 := List.mem_of_getLast? hfirst
  have hfirst_le : first ≤ f.number := by
    rcases List.mem_cons.mp hmem with rfl | hmem
    · exact le_rfl
    · exact horder first hmem
  have hbetween : ∀ k ∈ f.number :: s.2, first ≤ k ∧ k ≤ f.number := by
    simpa [hfirst_le] using fun k hk => ⟨hle k hk, horder k hk⟩
  have hcard := card_skippedNumbers hbetween
  have hskipped : f.number + 1 - first - (f.number :: s.2).toFinset.card =
      (skippedNumbers first f.number (f.number :: s.2)).card := by
    omega
  rw [hskipped, accounts_counters hsome hfirst hfirst_le hcard, hreceived, hlost, h.received,
    h.lost, UInt32.zero_add]
  refine and_congr ?_ ?_
  · rw [← UInt32.toNat_inj, UInt32.toNat_add, UInt32.toNat_ofNat', UInt32.toNat_ofNat',
      UInt32.toNat_one, Nat.mod_add_mod]
  · rw [← UInt32.toNat_inj, UInt32.toNat_ofNat']
    split_ifs
    · rw [UInt32.toNat_ofNat']
    · rfl

/-- The numbers applied, as they were sent and in the order in which they came. -/
def sentNumbers (applied : List Nat) : List Nat := (applied.map (· % 2 ^ 32)).reverse

theorem sentNumbers_cons (k : Nat) (applied : List Nat) :
    sentNumbers (k :: applied) = sentNumbers applied ++ [k % 2 ^ 32] := by
  simp [sentNumbers]

theorem FirstTwo.of_append {l r : List Nat} (h : FirstTwo (l ++ r)) : FirstTwo l :=
  h.imp (List.prefix_append l r).trans (List.prefix_append l r).trans

theorem Started.firstTwo {applied : List Nat} (h : Started applied) :
    FirstTwo (sentNumbers applied) := by
  cases h with
  | none => exact .inl List.nil_prefix
  | one k hk =>
    rcases Nat.le_one_iff_eq_zero_or_eq_one.mp hk with hzero | hone
    · exact .inl ⟨[1], by rw [sentNumbers, List.map_singleton, hzero]; rfl⟩
    · exact .inr ⟨[], by rw [sentNumbers, List.map_singleton, hone]; rfl⟩
  | two k₁ k₀ hk₀ hk₁ _ =>
    exact .inl ⟨[], by rw [sentNumbers, List.map_cons, List.map_singleton, hk₀, hk₁]; rfl⟩

/-- What goes on as described has started with 0 and 1. -/
theorem Started.cons_iff {applied : List Nat} (h : Started applied) {k : Nat}
    (horder : ∀ x ∈ applied, x ≤ k) :
    Started (k :: applied) ↔ FirstTwo (sentNumbers applied ++ [k % 2 ^ 32]) := by
  cases h with
  | none =>
    have hfirst : FirstTwo [k % 2 ^ 32] ↔ k % 2 ^ 32 ≤ 1 := by
      simp only [FirstTwo, List.cons_prefix_cons, List.nil_prefix, and_true]
      omega
    refine Iff.trans ⟨?_, .one k⟩ hfirst.symm
    rintro (_ | ⟨_, hk⟩)
    exact hk
  | one x hx =>
    have hsecond : FirstTwo [x % 2 ^ 32, k % 2 ^ 32] ↔ x % 2 ^ 32 = 0 ∧ k % 2 ^ 32 = 1 := by
      simp [FirstTwo, List.cons_prefix_cons]
    refine Iff.trans ⟨?_, fun ⟨hzero, hone⟩ => .two k x hzero hone ?_⟩ hsecond.symm
    · rintro (_ | _ | ⟨_, _, hzero, hone, _⟩)
      exact ⟨hzero, hone⟩
    · have := horder x List.mem_cons_self
      omega
  | two k₁ k₀ _ _ _ =>
    refine iff_of_false (fun h => ?_) ?_
    · cases h
    · simp [FirstTwo, sentNumbers, List.cons_prefix_cons]

/-- The counters are right behind a frame that is applied exactly if it goes on as described. -/
theorem accounts_started (h : Counted s) (hlow : f.number % 2 ^ 32 < halfRange)
    (horder : ∀ k ∈ s.2, k ≤ f.number) : Accounts s f ↔ Started (f.number :: s.2) := by
  obtain ⟨s, applied⟩ := s
  cases h.started with
  | none =>
    rw [accounts_iff h hlow horder f.number rfl (by simp)]
    have hcard : [f.number].toFinset.card = 1 := rfl
    rw [hcard]
    constructor
    · rintro ⟨-, hlost⟩
      refine .one f.number ?_
      split_ifs at hlost with hgap <;> omega
    · rintro (_ | ⟨_, hk⟩)
      rw [if_neg (by omega)]
      exact ⟨rfl, by omega⟩
  | one k hk =>
    have hle : k ≤ f.number := horder k List.mem_cons_self
    rw [accounts_iff h hlow horder k rfl (by simp)]
    rcases Nat.lt_or_eq_of_le hle with hlt | rfl
    · have hcard : [f.number, k].toFinset.card = 2 := by
        rw [List.toFinset_card_of_nodup (by simpa using hlt.ne')]
        rfl
      rw [hcard]
      constructor
      · rintro ⟨-, hlost⟩
        split_ifs at hlost with hgap
        · omega
        · exact .two f.number k (by omega) (by omega) hlt
      · rintro (_ | _ | ⟨_, _, hzero, hone, -⟩)
        rw [if_neg (by omega)]
        exact ⟨rfl, by omega⟩
    · -- A copy of the first frame is counted again.
      have hcard : [f.number, f.number].toFinset.card = 1 := by simp
      rw [hcard]
      refine iff_of_false (fun hcount => absurd (show 2 % 2 ^ 32 = 1 from hcount.1) (by decide)) ?_
      rintro (_ | _ | ⟨_, _, _, _, hlt⟩)
      exact absurd hlt (Nat.lt_irrefl _)
  | two k₁ k₀ hk₀ hk₁ hlt =>
    have hle : k₁ ≤ f.number := horder k₁ List.mem_cons_self
    rw [accounts_iff h hlow horder k₀ rfl (by simp [hlt.le])]
    refine iff_of_false ?_ (fun hno => by cases hno)
    rintro ⟨hreceived, hlost⟩
    rcases Nat.lt_or_eq_of_le hle with hgt | rfl
    · have hcard : [f.number, k₁, k₀].toFinset.card = 3 := by
        rw [List.toFinset_card_of_nodup (by simp; omega)]
        rfl
      rw [hcard] at hlost
      split_ifs at hlost <;> omega
    · have hcard : [f.number, f.number, k₀].toFinset.card = 2 := by
        simpa using Finset.card_pair hlt.ne'
      rw [hcard] at hreceived
      exact absurd (show 3 % 2 ^ 32 = 2 from hreceived) (by decide)

theorem Counted.applied (h : Counted s) (hlow : f.number % 2 ^ 32 < halfRange)
    (hstarted : Started (f.number :: s.2)) :
    Counted ((rcPacket s.1 f.rxData).1, f.number :: s.2) := by
  obtain ⟨-, hreceived, hlost⟩ := rcPacket_applied h.lastSeqno hlow
  refine ⟨(rcPacket_lastSeqno s.1 f.rxData).trans h.lastSeqno, ?_, ?_, hstarted⟩
  · rw [hreceived, h.received, List.length_cons, UInt32.ofNat_add]
    rfl
  · have hone : ¬1 < f.number % 2 ^ 32 := by
      obtain ⟨s, applied⟩ := s
      cases hstarted <;> omega
    rw [hlost, h.lost, if_neg hone]
    rfl

theorem Counted.old (h : Counted s) (hold : ¬f.number % 2 ^ 32 < halfRange) :
    Counted ((rcPacket s.1 f.rxData).1, s.2) := by
  obtain ⟨-, hreceived, hlost⟩ := rcPacket_old h.lastSeqno hold
  exact ⟨(rcPacket_lastSeqno s.1 f.rxData).trans h.lastSeqno, hreceived.trans h.received,
    hlost.trans h.lost, h.started⟩

end

/-- The counters are right in a run exactly if its numbers go on as described. -/
theorem accounts_run {s : RcState × List Nat} (h : Counted s) {frames : List NumberedFrame}
    (hbehind : ∀ k ∈ s.2, ∀ f ∈ frames, k ≤ f.number)
    (horder : frames.Pairwise fun f g => f.number ≤ g.number) :
    Run.Throughout rcCountStep Accounts s frames ↔
      FirstTwo (sentNumbers s.2 ++ appliedNumbers frames) := by
  induction frames generalizing s with
  | nil =>
    rw [appliedNumbers, List.map_nil, List.filter_nil, List.append_nil]
    exact iff_of_true trivial h.started.firstTwo
  | cons f frames ih =>
    obtain ⟨hfirst, hrest⟩ := List.pairwise_cons.mp horder
    have hf : ∀ k ∈ s.2, k ≤ f.number := fun k hk => hbehind k hk f List.mem_cons_self
    have hbehind' : ∀ k ∈ s.2, ∀ g ∈ frames, k ≤ g.number :=
      fun k hk g hg => hbehind k hk g (List.mem_cons_of_mem f hg)
    rw [Run.Throughout, appliedNumbers, List.map_cons]
    by_cases hlow : f.number % 2 ^ 32 < halfRange
    · have hnext : rcCountStep s f = some ((rcPacket s.1 f.rxData).1, f.number :: s.2) := by
        rw [rcCountStep, (rcPacket_applied h.lastSeqno hlow).1]
        rfl
      rw [List.filter_cons_of_pos (by simpa using hlow), ← appliedNumbers, List.append_cons,
        ← sentNumbers_cons, accounts_started h hlow hf, hnext]
      simp only [Option.some.injEq, forall_eq']
      have hnew : ∀ k ∈ f.number :: s.2, ∀ g ∈ frames, k ≤ g.number := by
        simpa using ⟨hfirst, hbehind'⟩
      constructor
      · rintro ⟨hstarted, hrun⟩
        exact (ih (h.applied hlow hstarted) hnew hrest).mp hrun
      · intro htwo
        have hstarted : Started (f.number :: s.2) := by
          rw [h.started.cons_iff hf, ← sentNumbers_cons]
          exact htwo.of_append
        exact ⟨hstarted, (ih (h.applied hlow hstarted) hnew hrest).mpr htwo⟩
    · have hnone := (rcPacket_old (f := f) h.lastSeqno hlow).1
      have hnext : rcCountStep s f = some ((rcPacket s.1 f.rxData).1, s.2) := by
        rw [rcCountStep, hnone]
        rfl
      have hskip : Accounts s f := by
        intro hsome
        rw [hnone] at hsome
        cases hsome
      rw [List.filter_cons_of_neg (by simpa using hlow), ← appliedNumbers, hnext]
      simp only [hskip, true_and, Option.some.injEq, forall_eq']
      exact ih (h.old hlow) hbehind' hrest

/-- **The counters are right behind every frame that is applied exactly if, of the numbers below
`UINT32_MAX / 2` that arrive, there are only 0 and then 1, one of them, or none.** -/
theorem rc_accounting (frames : List NumberedFrame)
    (horder : frames.Pairwise fun f g => f.number ≤ g.number) :
    Run.Throughout rcCountStep Accounts (.init, []) frames ↔ FirstTwo (appliedNumbers frames) :=
  accounts_run ⟨rfl, rfl, rfl, .none⟩ (by simp) horder

/-- Frame 0, frame 1, and one in the upper half. -/
theorem rc_accounting_two : Run.Throughout rcCountStep Accounts (.init, [])
    [⟨0, ⟨0, 1, -50, 22, ofList (le32 0)⟩, rfl⟩, ⟨1, ⟨0, 1, -50, 22, ofList (le32 1)⟩, rfl⟩,
      ⟨0x80000000, ⟨0, 1, -50, 22, ofList (le32 0x80000000)⟩, rfl⟩] :=
  (rc_accounting _ (by simp)).mpr (.inl (by decide))

/-- Frames 0, 1 and 2, of which none is lost: two count as lost. -/
theorem rc_accounting_third :
    let frames : List NumberedFrame := [⟨0, ⟨0, 1, -50, 22, ofList (le32 0)⟩, rfl⟩,
      ⟨1, ⟨0, 1, -50, 22, ofList (le32 1)⟩, rfl⟩, ⟨2, ⟨0, 1, -50, 22, ofList (le32 2)⟩, rfl⟩]
    (frames.foldlM rcCountStep (.init, [])).map
        (fun s => (s.2, s.1.rcStatus.receivedPacketCnt, s.1.rcStatus.lostPacketCnt)) =
      some ([2, 1, 0], 3, 2) ∧
    ¬Run.Throughout rcCountStep Accounts (.init, []) frames := by
  refine ⟨rfl, ?_⟩
  rw [accounts_run ⟨rfl, rfl, rfl, .none⟩ (by simp) (by simp)]
  simp [FirstTwo, sentNumbers, appliedNumbers]

end Rhex
