import Mathlib
import Rhex.Telemetry

/-!
# The order of forwarded telemetry

`process_packet` is to drop what is older than the newest frame forwarded, but `lastseq`, with
which it compares, stays 0: of the frames before the newest one only those in the window are
dropped.

* `ForwardsNewer` — a frame that is forwarded is newer than the one before it.
* `LengthFits`, `OldRemembered` — a frame that passes fits an entry, and an older frame arrives only
  while its number is in the window.
* `telemetry_increasing` — they agree on runs.
-/

namespace Rhex

open Memory Serial

/-- The copy stays in the entry, and a frame that is forwarded is newer than the newest one
forwarded before. -/
def ForwardsNewer (s : TelemetryState × List UInt32) (e : Received) : Prop :=
  ∃ s' verdict, processPacket s.1 e.rxData e.now e.sendtoOk = some (s', verdict) ∧
    ∀ datagram, verdict = .forwarded datagram → ∀ f ∈ s.2.head?, Newer e.seqnumber f

/-- A frame that passes both filters fits an entry. The numbers in the window are the last 100 that
were forwarded; before there are so many, 0 counts as one of them. -/
def LengthFits (s : TelemetryState × List UInt32) (e : Received) : Prop :=
  Passes (s.2 ++ List.replicate bufSz 0) e.seqnumber → e.length ≤ 400

/-- A frame with a lower number than the newest one forwarded is not sent, or its number is in the
window. -/
def OldRemembered (s : TelemetryState × List UInt32) (e : Received) : Prop :=
  e.sendtoOk = true → ∀ f ∈ s.2.head?, e.seqnumber < f →
    e.seqnumber ∈ (s.2 ++ List.replicate bufSz 0).take bufSz

/-- What the window holds was forwarded, and nothing in the upper half was. -/
structure TelemetryLower (s : TelemetryState × List UInt32) : Prop where
  hist : TelemetryHist s
  lower : ∀ f ∈ s.2, f.toNat < 2 ^ 31

section

variable {s s' : TelemetryState} {recent : List UInt32} {e : Received}

theorem filterPacket_forwarded {datagram : List UInt8} {recent' : List UInt32}
    (h : filterPacket recent e = some (recent', .forwarded datagram)) :
    Passes recent e.seqnumber ∧ e.sendtoOk = true := by
  unfold filterPacket at h
  split_ifs at h with hpasses hlen hok
  · exact ⟨hpasses, hok⟩
  · exact absurd (Prod.mk.inj (Option.some.inj h)).2 (by simp)
  · exact absurd (Prod.mk.inj (Option.some.inj h)).2 (by simp)

/-- `process_packet` copies within the entry exactly if a frame that passes fits it. -/
theorem TelemetryInv.returns_iff (h : TelemetryInv s recent) :
    (∃ r, processPacket s e.rxData e.now e.sendtoOk = some r) ↔
      (Passes recent e.seqnumber → e.length ≤ 400) := by
  have hfilter : (∃ r, filterPacket recent e = some r) ↔
      (Passes recent e.seqnumber → e.length ≤ 400) := by
    unfold filterPacket
    split_ifs with hpasses hlen hok <;> simp [hpasses] <;> omega
  rw [← hfilter]
  constructor
  · rintro ⟨⟨s', verdict⟩, hrun⟩
    obtain ⟨recent', hr, -⟩ := filter_of_processPacket h hrun
    exact ⟨_, hr⟩
  · rintro ⟨⟨recent', verdict⟩, hr⟩
    obtain ⟨s', hrun, -⟩ := processPacket_of_filter h hr
    exact ⟨_, hrun⟩

theorem TelemetryInv.forwards (h : TelemetryInv s recent) (hpasses : Passes recent e.seqnumber)
    (hlen : e.length ≤ 400) (hok : e.sendtoOk = true) :
    ∃ s' datagram, processPacket s e.rxData e.now e.sendtoOk = some (s', .forwarded datagram) := by
  have hfilter : filterPacket recent e = some (_, .forwarded _) :=
    (if_pos hpasses).trans ((if_neg (by omega)).trans (if_pos hok))
  obtain ⟨s', hrun, -⟩ := processPacket_of_filter h hfilter
  exact ⟨s', _, hrun⟩

end

namespace TelemetryLower

variable {s s' : TelemetryState × List UInt32} {e : Received}

theorem init : TelemetryLower (.init, []) :=
  ⟨TelemetryInv.init, fun _ hf => absurd hf List.not_mem_nil⟩

theorem step (h : TelemetryLower s) (hstep : packetStep s e = some s') : TelemetryLower s' := by
  obtain ⟨⟨t, verdict⟩, hrun, rfl⟩ := Option.map_eq_some_iff.mp hstep
  obtain ⟨recent', hfilter, hinv⟩ := filter_of_processPacket h.hist hrun
  obtain ⟨datagram, rfl, rfl, hpasses⟩ | ⟨hnot, rfl⟩ := filterPacket_recent hfilter
  · refine ⟨hinv, fun f hf => ?_⟩
    rcases List.mem_cons.mp hf with rfl | hf
    · exact Nat.lt_of_le_of_lt hpasses.2 (by decide)
    · exact h.lower f hf
  · cases verdict with
    | forwarded datagram => exact absurd rfl (hnot datagram)
    | dropped => exact ⟨hinv, h.lower⟩
    | failed => exact ⟨hinv, h.lower⟩

/-- A frame keeps the order exactly if it fits and is remembered when it is old. -/
theorem forwardsNewer_iff (h : TelemetryLower s) :
    ForwardsNewer s e ↔ LengthFits s e ∧ OldRemembered s e := by
  have hhead : ∀ f ∈ s.2.head?, f.toNat < 2 ^ 31 :=
    fun f hf => h.lower f (List.mem_of_head? hf)
  constructor
  · rintro ⟨s', verdict, hrun, hnewer⟩
    have hfits : LengthFits s e := h.hist.returns_iff.mp ⟨_, hrun⟩
    refine ⟨hfits, fun hok f hf hlt => ?_⟩
    rw [UInt32.lt_iff_toNat_lt] at hlt
    have hlower := hhead f hf
    by_contra hnot
    have hpasses : Passes (s.2 ++ List.replicate bufSz 0) e.seqnumber := ⟨hnot, by omega⟩
    obtain ⟨t, datagram, hforward⟩ := h.hist.forwards hpasses (hfits hpasses) hok
    obtain ⟨-, rfl⟩ := Prod.mk.inj (Option.some.inj (hrun.symm.trans hforward))
    have hgt := (newer_of_lower (by omega) hlower).mp (hnewer datagram rfl f hf)
    omega
  · rintro ⟨hfits, hold⟩
    obtain ⟨⟨s', verdict⟩, hrun⟩ := h.hist.returns_iff.mpr hfits
    refine ⟨s', verdict, hrun, ?_⟩
    rintro datagram rfl f hf
    obtain ⟨_, hfilter, -⟩ := filter_of_processPacket h.hist hrun
    obtain ⟨hpasses, hok⟩ := filterPacket_forwarded hfilter
    have hlow : e.seqnumber.toNat < 2 ^ 31 := Nat.lt_of_le_of_lt hpasses.2 (by decide)
    rw [newer_of_lower hlow (hhead f hf)]
    by_contra hle
    refine hpasses.1 ?_
    rcases Nat.lt_or_eq_of_le (Nat.not_lt.mp hle) with hlt | heq
    · exact hold hok f hf (UInt32.lt_iff_toNat_lt.mpr hlt)
    · -- The newest number is in the window itself.
      obtain ⟨rest, hhist⟩ := List.head?_eq_some_iff.mp hf
      rw [hhist, UInt32.toNat_inj.mp heq]
      exact List.mem_cons_self

end TelemetryLower

/-- **The numbers that are forwarded increase throughout a run exactly if every frame that passes
fits an entry, and every older frame arrives while its number is in the window.** -/
theorem telemetry_increasing (es : List Received) :
    Run.Throughout packetStep ForwardsNewer (.init, []) es ↔
      Run.Throughout packetStep (fun s e => LengthFits s e ∧ OldRemembered s e) (.init, []) es :=
  Run.Throughout.congr (fun _ _ _ _ h hstep => h.step hstep) (fun _ _ _ h => h.forwardsNewer_iff)
    TelemetryLower.init

/-- Frame 5, and frame 3 that it has overtaken: both are forwarded. -/
theorem telemetry_old_forwarded :
    let es : List Received := [⟨⟨0, 1, -50, 8, ofList (le32 5 ++ le16 2 ++ [1, 2])⟩, 0, true⟩,
      ⟨⟨0, 1, -50, 8, ofList (le32 3 ++ le16 2 ++ [3, 4])⟩, 1, true⟩]
    verdicts .init es = [.forwarded [1, 2], .forwarded [3, 4]] ∧
      ¬Run.Throughout packetStep ForwardsNewer (.init, []) es := by
  refine ⟨by decide, fun hrun => ?_⟩
  obtain ⟨s', verdict, hforward, hnewer⟩ := (hrun.2 _ rfl).1
  obtain ⟨-, rfl⟩ := Prod.mk.inj (Option.some.inj hforward)
  exact absurd (hnewer _ rfl 5 rfl) (by decide)

end Rhex
