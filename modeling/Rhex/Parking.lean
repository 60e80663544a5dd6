import Mathlib
import Rhex.Lib.Run
import Rhex.Motion

/-!
# Parking and the drives that confirm it

`parking_all` sends `DRV_LEG_STAND` to the six drives. A drive is awaited from then until its
response is processed.

* `MotionEvent.awaited` — the drives awaited after an event.
* `ParkRun.Holds` — what holds while a drive is awaited.
* `parking_waits` — when no leg is moved before all drives have confirmed.
-/

namespace Rhex

/-! ## Events -/

/-- What the bus sees of a cycle. -/
inductive MotionEvent where
  | processed (msg : CanMsg)
  | sent (f : CanFrame)

/-- The response to `DRV_LEG_STAND` of the drive `d`. -/
def CanMsg.Stands (msg : CanMsg) (d : Fin 6) : Prop :=
  msg.response ∧ msg.cmdId = .drvLegStand ∧ d.val = msg.board * 2 + msg.motor

/-- The command `DRV_LEG_STAND` to the drive `d`. -/
def CanFrame.Stands (f : CanFrame) (d : Fin 6) : Prop :=
  f.cmdId = .drvLegStand ∧ f.destId = d.val / 2 + 1 ∧ f.data = .byte (.ofNat (d.val % 2))

instance (msg : CanMsg) (d : Fin 6) : Decidable (msg.Stands d) :=
  inferInstanceAs (Decidable (_ ∧ _))

instance (f : CanFrame) (d : Fin 6) : Decidable (f.Stands d) :=
  inferInstanceAs (Decidable (_ ∧ _))

/-- The drives awaited after an event. -/
def MotionEvent.awaited (drives : Finset (Fin 6)) : MotionEvent → Finset (Fin 6)
  | processed msg => drives.filter fun d => ¬msg.Stands d
  | sent f => drives ∪ Finset.univ.filter fun d => f.Stands d

/-- The drives awaited after some events. -/
def awaitedAfter (drives : Finset (Fin 6)) (events : List MotionEvent) : Finset (Fin 6) :=
  events.foldl MotionEvent.awaited drives

/-- No leg is moved while a drive is awaited. -/
def Waits (drives : Finset (Fin 6)) : List MotionEvent → Prop
  | [] => True
  | e :: es => (∀ f, e = .sent f → f.IsLegMotion → drives = ∅) ∧ Waits (e.awaited drives) es

theorem waits_append {drives : Finset (Fin 6)} (es fs : List MotionEvent) :
    Waits drives (es ++ fs) ↔ Waits drives es ∧ Waits (awaitedAfter drives es) fs := by
  induction es generalizing drives with
  | nil => simp [Waits, awaitedAfter]
  | cons e es ih => simp only [List.cons_append, Waits, ih, and_assoc]; rfl

theorem awaitedAfter_append {drives : Finset (Fin 6)} (es fs : List MotionEvent) :
    awaitedAfter drives (es ++ fs) = awaitedAfter (awaitedAfter drives es) fs :=
  List.foldl_append

theorem awaitedAfter_sent {drives : Finset (Fin 6)} {out : List CanFrame}
    (h : ∀ f ∈ out, f.cmdId ≠ .drvLegStand) : awaitedAfter drives (out.map .sent) = drives := by
  induction out generalizing drives with
  | nil => rfl
  | cons f out ih =>
    have hstands : ∀ d, ¬f.Stands d := fun d hd => h f List.mem_cons_self hd.1
    have hnone : MotionEvent.awaited drives (.sent f) = drives := by
      simp [MotionEvent.awaited, hstands]
    change awaitedAfter (MotionEvent.awaited drives (.sent f)) (out.map .sent) = drives
    rw [hnone]
    exact ih fun g hg => h g (List.mem_cons_of_mem f hg)

theorem waits_sent {drives : Finset (Fin 6)} {out : List CanFrame}
    (h : ∀ f ∈ out, ¬f.IsLegMotion) : Waits drives (out.map .sent) := by
  induction out generalizing drives with
  | nil => trivial
  | cons f out ih =>
    refine ⟨fun g hg hmotion => ?_, ih fun g hg => h g (List.mem_cons_of_mem f hg)⟩
    obtain rfl := MotionEvent.sent.inj hg
    exact absurd hmotion (h f List.mem_cons_self)

/-- Frames that move legs are sent while no drive is awaited. -/
theorem waits_sent_motion {drives : Finset (Fin 6)} {out : List CanFrame}
    (h : ∀ f ∈ out, f.IsLegMotion) : Waits drives (out.map .sent) ↔ out = [] ∨ drives = ∅ := by
  induction out generalizing drives with
  | nil => simp [Waits]
  | cons f out ih =>
    have hf := h f List.mem_cons_self
    have hstand : ∀ g ∈ [f], g.cmdId ≠ .drvLegStand := by
      intro g hg
      obtain rfl := List.mem_singleton.mp hg
      rw [hf]
      decide
    have hkeep : MotionEvent.awaited drives (.sent f) = drives := awaitedAfter_sent hstand
    rw [List.map_cons, Waits, hkeep, ih fun g hg => h g (List.mem_cons_of_mem f hg)]
    constructor
    · exact fun hw => .inr (hw.1 f rfl hf)
    · rintro (hnil | hempty)
      · cases hnil
      · exact ⟨fun _ _ _ => hempty, .inr hempty⟩

/-! ## Runs -/

/-- The motion of the legs, and the drives that are awaited. -/
structure ParkRun where
  motion : Motion
  drives : Finset (Fin 6)

def MotionCycle.received (c : MotionCycle) : List MotionEvent := c.msg.toList.map .processed

/-- A cycle with its events. -/
def parkStep (r : ParkRun) (c : MotionCycle) : Option ParkRun :=
  (doMotion c r.motion).map fun (m, out) =>
    ⟨m, awaitedAfter r.drives (c.received ++ out.map .sent)⟩

/-- The cycle returns, and no leg is moved in it while a drive is awaited. -/
def CycleWaits (r : ParkRun) (c : MotionCycle) : Prop :=
  ∃ m out, doMotion c r.motion = some (m, out) ∧ Waits r.drives (c.received ++ out.map .sent)

/-- A response names drives of the table, and while drives are still awaited after the message of
the cycle, it is no status, and walking is not pressed alone. -/
def CycleQuiet (r : ParkRun) (c : MotionCycle) : Prop :=
  c.InTable ∧ (awaitedAfter r.drives c.received ≠ ∅ → ¬c.IsStatus ∧ ¬c.rc.WalkAlone)

/-- **What holds while a drive is awaited.** -/
def ParkRun.Holds (r : ParkRun) : Prop :=
  r.drives ≠ ∅ →
    r.motion.AllDrvReady ∧ ¬r.motion.motionState.Walks ∧ ¬r.motion.tgtMotionState.Walks

theorem target_walks (rc : RcData) {tgt : MotionState} (htgt : ¬tgt.Walks) :
    (rc.target tgt).Walks ↔ rc.WalkAlone := by
  by_cases hpark : rc.btn 1
  · simp [RcData.target, RcData.WalkAlone, hpark, MotionState.Walks]
  · by_cases hwalk : rc.btn 0
    · simp [RcData.target, RcData.WalkAlone, hpark, hwalk, MotionState.Walks]
    · simpa [RcData.target, RcData.WalkAlone, hpark, hwalk] using htgt

/-! ## One cycle -/

section

variable {c : MotionCycle} {rc : RcData} {m m' : Motion} {out : List CanFrame}
  {drives : Finset (Fin 6)}

theorem Controlled.not_walks_of_parking (h : Controlled rc m m' out) (hall : m'.AllDrvReady)
    (htgt : m'.tgtMotionState = .parking) : ¬m'.motionState.Walks := by
  rw [h.walks fun d => (h.ready d).mp (hall d), htgt]
  simp [MotionState.Walks]

/-- What is awaited after the control of a cycle: as before, or it has begun to park. -/
theorem Controlled.awaited (h : Controlled rc m m' out) (drives : Finset (Fin 6)) :
    awaitedAfter drives (out.map .sent) = drives ∨
      m'.AllDrvReady ∧ m'.tgtMotionState = .parking := by
  obtain ⟨moved, walked, rfl, hmoved, hwalked⟩ := h.sent
  have hstand : ∀ f ∈ walked, f.cmdId ≠ .drvLegStand := by
    intro f hf
    split_ifs at hwalked
    · rw [hwalked.2 f hf]
      decide
    · exact absurd (hwalked ▸ hf) List.not_mem_nil
  rw [List.map_append, awaitedAfter_append]
  rcases hmoved with rfl | rfl | ⟨hall, htgt, -⟩
  · exact .inl (awaitedAfter_sent hstand)
  · refine .inl ((congrArg (awaitedAfter · _) (awaitedAfter_sent fun f hf => ?_)).trans
      (awaitedAfter_sent hstand))
    rw [cmdId_of_mem_sendAll f hf]
    decide
  · exact .inr ⟨hall, htgt⟩

/-- The control of a cycle waits if it does not end in walking. -/
theorem Controlled.waits (h : Controlled rc m m' out) : Waits drives (out.map .sent) ↔
    ¬(m'.motionState.Walks ∧ m'.AllDrvReady) ∨ drives = ∅ := by
  by_cases hwalk : m'.motionState.Walks ∧ m'.AllDrvReady
  · obtain ⟨moved, walked, rfl, hmoved, hwalked⟩ := h.sent
    rw [if_pos hwalk] at hwalked
    obtain ⟨hne, hmotion⟩ := hwalked
    have hkeep : awaitedAfter drives (moved.map .sent) = drives ∧
        ∀ f ∈ moved, ¬f.IsLegMotion := by
      rcases hmoved with rfl | rfl | ⟨hall, htgt, -⟩
      · exact ⟨rfl, fun f hf => absurd hf List.not_mem_nil⟩
      · refine ⟨awaitedAfter_sent fun f hf => ?_, fun f hf hno => ?_⟩
        · rw [cmdId_of_mem_sendAll f hf]
          decide
        · exact absurd (hno.symm.trans (cmdId_of_mem_sendAll f hf)) (by decide)
      · exact absurd hwalk.1 (h.not_walks_of_parking hall htgt)
    rw [List.map_append, waits_append, hkeep.1, waits_sent_motion hmotion]
    simp [hwalk, hne, waits_sent hkeep.2]
  · simp [hwalk, waits_sent (h.no_motion hwalk)]

theorem waits_received : Waits drives c.received := by
  obtain ⟨msg, rc⟩ := c
  cases msg with
  | none => trivial
  | some msg => exact ⟨fun f hf => (nomatch hf), trivial⟩

theorem awaitedAfter_received_subset : awaitedAfter drives c.received ⊆ drives := by
  obtain ⟨msg, rc⟩ := c
  cases msg with
  | none => exact Finset.Subset.refl _
  | some msg => exact Finset.filter_subset _ _

theorem Parsed.sent {status : Prop} {reports : Fin 6 → Prop} (h : Parsed status reports m m' out) :
    (∀ f ∈ out, f.IsLegMotion) ∧ (out = [] ↔ ¬(status ∧ m'.AllDrvReady)) := by
  by_cases hstep : status ∧ m'.AllDrvReady
  · obtain ⟨-, -, m₀, rfl⟩ := h.stepped hstep.1 hstep.2
    exact ⟨isLegMotion_makeStep, by simp [hstep, makeStep_ne_nil]⟩
  · obtain ⟨-, -, rfl⟩ := h.other hstep
    exact ⟨fun f hf => absurd hf List.not_mem_nil, by simp [hstep]⟩

theorem Parsed.awaited {status : Prop} {reports : Fin 6 → Prop} (h : Parsed status reports m m' out)
    (drives : Finset (Fin 6)) : awaitedAfter drives (out.map .sent) = drives :=
  awaitedAfter_sent fun f hf => by
    rw [h.sent.1 f hf]
    decide

theorem doMotion_not_inTable (h : ¬c.InTable) (m : Motion) : doMotion c m = none := by
  obtain ⟨msg, rc⟩ := c
  cases msg with
  | none => exact absurd (fun _ hmsg => (nomatch hmsg)) h
  | some msg =>
    have hmsg : ¬msg.InTable := fun hmsg => h fun x hx => Option.some.inj hx ▸ hmsg
    rw [doMotion, Motion.receive, parseMsg_not_inTable hmsg]
    rfl

end

namespace ParkRun

variable {r r' : ParkRun} {c : MotionCycle} {m₁ : Motion} {out : List CanFrame}

/-- After the message of a cycle, while a drive is still awaited. -/
theorem Holds.parsed (h : r.Holds) (hp : Parsed c.IsStatus c.Reports r.motion m₁ out)
    (hdrives : awaitedAfter r.drives c.received ≠ ∅) :
    m₁.AllDrvReady ∧ ¬m₁.motionState.Walks ∧ ¬m₁.tgtMotionState.Walks := by
  obtain ⟨hall, hstate, htgt⟩ := h fun hempty =>
    hdrives (Finset.subset_empty.mp (hempty ▸ awaitedAfter_received_subset))
  refine ⟨fun d => (hp.ready d).mpr (.inl (hall d)), ?_⟩
  by_cases hstep : c.IsStatus ∧ m₁.AllDrvReady
  · obtain ⟨hoff, hoff', -⟩ := hp.stepped hstep.1 hstep.2
    simp [hoff, hoff', MotionState.Walks]
  · obtain ⟨hkeep, hkeep', -⟩ := hp.other hstep
    refine ⟨hkeep ▸ hstate, ?_⟩
    rcases hkeep' with hkeep' | hpark
    · exact hkeep' ▸ htgt
    · simp [hpark, MotionState.Walks]

theorem cycleWaits_eq {m : Motion} (h : doMotion c r.motion = some (m, out)) :
    CycleWaits r c ↔ Waits r.drives (c.received ++ out.map .sent) := by
  refine ⟨fun ⟨m', out', h', hw⟩ => ?_, fun hw => ⟨m, out, h, hw⟩⟩
  obtain ⟨-, rfl⟩ := Prod.mk.inj (Option.some.inj (h.symm.trans h'))
  exact hw

theorem Holds.cycleWaits_iff (h : r.Holds) (c : MotionCycle) :
    CycleWaits r c ↔ CycleQuiet r c := by
  by_cases hc : c.InTable
  swap
  · simp [CycleWaits, CycleQuiet, hc, doMotion_not_inTable hc]
  obtain ⟨m₁, parsed, hreceive, hp⟩ := parsed_receive hc r.motion
  have hcontrol := controlled_control c.rc m₁
  have hkeep := hp.awaited (awaitedAfter r.drives c.received)
  have hwaits : CycleWaits r c ↔ (parsed = [] ∨ awaitedAfter r.drives c.received = ∅) ∧
      (¬((m₁.control c.rc).1.motionState.Walks ∧ (m₁.control c.rc).1.AllDrvReady) ∨
        awaitedAfter r.drives c.received = ∅) := by
    rw [cycleWaits_eq (doMotion_eq hreceive), waits_append, List.map_append, waits_append, hkeep,
      hcontrol.waits, waits_sent_motion hp.sent.1]
    exact and_iff_right waits_received
  rw [hwaits, CycleQuiet]
  by_cases hdrives : awaitedAfter r.drives c.received = ∅
  · simp [hdrives, hc]
  obtain ⟨hall, hstate, htgt⟩ := h.parsed hp hdrives
  have hall' : (m₁.control c.rc).1.AllDrvReady := fun d => (hcontrol.ready d).mpr (hall d)
  have hwalks : (m₁.control c.rc).1.motionState.Walks ↔ c.rc.WalkAlone := by
    rw [hcontrol.walks hall, hcontrol.tgt, ← target_walks c.rc htgt]
    exact or_iff_left fun hoff => hstate hoff.2
  simp only [hdrives, hc, hall, hall', hwalks, hp.sent.2, or_false, and_true, true_and, ne_eq,
    not_false_eq_true, true_imp_iff]

/-- **One cycle.** -/
theorem Holds.step (h : r.Holds) (hquiet : CycleQuiet r c) (hstep : parkStep r c = some r') :
    r'.Holds := by
  obtain ⟨⟨m', out⟩, hcycle, rfl⟩ := Option.map_eq_some_iff.mp hstep
  obtain ⟨hc, hquiet⟩ := hquiet
  obtain ⟨m₁, parsed, hreceive, hp⟩ := parsed_receive hc r.motion
  have hcontrol := controlled_control c.rc m₁
  rw [doMotion_eq hreceive] at hcycle
  obtain ⟨rfl, rfl⟩ := Prod.mk.inj (Option.some.inj hcycle)
  intro hdrives
  have hkeep := hp.awaited (awaitedAfter r.drives c.received)
  simp only [List.map_append, awaitedAfter_append, hkeep] at hdrives
  rcases hcontrol.awaited (awaitedAfter r.drives c.received) with heq | ⟨hall, htgt⟩
  · rw [heq] at hdrives
    obtain ⟨hall, hstate, htgt⟩ := h.parsed hp hdrives
    have htgt' : ¬(m₁.control c.rc).1.tgtMotionState.Walks := by
      rw [hcontrol.tgt, target_walks c.rc htgt]
      exact (hquiet hdrives).2
    exact ⟨fun d => (hcontrol.ready d).mpr (hall d),
      hcontrol.not_walks (fun _ => hall) htgt' fun _ => hstate, htgt'⟩
  · refine ⟨hall, hcontrol.not_walks_of_parking hall htgt, ?_⟩
    simp [htgt, MotionState.Walks]

end ParkRun

/-- **Parking.** In a run from the start, each cycle returns and no leg is moved while a drive is
awaited, exactly if all responses name drives of the table, and in no cycle in which drives are
still awaited a status is received or walking is pressed alone. -/
theorem parking_waits (cycles : List MotionCycle) :
    Run.Throughout parkStep CycleWaits ⟨motionInit, ∅⟩ cycles ↔
      Run.Throughout parkStep CycleQuiet ⟨motionInit, ∅⟩ cycles :=
  Run.Throughout.congr_while (I := ParkRun.Holds)
    (fun _ _ _ _ h hquiet hstep => h.step hquiet hstep) (fun _ c _ h => h.cycleWaits_iff c)
    fun h => absurd rfl h

/-- Walking is pressed in the cycle after parking has begun: legs are moved while all drives are
awaited. -/
theorem parking_interrupted :
    let cycles := [statusCycle 1 (rcButtons ∅), statusCycle 2 (rcButtons ∅),
      statusCycle 3 (rcButtons ∅), ⟨none, rcButtons {1}⟩]
    (∃ r m out, cycles.foldlM parkStep ⟨motionInit, ∅⟩ = some r ∧ r.drives = Finset.univ ∧
      doMotion ⟨none, rcButtons {0}⟩ r.motion = some (m, out) ∧ ∃ f ∈ out, f.IsLegMotion) ∧
    ¬Run.Throughout parkStep CycleWaits ⟨motionInit, ∅⟩ (cycles ++ [⟨none, rcButtons {0}⟩]) := by
  intro cycles
  refine ⟨⟨_, _, _, rfl, by decide, rfl, _, List.mem_cons_self, rfl⟩, fun h => ?_⟩
  obtain ⟨m, out, hcycle, hwaits⟩ := ((((h.2 _ rfl).2 _ rfl).2 _ rfl).2 _ rfl).1
  obtain ⟨-, rfl⟩ := Prod.mk.inj (Option.some.inj hcycle)
  exact absurd (hwaits.1 _ rfl rfl) (by decide)

end Rhex
