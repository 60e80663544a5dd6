import Mathlib
import Rhex.Parking
import Rhex.Ports
import Rhex.Rc

/-!
# The robot walks on command (`rc_main`, `motion_main`, `shm_rc`)

`rc_main` writes a record into `shm_rc` for each command that it takes from the air, and
`motion_main` reads the buttons of the remote control there.

* `robotStep` — a cycle of either service.
* `walks_on_command` — the robot walks only after a frame in which the walk button is pressed.
* `robot_stands` — as long as no one else sends, there is no such frame.
-/

namespace Rhex

open Memory

/-! ## The two services -/

/-- `rc_main` until it ends, the records that it has written into `shm_rc`, and `motion_main`. -/
structure Robot where
  rc : Option RcMain
  written : List RcData
  motion : Motion

/-- A segment that nothing was written into. -/
def RcData.zero : RcData := ⟨0, 0, fun _ => false⟩

/-- The services before their first cycles. -/
def Robot.init : Robot := ⟨some .init, [], motionInit⟩

/-- A cycle of one of the services. -/
inductive RobotEvent (count : Nat) where
  | rc (cycle : Cycle count)
  | motion (c : MotionCycle)

/-- What a cycle of `motion_main` finds in `shm_rc`. It reads in place and several times, while
`rc_main` may write: each button is that of some record, or of the zeros before the first one.
Speed and steering may be anything. -/
def ReadsButtons (written : List RcData) (rc : RcData) : Prop :=
  ∀ g, ∃ v ∈ RcData.zero :: written, rc.btn g = v.btn g

instance (written : List RcData) (rc : RcData) : Decidable (ReadsButtons written rc) :=
  inferInstanceAs (Decidable (∀ _, _))

/-- One cycle, with the messages that it sends. `motion_main` goes on when `rc_main` has ended. -/
def robotStep {count : Nat} (s : Robot) : RobotEvent count → Option (Robot × List CanFrame)
  | .rc cycle => do
    let rc ← s.rc
    match rcCycle rc cycle with
    | some (rc, pub) => some ({ s with rc := some rc, written := s.written ++ pub.toList }, [])
    | none => some ({ s with rc := none }, [])
  | .motion c =>
    -- A cycle stands in the run where it ends.
    if ReadsButtons s.written c.rc then do
      let (motion, frames) ← doMotion c s.motion
      some ({ s with motion := motion }, frames)
    else none

/-- The cycles of both services, in any order. -/
def robotRun {count : Nat} (events : List (RobotEvent count)) : Option Robot :=
  events.foldlM (fun s e => (robotStep s e).map Prod.fst) .init

/-! ## Commands -/

/-- The button that sets the target state to walking is pressed. -/
def RcData.WalkPressed (rc : RcData) : Prop := ∃ g : Fin 32, g.val = 0 ∧ rc.btn g = true

/-- In some cycle `rc_main` applied a frame in which the walk button is pressed. -/
def WalkCommanded {count : Nat} (past : List (RobotEvent count)) : Prop :=
  ∃ before cycle after s rc c, past = before ++ .rc cycle :: after ∧
    robotRun before = some s ∧ s.rc = some rc ∧ cycle.next = .frame c ∧
    Accepted (rc.rx.iface cycle.adapter) c ∧
    (rcSeqno (rxBody (rc.rx.iface cycle.adapter) c)).toNat < halfRange ∧
    (rcDecode (rxBody (rc.rx.iface cycle.adapter) c)).WalkPressed

section

variable {count : Nat} {past : List (RobotEvent count)} {s s' : Robot} {c : MotionCycle}
  {cycle : Cycle count} {out : List CanFrame}

theorem WalkCommanded.append (h : WalkCommanded past) (later : List (RobotEvent count)) :
    WalkCommanded (past ++ later) := by
  obtain ⟨before, cycle, after, s, rc, c, rfl, h⟩ := h
  exact ⟨before, cycle, after ++ later, s, rc, c, by simp, h⟩

theorem robotRun_concat (past : List (RobotEvent count)) (e : RobotEvent count) :
    robotRun (past ++ [e]) =
      (robotRun past).bind fun s => (robotStep s e).map Prod.fst := by
  rw [robotRun, robotRun, List.foldlM_append]
  simp only [List.foldlM_cons, List.foldlM_nil, Option.bind_eq_bind, Option.pure_def,
    Option.bind_fun_some]

theorem RcData.target_of_not_walk {rc : RcData} (h : ¬rc.WalkPressed) (tgt : MotionState) :
    rc.target tgt = .parking ∨ rc.target tgt = tgt := by
  have hwalk : ¬rc.btn 0 := fun hbtn => h ⟨0, rfl, hbtn⟩
  by_cases hpark : rc.btn 1
  · exact .inl (by simp only [RcData.target, if_pos hpark])
  · exact .inr (by simp [RcData.target, hpark, hwalk])

theorem Parsed.not_walks {status : Prop} {reports : Fin 6 → Prop} {m m' : Motion}
    (h : Parsed status reports m m' out) (hstate : ¬m.motionState.Walks)
    (htgt : ¬m.tgtMotionState.Walks) : ¬m'.motionState.Walks ∧ ¬m'.tgtMotionState.Walks := by
  by_cases hstep : status ∧ m'.AllDrvReady
  · obtain ⟨hoff, hoff', -⟩ := h.stepped hstep.1 hstep.2
    simp [hoff, hoff', MotionState.Walks]
  · obtain ⟨hkeep, hkeep', -⟩ := h.other hstep
    refine ⟨hkeep ▸ hstate, ?_⟩
    rcases hkeep' with hkeep' | hpark
    · exact hkeep' ▸ htgt
    · simp [hpark, MotionState.Walks]

/-- If the walk button is read as pressed, it is pressed in a record that was written. -/
theorem ReadsButtons.walkPressed {written : List RcData} {rc : RcData}
    (h : ReadsButtons written rc) (hrc : rc.WalkPressed) : ∃ v ∈ written, v.WalkPressed := by
  obtain ⟨g, hg, hbtn⟩ := hrc
  obtain ⟨v, hv, heq⟩ := h g
  rcases List.mem_cons.mp hv with rfl | hv
  · exact absurd (heq.symm.trans hbtn) Bool.false_ne_true
  · exact ⟨v, hv, g, hg, heq.symm.trans hbtn⟩

/-- **What holds between two cycles**: a walk button in `shm_rc` and a state of walking come from a
command. -/
structure Robot.Holds (past : List (RobotEvent count)) (s : Robot) : Prop where
  seqno : ∀ rc, s.rc = some rc → rc.rc.lastSeqno = 0
  written : ∀ v ∈ s.written, v.WalkPressed → WalkCommanded past
  walks : s.motion.motionState.Walks ∨ s.motion.tgtMotionState.Walks → WalkCommanded past

theorem Robot.holds_init : Robot.init.Holds ([] : List (RobotEvent count)) where
  seqno rc hrc := by
    obtain rfl := Option.some.inj hrc
    rfl
  written v hv := absurd hv List.not_mem_nil
  walks h := absurd h (by decide)

/-- **A cycle of `rc_main`.** -/
theorem Robot.Holds.rc (h : s.Holds past) (hrun : robotRun past = some s)
    (hstep : robotStep s (.rc cycle) = some (s', out)) : s'.Holds (past ++ [.rc cycle]) := by
  obtain ⟨rc, hrc, hstep⟩ := Option.bind_eq_some_iff.mp hstep
  have hcycled := rcCycle_spec (h.seqno rc hrc) cycle
  have hwritten : ∀ v ∈ s.written, v.WalkPressed → WalkCommanded (past ++ [.rc cycle]) :=
    fun v hv hbtn => (h.written v hv hbtn).append _
  have hwalks : s.motion.motionState.Walks ∨ s.motion.tgtMotionState.Walks →
      WalkCommanded (past ++ [.rc cycle]) := fun hw => (h.walks hw).append _
  generalize rcCycle rc cycle = r at hcycled hstep
  cases hcycled with
  | quiet rc' hseq hdata hcause =>
    obtain ⟨rfl, rfl⟩ := Prod.mk.inj (Option.some.inj hstep)
    refine ⟨fun x hx => Option.some.inj hx ▸ hseq, fun v hv => ?_, hwalks⟩
    exact hwritten v (by simpa using hv)
  | empty rc' hseq hresult hnext =>
    obtain ⟨rfl, rfl⟩ := Prod.mk.inj (Option.some.inj hstep)
    refine ⟨fun x hx => Option.some.inj hx ▸ hseq, fun v hv hbtn => ?_, hwalks⟩
    rcases List.mem_append.mp hv with hv | hv
    · exact hwritten v hv hbtn
    · -- The zeros press no button.
      obtain rfl := List.mem_singleton.mp hv
      obtain ⟨g, -, hg⟩ := hbtn
      rw [rcDecode_zero] at hg
      exact absurd hg Bool.false_ne_true
  | apply rc' hseq hresult c hnext haccepted hfresh =>
    obtain ⟨rfl, rfl⟩ := Prod.mk.inj (Option.some.inj hstep)
    refine ⟨fun x hx => Option.some.inj hx ▸ hseq, fun v hv hbtn => ?_, hwalks⟩
    rcases List.mem_append.mp hv with hv | hv
    · exact hwritten v hv hbtn
    · obtain rfl := List.mem_singleton.mp hv
      exact ⟨past, cycle, [], s, rc, c, rfl, hrun, hrc, hnext, haccepted, hfresh, hbtn⟩
  | exit hresult hcause =>
    obtain ⟨rfl, rfl⟩ := Prod.mk.inj (Option.some.inj hstep)
    exact ⟨fun x hx => absurd hx.symm (Option.some_ne_none x), hwritten, hwalks⟩

/-- What a cycle of `motion_main` did: the message may make the one step of `parse_msg`; the rest
moves a leg only in a state of walking, and such a state comes from a command. -/
structure WalksByCommand (past : List (RobotEvent count)) (c : MotionCycle) (m m' : Motion)
    (parsed frames : List CanFrame) : Prop where
  received : ∃ m₁, m.receive c.msg = some (m₁, parsed)
  stepped : parsed = [] ∨ c.IsStatus ∧ ∃ m₀, parsed = (makeStep (1 / 10) 0 m₀).2
  moved : (∃ f ∈ frames, f.IsLegMotion) → m'.motionState.Walks
  walks : m'.motionState.Walks ∨ m'.tgtMotionState.Walks → WalkCommanded past

/-- Without a command the target is never one of walking, and no state of walking is reached. -/
theorem Robot.Holds.control_walks (h : s.Holds past) (hreads : ReadsButtons s.written c.rc)
    {m₁ : Motion} (hp : Parsed c.IsStatus c.Reports s.motion m₁ out)
    (hwalks : (m₁.control c.rc).1.motionState.Walks ∨
      (m₁.control c.rc).1.tgtMotionState.Walks) : WalkCommanded past := by
  have hc := controlled_control c.rc m₁
  by_contra hno
  obtain ⟨hstate, htgt⟩ := not_or.mp fun hw => hno (h.walks hw)
  have hbtn : ¬c.rc.WalkPressed := by
    intro hpressed
    obtain ⟨v, hv, hvbtn⟩ := hreads.walkPressed hpressed
    exact hno (h.written v hv hvbtn)
  have hparsed : ¬m₁.motionState.Walks ∧ ¬m₁.tgtMotionState.Walks := hp.not_walks hstate htgt
  have htarget : ¬(m₁.control c.rc).1.tgtMotionState.Walks := by
    rw [hc.tgt]
    rcases RcData.target_of_not_walk hbtn m₁.tgtMotionState with htgt | htgt
    · simp [htgt, MotionState.Walks]
    · exact htgt.symm ▸ hparsed.2
  have hready : m₁.motionState.Walks → m₁.AllDrvReady := fun hw => absurd hw hparsed.1
  exact hwalks.elim (hc.not_walks hready htarget fun _ => hparsed.1) htarget

/-- **A cycle of `motion_main`.** -/
theorem Robot.Holds.motion (h : s.Holds past)
    (hstep : robotStep s (.motion c : RobotEvent count) = some (s', out)) :
    s'.Holds (past ++ [.motion c]) ∧ ∃ parsed frames, out = parsed ++ frames ∧
      WalksByCommand past c s.motion s'.motion parsed frames := by
  rw [robotStep] at hstep
  split_ifs at hstep with hreads
  obtain ⟨⟨m', out'⟩, hmotion, hs'⟩ := Option.bind_eq_some_iff.mp hstep
  obtain ⟨rfl, rfl⟩ := Prod.mk.inj (Option.some.inj hs')
  have htable : c.InTable := by
    by_contra hno
    exact absurd (hmotion.symm.trans (doMotion_not_inTable hno s.motion)) (Option.some_ne_none _)
  obtain ⟨m₁, parsed, hreceive, hp⟩ := parsed_receive htable s.motion
  have heq := hmotion.symm.trans (doMotion_eq hreceive)
  obtain ⟨rfl, rfl⟩ := Prod.mk.inj (Option.some.inj heq)
  have hc := controlled_control c.rc m₁
  have hwalks := h.control_walks hreads hp
  refine ⟨⟨h.seqno, fun v hv hbtn => (h.written v hv hbtn).append _,
    fun hw => (hwalks hw).append _⟩, parsed, _, rfl, ⟨m₁, hreceive⟩, ?_, ?_, hwalks⟩
  · by_cases hstatus : c.IsStatus ∧ m₁.AllDrvReady
    · exact .inr ⟨hstatus.1, (hp.stepped hstatus.1 hstatus.2).2.2⟩
    · exact .inl (hp.other hstatus).2.2
  · rintro ⟨f, hf, hmotion⟩
    by_contra hno
    exact hc.no_motion (fun hw => hno hw.1) f hf hmotion

/-- **Runs of both services.** -/
theorem robotRun_holds (hrun : robotRun past = some s) : s.Holds past := by
  induction past using List.reverseRecOn generalizing s with
  | nil =>
    obtain rfl := Option.some.inj hrun
    exact Robot.holds_init
  | append_singleton past e ih =>
    rw [robotRun_concat] at hrun
    obtain ⟨s₀, hrun₀, hstep⟩ := Option.bind_eq_some_iff.mp hrun
    obtain ⟨⟨s₁, out⟩, hcycle, rfl⟩ := Option.map_eq_some_iff.mp hstep
    cases e with
    | rc cycle => exact (ih hrun₀).rc hrun₀ hcycle
    | motion c => exact ((ih hrun₀).motion hcycle).1

/-- **The robot walks on command.** In every interleaving of the two services, whatever is received
from the air and from the boards: a cycle of `motion_main` ends in a state of walking, or sends a
leg motion besides the one step of `parse_msg`, only if `rc_main` has applied a frame in which the
walk button is pressed. -/
theorem walks_on_command (hrun : robotRun past = some s)
    (hstep : robotStep s (.motion c : RobotEvent count) = some (s', out)) :
    ∃ parsed frames, out = parsed ++ frames ∧
      WalksByCommand past c s.motion s'.motion parsed frames :=
  ((robotRun_holds hrun).motion hstep).2

end

/-- A frame with the walk button, on the port of `rc_main`. -/
def walkFrame : Capture :=
  ⟨31, 31, ofList [0, 0, 8, 0, 0, 0, 0, 0, 8, 1, 0, 0, 61,
    1, 0, 0, 0, 0, 0, 0xDC, 5, 0xD0, 7, 0, 0, 0, 0, 1, 0, 0, 0]⟩

/-- The frame is received, the boards report, and in the third cycle the button is read. -/
theorem walks_on_command_pressed : ∃ (cycle : Cycle 1) (s s' : Robot) (out : List CanFrame),
    cycle.next = .frame walkFrame ∧ captureFilter RadioReceiver.rc.port walkFrame = true ∧
    robotRun [.rc cycle, .motion (statusCycle 1 (rcButtons ∅)),
      .motion (statusCycle 2 (rcButtons ∅))] = some s ∧
    robotStep s (.motion (statusCycle 3 (rcButtons {0})) : RobotEvent 1) = some (s', out) ∧
    s'.motion.motionState.Walks ∧ WalkCommanded [.rc cycle, .motion (statusCycle 1 (rcButtons ∅)),
      .motion (statusCycle 2 (rcButtons ∅))] := by
  let cycle : Cycle 1 := ⟨1, fun _ => true, .frame walkFrame, 0, fun _ => ⟨0, by decide, rfl⟩⟩
  let past : List (RobotEvent 1) := [.rc cycle, .motion (statusCycle 1 (rcButtons ∅)),
    .motion (statusCycle 2 (rcButtons ∅))]
  let s : Robot := (robotRun past).get (by decide +kernel)
  let r : Robot × List CanFrame :=
    (robotStep s (.motion (statusCycle 3 (rcButtons {0})) : RobotEvent 1)).get
      (by decide +kernel)
  have hrun : robotRun past = some s := (Option.some_get _).symm
  have hstep : robotStep s (.motion (statusCycle 3 (rcButtons {0})) : RobotEvent 1) =
    some (r.1, r.2) := (Option.some_get _).symm
  have hwalks : r.1.motion.motionState.Walks := by decide +kernel
  obtain ⟨parsed, frames, -, hcommand⟩ := walks_on_command hrun hstep
  exact ⟨cycle, s, r.1, r.2, rfl, by decide, hrun, hstep, hwalks,
    hcommand.walks (.inl hwalks)⟩

/-! ## The own senders -/

/-- Each frame that pcap hands to `rc_main` passed its filter, and one of the services sent it. -/
def OwnFrames {count : Nat} (past : List (RobotEvent count)) : Prop :=
  ∀ cycle, .rc cycle ∈ past → ∀ c, cycle.next = .frame c →
    captureFilter RadioReceiver.rc.port c = true ∧
      ∃ sender air rt fcs, Airs sender air ∧ ValidRadiotap rt ∧ Heard c rt (air ++ fcs)

theorem OwnFrames.not_commanded {count : Nat} {past : List (RobotEvent count)}
    (h : OwnFrames past) : ¬WalkCommanded past := by
  rintro ⟨before, cycle, after, s, rc, c, rfl, -, -, hnext, -⟩
  obtain ⟨hpassed, sender, air, rt, fcs, hair, hrt, hheard⟩ := h cycle (by simp) c hnext
  have hport := (captureFilter_airs hair hrt hheard _).mp hpassed
  cases sender <;> exact absurd hport (by decide)

/-- **The robot stands.** As long as only the services of the robot and of the ground station send,
whatever they send, no cycle of `motion_main` ends in a state of walking, and legs are moved only in
the one step of `parse_msg`. -/
theorem robot_stands {count : Nat} {past : List (RobotEvent count)} (hown : OwnFrames past)
    {s s' : Robot} {c : MotionCycle} {out : List CanFrame} (hrun : robotRun past = some s)
    (hstep : robotStep s (.motion c : RobotEvent count) = some (s', out)) :
    ¬s'.motion.motionState.Walks ∧ ∃ m₁ parsed frames, out = parsed ++ frames ∧
      s.motion.receive c.msg = some (m₁, parsed) ∧
      (parsed = [] ∨ c.IsStatus ∧ ∃ m₀, parsed = (makeStep (1 / 10) 0 m₀).2) ∧
      ∀ f ∈ frames, ¬f.IsLegMotion := by
  obtain ⟨-, parsed, frames, hout, hwalks⟩ := (robotRun_holds hrun).motion hstep
  obtain ⟨m₁, hreceive⟩ := hwalks.received
  have hstands : ¬s'.motion.motionState.Walks := fun hw =>
    hown.not_commanded (hwalks.walks (.inl hw))
  exact ⟨hstands, m₁, parsed, frames, hout, hreceive, hwalks.stepped,
    fun f hf hmotion => hstands (hwalks.moved ⟨f, hf, hmotion⟩)⟩

/-- `rc_main` writes the zeros of an empty packet, the boards report, and `motion_main` makes the
step of `parse_msg`. -/
theorem robot_stands_empty : ∃ (cycle : Cycle 1) (s s' : Robot) (out : List CanFrame),
    cycle.next = .empty ∧
    robotRun [.rc cycle, .motion (statusCycle 1 (rcButtons ∅)),
      .motion (statusCycle 2 (rcButtons ∅))] = some s ∧
    robotStep s (.motion (statusCycle 3 (rcButtons ∅)) : RobotEvent 1) = some (s', out) ∧
    out ≠ [] ∧ ¬s'.motion.motionState.Walks := by
  let cycle : Cycle 1 := ⟨1, fun _ => true, .empty, 0, fun _ => ⟨0, by decide, rfl⟩⟩
  let past : List (RobotEvent 1) := [.rc cycle, .motion (statusCycle 1 (rcButtons ∅)),
    .motion (statusCycle 2 (rcButtons ∅))]
  let s : Robot := (robotRun past).get (by decide +kernel)
  let r : Robot × List CanFrame :=
    (robotStep s (.motion (statusCycle 3 (rcButtons ∅)) : RobotEvent 1)).get (by decide +kernel)
  have hown : OwnFrames past := by
    intro cycle' hcycle c hnext
    obtain rfl : cycle' = cycle := by simpa [past] using hcycle
    exact absurd hnext (by simp [cycle])
  have hrun : robotRun past = some s := (Option.some_get _).symm
  have hstep : robotStep s (.motion (statusCycle 3 (rcButtons ∅)) : RobotEvent 1) = some r :=
    (Option.some_get _).symm
  have hout : r.2.isEmpty = false := by decide +kernel
  exact ⟨cycle, s, r.1, r.2, rfl, hrun, hstep, by simpa using hout,
    (robot_stands hown hrun hstep).1⟩

end Rhex
