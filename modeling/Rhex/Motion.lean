import Mathlib
import Rhex.Rc

/-!
# Motion of the legs (`rhex_air/control/motion.c`)

Each cycle takes at most one message from the CAN bus and a snapshot of the remote control, and
sends frames to the six drives.

* `makeStep`, `parkingAll`, `calibrateAll`, `parseMsg`, `doMotion` — the functions of the file.
* `Motion.Holds` — what readiness and the two motion states say about the cycles so far.
* `leg_motion_safe` — when a `DRV_LEG_MOTION` frame is sent.

A `float` is a rational number, and its arithmetic is exact.
-/

namespace Rhex

/-! ## Data -/

/-- `motion_state_t`. -/
inductive MotionState where
  | off | calibrating | parking | beginWalking | walking | stopWalking
deriving DecidableEq

/-- `leg_side_d`. -/
inductive LegSide where
  | left | right
deriving DecidableEq

/-- `drv_state_t`. -/
inductive DrvState where
  | off | ready | calibrating
deriving DecidableEq

/-- `drv_status_t`. -/
structure DrvStatus where
  state : DrvState
  side : LegSide
  pos : ℚ
  phase : ℚ
  phaseOffset : ℚ

/-- The static variables of the file, and that of `make_step`. -/
structure Motion where
  motionState : MotionState
  tgtMotionState : MotionState
  drvStatus : Fin 6 → DrvStatus
  globalPhase : ℚ

/-- The commands on the bus. -/
inductive CmdId where
  | getStatus | drvCalibrationStart | drvLegStand | drvLegMotion
  | other (id : Nat)
deriving DecidableEq

/-- A received `can_packet_t`; `response` is that its type is `MSG_TYPE_RESPONSE`. -/
structure CanMsg where
  response : Bool
  srcId : Nat
  cmdId : CmdId
  data : Fin 8 → UInt8

/-- `motion_cmd_t`, of type `MOTION_TYPE_POS`. -/
structure MotionCmd where
  drive : UInt8
  position : UInt32
  speed : Int16
deriving DecidableEq

/-- The data of a frame that is sent. -/
inductive CanData where
  | empty
  | byte (b : UInt8)
  | motion (cmd : MotionCmd)
deriving DecidableEq

/-- A frame that is sent, with `src_id` 0x10. -/
structure CanFrame where
  destId : Nat
  cmdId : CmdId
  data : CanData
deriving DecidableEq

/-! ## Steps -/

/-- `fdiff`. -/
def fdiff (v1 v2 : ℚ) : ℚ :=
  let d := |v2 - v1|
  if d > 384 then 768 - d else d

/-- `flimit`. -/
def flimit (val max min : ℚ) : ℚ :=
  let result := if val > max then max else val
  if result < min then min else result

/-- `phase_start` of `make_step`. -/
def phaseStart (speed : ℚ) : ℚ := 310 + (360 - 310) * speed

/-- `phase_end` of `make_step`. -/
def phaseEnd (speed : ℚ) : ℚ := 140 + (100 - 140) * speed

/-- `slowdown` of `make_step`. A quotient by a speed of zero is infinite, so that it is not below
two. -/
def slowdown (speed steering : ℚ) : ℚ :=
  if |steering| > 0 ∧ speed ≠ 0 ∧ |steering / speed| < 2 then 1 + |steering / speed / 2| else 1

/-- `sd_start_l` and `sd_start_r`. -/
def sdStart (steering : ℚ) : LegSide → ℚ
  | .left => if steering > 0 then 0 else -steering * (1 / 2) / 2
  | .right => if steering > 0 then steering * (1 / 2) / 2 else 0

/-- `sd_end_l` and `sd_end_r`. -/
def sdEnd (steering : ℚ) (side : LegSide) : ℚ := 1 / 2 - sdStart steering side

/-- The update of `global_phase`; `TICKS` is 100. -/
def turnPhase (speed steering globalPhase : ℚ) : ℚ :=
  let phase := globalPhase + speed / slowdown speed steering / 100
  let phase := if phase > 1 then phase - 1 else phase
  if phase < 0 then phase + 1 else phase

/-- The limits of `leg_phase` to `-0.5` and `0.5`. -/
def wrapPhase (phase : ℚ) : ℚ :=
  let phase := if phase > 1 / 2 then phase - 1 else phase
  if phase < -(1 / 2) then phase + 1 else phase

/-- The phase of a leg, with its offset for turning. -/
def legPhase (steering globalPhase : ℚ) (drv : DrvStatus) : ℚ :=
  let lp1 := wrapPhase (-(globalPhase + drv.phaseOffset) + 1 / 2)
  let sd := sdEnd steering drv.side - sdStart steering drv.side
  let phase := if lp1 > 0 then 2 * lp1 * sd else 2 * lp1 * (1 - sd)
  wrapPhase (phase + sdStart steering drv.side)

/-- `phase_pos`; `FULL_CIRCLE` is 768. -/
def phasePos (speed phase : ℚ) : ℚ :=
  let pos := if phase > 0 then 2 * phase * (phaseStart speed - phaseEnd speed)
    else 2 * phase * (768 - (phaseStart speed - phaseEnd speed))
  let pos := pos + phaseEnd speed
  let pos := if pos > 768 then pos - 768 else pos
  if pos < 0 then pos + 768 else pos

/-- `m_speed`; `MAX_SPEED` is 1536. -/
def mSpeed (pos old : ℚ) : ℚ :=
  let speed := |fdiff pos old| * 105
  if speed > 1536 then 1536 else speed

/-- A conversion to `uint16_t`. -/
def toUint16 (q : ℚ) : UInt16 := .ofNat q.floor.toNat

/-- The command to the drive `d`. -/
def legCmd (d : Fin 6) (pos old : ℚ) : MotionCmd where
  drive := .ofNat (d.val &&& 1)
  -- the drives of the last board turn the other way
  position := if d = 5 ∨ d = 4 then 768 - (toUint16 pos).toUInt32 else (toUint16 pos).toUInt32
  speed := .ofInt (mSpeed pos old).floor

/-- `make_step`. -/
def makeStep (speed steering : ℚ) (m : Motion) : Motion × List CanFrame :=
  let speed := flimit speed 1 (-1)
  let steering := flimit steering 1 (-1)
  let globalPhase := turnPhase speed steering m.globalPhase
  let pos := fun d => phasePos speed (legPhase steering globalPhase (m.drvStatus d))
  ({ m with
      globalPhase
      drvStatus := fun d => { m.drvStatus d with pos := pos d } },
    (List.finRange 6).map fun d =>
      ⟨d.val / 2 + 1, .drvLegMotion, .motion (legCmd d (pos d) (m.drvStatus d).pos)⟩)

/-! ## Commands -/

/-- A command to both drives of each board. -/
def sendAll (cmdId : CmdId) : List CanFrame :=
  [1, 2, 3].flatMap fun dest => [⟨dest, cmdId, .byte 0⟩, ⟨dest, cmdId, .byte 1⟩]

/-- `start_msg`. -/
def startMsg : List CanFrame :=
  [1, 2, 3].map fun dest => ⟨dest, .getStatus, .empty⟩

/-- `parking_all`. -/
def parkingAll (m : Motion) : Motion × List CanFrame :=
  ({ m with drvStatus := fun d => { m.drvStatus d with pos := 192, phase := 1 / 4 } },
    sendAll .drvLegStand)

/-- `calibrate_all`. -/
def calibrateAll : List CanFrame := sendAll .drvCalibrationStart

/-! ## Messages -/

def Motion.Ready (m : Motion) (d : Fin 6) : Prop := (m.drvStatus d).state = .ready

/-- `all_drv_ready`. -/
def Motion.AllDrvReady (m : Motion) : Prop := ∀ d, m.Ready d

instance (m : Motion) (d : Fin 6) : Decidable (m.Ready d) :=
  inferInstanceAs (Decidable (_ = _))

instance (m : Motion) : Decidable m.AllDrvReady :=
  inferInstanceAs (Decidable (∀ d, m.Ready d))

/-- The assignment of `DRV_STATE_READY`; there is no drive from the seventh on. -/
def Motion.setReady (m : Motion) (i : Nat) : Option Motion :=
  if h : i < 6 then
    some { m with
      drvStatus := Function.update m.drvStatus ⟨i, h⟩
        { m.drvStatus ⟨i, h⟩ with state := .ready } }
  else none

/-- `b` of `parse_msg`. -/
def CanMsg.board (msg : CanMsg) : Nat := (UInt8.ofNat msg.srcId - 1).toNat

/-- `m` of `parse_msg`. -/
def CanMsg.motor (msg : CanMsg) : Nat := (msg.data 0 &&& 1).toNat

/-- `parse_msg`. -/
def parseMsg (msg : CanMsg) (m : Motion) : Option (Motion × List CanFrame) :=
  if msg.response then
    match msg.cmdId with
    | .getStatus => do
      let m ← m.setReady (msg.board * 2)
      let m ← m.setReady (msg.board * 2 + 1)
      if m.AllDrvReady then
        some (makeStep (1 / 10) 0 { m with motionState := .off, tgtMotionState := .off })
      else some (m, [])
    | .drvCalibrationStart => do
      let m ← m.setReady (msg.board * 2 + msg.motor)
      if m.AllDrvReady then some ({ m with tgtMotionState := .parking }, []) else some (m, [])
    | .drvLegStand => do
      let m ← m.setReady (msg.board * 2 + msg.motor)
      some (m, [])
    | _ => some (m, [])
  else some (m, [])

/-! ## Cycles -/

/-- What a cycle reads. -/
structure MotionCycle where
  msg : Option CanMsg
  rc : RcData

/-- The buttons of the remote control. -/
def RcData.target (rc : RcData) (tgt : MotionState) : MotionState :=
  let tgt := if rc.btn 0 then .walking else tgt
  if rc.btn 1 then .parking else tgt

/-- The walk button is pressed, and the park button is not. -/
def RcData.WalkAlone (rc : RcData) : Prop := rc.btn 0 ∧ ¬rc.btn 1

/-- The transition to the target state. -/
def Motion.transition (m : Motion) : Motion × List CanFrame :=
  if m.tgtMotionState ≠ m.motionState ∧ m.AllDrvReady then
    match m.tgtMotionState with
    | .parking =>
      let (m, frames) := parkingAll m
      ({ m with motionState := .parking }, frames)
    | .calibrating => ({ m with motionState := .calibrating }, calibrateAll)
    | .beginWalking | .walking | .stopWalking => ({ m with motionState := .walking }, [])
    | .off => (m, [])
  else (m, [])

def MotionState.Walks (s : MotionState) : Prop :=
  s = .beginWalking ∨ s = .walking ∨ s = .stopWalking

instance (s : MotionState) : Decidable s.Walks :=
  inferInstanceAs (Decidable (_ ∨ _))

/-- What is done in the state that was reached. -/
def Motion.act (rc : RcData) (m : Motion) : Motion × List CanFrame :=
  if m.motionState.Walks ∧ m.AllDrvReady then makeStep rc.speed rc.steering m else (m, [])

/-- The message of a cycle, if there is one. -/
def Motion.receive (msg : Option CanMsg) (m : Motion) : Option (Motion × List CanFrame) :=
  match msg with
  | some msg => parseMsg msg m
  | none => some (m, [])

/-- The rest of a cycle. -/
def Motion.control (rc : RcData) (m : Motion) : Motion × List CanFrame :=
  let (m, moved) := { m with tgtMotionState := rc.target m.tgtMotionState }.transition
  let (m, walked) := m.act rc
  (m, moved ++ walked)

/-- `do_motion`. -/
def doMotion (c : MotionCycle) (m : Motion) : Option (Motion × List CanFrame) := do
  let (m, parsed) ← m.receive c.msg
  let (m, frames) := m.control c.rc
  some (m, parsed ++ frames)

/-- The state that `motion_init` leaves. -/
def motionInit : Motion where
  motionState := .off
  tgtMotionState := .off
  drvStatus d :=
    { state := .off
      side := if d = 0 ∨ d = 2 ∨ d = 5 then .left else .right
      pos := 0
      phase := 0
      phaseOffset := if d = 1 ∨ d = 2 ∨ d = 4 then 1 / 2 else 0 }
  globalPhase := 1 / 4

/-! ## What is sent -/

/-- A frame that moves a leg. -/
def CanFrame.IsLegMotion (f : CanFrame) : Prop := f.cmdId = .drvLegMotion

instance (f : CanFrame) : Decidable f.IsLegMotion :=
  inferInstanceAs (Decidable (_ = _))

theorem isLegMotion_makeStep {speed steering : ℚ} {m : Motion} :
    ∀ f ∈ (makeStep speed steering m).2, f.IsLegMotion := by
  intro f hf
  obtain ⟨d, -, rfl⟩ := List.mem_map.mp hf
  rfl

theorem makeStep_ne_nil (speed steering : ℚ) (m : Motion) : (makeStep speed steering m).2 ≠ [] :=
  List.cons_ne_nil _ _

@[simp] theorem makeStep_motionState (speed steering : ℚ) (m : Motion) :
    (makeStep speed steering m).1.motionState = m.motionState := rfl

@[simp] theorem makeStep_allDrvReady (speed steering : ℚ) (m : Motion) :
    (makeStep speed steering m).1.AllDrvReady ↔ m.AllDrvReady := Iff.rfl

theorem cmdId_of_mem_sendAll {id : CmdId} : ∀ f ∈ sendAll id, f.cmdId = id := by
  simp [sendAll]

/-! ## What is received -/

/-- The three responses that `parse_msg` handles. -/
def CanMsg.Handled (msg : CanMsg) : Prop :=
  msg.response ∧
    (msg.cmdId = .getStatus ∨ msg.cmdId = .drvCalibrationStart ∨ msg.cmdId = .drvLegStand)

/-- The response to `MSG_ID_GET_STATUS`. -/
def CanMsg.IsStatus (msg : CanMsg) : Prop := msg.response ∧ msg.cmdId = .getStatus

/-- A response that reports the drive `d`. -/
def CanMsg.Reports (msg : CanMsg) (d : Fin 6) : Prop :=
  msg.response ∧ match msg.cmdId with
    | .getStatus => d.val / 2 = msg.board
    | .drvCalibrationStart | .drvLegStand => d.val = msg.board * 2 + msg.motor
    | _ => False

/-- The drives of a handled response are in the table. -/
def CanMsg.InTable (msg : CanMsg) : Prop := msg.Handled → msg.board < 3

theorem CanMsg.motor_lt (msg : CanMsg) : msg.motor < 2 := by
  rw [motor, UInt8.toNat_and]
  exact Nat.lt_succ_of_le Nat.and_le_right

theorem CanMsg.board_lt {msg : CanMsg} (h : 1 ≤ msg.srcId ∧ msg.srcId ≤ 3) : msg.board < 3 := by
  obtain ⟨h₁, h₃⟩ := h
  rw [board]
  interval_cases msg.srcId <;> decide

namespace Motion

variable {m m' : Motion}

theorem setReady_of_lt {i : Nat} (h : i < 6) : ∃ m', m.setReady i = some m' ∧
    m'.motionState = m.motionState ∧ m'.tgtMotionState = m.tgtMotionState ∧
      ∀ d, m'.Ready d ↔ m.Ready d ∨ d.val = i := by
  refine ⟨_, dif_pos h, rfl, rfl, fun d => ?_⟩
  by_cases hd : d = ⟨i, h⟩
  · subst hd
    simp [Ready]
  · have hne : d.val ≠ i := fun hi => hd (Fin.ext hi)
    simp [Ready, Function.update_of_ne hd, hne]

theorem setReady_of_ge {i : Nat} (h : 6 ≤ i) : m.setReady i = none :=
  dif_neg (Nat.not_lt.mpr h)

end Motion

/-- What a message did that reports the drives in `reports`: nothing is sent, or it was a status
after which all drives are ready, and then a step is made. -/
structure Parsed (status : Prop) (reports : Fin 6 → Prop) (m m' : Motion) (out : List CanFrame) :
    Prop where
  ready : ∀ d, m'.Ready d ↔ m.Ready d ∨ reports d
  stepped : status → m'.AllDrvReady → m'.motionState = .off ∧ m'.tgtMotionState = .off ∧
    ∃ m₀, out = (makeStep (1 / 10) 0 m₀).2
  other : ¬(status ∧ m'.AllDrvReady) → m'.motionState = m.motionState ∧
    (m'.tgtMotionState = m.tgtMotionState ∨ m'.tgtMotionState = .parking) ∧ out = []

theorem Parsed.of_silent {status : Prop} {reports : Fin 6 → Prop} {m m' : Motion}
    (hstatus : ¬status) (hready : ∀ d, m'.Ready d ↔ m.Ready d ∨ reports d)
    (hstate : m'.motionState = m.motionState)
    (htgt : m'.tgtMotionState = m.tgtMotionState ∨ m'.tgtMotionState = .parking) :
    Parsed status reports m m' [] :=
  ⟨hready, fun h => absurd h hstatus, fun _ => ⟨hstate, htgt, rfl⟩⟩

theorem CanMsg.setReady_motor {msg : CanMsg} (hresponse : msg.response)
    (hcmd : msg.cmdId = .drvCalibrationStart ∨ msg.cmdId = .drvLegStand) (hboard : msg.board < 3)
    (m : Motion) : ∃ m', m.setReady (msg.board * 2 + msg.motor) = some m' ∧
      m'.motionState = m.motionState ∧ m'.tgtMotionState = m.tgtMotionState ∧
      ¬msg.IsStatus ∧ ∀ d, m'.Ready d ↔ m.Ready d ∨ msg.Reports d := by
  have hmotor := msg.motor_lt
  obtain ⟨m', hset, hstate, htgt, hready⟩ :=
    m.setReady_of_lt (i := msg.board * 2 + msg.motor) (by omega)
  refine ⟨m', hset, hstate, htgt, fun hno => ?_, fun d => ?_⟩
  · rcases hcmd with hcmd | hcmd <;> simp [CanMsg.IsStatus, hcmd] at hno
  · rcases hcmd with hcmd | hcmd <;>
      simp only [hready, CanMsg.Reports, hresponse, hcmd, true_and]

/-- A status: both drives of the board become ready, and a step is made if that makes all ready. -/
theorem parseMsg_getStatus {msg : CanMsg} (hresponse : msg.response)
    (hcmd : msg.cmdId = .getStatus) (hboard : msg.board < 3) (m : Motion) :
    ∃ m' out, parseMsg msg m = some (m', out) ∧ Parsed msg.IsStatus msg.Reports m m' out := by
  obtain ⟨m₁, hset₁, hstate₁, htgt₁, hready₁⟩ :=
    m.setReady_of_lt (i := msg.board * 2) (by omega)
  obtain ⟨m₂, hset₂, hstate₂, htgt₂, hready₂⟩ :=
    m₁.setReady_of_lt (i := msg.board * 2 + 1) (by omega)
  have hready : ∀ d, m₂.Ready d ↔ m.Ready d ∨ msg.Reports d := by
    intro d
    have hd : (d.val = msg.board * 2 ∨ d.val = msg.board * 2 + 1) ↔ msg.Reports d := by
      simp only [CanMsg.Reports, hresponse, hcmd, true_and]
      omega
    rw [hready₂, hready₁, or_assoc, hd]
  by_cases hall : m₂.AllDrvReady
  · let m₃ : Motion := { m₂ with motionState := .off, tgtMotionState := .off }
    refine ⟨(makeStep (1 / 10) 0 m₃).1, (makeStep (1 / 10) 0 m₃).2, ?_, hready,
      fun _ _ => ⟨rfl, rfl, m₃, rfl⟩, fun hno => absurd ⟨⟨hresponse, hcmd⟩, hall⟩ hno⟩
    simp only [parseMsg, hresponse, hcmd, hset₁, hset₂, Option.bind_eq_bind, Option.bind_some,
      if_pos hall, if_true, m₃]
  · refine ⟨m₂, [], by simp only [parseMsg, hresponse, hcmd, hset₁, hset₂, Option.bind_eq_bind,
      Option.bind_some, if_neg hall, if_true], hready, fun _ hno => absurd hno hall, ?_⟩
    exact fun _ => ⟨hstate₂.trans hstate₁, .inl (htgt₂.trans htgt₁), rfl⟩

theorem parseMsg_inTable {msg : CanMsg} (h : msg.InTable) (m : Motion) :
    ∃ m' out, parseMsg msg m = some (m', out) ∧ Parsed msg.IsStatus msg.Reports m m' out := by
  by_cases hresponse : msg.response
  swap
  · refine ⟨m, [], if_neg hresponse,
      .of_silent (fun h => hresponse h.1) (fun d => ?_) rfl (.inl rfl)⟩
    simp [CanMsg.Reports, hresponse]
  cases hcmd : msg.cmdId with
  | getStatus => exact parseMsg_getStatus hresponse hcmd (h ⟨hresponse, .inl hcmd⟩) m
  | drvCalibrationStart =>
    obtain ⟨m₁, hset, hstate, htgt, hstatus, hready⟩ :=
      CanMsg.setReady_motor hresponse (.inl hcmd) (h ⟨hresponse, .inr (.inl hcmd)⟩) m
    by_cases hall : m₁.AllDrvReady
    · refine ⟨{ m₁ with tgtMotionState := .parking }, [], ?_,
        .of_silent hstatus hready hstate (.inr rfl)⟩
      simp only [parseMsg, hresponse, hcmd, hset, Option.bind_eq_bind, Option.bind_some,
        if_pos hall, if_true]
    · refine ⟨m₁, [], by simp only [parseMsg, hresponse, hcmd, hset, Option.bind_eq_bind,
        Option.bind_some, if_neg hall, if_true], .of_silent hstatus hready hstate (.inl htgt)⟩
  | drvLegStand =>
    obtain ⟨m₁, hset, hstate, htgt, hstatus, hready⟩ :=
      CanMsg.setReady_motor hresponse (.inr hcmd) (h ⟨hresponse, .inr (.inr hcmd)⟩) m
    refine ⟨m₁, [], ?_, .of_silent hstatus hready hstate (.inl htgt)⟩
    simp only [parseMsg, hresponse, hcmd, hset, Option.bind_eq_bind, Option.bind_some, if_true]
  | drvLegMotion | other =>
    refine ⟨m, [], by simp only [parseMsg, hresponse, hcmd, if_true],
      .of_silent (fun hno => ?_) (fun d => ?_) rfl (.inl rfl)⟩
    · simp [CanMsg.IsStatus, hcmd] at hno
    · simp [CanMsg.Reports, hcmd]

theorem parseMsg_not_inTable {msg : CanMsg} (h : ¬msg.InTable) (m : Motion) :
    parseMsg msg m = none := by
  obtain ⟨⟨hresponse, hcmd⟩, hboard⟩ := Classical.not_imp.mp h
  have hfirst : m.setReady (msg.board * 2) = none := Motion.setReady_of_ge (by omega)
  have hone : m.setReady (msg.board * 2 + msg.motor) = none := Motion.setReady_of_ge (by omega)
  rcases hcmd with hcmd | hcmd | hcmd
  · simp only [parseMsg, hresponse, hcmd, hfirst, if_true, Option.bind_eq_bind, Option.bind_none]
  · simp only [parseMsg, hresponse, hcmd, hone, if_true, Option.bind_eq_bind, Option.bind_none]
  · simp only [parseMsg, hresponse, hcmd, hone, if_true, Option.bind_eq_bind, Option.bind_none]

/-! ## What a cycle does -/

/-- What the transition to the target state did. -/
structure Moved (m m' : Motion) (out : List CanFrame) : Prop where
  ready : ∀ d, m'.Ready d ↔ m.Ready d
  tgt : m'.tgtMotionState = m.tgtMotionState
  state : ¬m.AllDrvReady → m'.motionState = m.motionState
  walks : m.AllDrvReady → (m'.motionState.Walks ↔
    m.tgtMotionState.Walks ∨ m.tgtMotionState = .off ∧ m.motionState.Walks)
  sent : out = [] ∨ out = calibrateAll ∨
    m.AllDrvReady ∧ m.tgtMotionState = .parking ∧ out = sendAll .drvLegStand

theorem moved_transition (m : Motion) : Moved m m.transition.1 m.transition.2 := by
  rw [Motion.transition]
  by_cases hgo : m.tgtMotionState ≠ m.motionState ∧ m.AllDrvReady
  · rw [if_pos hgo]
    have hno : ¬¬m.AllDrvReady := not_not.mpr hgo.2
    cases htgt : m.tgtMotionState with
    | parking =>
      refine ⟨fun _ => Iff.rfl, rfl, fun h => absurd h hno, ?_, .inr (.inr ⟨hgo.2, htgt, rfl⟩)⟩
      simp [MotionState.Walks, htgt]
    | calibrating =>
      refine ⟨fun _ => Iff.rfl, htgt.symm, fun h => absurd h hno, ?_, .inr (.inl rfl)⟩
      simp [MotionState.Walks, htgt]
    | beginWalking | walking | stopWalking =>
      refine ⟨fun _ => Iff.rfl, htgt.symm, fun h => absurd h hno, ?_, .inl rfl⟩
      simp [MotionState.Walks, htgt]
    | off =>
      refine ⟨fun _ => Iff.rfl, rfl, fun h => absurd h hno, ?_, .inl rfl⟩
      simp [MotionState.Walks, htgt]
  · rw [if_neg hgo]
    refine ⟨fun _ => Iff.rfl, rfl, fun _ => rfl, fun hall => ?_, .inl rfl⟩
    have htgt : m.tgtMotionState = m.motionState := by
      by_contra hne
      exact hgo ⟨hne, hall⟩
    rw [← htgt]
    exact ⟨.inl, fun h => h.elim id And.right⟩

/-- What a cycle did after its message. -/
structure Controlled (rc : RcData) (m m' : Motion) (out : List CanFrame) : Prop where
  ready : ∀ d, m'.Ready d ↔ m.Ready d
  tgt : m'.tgtMotionState = rc.target m.tgtMotionState
  state : ¬m.AllDrvReady → m'.motionState = m.motionState
  walks : m.AllDrvReady → (m'.motionState.Walks ↔
    m'.tgtMotionState.Walks ∨ m'.tgtMotionState = .off ∧ m.motionState.Walks)
  sent : ∃ moved walked, out = moved ++ walked ∧
    (moved = [] ∨ moved = calibrateAll ∨
      m'.AllDrvReady ∧ m'.tgtMotionState = .parking ∧ moved = sendAll .drvLegStand) ∧
    if m'.motionState.Walks ∧ m'.AllDrvReady then
      walked ≠ [] ∧ ∀ f ∈ walked, f.IsLegMotion
    else walked = []

theorem controlled_control (rc : RcData) (m : Motion) :
    Controlled rc m (m.control rc).1 (m.control rc).2 := by
  have h := moved_transition { m with tgtMotionState := rc.target m.tgtMotionState }
  rw [Motion.control]
  generalize { m with tgtMotionState := rc.target m.tgtMotionState }.transition = moved at h
  obtain ⟨m₁, moved⟩ := moved
  simp only [Motion.act]
  by_cases hwalk : m₁.motionState.Walks ∧ m₁.AllDrvReady
  · rw [if_pos hwalk]
    refine ⟨h.ready, h.tgt, h.state, fun hall => h.tgt ▸ h.walks hall, moved, _, rfl, ?_, ?_⟩
    · exact h.sent.imp_right (Or.imp_right fun ⟨_, htgt, hout⟩ =>
        ⟨hwalk.2, h.tgt.trans htgt, hout⟩)
    · simp only [makeStep_motionState, makeStep_allDrvReady, if_pos hwalk]
      exact ⟨makeStep_ne_nil _ _ _, isLegMotion_makeStep⟩
  · rw [if_neg hwalk]
    refine ⟨h.ready, h.tgt, h.state, fun hall => h.tgt ▸ h.walks hall, moved, [], rfl, ?_, ?_⟩
    · exact h.sent.imp_right (Or.imp_right fun ⟨hall, htgt, hout⟩ =>
        ⟨fun d => (h.ready d).mpr (hall d), h.tgt.trans htgt, hout⟩)
    · rw [if_neg hwalk]

theorem Controlled.not_walks {rc : RcData} {m m' : Motion} {out : List CanFrame}
    (h : Controlled rc m m' out) (hready : m.motionState.Walks → m.AllDrvReady)
    (htgt : ¬m'.tgtMotionState.Walks) (hoff : m'.tgtMotionState = .off → ¬m.motionState.Walks) :
    ¬m'.motionState.Walks := by
  intro hwalks
  by_cases hall : m.AllDrvReady
  · rcases (h.walks hall).mp hwalks with hwalks | ⟨htgt_off, hwalks⟩
    · exact htgt hwalks
    · exact hoff htgt_off hwalks
  · exact hall (hready (h.state hall ▸ hwalks))

theorem Controlled.no_motion {rc : RcData} {m m' : Motion} {out : List CanFrame}
    (h : Controlled rc m m' out) (hno : ¬(m'.motionState.Walks ∧ m'.AllDrvReady)) :
    ∀ f ∈ out, ¬f.IsLegMotion := by
  obtain ⟨moved, walked, rfl, hmoved, hwalked⟩ := h.sent
  rw [if_neg hno] at hwalked
  subst hwalked
  intro f hf hmotion
  rw [List.append_nil] at hf
  rcases hmoved with rfl | rfl | ⟨-, -, rfl⟩
  · exact absurd hf List.not_mem_nil
  · exact absurd (hmotion.symm.trans (cmdId_of_mem_sendAll f hf)) (by decide)
  · exact absurd (hmotion.symm.trans (cmdId_of_mem_sendAll f hf)) (by decide)

/-! ## Runs -/

namespace MotionCycle

/-- Responses come from the boards 1 to 3. -/
def FromBoards (c : MotionCycle) : Prop :=
  ∀ msg ∈ c.msg, msg.response → 1 ≤ msg.srcId ∧ msg.srcId ≤ 3

/-- The response to `MSG_ID_GET_STATUS` is received. -/
def IsStatus (c : MotionCycle) : Prop := ∃ msg ∈ c.msg, msg.IsStatus

/-- A response is received that reports the drive `d`. -/
def Reports (c : MotionCycle) (d : Fin 6) : Prop := ∃ msg ∈ c.msg, msg.Reports d

/-- The drives of the response are in the table. -/
def InTable (c : MotionCycle) : Prop := ∀ msg ∈ c.msg, msg.InTable

theorem FromBoards.inTable {c : MotionCycle} (h : c.FromBoards) : c.InTable :=
  fun msg hmsg hhandled => CanMsg.board_lt (h msg hmsg hhandled.1)

end MotionCycle

/-- The cycles one after the other. -/
def motionRun (m : Motion) (cycles : List MotionCycle) : Option Motion :=
  cycles.foldlM (fun m c => (doMotion c m).map Prod.fst) m

/-- The park button was seen, and since then no cycle with the walk button alone. -/
def parkHeld (cycles : List MotionCycle) : Bool :=
  cycles.foldl (fun held c =>
    if c.rc.btn 1 then true else if c.rc.btn 0 then false else held) false

theorem parsed_receive {c : MotionCycle} (h : c.InTable) (m : Motion) : ∃ m' out,
    m.receive c.msg = some (m', out) ∧ Parsed c.IsStatus c.Reports m m' out := by
  obtain ⟨msg, rc⟩ := c
  cases msg with
  | none =>
    refine ⟨m, [], rfl, .of_silent (fun ⟨_, hmsg, _⟩ => nomatch hmsg) (fun d => ?_) rfl (.inl rfl)⟩
    exact ⟨.inl, fun h => h.elim id fun ⟨_, hmsg, _⟩ => nomatch hmsg⟩
  | some msg =>
    have hstatus : MotionCycle.IsStatus ⟨some msg, rc⟩ ↔ msg.IsStatus := by
      simp [MotionCycle.IsStatus]
    have hreports : ∀ d, MotionCycle.Reports ⟨some msg, rc⟩ d ↔ msg.Reports d := by
      simp [MotionCycle.Reports]
    obtain ⟨m', out, hparse, hparsed⟩ := parseMsg_inTable (h msg rfl) m
    refine ⟨m', out, hparse, fun d => ?_, fun h => ?_, fun h => ?_⟩
    · rw [hreports, hparsed.ready]
    · exact hparsed.stepped (hstatus.mp h)
    · exact hparsed.other fun h' => h ⟨hstatus.mpr h'.1, h'.2⟩

/-- **What holds between two cycles**: the robot walks only with all drives ready, a drive is ready
only if it was reported, and neither motion state is one of walking while parking is in force. -/
structure Motion.Holds (past : List MotionCycle) (m : Motion) : Prop where
  ready : m.motionState.Walks → m.AllDrvReady
  reported : ∀ d, m.Ready d → ∃ c ∈ past, c.Reports d
  parked : parkHeld past → ¬m.motionState.Walks ∧ ¬m.tgtMotionState.Walks

theorem holds_motionInit : motionInit.Holds [] :=
  ⟨by decide, fun d h => absurd h (by simp [Motion.Ready, motionInit]), fun h => nomatch h⟩

theorem doMotion_eq {c : MotionCycle} {m m₁ : Motion} {parsed : List CanFrame}
    (h : m.receive c.msg = some (m₁, parsed)) :
    doMotion c m = some ((m₁.control c.rc).1, parsed ++ (m₁.control c.rc).2) := by
  rw [doMotion, h]
  rfl

theorem parkHeld_append (past : List MotionCycle) (c : MotionCycle) : parkHeld (past ++ [c]) =
    if c.rc.btn 1 then true else if c.rc.btn 0 then false else parkHeld past := by
  rw [parkHeld, List.foldl_append]
  rfl

theorem target_of_parkHeld {past : List MotionCycle} {c : MotionCycle}
    (h : parkHeld (past ++ [c])) (tgt : MotionState) :
    c.rc.target tgt = .parking ∨ parkHeld past ∧ c.rc.target tgt = tgt := by
  rw [parkHeld_append] at h
  by_cases hpark : c.rc.btn 1
  · exact .inl (by simp only [RcData.target, if_pos hpark])
  · by_cases hwalk : c.rc.btn 0
    · simp [hpark, hwalk] at h
    · rw [if_neg hpark, if_neg hwalk] at h
      exact .inr ⟨h, by simp only [RcData.target, if_neg hpark, if_neg hwalk]⟩

namespace Motion.Holds

variable {past : List MotionCycle} {m m₁ : Motion} {c : MotionCycle} {out : List CanFrame}

/-- After the message. -/
theorem parsed (h : m.Holds past) (hp : Parsed c.IsStatus c.Reports m m₁ out) :
    (m₁.motionState.Walks → m₁.AllDrvReady) ∧
      (∀ d, m₁.Ready d → ∃ x ∈ past ++ [c], x.Reports d) ∧
      (parkHeld past → ¬m₁.motionState.Walks ∧ ¬m₁.tgtMotionState.Walks) := by
  have hreported : ∀ d, m₁.Ready d → ∃ x ∈ past ++ [c], x.Reports d := by
    intro d hd
    rcases (hp.ready d).mp hd with hold | hnew
    · obtain ⟨x, hx, hrep⟩ := h.reported d hold
      exact ⟨x, List.mem_append_left _ hx, hrep⟩
    · exact ⟨c, by simp, hnew⟩
  by_cases hstep : c.IsStatus ∧ m₁.AllDrvReady
  · obtain ⟨hstate, htgt, -⟩ := hp.stepped hstep.1 hstep.2
    exact ⟨fun _ => hstep.2, hreported, fun _ => by simp [hstate, htgt, MotionState.Walks]⟩
  · obtain ⟨hstate, htgt, -⟩ := hp.other hstep
    refine ⟨fun hwalks d => (hp.ready d).mpr (.inl (h.ready (hstate ▸ hwalks) d)), hreported, ?_⟩
    intro hheld
    obtain ⟨hs, ht⟩ := h.parked hheld
    refine ⟨hstate ▸ hs, ?_⟩
    rcases htgt with htgt | htgt
    · exact htgt ▸ ht
    · simp [htgt, MotionState.Walks]

/-- **One cycle.** -/
theorem step (h : m.Holds past) (hp : Parsed c.IsStatus c.Reports m m₁ out) :
    (m₁.control c.rc).1.Holds (past ++ [c]) := by
  obtain ⟨hready, hreported, hparked⟩ := h.parsed hp
  have hc := controlled_control c.rc m₁
  have hall : (m₁.control c.rc).1.AllDrvReady ↔ m₁.AllDrvReady := forall_congr' hc.ready
  refine ⟨fun hwalks => hall.mpr ?_, fun d hd => hreported d ((hc.ready d).mp hd), fun hheld => ?_⟩
  · by_contra hno
    exact hno (hready (hc.state hno ▸ hwalks))
  · rcases target_of_parkHeld hheld m₁.tgtMotionState with hpark | ⟨hpast, hkeep⟩
    · have htgt : (m₁.control c.rc).1.tgtMotionState = .parking := hc.tgt.trans hpark
      have hwalks : ¬(m₁.control c.rc).1.tgtMotionState.Walks := by simp [htgt, MotionState.Walks]
      exact ⟨hc.not_walks hready hwalks fun hoff => absurd (htgt.symm.trans hoff) (by decide),
        hwalks⟩
    · have htgt : (m₁.control c.rc).1.tgtMotionState = m₁.tgtMotionState := hc.tgt.trans hkeep
      obtain ⟨hstate, hwalks⟩ := hparked hpast
      rw [← htgt] at hwalks
      exact ⟨hc.not_walks hready hwalks fun _ => hstate, hwalks⟩

end Motion.Holds

theorem motionRun_holds {past : List MotionCycle} (hsrc : ∀ x ∈ past, x.FromBoards) :
    ∃ m, motionRun motionInit past = some m ∧ m.Holds past := by
  induction past using List.reverseRecOn with
  | nil => exact ⟨motionInit, rfl, holds_motionInit⟩
  | append_singleton past c ih =>
    obtain ⟨m, hrun, hm⟩ := ih fun x hx => hsrc x (List.mem_append_left _ hx)
    obtain ⟨m₁, parsed, hreceive, hp⟩ := parsed_receive (hsrc c (by simp)).inTable m
    refine ⟨(m₁.control c.rc).1, ?_, hm.step hp⟩
    rw [motionRun] at hrun ⊢
    rw [List.foldlM_append, hrun]
    simp [doMotion_eq hreceive]

/-- **Leg motion.** In every cycle of every run: if a frame moves a leg, each drive was reported by
a response; and while parking is in force, only `parse_msg` moves a leg, in one step for the
response to `MSG_ID_GET_STATUS`. -/
theorem leg_motion_safe (past : List MotionCycle) (c : MotionCycle)
    (hsrc : ∀ x ∈ past ++ [c], x.FromBoards) :
    ∃ m m₁ m' parsed frames, motionRun motionInit past = some m ∧
      m.receive c.msg = some (m₁, parsed) ∧ doMotion c m = some (m', parsed ++ frames) ∧
      ((∃ f ∈ parsed ++ frames, f.IsLegMotion) → ∀ d, ∃ x ∈ past ++ [c], x.Reports d) ∧
      (parkHeld (past ++ [c]) → (∀ f ∈ frames, ¬f.IsLegMotion) ∧
        (parsed = [] ∨ c.IsStatus ∧ ∃ m₀, parsed = (makeStep (1 / 10) 0 m₀).2)) := by
  obtain ⟨m, hrun, hm⟩ := motionRun_holds fun x hx => hsrc x (List.mem_append_left _ hx)
  obtain ⟨m₁, parsed, hreceive, hp⟩ := parsed_receive (hsrc c (by simp)).inTable m
  have hc := controlled_control c.rc m₁
  have hall : (m₁.control c.rc).1.AllDrvReady ↔ m₁.AllDrvReady := forall_congr' hc.ready
  have hsent : (parsed = [] ∨ c.IsStatus ∧ m₁.AllDrvReady ∧
      ∃ m₀, parsed = (makeStep (1 / 10) 0 m₀).2) := by
    by_cases hstep : c.IsStatus ∧ m₁.AllDrvReady
    · exact .inr ⟨hstep.1, hstep.2, (hp.stepped hstep.1 hstep.2).2.2⟩
    · exact .inl (hp.other hstep).2.2
  refine ⟨m, m₁, _, parsed, _, hrun, hreceive, doMotion_eq hreceive, ?_, fun hheld => ⟨?_, ?_⟩⟩
  · rintro ⟨f, hf, hmotion⟩ d
    refine (hm.parsed hp).2.1 d ?_
    rcases List.mem_append.mp hf with hf | hf
    · rcases hsent with rfl | ⟨-, hready, -⟩
      · exact absurd hf List.not_mem_nil
      · exact hready d
    · by_contra hno
      exact hc.no_motion (fun h => hno (hall.mp h.2 d)) f hf hmotion
  · exact hc.no_motion fun h => ((hm.step hp).parked hheld).1 h.1
  · exact hsent.imp_right fun h => ⟨h.1, h.2.2⟩

/-- A cycle with a status of the board `src`. -/
def statusCycle (src : Nat) (rc : RcData) : MotionCycle := ⟨some ⟨true, src, .getStatus, 0⟩, rc⟩

/-- The remote control with the given buttons pressed. -/
def rcButtons (btn : Finset (Fin 32)) : RcData := ⟨1, 0, fun i => i ∈ btn⟩

/-- All boards report, the last one in the cycle in which parking is pressed. -/
theorem leg_motion_safe_parking :
    ∃ m m₁ m' parsed frames,
      motionRun motionInit [statusCycle 1 (rcButtons ∅), statusCycle 2 (rcButtons {0})] = some m ∧
      m.receive (statusCycle 3 (rcButtons {1})).msg = some (m₁, parsed) ∧
      doMotion (statusCycle 3 (rcButtons {1})) m = some (m', parsed ++ frames) ∧
      ∀ f ∈ frames, ¬f.IsLegMotion := by
  have hsrc : ∀ x ∈ [statusCycle 1 (rcButtons ∅), statusCycle 2 (rcButtons {0})] ++
      [statusCycle 3 (rcButtons {1})], x.FromBoards := by
    simp [statusCycle, MotionCycle.FromBoards]
  obtain ⟨m, m₁, m', parsed, frames, hrun, hreceive, hcycle, -, hheld⟩ :=
    leg_motion_safe _ (statusCycle 3 (rcButtons {1})) hsrc
  exact ⟨m, m₁, m', parsed, frames, hrun, hreceive, hcycle, (hheld (by decide)).1⟩

end Rhex
