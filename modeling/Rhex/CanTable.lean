import Mathlib
import Rhex.Lib.Run
import Rhex.Motion

/-!
# The drives that a response names

`parse_msg` takes its index into `drv_status` from the source of a response: `b` is one less, in
eight bits, and the entries are those of the board `b`.

* `CanMsg.entries` — the entries that a response names; `parseMsg_isSome` that `parse_msg` fails
  exactly if one of them is not in the table.
* `parseMsg_state` — what becomes of the states of the drives.
* `can_table_confined` — when a run stays in the table and responses of other nodes change nothing.
-/

namespace Rhex

/-! ## The entries -/

/-- The entries of `drv_status` that a message names. -/
def CanMsg.entries (msg : CanMsg) : List Nat :=
  if msg.response then
    match msg.cmdId with
    | .getStatus => [msg.board * 2, msg.board * 2 + 1]
    | .drvCalibrationStart | .drvLegStand => [msg.board * 2 + msg.motor]
    | _ => []
  else []

/-- The source is one of the boards 1 to 3. -/
def CanMsg.FromBoard (msg : CanMsg) : Prop := 1 ≤ msg.srcId ∧ msg.srcId ≤ 3

/-- A source that does not fit into eight bits names the drives of a board that it agrees with in
the low bits. -/
def CanMsg.Names (msg : CanMsg) (d : Fin 6) : Prop :=
  msg.srcId % 256 = d.val / 2 + 1 ∧
    (msg.cmdId = .getStatus ∨ (msg.data ⟨0, Nat.succ_pos 7⟩).toNat % 2 = d.val % 2)

theorem CanMsg.board_eq (msg : CanMsg) : msg.board = (msg.srcId + 255) % 256 := by
  rw [board, UInt8.toNat_sub, UInt8.toNat_ofNat']
  simp
  omega

theorem CanMsg.board_lt_iff {msg : CanMsg} :
    msg.board < 3 ↔ 1 ≤ msg.srcId % 256 ∧ msg.srcId % 256 ≤ 3 := by
  rw [board_eq]
  omega

theorem CanMsg.motor_eq (msg : CanMsg) : msg.motor = (msg.data 0).toNat % 2 := by
  rw [motor, UInt8.toNat_and]
  exact Nat.and_one_is_mod _

theorem CanMsg.mem_entries_iff {msg : CanMsg} (h : msg.Handled) (hboard : msg.board < 3)
    (d : Fin 6) : d.val ∈ msg.entries ↔ msg.Names d := by
  obtain ⟨hresponse, hcmd⟩ := h
  have hd := d.isLt
  rw [board_eq] at hboard
  rcases hcmd with hcmd | hcmd | hcmd <;>
    simp [entries, Names, hresponse, hcmd, board_eq, motor_eq] <;> omega

theorem CanMsg.entries_inTable {msg : CanMsg} : (∀ i ∈ msg.entries, i < 6) ↔ msg.InTable := by
  have hmotor := msg.motor_lt
  by_cases hresponse : msg.response
  · cases hcmd : msg.cmdId <;>
      simp [entries, InTable, Handled, hresponse, hcmd] <;> omega
  · simp [entries, InTable, Handled, hresponse]

/-- `parse_msg` reads and writes outside of the table exactly if an entry is not in it. -/
theorem parseMsg_isSome (msg : CanMsg) (m : Motion) :
    (parseMsg msg m).isSome ↔ ∀ i ∈ msg.entries, i < 6 := by
  rw [CanMsg.entries_inTable]
  by_cases h : msg.InTable
  · obtain ⟨m', out, hparse, -⟩ := parseMsg_inTable h m
    simp [h, hparse]
  · simp [h, parseMsg_not_inTable h]

/-! ## The states -/

/-- The state of a drive after a response. -/
def CanMsg.stateAfter (msg : CanMsg) (m : Motion) (d : Fin 6) : DrvState :=
  if d.val ∈ msg.entries then .ready else (m.drvStatus d).state

theorem Motion.setReady_state {m m' : Motion} {i : Nat} (h : m.setReady i = some m') (d : Fin 6) :
    (m'.drvStatus d).state = if d.val = i then .ready else (m.drvStatus d).state := by
  rw [setReady] at h
  split_ifs at h with hi
  obtain rfl := Option.some.inj h
  by_cases hd : d = ⟨i, hi⟩
  · subst hd
    simp
  · have hne : d.val ≠ i := fun heq => hd (Fin.ext heq)
    simp [Function.update_of_ne hd, hne]

theorem foldlM_setReady_state {l : List Nat} {m m' : Motion}
    (h : l.foldlM Motion.setReady m = some m') (d : Fin 6) :
    (m'.drvStatus d).state = if d.val ∈ l then .ready else (m.drvStatus d).state := by
  induction l generalizing m with
  | nil =>
    obtain rfl := Option.some.inj h
    simp
  | cons i l ih =>
    rw [List.foldlM_cons, Option.bind_eq_bind, Option.bind_eq_some_iff] at h
    obtain ⟨next, hset, hrest⟩ := h
    rw [ih hrest, Motion.setReady_state hset]
    by_cases hl : d.val ∈ l <;> simp [hl]

/-- `parse_msg` makes the entries ready one after the other; what else it does leaves the states
of the drives. -/
theorem parseMsg_marks {msg : CanMsg} {m m' : Motion} {out : List CanFrame}
    (h : parseMsg msg m = some (m', out)) :
    ∃ m₁, msg.entries.foldlM Motion.setReady m = some m₁ ∧
      ∀ d, (m'.drvStatus d).state = (m₁.drvStatus d).state := by
  rw [parseMsg] at h
  by_cases hresponse : msg.response
  swap
  · rw [if_neg hresponse] at h
    obtain ⟨rfl, -⟩ := Prod.mk.inj (Option.some.inj h)
    exact ⟨_, by simp [CanMsg.entries, hresponse], fun _ => rfl⟩
  rw [if_pos hresponse] at h
  cases hcmd : msg.cmdId with
  | getStatus =>
    simp only [hcmd, Option.bind_eq_bind, Option.bind_eq_some_iff] at h
    obtain ⟨m₁, hset₁, m₂, hset₂, hstep⟩ := h
    refine ⟨m₂, by simp [CanMsg.entries, hresponse, hcmd, hset₁, hset₂], fun d => ?_⟩
    split_ifs at hstep <;> obtain ⟨rfl, -⟩ := Prod.mk.inj (Option.some.inj hstep) <;> rfl
  | drvCalibrationStart =>
    simp only [hcmd, Option.bind_eq_bind, Option.bind_eq_some_iff] at h
    obtain ⟨m₁, hset, hstep⟩ := h
    refine ⟨m₁, by simp [CanMsg.entries, hresponse, hcmd, hset], fun d => ?_⟩
    split_ifs at hstep <;> obtain ⟨rfl, -⟩ := Prod.mk.inj (Option.some.inj hstep) <;> rfl
  | drvLegStand =>
    simp only [hcmd, Option.bind_eq_bind, Option.bind_eq_some_iff] at h
    obtain ⟨m₁, hset, hstep⟩ := h
    obtain ⟨rfl, -⟩ := Prod.mk.inj (Option.some.inj hstep)
    exact ⟨m₁, by simp [CanMsg.entries, hresponse, hcmd, hset], fun _ => rfl⟩
  | drvLegMotion | other =>
    simp only [hcmd] at h
    obtain ⟨rfl, -⟩ := Prod.mk.inj (Option.some.inj h)
    exact ⟨_, by simp [CanMsg.entries, hcmd], fun _ => rfl⟩

theorem parseMsg_state {msg : CanMsg} {m m' : Motion} {out : List CanFrame}
    (h : parseMsg msg m = some (m', out)) (d : Fin 6) :
    (m'.drvStatus d).state = msg.stateAfter m d := by
  obtain ⟨m₁, hmarks, hstate⟩ := parseMsg_marks h
  rw [hstate, foldlM_setReady_state hmarks, CanMsg.stateAfter]

/-! ## Runs -/

/-- The entries of a message are in the table, and a response of a node other than the boards
leaves the states of the drives. -/
structure CanMsg.Confined (m : Motion) (msg : CanMsg) : Prop where
  inTable : ∀ i ∈ msg.entries, i < 6
  foreign : msg.response → ¬msg.FromBoard → ∀ m' out, parseMsg msg m = some (m', out) →
    ∀ d, (m'.drvStatus d).state = (m.drvStatus d).state

/-- A handled response comes from a board; or its source agrees with a board in the low eight bits
only, and the drives it names are ready already. -/
def CanMsg.Expected (m : Motion) (msg : CanMsg) : Prop :=
  msg.Handled → msg.FromBoard ∨
    (1 ≤ msg.srcId % 256 ∧ msg.srcId % 256 ≤ 3) ∧ ∀ d, msg.Names d → m.Ready d

theorem CanMsg.not_handled_entries {msg : CanMsg} (h : ¬msg.Handled) : msg.entries = [] := by
  by_cases hresponse : msg.response
  · cases hcmd : msg.cmdId <;> simp [Handled, hresponse, hcmd] at h <;> simp [entries, hcmd]
  · simp [entries, hresponse]

theorem CanMsg.stateAfter_eq_iff (msg : CanMsg) (m : Motion) :
    (∀ d, msg.stateAfter m d = (m.drvStatus d).state) ↔
      ∀ d : Fin 6, d.val ∈ msg.entries → m.Ready d := by
  refine forall_congr' fun d => ?_
  rw [stateAfter, Motion.Ready]
  by_cases hd : d.val ∈ msg.entries
  · simp [hd, eq_comm]
  · simp [hd]

theorem CanMsg.confined_iff (m : Motion) (msg : CanMsg) : msg.Confined m ↔ msg.Expected m := by
  by_cases hhandled : msg.Handled
  swap
  · have hnone := not_handled_entries hhandled
    refine ⟨fun _ hno => absurd hno hhandled, fun _ => ⟨by simp [hnone], ?_⟩⟩
    intro _ _ m' out hparse d
    simp [parseMsg_state hparse, stateAfter, hnone]
  have hresponse := hhandled.1
  by_cases hboard : msg.board < 3
  · have hin : msg.InTable := fun _ => hboard
    obtain ⟨m', out, hparse, -⟩ := parseMsg_inTable hin m
    have hkeep : (∀ d, (m'.drvStatus d).state = (m.drvStatus d).state) ↔
        ∀ d, msg.Names d → m.Ready d := by
      simp only [parseMsg_state hparse, stateAfter_eq_iff, mem_entries_iff hhandled hboard]
    constructor
    · intro h _
      by_cases hfrom : msg.FromBoard
      · exact .inl hfrom
      · exact .inr ⟨board_lt_iff.mp hboard, hkeep.mp (h.foreign hresponse hfrom m' out hparse)⟩
    · intro h
      refine ⟨entries_inTable.mpr hin, fun _ hfrom m₁ out₁ hparse₁ => ?_⟩
      obtain ⟨rfl, -⟩ := Prod.mk.inj (Option.some.inj (hparse.symm.trans hparse₁))
      exact hkeep.mpr ((h hhandled).resolve_left hfrom).2
  · constructor
    · exact fun h => absurd (entries_inTable.mp h.inTable hhandled) hboard
    · intro h
      rcases h hhandled with hfrom | ⟨hlow, -⟩
      · exact absurd (board_lt hfrom) hboard
      · exact absurd (board_lt_iff.mpr hlow) hboard

/-- A cycle of the program. -/
def motionStep (m : Motion) (c : MotionCycle) : Option Motion := (doMotion c m).map Prod.fst

/-- The message of a cycle keeps to the table. -/
def CycleConfined (m : Motion) (c : MotionCycle) : Prop := ∀ msg ∈ c.msg, msg.Confined m

/-- The message of a cycle comes from a board, if it is handled. -/
def CycleExpected (m : Motion) (c : MotionCycle) : Prop := ∀ msg ∈ c.msg, msg.Expected m

/-- **The table of the drives.** In a run from the start, `parse_msg` keeps to the six entries, and
responses of other nodes leave the states of the drives, exactly if each handled response comes
from a board, or agrees with one in eight bits and names drives that are ready. -/
theorem can_table_confined (cycles : List MotionCycle) :
    Run.Throughout motionStep CycleConfined motionInit cycles ↔
      Run.Throughout motionStep CycleExpected motionInit cycles :=
  Run.Throughout.congr (I := fun _ => True) (fun _ _ _ _ _ _ => trivial)
    (fun m _ _ _ => forall₂_congr fun msg _ => msg.confined_iff m) trivial

/-- The remote side answers with the source that this program uses itself: two entries behind the
end. -/
theorem can_table_exceeded : (⟨true, 0x10, .getStatus, 0⟩ : CanMsg).entries = [30, 31] ∧
    ¬Run.Throughout motionStep CycleConfined motionInit [statusCycle 0x10 (rcButtons ∅)] := by
  refine ⟨rfl, fun h => ?_⟩
  have hmsg := h.1 _ rfl
  exact absurd (hmsg.inTable 30 (by decide)) (by decide)

end Rhex
