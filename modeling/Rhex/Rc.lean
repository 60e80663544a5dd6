import Mathlib
import Rhex.Capture
import Rhex.Lib.Run
import Rhex.Lib.Serial

/-!
# The control receiver (`rhex_rc.c`)

`rc_main` decodes the frames it receives and publishes speed, steering and buttons in shared
memory.

* `rcPacket`, `rcCycle` — what it does with a frame, and in one cycle.
* `control_freshness` — when a frame is applied exactly if it is newer than all that were.
* `control_source` — when what is published was captured in the same cycle.
-/

namespace Rhex

open Memory Serial

/-! ## State -/

/-- `rc_data_t`. Speed and steering are the quotients before they are rounded to `float`. -/
structure RcData where
  speed : ℚ
  steering : ℚ
  btn : Fin 32 → Bool
deriving DecidableEq

/-- `rc_status`, the fields that `rc_main` writes. -/
structure RcStatus where
  receivedPacketCnt : UInt32
  lostPacketCnt : UInt32
  currentSignalDbm : Nat → Int

/-- `rc_data`, `rc_status` and the local `last_seqno` of `rc_main`. -/
structure RcState where
  lastSeqno : UInt32
  rcData : RcData
  rcStatus : RcStatus

/-- The static variables start at zero. -/
def RcState.init : RcState := ⟨0, ⟨0, 0, fun _ => false⟩, ⟨0, 0, fun _ => 0⟩⟩

/-! ## One frame -/

/-- An integer in 16 bits with sign. -/
def toInt16 (x : Int) : Int := x.bmod (2 ^ 16)

/-- `r.r->seqno`. -/
def rcSeqno (data : Buf) : UInt32 := read32 data 0

/-- `r.r->axis[i] -= 1500`, as it is stored in 16 bits. -/
def rcAxis (data : Buf) (i : Nat) : Int := toInt16 ((read16 data (6 + 2 * i)).toNat - 1500)

/-- The command in a frame: axes 0 and 1, and the 32 bits of `data[0]` and `data[1]`. -/
def rcDecode (data : Buf) : RcData where
  speed := rcAxis data 1 / 500
  steering := rcAxis data 0 / 500
  btn := fun i => (read16 data (14 + 2 * (i.val / 16))).toNat.testBit (i.val % 16)

/-- `UINT32_MAX / 2U`. -/
@[simp] abbrev halfRange : Nat := 2147483647

/-- The test of `seqno` against `last_seqno`. -/
def rcFresh (s : RcState) (data : Buf) : Prop := (rcSeqno data - s.lastSeqno).toNat < halfRange

instance (s : RcState) (data : Buf) : Decidable (rcFresh s data) :=
  inferInstanceAs (Decidable (_ < _))

/-- What `rc_main` does with a frame. The second result is what it writes to `shm_rc`. -/
def rcPacket (s : RcState) (rxData : RxPacket) : RcState × Option RcData :=
  let ahead := rcSeqno rxData.data - s.lastSeqno
  let status := { s.rcStatus with
    currentSignalDbm := Function.update s.rcStatus.currentSignalDbm rxData.adapter rxData.dbm }
  if rcFresh s rxData.data then
    let rcData := rcDecode rxData.data
    ({ s with
        rcData
        rcStatus := { status with
          lostPacketCnt := if ahead > 1 then status.lostPacketCnt + ahead else status.lostPacketCnt
          receivedPacketCnt := status.receivedPacketCnt + 1 } },
      some rcData)
  else ({ s with rcStatus := status }, none)

theorem rcPacket_lastSeqno (s : RcState) (rxData : RxPacket) :
    (rcPacket s rxData).1.lastSeqno = s.lastSeqno := by
  unfold rcPacket
  dsimp only
  split_ifs <;> rfl

theorem rcPacket_spec (s : RcState) (rxData : RxPacket) :
    (rcFresh s rxData.data ∧ (rcPacket s rxData).2 = some (rcDecode rxData.data)) ∨
      (¬rcFresh s rxData.data ∧ (rcPacket s rxData).2 = none ∧
        (rcPacket s rxData).1.rcData = s.rcData) := by
  by_cases h : rcFresh s rxData.data
  · exact Or.inl ⟨h, by rw [rcPacket, if_pos h]⟩
  · exact Or.inr ⟨h, by rw [rcPacket, if_neg h], by rw [rcPacket, if_neg h]⟩

/-! ## Freshness -/

/-- The frames of a run: the number of each, and what was published from it. -/
def rcTrace : RcState → List RxPacket → List (UInt32 × Option RcData)
  | _, [] => []
  | s, rxData :: rest =>
    (rcSeqno rxData.data, (rcPacket s rxData).2) :: rcTrace (rcPacket s rxData).1 rest

/-- Each frame is applied exactly if it is newer than all frames applied before it. -/
def AppliesNewest (trace : List (UInt32 × Option RcData)) : Prop :=
  ∀ pre x post, trace = pre ++ x :: post →
    (x.2.isSome = true ↔ ∀ y ∈ pre, y.2.isSome = true → Newer x.1 y.1)

/-- `last_seqno` stays 0, so each frame is judged on its own. -/
theorem rcTrace_eq {s : RcState} (hs : s.lastSeqno = 0) (frames : List RxPacket) :
    rcTrace s frames = frames.map fun f =>
      (rcSeqno f.data,
        if (rcSeqno f.data).toNat < halfRange then some (rcDecode f.data) else none) := by
  induction frames generalizing s with
  | nil => rfl
  | cons f frames ih =>
    have hfresh : rcFresh s f.data ↔ (rcSeqno f.data).toNat < halfRange := by
      rw [rcFresh, hs, UInt32.sub_zero]
    have hpub : (rcPacket s f).2 =
        if (rcSeqno f.data).toNat < halfRange then some (rcDecode f.data) else none := by
      rcases rcPacket_spec s f with ⟨h, hp⟩ | ⟨h, hp, -⟩
      · rw [hp, if_pos (hfresh.mp h)]
      · rw [hp, if_neg fun hlt => h (hfresh.mpr hlt)]
    rw [rcTrace, List.map_cons, hpub, ih ((rcPacket_lastSeqno s f).trans hs)]

/-- The frames after which the next one is judged right: one in the lower half-range must be ahead
of all others there, and one above it must be half a circle ahead of one of them. -/
def WellOrdered (frames : List RxPacket) : Prop :=
  ∀ pre x post, frames = pre ++ x :: post →
    if (rcSeqno x.data).toNat < halfRange then
      ∀ y ∈ pre, (rcSeqno y.data).toNat < halfRange →
        (rcSeqno y.data).toNat < (rcSeqno x.data).toNat
    else
      ∃ y ∈ pre, (rcSeqno y.data).toNat < halfRange ∧
        (rcSeqno y.data).toNat + 2 ^ 31 ≤ (rcSeqno x.data).toNat

/-- One frame after others. -/
theorem appliesNewest_step (pre : List RxPacket) (x : RxPacket) :
    ((rcSeqno x.data).toNat < halfRange ↔
        ∀ y ∈ pre, (rcSeqno y.data).toNat < halfRange → Newer (rcSeqno x.data) (rcSeqno y.data)) ↔
      if (rcSeqno x.data).toNat < halfRange then
        ∀ y ∈ pre, (rcSeqno y.data).toNat < halfRange →
          (rcSeqno y.data).toNat < (rcSeqno x.data).toNat
      else
        ∃ y ∈ pre, (rcSeqno y.data).toNat < halfRange ∧
          (rcSeqno y.data).toNat + 2 ^ 31 ≤ (rcSeqno x.data).toNat := by
  by_cases hx : (rcSeqno x.data).toNat < halfRange
  · rw [if_pos hx, iff_true_left hx]
    refine forall₂_congr fun y _ => forall_congr' ?_
    intro hy
    simp only [halfRange] at hx hy
    exact newer_of_lower (by omega) (by omega)
  · rw [if_neg hx, iff_false_left hx]
    push Not
    refine exists_congr fun y => and_congr_right fun _ => and_congr_right ?_
    intro hy
    simp only [halfRange] at hx hy
    rw [newer_of_le (by omega)]
    omega

/-- **Freshness of control commands.** The frames of a run are applied exactly when they are newer
than all that were applied if and only if they come in the order described. -/
theorem control_freshness (frames : List RxPacket) :
    AppliesNewest (rcTrace .init frames) ↔ WellOrdered frames := by
  obtain ⟨pub, hpub⟩ : ∃ pub : RxPacket → UInt32 × Option RcData, pub = fun f =>
      (rcSeqno f.data,
        if (rcSeqno f.data).toNat < halfRange then some (rcDecode f.data) else none) := ⟨_, rfl⟩
  have hsome : ∀ f, (pub f).2.isSome = true ↔ (rcSeqno f.data).toNat < halfRange := by
    intro f
    rw [hpub]
    dsimp only
    split_ifs with h <;> simp [h]
  have hseq : ∀ f, (pub f).1 = rcSeqno f.data := fun f => by rw [hpub]
  rw [rcTrace_eq rfl, ← hpub]
  constructor
  · intro h pre x post he
    rw [← appliesNewest_step, ← hsome x, h (pre.map pub) (pub x) (post.map pub) (by simp [he])]
    simp only [List.mem_map, forall_exists_index, and_imp, forall_apply_eq_imp_iff₂, hsome, hseq]
  · intro h tpre tx tpost he
    obtain ⟨pre, rest, rfl, hpre, hrest⟩ := List.map_eq_append_iff.mp he
    obtain ⟨x, post, rfl, hx, -⟩ := List.map_eq_cons_iff.mp hrest
    rw [← hpre, ← hx, hsome]
    simp only [List.mem_map, forall_exists_index, and_imp, forall_apply_eq_imp_iff₂, hsome, hseq]
    exact (appliesNewest_step pre x).mpr (h pre x post rfl)

/-- An old frame is applied after a newer one. -/
theorem control_stale : ¬AppliesNewest (rcTrace .init
    [⟨0, 1, -127, 22, ofList (le32 2)⟩, ⟨0, 1, -127, 22, ofList (le32 1)⟩]) := by
  intro h
  rw [rcTrace_eq rfl] at h
  have hnewer := (h [_] _ [] rfl).mp rfl _ List.mem_cons_self rfl
  exact absurd hnewer (by decide)

/-! ## The main loop -/

/-- The state of `rc_main`. -/
structure RcMain where
  rx : WfbRx
  rc : RcState

/-- The state in which the loop starts: `wfb_rx_t rc_rx = {0,}`. -/
def RcMain.init : RcMain := ⟨⟨fun _ => ⟨0⟩⟩, .init⟩

/-- One cycle of `rc_main`: a packet counts as received when `wfb_rx_packet` is positive. -/
def rcCycle {count : Nat} (s : RcMain) (cycle : Cycle count) : Option (RcMain × Option RcData) := do
  let (result, rx, rxData) ← wfbRxPacket s.rx .zero cycle
  if result > 0 then some (⟨rx, (rcPacket s.rc rxData).1⟩, (rcPacket s.rc rxData).2)
  else some (⟨rx, s.rc⟩, none)

def rcStep {count : Nat} (s : RcMain) (cycle : Cycle count) : Option RcMain :=
  (rcCycle s cycle).map Prod.fst

/-- The first `n` bytes from `off` on are in the frame and were captured. -/
def Capture.Holds (c : Capture) (off n : Nat) : Prop :=
  off + n ≤ c.caplen.toNat ∧ off + n ≤ c.len.toNat

/-- The length of a frame's body up to `data[1]`. -/
@[simp] abbrev rcFrameLen : Nat := 18

/-- What a cycle publishes is the command of a frame that was captured in it and holds all fields;
without one it publishes nothing and leaves `rc_data` as it was. -/
def Commanded {count : Nat} (s : RcMain) (cycle : Cycle count) : Prop :=
  ∀ s' pub, rcCycle s cycle = some (s', pub) →
    (∀ v, pub = some v → 0 < cycle.result ∧ ∃ c, cycle.next = .frame c ∧
      c.Holds (bodyOffset (s.rx.iface cycle.adapter) c) rcFrameLen ∧
      v = rcDecode fun i => c.data (bodyOffset (s.rx.iface cycle.adapter) c + i)) ∧
    (pub = none → s'.rc.rcData = s.rc.rcData)

/-- No descriptor is ready without a packet, and every frame that is taken over holds all fields,
unless its number is in the upper half. -/
def FramesWhole {count : Nat} (s : RcMain) (cycle : Cycle count) : Prop :=
  0 < cycle.result →
    cycle.next ≠ .empty ∧
    ∀ c, cycle.next = .frame c → Accepted (s.rx.iface cycle.adapter) c →
      (rcSeqno (rxBody (s.rx.iface cycle.adapter) c)).toNat < halfRange →
      c.Holds (bodyOffset (s.rx.iface cycle.adapter) c) rcFrameLen

theorem rcDecode_congr {b c : Buf} (h : ∀ i < rcFrameLen, b i = c i) : rcDecode b = rcDecode c := by
  have hread : ∀ off, off + 2 ≤ rcFrameLen → read16 b off = read16 c off := by
    intro off hoff
    exact read16_congr (slice_congr fun k hk => h _ (by omega))
  have haxis : ∀ i < 2, rcAxis b i = rcAxis c i := by
    intro i hi
    rw [rcAxis, rcAxis, hread _ (by simp only [rcFrameLen]; omega)]
  have hbtn : ∀ i : Fin 32, read16 b (14 + 2 * (i.val / 16)) = read16 c (14 + 2 * (i.val / 16)) :=
    fun i => hread _ (by simp only [rcFrameLen]; omega)
  rw [rcDecode, rcDecode, haxis 0 (by decide), haxis 1 (by decide)]
  simp only [hbtn]

theorem rxBody_apply {interface : MonitorInterface} {c : Capture} {n i : Nat}
    (h : c.Holds (bodyOffset interface c) n) (hn : n ≤ maxMtu) (hi : i < n) :
    rxBody interface c i = c.data (bodyOffset interface c + i) := by
  obtain ⟨-, hlen⟩ := h
  have hlt : i < (slice c.data (bodyOffset interface c)
      (min (c.len.toNat - bodyOffset interface c) maxMtu)).length := by
    rw [length_slice]
    omega
  have hcopy : memcpy RxPacket.zero.data 0 (slice c.data (bodyOffset interface c)
      (min (c.len.toNat - bodyOffset interface c) maxMtu)) (0 + i) = _ := memcpy_add hlt
  rwa [Nat.zero_add, getElem_slice] at hcopy

/-- **What one cycle of `rc_main` can do**, with `last_seqno` at 0. -/
inductive RcCycled {count : Nat} (s : RcMain) (cycle : Cycle count) :
    Option (RcMain × Option RcData) → Prop where
  /-- There is no frame, or one with a number in the upper half. -/
  | quiet (s' : RcMain) (hseq : s'.rc.lastSeqno = 0) (hdata : s'.rc.rcData = s.rc.rcData)
      (hcause : 0 < cycle.result → ∃ c, cycle.next = .frame c ∧
        ¬(rcSeqno (rxBody (s.rx.iface cycle.adapter) c)).toNat < halfRange) :
      RcCycled s cycle (some (s', none))
  /-- A descriptor is ready, but there is no packet: the zeros are a command. -/
  | empty (s' : RcMain) (hseq : s'.rc.lastSeqno = 0) (hresult : 0 < cycle.result)
      (hnext : cycle.next = .empty) :
      RcCycled s cycle (some (s', some (rcDecode RxPacket.zero.data)))
  /-- A frame is applied. -/
  | apply (s' : RcMain) (hseq : s'.rc.lastSeqno = 0) (hresult : 0 < cycle.result) (c : Capture)
      (hnext : cycle.next = .frame c) (haccepted : Accepted (s.rx.iface cycle.adapter) c)
      (hfresh : (rcSeqno (rxBody (s.rx.iface cycle.adapter) c)).toNat < halfRange) :
      RcCycled s cycle (some (s', some (rcDecode (rxBody (s.rx.iface cycle.adapter) c))))
  /-- The program ends. -/
  | exit (hresult : 0 < cycle.result)
      (hnext : cycle.next = .error ∨
        ∃ c, cycle.next = .frame c ∧ ¬Accepted (s.rx.iface cycle.adapter) c) : RcCycled s cycle none

theorem rcCycle_spec {count : Nat} {s : RcMain} (hs : s.rc.lastSeqno = 0) (cycle : Cycle count) :
    RcCycled s cycle (rcCycle s cycle) := by
  have hfresh : ∀ data : Buf, rcFresh s.rc data ↔ (rcSeqno data).toNat < halfRange := by
    intro data
    rw [rcFresh, hs, UInt32.sub_zero]
  have hseq : ∀ rxData, (rcPacket s.rc rxData).1.lastSeqno = 0 := by
    intro rxData
    exact (rcPacket_lastSeqno s.rc rxData).trans hs
  have hpolled := wfbRxPacket_spec s.rx cycle
  unfold rcCycle
  cases hpoll : wfbRxPacket s.rx .zero cycle with
  | none =>
    rw [hpoll] at hpolled
    cases hpolled with
    | exit hresult hnext => exact .exit hresult hnext
  | some r =>
    rw [hpoll] at hpolled
    simp only [Option.bind_eq_bind, Option.bind_some]
    cases hpolled with
    | idle hresult =>
      rw [if_neg (by omega)]
      exact .quiet _ hs rfl fun h => absurd h (by omega)
    | empty hresult hnext rx' =>
      rw [if_pos (show (0 : Int) < 1 by decide)]
      have hzero : rcFresh s.rc RxPacket.zero.data := (hfresh _).mpr (by decide)
      rcases rcPacket_spec s.rc { RxPacket.zero with adapter := cycle.adapter } with
        ⟨-, hpub⟩ | ⟨hold, -, -⟩
      · rw [hpub]
        exact .empty _ (hseq _) hresult hnext
      · exact absurd hzero hold
    | frame hresult c hnext haccepted rx' rxData hdata =>
      rw [if_pos (show (0 : Int) < 1 by decide)]
      rcases rcPacket_spec s.rc rxData with ⟨hnew, hpub⟩ | ⟨hold, hpub, hsame⟩
      · rw [hpub, hdata]
        exact .apply _ (hseq _) hresult c hnext haccepted (by rw [← hfresh, ← hdata]; exact hnew)
      · rw [hpub]
        exact .quiet _ (hseq _) hsame fun _ =>
          ⟨c, hnext, fun hlt => hold (by rw [hfresh, hdata]; exact hlt)⟩

/-- One cycle. -/
theorem commanded_iff {count : Nat} {s : RcMain} (hs : s.rc.lastSeqno = 0) (cycle : Cycle count) :
    Commanded s cycle ↔ FramesWhole s cycle := by
  have hcycled := rcCycle_spec hs cycle
  unfold Commanded FramesWhole
  generalize rcCycle s cycle = r at hcycled
  cases hcycled with
  | quiet s' _ hdata hcause =>
    refine iff_of_true (fun s₁ pub h => ?_) fun hresult => ?_
    · obtain ⟨rfl, rfl⟩ := Prod.mk.inj (Option.some.inj h)
      exact ⟨fun v hv => absurd hv (by simp), fun _ => hdata⟩
    · obtain ⟨c, hnext, hold⟩ := hcause hresult
      refine ⟨by simp [hnext], ?_⟩
      intro c' hnext' _ hfresh
      obtain rfl := NextEx.frame.inj (hnext.symm.trans hnext')
      exact absurd hfresh hold
  | empty s' _ hresult hnext =>
    refine iff_of_false (fun h => ?_) fun h => (h hresult).1 hnext
    obtain ⟨-, c, hframe, -⟩ := (h s' _ rfl).1 _ rfl
    simp [hnext] at hframe
  | apply s' _ hresult c hnext haccepted hfresh =>
    constructor
    · intro h _
      obtain ⟨-, c', hnext', hholds, -⟩ := (h s' _ rfl).1 _ rfl
      obtain rfl := NextEx.frame.inj (hnext.symm.trans hnext')
      refine ⟨by simp [hnext], ?_⟩
      intro c₁ hnext₁ _ _
      obtain rfl := NextEx.frame.inj (hnext.symm.trans hnext₁)
      exact hholds
    · intro h s₁ pub hs₁
      obtain ⟨rfl, rfl⟩ := Prod.mk.inj (Option.some.inj hs₁)
      have hholds := (h hresult).2 c hnext haccepted hfresh
      refine ⟨fun v hv => ⟨hresult, c, hnext, hholds, ?_⟩, fun hnone => absurd hnone (by simp)⟩
      rw [← Option.some.inj hv]
      exact rcDecode_congr fun i hi => rxBody_apply hholds (by decide) hi
  | exit hresult hcause =>
    apply iff_of_true (fun s₁ pub h => absurd h (by simp))
    intro _
    rcases hcause with hnext | ⟨c, hnext, hrejected⟩
    · exact ⟨by simp [hnext], fun c' hnext' => absurd (hnext.symm.trans hnext') (by simp)⟩
    · refine ⟨by simp [hnext], ?_⟩
      intro c' hnext' haccepted
      obtain rfl := NextEx.frame.inj (hnext.symm.trans hnext')
      exact absurd haccepted hrejected

theorem rcStep_lastSeqno {count : Nat} (s : RcMain) (cycle : Cycle count) (s' : RcMain)
    (hs : s.rc.lastSeqno = 0) (h : rcStep s cycle = some s') : s'.rc.lastSeqno = 0 := by
  have hcycled := rcCycle_spec hs cycle
  obtain ⟨r, hr, rfl⟩ := Option.map_eq_some_iff.mp h
  rw [hr] at hcycled
  cases hcycled with
  | quiet _ hseq _ _ | empty _ hseq _ _ | apply _ hseq _ _ _ _ _ => exact hseq

/-- **Commands come only from the air**, in every cycle of a run, if and only if every descriptor
that is ready has a packet and every frame applied holds all fields. -/
theorem control_source {count : Nat} (cycles : List (Cycle count)) :
    Run.Throughout rcStep Commanded .init cycles ↔ Run.Throughout rcStep FramesWhole .init cycles :=
  Run.Throughout.congr (fun s cycle _ s' => rcStep_lastSeqno s cycle s')
    (fun _ cycle _ hs => commanded_iff hs cycle) rfl

theorem rcDecode_zero : rcDecode RxPacket.zero.data = ⟨-3, -3, fun _ => false⟩ := by
  have haxis : ∀ i < 2, rcAxis RxPacket.zero.data i = -1500 := by decide
  have hbtn : ∀ i : Fin 32,
      (read16 RxPacket.zero.data (14 + 2 * (i.val / 16))).toNat.testBit (i.val % 16) = false := by
    decide
  rw [rcDecode, haxis 0 (by decide), haxis 1 (by decide)]
  simp only [hbtn]
  norm_num

/-- A descriptor that is ready without a packet: full speed back. -/
theorem control_source_empty : ∃ cycle : Cycle 1,
    cycle.next = .empty ∧ ¬Run.Throughout rcStep Commanded .init [cycle] ∧
      (rcCycle .init cycle).map Prod.snd = some (some ⟨-3, -3, fun _ => false⟩) := by
  refine ⟨⟨1, fun _ => true, .empty, 0, fun _ => ⟨0, by decide, rfl⟩⟩, rfl, ?_, ?_⟩
  · intro h
    exact absurd rfl (((commanded_iff rfl _).mp h.1) Int.one_pos).1
  · rw [← rcDecode_zero]
    rfl

end Rhex
