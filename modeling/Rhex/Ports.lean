import Mathlib
import Rhex.VideoAir
import Rhex.WfbLink

/-!
# Who hears whom (`wfb_tx_init`, `wfb_stream_init`, `wfb_rx_init`)

The services share one radio channel. A sender writes its port into the fifth byte of its frames,
and the capture filter of a receiver compares that byte.

* `Airs` — the frames of a service, over a whole run.
* `written_of_airs` — each is written for a card and a port.
* `captureFilter_airs` — which of them pass a capture filter.
* `radio_ports` — the filter of a service lets through the frames of its own senders, and no others.
-/

namespace Rhex

open Memory

/-! ## The services -/

/-- The services that send: on the robot `camera_main`, `rhex_telemetry_main` and `rssi_tx_main`,
on the ground `rhex_tx_rc_main` and `rhex_control_main`. -/
inductive RadioSender where
  | camera | telemetry | rssi | txRc | control
deriving DecidableEq

/-- The services that receive: on the ground `video_main`, `telemetry_rx_main` and `rssi_rx_main`,
on the robot `rc_main`. -/
inductive RadioReceiver where
  | video | telemetry | rssi | rc
deriving DecidableEq

namespace RadioSender

/-- The port that is given to `wfb_tx_init` and `wfb_stream_init`. -/
def port : RadioSender → Nat
  | camera => 0
  | telemetry => 1
  | rssi => 63
  | txRc => 1
  | control => 1

/-- `use_cts`; the packet type of the stream is that of data frames. -/
def useCts : RadioSender → Bool
  | camera => true
  | telemetry => false
  | rssi => true
  | txRc => false
  | control => false

end RadioSender

/-- The port that is given to `wfb_rx_init` and `wfb_rx_stream_init`. -/
def RadioReceiver.port : RadioReceiver → Nat
  | video => 0
  | telemetry => 1
  | rssi => 63
  | rc => 30

/-- The senders that a service hears. -/
def RadioReceiver.hears : RadioReceiver → RadioSender → Bool
  | video, .camera => true
  | telemetry, .telemetry => true
  | telemetry, .txRc => true
  | telemetry, .control => true
  | rssi, .rssi => true
  | _, _ => false

/-! ## The frames of a service -/

/-- A call of `wfb_tx_send`, or of `wfb_tx_send_raw`. -/
structure RadioWrite where
  seqno : UInt32
  data : Buf
  len : UInt16
  addHeader : Bool

/-- Calls one after the other, and the frames of the last of them. -/
def wfbWrites (types : List Nat) (bufs : TxBuffers) (earlier : List RadioWrite) (e : RadioWrite) :
    Option (List (List UInt8)) := do
  let bufs ← earlier.foldlM
    (fun bufs e => (wfbWrite types e.seqno e.data e.len e.addHeader bufs).map Prod.fst) bufs
  (wfbWrite types e.seqno e.data e.len e.addHeader bufs).map Prod.snd

/-- What a service has on the air in some run: the radiotap header of a frame is for the driver. -/
inductive Airs : RadioSender → List UInt8 → Prop where
  | stream {malloc : Nat → Buf} {env : TxEnv} {calls : List (Buf × UInt16)} {s s' : TxState}
      {blocks : List TxBlock} {block : TxBlock} {p : TxPacket} {frame : List UInt8}
      (hinit : wfbStreamInitRadio RadioSender.camera.port 1 false false false malloc = some s)
      (hrun : wfbTxRun env s calls = some (s', blocks)) (hblock : block ∈ blocks)
      (hp : p ∈ block.packets) (hframe : p.frame = some frame) : Airs .camera (onAir frame)
  | write {sender : RadioSender} {b bufs : TxBuffers} {types : List Nat}
      {earlier : List RadioWrite} {e : RadioWrite} {frames : List (List UInt8)}
      {frame : List UInt8} (hsender : sender ≠ .camera)
      (hinit : wfbTxInit b sender.port sender.useCts = some bufs)
      (hrun : wfbWrites types bufs earlier e = some frames) (hframe : frame ∈ frames) :
      Airs sender (onAir frame)

/-! ## The frames are written for a port -/

/-- A frame for some card, with some body. -/
def WrittenFor (port : Nat) (useCts : Bool) (frame : List UInt8) : Prop :=
  ∃ body type, Written port useCts body frame type

theorem onAir_written {port type : Nat} {useCts : Bool} {body frame : List UInt8}
    (h : Written port useCts body frame type) :
    onAir frame = frame.drop (txRadiotap type).length := by
  obtain ⟨tail, -, rfl⟩ := h
  unfold txRadiotap
  split_ifs <;> rfl

section

variable {port : Nat} {useCts : Bool} {header : Option (List UInt8)} {data : List UInt8}
  {w w' : WriteState}

/-- One interface of `wfb_write`. -/
theorem writeIface_written {type : Nat} (hready : w.bufs.Ready port useCts)
    (hheader : HeaderOk header w.offset) (hpad : PadOk data.length w.padlen)
    (h : writeIface header data w type = some w') :
    w'.bufs.Ready port useCts ∧ HeaderOk header w'.offset ∧ PadOk data.length w'.padlen ∧
      ∃ frame, w'.frames = w.frames ++ [frame] ∧ WrittenFor port useCts frame := by
  by_cases htype : type ≤ 2
  swap
  · rw [writeIface_unknown _ _ _ htype] at h
    exact absurd h.symm (Option.some_ne_none w')
  rw [writeIface_eq _ _ _ htype] at h
  split_ifs at h
  obtain rfl := Option.some.inj h
  obtain ⟨hframe, hready', hheader', -⟩ := sentFrame_eq data hready hheader htype
  refine ⟨hready', hheader', padOk_next hready hheader htype hpad, sentFrame header data w type,
    rfl, header.getD [] ++ data, type, ?_⟩
  rw [hframe, List.append_assoc _ (header.getD []) data]
  exact ⟨_, length_frameTail_le hpad type _, rfl⟩

/-- All interfaces. -/
theorem writeIfaces_written {types : List Nat} (hready : w.bufs.Ready port useCts)
    (hheader : HeaderOk header w.offset) (hpad : PadOk data.length w.padlen)
    (hframes : ∀ frame ∈ w.frames, WrittenFor port useCts frame)
    (h : types.foldlM (writeIface header data) w = some w') :
    w'.bufs.Ready port useCts ∧ ∀ frame ∈ w'.frames, WrittenFor port useCts frame := by
  induction types generalizing w with
  | nil =>
    obtain rfl := Option.some.inj h
    exact ⟨hready, hframes⟩
  | cons type types ih =>
    rw [List.foldlM_cons] at h
    obtain ⟨w₁, hfirst, h⟩ := Option.bind_eq_some_iff.mp h
    obtain ⟨hready₁, hheader₁, hpad₁, frame, hsent, hwritten⟩ :=
      writeIface_written hready hheader hpad hfirst
    refine ih hready₁ hheader₁ hpad₁ (fun f hf => ?_) h
    rw [hsent] at hf
    rcases List.mem_append.mp hf with hf | hf
    · exact hframes f hf
    · exact List.mem_singleton.mp hf ▸ hwritten

/-- **A call of `wfb_write`** that returns. -/
theorem wfbWrite_written {types : List Nat} {bufs bufs' : TxBuffers}
    (hready : bufs.Ready port useCts) {seqno : UInt32} {payload : Buf} {len : UInt16}
    {addHeader : Bool} {frames : List (List UInt8)}
    (h : wfbWrite types seqno payload len addHeader bufs = some (bufs', frames)) :
    bufs'.Ready port useCts ∧ ∀ frame ∈ frames, WrittenFor port useCts frame := by
  rw [wfbWrite] at h
  obtain ⟨w', hrun, h⟩ := Option.bind_eq_some_iff.mp h
  obtain ⟨rfl, rfl⟩ := Prod.mk.inj (Option.some.inj h)
  have hheader : HeaderOk (if addHeader then some (frameHeader seqno len) else none) 0 := by
    refine ⟨fun hdr hsome => ?_, fun _ => rfl⟩
    split_ifs at hsome
    obtain rfl := Option.some.inj hsome
    rfl
  exact writeIfaces_written hready hheader ⟨Nat.zero_le _, fun _ => rfl⟩
    (fun f hf => absurd hf List.not_mem_nil) hrun

/-- **The calls of a run.** -/
theorem wfbWrites_written {types : List Nat} {bufs : TxBuffers} (hready : bufs.Ready port useCts)
    {earlier : List RadioWrite} {e : RadioWrite} {frames : List (List UInt8)}
    (h : wfbWrites types bufs earlier e = some frames) :
    ∀ frame ∈ frames, WrittenFor port useCts frame := by
  induction earlier generalizing bufs with
  | nil =>
    obtain ⟨⟨bufs', frames'⟩, hlast, rfl⟩ := Option.map_eq_some_iff.mp h
    exact (wfbWrite_written hready hlast).2
  | cons first earlier ih =>
    rw [wfbWrites, List.foldlM_cons, Option.bind_eq_bind, Option.bind_eq_bind, Option.bind_assoc]
      at h
    obtain ⟨bufs₁, hfirst, h⟩ := Option.bind_eq_some_iff.mp h
    obtain ⟨⟨bufs', frames'⟩, hsent, rfl⟩ := Option.map_eq_some_iff.mp hfirst
    exact ih (wfbWrite_written hready hsent).1 h

end

/-- **Every frame of a service** is written for its port. -/
theorem written_of_airs {sender : RadioSender} {air : List UInt8} (h : Airs sender air) :
    ∃ frame, air = onAir frame ∧ WrittenFor sender.port sender.useCts frame := by
  cases h with
  | @stream malloc env calls s s' blocks block p frame hinit hrun hblock hp hframe =>
    obtain ⟨t, hstart, -, hheaded⟩ :=
      @wfbStreamInitRadio_spec RadioSender.camera.port 1 _ rfl false false false malloc
    obtain rfl := Option.some.inj (hinit.symm.trans hstart)
    have hheader := (wfbTxRun_headed hheaded hrun).2 block hblock p hp frame hframe
    refine ⟨frame, rfl, p.payload, 1, [], Nat.zero_le _, ?_⟩
    rw [hheader, List.append_nil]
    rfl
  | @write _ b bufs types earlier e frames frame hsender hinit hrun hframe =>
    obtain ⟨bufs', hstart, hready⟩ := wfbTxInit_ready b sender.port sender.useCts
    obtain rfl := Option.some.inj (hinit.symm.trans hstart)
    exact ⟨frame, rfl, wfbWrites_written hready hrun frame hframe⟩

theorem captureFilter_airs {sender : RadioSender} {air rt fcs : List UInt8} {c : Capture}
    (hair : Airs sender air) (hrt : ValidRadiotap rt) (hheard : Heard c rt (air ++ fcs))
    (rxPort : Nat) :
    captureFilter rxPort c = true ↔ portEncoded sender.port = portEncoded rxPort := by
  obtain ⟨frame, rfl, body, type, hwritten⟩ := written_of_airs hair
  rw [onAir_written hwritten] at hheard
  exact captureFilter_written hwritten hrt hheard rxPort

/-- **Who hears whom.** Whatever the services have sent, and behind whichever radiotap header it
arrives, a frame passes the capture filter of a receiving service exactly if it is of one of the
senders that this service hears: video, telemetry and link status reach their receivers and no
others; the receiver of the telemetry hears the ground station's own frames for the robot too, and
the robot hears no sender at all. -/
theorem radio_ports {sender : RadioSender} {air rt fcs : List UInt8} {c : Capture}
    (hair : Airs sender air) (hrt : ValidRadiotap rt) (hheard : Heard c rt (air ++ fcs))
    (receiver : RadioReceiver) :
    captureFilter receiver.port c = true ↔ receiver.hears sender = true := by
  rw [captureFilter_airs hair hrt hheard]
  cases sender <;> cases receiver <;> decide

/-- A record of the telemetry, sent to a Ralink card. -/
theorem radio_ports_telemetry : ∃ air c, Airs .telemetry air ∧
    Heard c [0, 0, 8, 0, 0, 0, 0, 0] (air ++ []) ∧
      (captureFilter RadioReceiver.telemetry.port c = true ↔
        RadioReceiver.telemetry.hears .telemetry = true) := by
  obtain ⟨bufs, hinit, -⟩ :=
    wfbTxInit_ready ⟨⟨0, fun _ => 0⟩, ⟨0, fun _ => 0⟩, ⟨0, fun _ => 0⟩⟩ 1 false
  obtain ⟨frame, hrun, hlen⟩ : ∃ frame,
      wfbWrites [0] bufs [] ⟨7, ofList [1, 2, 3], 3, true⟩ = some [frame] ∧
        frame.length = 41 := by
    obtain rfl := Option.some.inj hinit
    exact ⟨_, rfl, rfl⟩
  have hair : Airs .telemetry (onAir frame) :=
    .write (by decide) hinit hrun (List.mem_singleton_self frame)
  have hshort : ([0, 0, 8, 0, 0, 0, 0, 0] ++ (onAir frame ++ [])).length < 2 ^ 32 := by
    simp only [onAir, List.length_append, List.length_drop, hlen, List.length_cons, List.length_nil]
    omega
  have hheard := heard_ofList _ _ hshort
  exact ⟨_, _, hair, hheard, radio_ports hair ⟨by decide, by decide⟩ hheard .telemetry⟩

end Rhex
