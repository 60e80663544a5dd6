import Mathlib
import Rhex.Rc
import Rhex.WfbLink

/-!
# The control link

The ground service `rhex_tx_rc_main` (`rhex_tx_rc.c`) relays each UDP datagram of the operator with
`wfb_tx_send`; `rc_main` is to decode it on the robot.

* `txRcCycle`, `txRcMain` — the ground service.
* `command_decoded` — a frame that reaches `rc_main` is decoded as the command of the datagram.
* `command_never_arrives` — no frame reaches it: the service sends on port 1, and the filter of
  `rc_main` is for port 30.
-/

namespace Rhex

open Memory

/-! ## The ground service -/

/-- The port that `rhex_tx_rc_main` opens with `wfb_tx_init`. -/
@[simp] abbrev txRcPort : Nat := 1

/-- The port that `rc_main` opens with `wfb_rx_init`. -/
@[simp] abbrev rcPort : Nat := 30

/-- What `recvfrom` answers: its result, and the buffer `rc_data`. -/
structure Datagram where
  dataLen : Int
  rcData : Buf

/-- `data_len`, as it is passed in 16 bits. -/
def Datagram.len (d : Datagram) : UInt16 := .ofInt d.dataLen

/-- The packet buffers, and the local `seqno` of `rhex_tx_rc_main`. -/
structure TxRcState where
  bufs : TxBuffers
  seqno : UInt32

/-- A cycle of `rhex_tx_rc_main` in which the socket is ready. -/
def txRcCycle (types : List Nat) (s : TxRcState) (d : Datagram) :
    Option (TxRcState × List (List UInt8)) :=
  (wfbTxSend types s.seqno d.rcData d.len s.bufs).map fun r => (⟨r.1, s.seqno + 1⟩, r.2)

/-- `rhex_tx_rc_main` until it has relayed some datagrams. -/
def txRcMain (types : List Nat) (b : TxBuffers) (ds : List Datagram) : Option TxRcState := do
  let bufs ← wfbTxInit b txRcPort false
  ds.foldlM (fun s d => (txRcCycle types s d).map Prod.fst) ⟨bufs, 0⟩

/-- The datagram fits the packet buffer of each card. -/
def Datagram.FitsCards (d : Datagram) (types : List Nat) : Prop :=
  ∀ type ∈ types, Fits txRcPort false d.len.toNat type

instance (d : Datagram) (types : List Nat) : Decidable (d.FitsCards types) :=
  inferInstanceAs (Decidable (∀ _ ∈ _, _))

theorem txRcCycle_spec {types : List Nat} {s : TxRcState} (hs : s.bufs.Ready txRcPort false)
    {d : Datagram} (hfits : d.FitsCards types) :
    ∃ s' frames, txRcCycle types s d = some (s', frames) ∧ s'.bufs.Ready txRcPort false ∧
      s'.seqno = s.seqno + 1 ∧
      List.Forall₂ (Written txRcPort false
        (frameHeader s.seqno d.len ++ slice d.rcData 0 d.len.toNat)) frames types := by
  obtain ⟨bufs', frames, hsend, hready, hwritten⟩ :=
    wfbTxSend_spec hs types s.seqno d.rcData d.len hfits
  exact ⟨⟨bufs', s.seqno + 1⟩, frames, by rw [txRcCycle, hsend]; rfl, hready, rfl, hwritten⟩

/-- The service numbers the datagrams, by induction on those before. -/
theorem txRcMain_spec (types : List Nat) (b : TxBuffers) (ds : List Datagram)
    (hfits : ∀ d ∈ ds, d.FitsCards types) :
    ∃ s, txRcMain types b ds = some s ∧ s.bufs.Ready txRcPort false ∧
      s.seqno = .ofNat ds.length := by
  obtain ⟨bufs, hinit, hready⟩ := wfbTxInit_ready b txRcPort false
  rw [txRcMain, hinit, Option.bind_eq_bind, Option.bind_some]
  suffices h : ∀ s : TxRcState, s.bufs.Ready txRcPort false →
      ∃ s', ds.foldlM (fun s d => (txRcCycle types s d).map Prod.fst) s = some s' ∧
        s'.bufs.Ready txRcPort false ∧ s'.seqno = s.seqno + .ofNat ds.length by
    obtain ⟨s', hrun, hready', hseqno⟩ := h ⟨bufs, 0⟩ hready
    exact ⟨s', hrun, hready', by rw [hseqno, UInt32.zero_add]⟩
  induction ds with
  | nil => exact fun s hs => ⟨s, rfl, hs, (UInt32.add_zero _).symm⟩
  | cons d ds ih =>
    intro s hs
    obtain ⟨s₁, frames, hcycle, hready₁, hseqno₁, -⟩ :=
      txRcCycle_spec hs (hfits d List.mem_cons_self)
    obtain ⟨s', hrun, hready', hseqno⟩ :=
      ih (fun x hx => hfits x (List.mem_cons_of_mem d hx)) s₁ hready₁
    refine ⟨s', ?_, hready', ?_⟩
    · rw [List.foldlM_cons, hcycle]
      exact hrun
    · rw [hseqno, hseqno₁, List.length_cons, UInt32.add_assoc, Nat.add_comm, UInt32.ofNat_add]
      rfl

/-! ## The command of a datagram -/

namespace Datagram

/-- `axis[i]`: the signed word at `2 * i`. -/
def axis (d : Datagram) (i : Nat) : Int := toInt16 (read16 d.rcData (2 * i)).toNat

/-- `data[g]`: behind the four axes. -/
def data (d : Datagram) (g : Nat) : UInt16 := read16 d.rcData (8 + 2 * g)

/-- The command that the operator sent. -/
def command (d : Datagram) : RcData where
  speed := ((d.axis 1 - 1500 : Int) : ℚ) / 500
  steering := ((d.axis 0 - 1500 : Int) : ℚ) / 500
  btn := fun i => (d.data (i.val / 16)).toNat.testBit (i.val % 16)

end Datagram

/-- The frame passes the capture filter of `rc_main`, and `rc_main` finds the number and, unless it
takes the frame for an old one, publishes the command. -/
def CommandArrives (seqno : UInt32) (d : Datagram) (c : Capture) : Prop :=
  captureFilter rcPort c = true ∧ ∀ nsData interface, ∃ interface' rxData,
    wfbRxPacketInterface nsData interface .zero (.frame c) = some (1, interface', rxData) ∧
    rcSeqno rxData.data = seqno ∧
    ∀ s, rcFresh s rxData.data → (rcPacket s rxData).2 = some d.command

theorem rcAxis_eq {data : Buf} {d : Datagram} {i : Nat}
    (hread : read16 data (6 + 2 * i) = read16 d.rcData (2 * i)) (haxis : -31268 ≤ d.axis i) :
    rcAxis data i = d.axis i - 1500 := by
  have hlt := (read16 d.rcData (2 * i)).toNat_lt
  rw [rcAxis, hread]
  simp only [Datagram.axis, toInt16, Int.bmod_def] at haxis ⊢
  split_ifs at haxis ⊢ <;> omega

/-- **The command is decoded** from a frame that `wfb_rx_packet_interface` takes over. -/
theorem command_decoded {seqno : UInt32} {d : Datagram} (hlen : 12 ≤ d.len.toNat)
    (haxes : ∀ i < 2, -31268 ≤ d.axis i) {type : Nat} (hfits : Fits txRcPort false d.len.toNat type)
    {frame rt fcs : List UInt8} {c : Capture}
    (hframe : Written txRcPort false (frameHeader seqno d.len ++ slice d.rcData 0 d.len.toNat) frame
      type)
    (hrt : ValidRadiotap rt) (hfcs : fcs.length ≤ 4)
    (hheard : Heard c rt (frame.drop (txRadiotap type).length ++ fcs)) (nsData : Nat)
    (interface : MonitorInterface) : ∃ interface' rxData,
      wfbRxPacketInterface nsData interface .zero (.frame c) = some (1, interface', rxData) ∧
      rcSeqno rxData.data = seqno ∧ rcDecode rxData.data = d.command := by
  obtain ⟨interface', rxData, tail, hrun, hbody⟩ :=
    received_of_written hframe hfits hrt hfcs hheard nsData interface
  refine ⟨interface', rxData, hrun, read32_of_slice (slice_append (slice_append hbody).1).1, ?_⟩
  have hdata := (slice_append (slice_append hbody).2).1
  rw [length_slice, Nat.zero_add, slice_eq_iff] at hdata
  have hread : ∀ off, off + 2 ≤ 12 → read16 rxData.data (6 + off) = read16 d.rcData off := by
    intro off hoff
    refine read16_congr (slice_eq_iff.mpr fun k hk => ?_)
    have := hdata (off + k) (by omega)
    rwa [Nat.zero_add, ← Nat.add_assoc] at this
  have haxis : ∀ i < 2, rcAxis rxData.data i = d.axis i - 1500 := by
    intro i hi
    exact rcAxis_eq (hread (2 * i) (by omega)) (haxes i hi)
  have hword : ∀ g < 2, read16 rxData.data (14 + 2 * g) = d.data g := by
    intro g hg
    rw [show 14 + 2 * g = 6 + (8 + 2 * g) by omega]
    exact hread (8 + 2 * g) (by omega)
  rw [rcDecode, Datagram.command, haxis 0 (by decide), haxis 1 (by decide)]
  congr 1
  funext i
  rw [hword (i.val / 16) (by omega)]

/-! ## The filter -/

/-- What is sent on the port of `rhex_tx_rc_main` does not pass the filter of `rc_main`. -/
theorem not_commandArrives {seqno : UInt32} {d : Datagram} {body frame rt : List UInt8} {type : Nat}
    {c : Capture} (hframe : Written txRcPort false body frame type) (hrt : ValidRadiotap rt)
    (hheard : Heard c rt (frame.drop (txRadiotap type).length)) : ¬CommandArrives seqno d c := by
  rintro ⟨hfilter, -⟩
  rw [← List.append_nil (frame.drop _)] at hheard
  have hport := (captureFilter_written hframe hrt hheard rcPort).mp hfilter
  exact absurd hport (by decide)

/-- **No command arrives.** Whatever the ground service relays, to whichever card, is sent on a port
that the capture filter of `rc_main` rejects. -/
theorem command_never_arrives (b : TxBuffers) (types : List Nat) (earlier : List Datagram)
    (hearlier : ∀ d ∈ earlier, d.FitsCards types) (d : Datagram) (hfits : d.FitsCards types) :
    ∃ s s' frames, txRcMain types b earlier = some s ∧ txRcCycle types s d = some (s', frames) ∧
      List.Forall₂ (fun frame type => ∀ rt c, ValidRadiotap rt →
        Heard c rt (frame.drop (txRadiotap type).length) → ¬CommandArrives s.seqno d c)
        frames types := by
  obtain ⟨s, hrun, hready, -⟩ := txRcMain_spec types b earlier hearlier
  obtain ⟨s', frames, hcycle, -, -, hwritten⟩ := txRcCycle_spec hready hfits
  refine ⟨s, s', frames, hrun, hcycle, hwritten.imp ?_⟩
  intro frame type hframe rt c hrt hheard
  exact not_commandArrives hframe hrt hheard

/-- Sixteen bytes, relayed to one card of each type. -/
theorem command_never_arrives_first :
    ∃ s s' frames,
      txRcMain [0, 1, 2] ⟨⟨0, fun _ => 0⟩, ⟨0, fun _ => 0⟩, ⟨0, fun _ => 0⟩⟩ [] = some s ∧
      txRcCycle [0, 1, 2] s ⟨16, fun _ => 0⟩ = some (s', frames) ∧
      List.Forall₂ (fun frame type => ∀ rt c, ValidRadiotap rt →
        Heard c rt (frame.drop (txRadiotap type).length) →
          ¬CommandArrives s.seqno ⟨16, fun _ => 0⟩ c) frames [0, 1, 2] :=
  command_never_arrives _ [0, 1, 2] [] (by decide) ⟨16, fun _ => 0⟩ (by decide)

/-- The first command to a Ralink card, heard behind a radiotap header without arguments, is
lost. -/
theorem command_lost :
    ∃ s s' frame c, txRcMain [0] ⟨⟨0, fun _ => 0⟩, ⟨0, fun _ => 0⟩, ⟨0, fun _ => 0⟩⟩ [] = some s ∧
      txRcCycle [0] s ⟨16, fun _ => 0⟩ = some (s', [frame]) ∧
      ValidRadiotap [0, 0, 8, 0, 0, 0, 0, 0] ∧
      Heard c [0, 0, 8, 0, 0, 0, 0, 0] (frame.drop (txRadiotap 0).length) ∧
      ¬CommandArrives s.seqno ⟨16, fun _ => 0⟩ c := by
  obtain ⟨s, hrun, hready, -⟩ :=
    txRcMain_spec [0] ⟨⟨0, fun _ => 0⟩, ⟨0, fun _ => 0⟩, ⟨0, fun _ => 0⟩⟩ [] (by decide)
  have hfits : (⟨16, fun _ => 0⟩ : Datagram).FitsCards [0] := by decide
  obtain ⟨s', frames, hcycle, -, -, hwritten⟩ := txRcCycle_spec hready hfits
  obtain ⟨frame, rest, hframe, hrest, rfl⟩ := List.forall₂_cons_right_iff.mp hwritten
  obtain rfl := List.forall₂_nil_right_iff.mp hrest
  have hrt : ValidRadiotap [0, 0, 8, 0, 0, 0, 0, 0] := ⟨by decide, by decide⟩
  have hheard := heard_ofList [0, 0, 8, 0, 0, 0, 0, 0] (frame.drop (txRadiotap 0).length) (by
    have hlen := hframe.length_le (hfits 0 List.mem_cons_self)
    simp only [packetBufferSize] at hlen
    rw [List.length_append, List.length_drop]
    simp only [List.length_cons, List.length_nil]
    omega)
  exact ⟨s, s', frame, _, hrun, hcycle, hrt, hheard, not_commandArrives hframe hrt hheard⟩

end Rhex
