import Mathlib
import Rhex.Capture
import Rhex.WfbTx

/-!
# From `wfb_tx_send` to `wfb_rx_packet_interface`

The radio delivers a frame with another radiotap header, and perhaps with an FCS behind it.

* `captureFilter_written` — which capture filters a frame passes.
* `received_of_written` — what the receiver finds in a frame that it takes over.
-/

namespace Rhex

open Memory

/-! ## Sends -/

/-- The arguments of a call of `wfb_tx_send`. -/
structure Send where
  seqno : UInt32
  data : Buf
  len : UInt16

/-- Calls of `wfb_tx_send`, one after the other. -/
def wfbTxSends (types : List Nat) (bufs : TxBuffers) (sends : List Send) : Option TxBuffers :=
  sends.foldlM (fun bufs e => (wfbTxSend types e.seqno e.data e.len bufs).map Prod.fst) bufs

theorem wfbTxSends_ready {port : Nat} {useCts : Bool} {types : List Nat} (sends : List Send)
    (hfits : ∀ e ∈ sends, ∀ type ∈ types, Fits port useCts e.len.toNat type) {bufs : TxBuffers}
    (hready : bufs.Ready port useCts) :
    ∃ bufs', wfbTxSends types bufs sends = some bufs' ∧ bufs'.Ready port useCts := by
  induction sends generalizing bufs with
  | nil => exact ⟨bufs, rfl, hready⟩
  | cons e sends ih =>
    obtain ⟨bufs₁, _, hsend, hready₁, -⟩ :=
      wfbTxSend_spec hready types e.seqno e.data e.len (hfits e List.mem_cons_self)
    obtain ⟨bufs', hrun, hready'⟩ := ih (fun x hx => hfits x (List.mem_cons_of_mem e hx)) hready₁
    refine ⟨bufs', ?_, hready'⟩
    rw [wfbTxSends, List.foldlM_cons, hsend]
    exact hrun

theorem Fits.le {port : Nat} {useCts : Bool} {len type : Nat} (h : Fits port useCts len type) :
    len ≤ 400 := by
  have hlen := h.2
  simp only [packetBufferSize, length_txRadiotap] at hlen
  split_ifs at hlen <;> omega

theorem Written.length_le {port : Nat} {useCts : Bool} {seqno : UInt32} {data : Buf} {len : UInt16}
    {frame : List UInt8} {type : Nat}
    (h : Written port useCts (frameHeader seqno len ++ slice data 0 len.toNat) frame type)
    (hfits : Fits port useCts len.toNat type) : frame.length ≤ packetBufferSize + 18 := by
  obtain ⟨tail, htail, rfl⟩ := h
  have hlen := hfits.2
  simp only [List.length_append, length_slice, frameHeader, length_le32, length_le16]
  omega

/-! ## The 802.11 header at the receiver -/

theorem frameKind_ieeeHeader (interface : MonitorInterface) (type port : Nat) (useCts : Bool) :
    (frameKind interface 0 (ofList (ieeeHeader type port useCts) 1)).1 =
      (ieeeHeader type port useCts).length := by
  unfold ieeeHeader
  split
  · rfl
  · cases useCts <;> rfl
  · rfl

theorem le_length_ieeeHeader (type port : Nat) (useCts : Bool) :
    5 ≤ (ieeeHeader type port useCts).length := by
  rw [length_ieeeHeader]
  split_ifs <;> decide

/-- The first four bytes of each 802.11 header are of a kind that the filters let through, and the
fifth is the port. -/
theorem ieeeHeader_ether (type port : Nat) (useCts : Bool) :
    let ether := ofList (ieeeHeader type port useCts)
    ((ether 0 == 0x08 && ether 1 == 0x01) || (ether 0 == 0x08 && ether 1 == 0x02) ||
      (ether 0 == 0xb4 && ether 1 == 0x01 && ether 2 == 0x00 && ether 3 == 0x00)) = true ∧
      ether 4 = portEncoded port := by
  unfold ieeeHeader
  split
  · exact ⟨rfl, rfl⟩
  · cases useCts <;> exact ⟨rfl, rfl⟩
  · exact ⟨rfl, rfl⟩

variable {port : Nat} {useCts : Bool} {body frame rt fcs : List UInt8} {type : Nat} {c : Capture}

/-- **The capture filter** of a port lets through what was sent to a port with the same byte. -/
theorem captureFilter_written (hframe : Written port useCts body frame type)
    (hrt : ValidRadiotap rt) (hheard : Heard c rt (frame.drop (txRadiotap type).length ++ fcs))
    (rxPort : Nat) : captureFilter rxPort c = true ↔ portEncoded port = portEncoded rxPort := by
  obtain ⟨tail, -, rfl⟩ := hframe
  simp only [List.append_assoc, List.drop_left] at hheard
  have hfive := le_length_ieeeHeader type port useCts
  have hether : ∀ i < 5, c.data (c.headerLen + i) = ofList (ieeeHeader type port useCts) i := by
    intro i hi
    rw [hheard.ether hrt (by rw [List.length_append]; omega), ofList, ofList,
      List.getD_append _ _ _ _ (by omega)]
  have hcaplen : c.headerLen + 5 ≤ c.caplen.toNat := by
    have hlen := hheard.len
    rw [List.length_append, List.length_append] at hlen
    rw [hheard.headerLen hrt, hheard.caplen]
    omega
  obtain ⟨hkind, hport⟩ := ieeeHeader_ether type port useCts
  unfold captureFilter
  simp only [hether 0 (by decide), hether 1 (by decide), hether 2 (by decide), hether 3 (by decide),
    hether 4 (by decide), hkind, hport, decide_eq_true hcaplen, Bool.and_self, Bool.true_and]
  exact beq_iff_eq

/-- **A frame of `wfb_tx_send`** that reaches `wfb_rx_packet_interface` is taken over, with what was
sent at the start of its body. -/
theorem received_of_written {seqno : UInt32} {data : Buf} {len : UInt16}
    (hframe : Written port useCts (frameHeader seqno len ++ slice data 0 len.toNat) frame type)
    (hfits : Fits port useCts len.toNat type) (hrt : ValidRadiotap rt) (hfcs : fcs.length ≤ 4)
    (hheard : Heard c rt (frame.drop (txRadiotap type).length ++ fcs)) (nsData : Nat)
    (interface : MonitorInterface) : ∃ interface' rxData tail,
      wfbRxPacketInterface nsData interface .zero (.frame c) = some (1, interface', rxData) ∧
      slice rxData.data 0 (frameHeader seqno len ++ (slice data 0 len.toNat ++ tail)).length =
        frameHeader seqno len ++ (slice data 0 len.toNat ++ tail) := by
  obtain ⟨tail, htail, rfl⟩ := hframe
  have hlen := hfits.le
  simp only [List.append_assoc, List.drop_left] at hheard
  have hmtu :
      (frameHeader seqno len ++ (slice data 0 len.toNat ++ (tail ++ fcs))).length ≤ maxMtu := by
    simp only [List.length_append, length_slice, frameHeader, length_le32, length_le16, maxMtu]
    omega
  have htwo : 2 ≤ (ieeeHeader type port useCts).length :=
    le_trans (by decide) (le_length_ieeeHeader type port useCts)
  obtain ⟨haccepted, hbody⟩ :=
    hheard.body hrt htwo (frameKind_ieeeHeader interface type port useCts) hmtu
  obtain ⟨rxData, hrun, hdata, -⟩ := receiveFrame_spec nsData haccepted
  rw [← hdata] at hbody
  exact ⟨_, rxData, tail ++ fcs, hrun, hbody⟩

end Rhex
