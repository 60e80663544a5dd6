import Mathlib
import Rhex.Telemetry
import Rhex.WfbLink

/-!
# The telemetry link

A frame of `wfb_tx_send`, its radiotap header replaced on the way, is parsed by
`wfb_rx_packet_interface` and `process_packet` as what was sent.
-/

namespace Rhex

open Memory

/-- The frame as the receiver parses it. -/
def ParsedAs (e : Send) (rxData : RxPacket) : Prop :=
  headerSeqnumber rxData.data = e.seqno ∧ headerLength rxData.data = e.len ∧
    ∀ s now sendtoOk, ∃ r, processPacket s rxData now sendtoOk = some r ∧
      ∀ datagram, r.2 = .forwarded datagram → datagram = slice e.data 0 e.len.toNat

/-- The fields of a body that starts with the header of `wfb_tx_send`. -/
theorem parsedAs_of_slice {e : Send} {rxData : RxPacket} {tail : List UInt8}
    (hlen : e.len.toNat ≤ 400)
    (h : slice rxData.data 0
        (frameHeader e.seqno e.len ++ (slice e.data 0 e.len.toNat ++ tail)).length =
      frameHeader e.seqno e.len ++ (slice e.data 0 e.len.toNat ++ tail)) : ParsedAs e rxData := by
  obtain ⟨hheader, hrest⟩ := slice_append h
  obtain ⟨hseq, hlength⟩ := slice_append hheader
  have hseqnumber : headerSeqnumber rxData.data = e.seqno := read32_of_slice hseq
  have hheaderLen : headerLength rxData.data = e.len := read16_of_slice hlength
  have hdata : headerData rxData.data = slice e.data 0 e.len.toNat := by
    have := (slice_append hrest).1
    rw [length_slice] at this
    rw [headerData, hheaderLen]
    exact this
  refine ⟨hseqnumber, hheaderLen, ?_⟩
  intro s now sendtoOk
  rw [← hdata]
  exact processPacket_datagram s now sendtoOk (by rw [hheaderLen]; exact hlen)

/-- Whatever radiotap header stands before the frame and whatever FCS behind it, the receiver parses
it as what was sent. -/
def ParsedOnAir (e : Send) (frame : List UInt8) (type : Nat) : Prop :=
  ∀ rt fcs c, ValidRadiotap rt → fcs.length ≤ 4 →
    Heard c rt (frame.drop (txRadiotap type).length ++ fcs) → ∀ nsData interface,
      ∃ interface' rxData, wfbRxPacketInterface nsData interface .zero (.frame c) =
        some (1, interface', rxData) ∧ ParsedAs e rxData

theorem parsedOnAir_of_written {port : Nat} {useCts : Bool} {type : Nat} {e : Send}
    (hfits : Fits port useCts e.len.toNat type) {frame : List UInt8}
    (hframe : Written port useCts (frameHeader e.seqno e.len ++ slice e.data 0 e.len.toNat) frame
      type) : ParsedOnAir e frame type := by
  intro rt fcs c hrt hfcs hheard nsData interface
  obtain ⟨interface', rxData, tail, hrun, hbody⟩ :=
    received_of_written hframe hfits hrt hfcs hheard nsData interface
  exact ⟨interface', rxData, hrun, parsedAs_of_slice hfits.le hbody⟩

/-- **Telemetry framing.** What `wfb_tx_send` writes, to cards of any types and after any earlier
sends, is parsed as the number, the length and the data that were sent. -/
theorem telemetry_roundtrip (b : TxBuffers) (port : Nat) (useCts : Bool) (types : List Nat)
    (earlier : List Send)
    (hearlier : ∀ e ∈ earlier, ∀ type ∈ types, Fits port useCts e.len.toNat type)
    (e : Send) (hfits : ∀ type ∈ types, Fits port useCts e.len.toNat type) :
    ∃ bufs₀ bufs bufs' frames, wfbTxInit b port useCts = some bufs₀ ∧
      wfbTxSends types bufs₀ earlier = some bufs ∧
      wfbTxSend types e.seqno e.data e.len bufs = some (bufs', frames) ∧
      List.Forall₂ (ParsedOnAir e) frames types := by
  obtain ⟨bufs₀, hinit, hready₀⟩ := wfbTxInit_ready b port useCts
  obtain ⟨bufs, hearlierRun, hready⟩ := wfbTxSends_ready earlier hearlier hready₀
  obtain ⟨bufs', frames, hsend, -, hwritten⟩ :=
    wfbTxSend_spec hready types e.seqno e.data e.len hfits
  refine ⟨bufs₀, bufs, bufs', frames, hinit, hearlierRun, hsend, ?_⟩
  rw [List.forall₂_iff_get] at hwritten ⊢
  refine ⟨hwritten.1, ?_⟩
  intro i hi hi'
  exact parsedOnAir_of_written (hfits _ (List.get_mem _ _)) (hwritten.2 i hi hi')

/-- Three cards, one of each type, and a send after another. -/
theorem telemetry_roundtrip_cards :
    ∃ bufs₀ bufs bufs' frames,
      wfbTxInit ⟨⟨0, fun _ => 0⟩, ⟨0, fun _ => 0⟩, ⟨0, fun _ => 0⟩⟩ 1 false = some bufs₀ ∧
      wfbTxSends [0, 1, 2] bufs₀ [⟨6, ofList [9, 9], 2⟩] = some bufs ∧
      wfbTxSend [0, 1, 2] 7 (ofList [1, 2, 3, 4, 5]) 5 bufs = some (bufs', frames) ∧
      List.Forall₂ (ParsedOnAir ⟨7, ofList [1, 2, 3, 4, 5], 5⟩) frames [0, 1, 2] :=
  telemetry_roundtrip _ 1 false [0, 1, 2] [⟨6, ofList [9, 9], 2⟩] (by decide)
    ⟨7, ofList [1, 2, 3, 4, 5], 5⟩ (by decide)

end Rhex
