import Mathlib
import Rhex.FilteredFrames
import Rhex.StreamTx
import Rhex.WfbTx

/-!
# The headers of a video frame (`wfb_tx_rawsock.c`)

`wfb_stream_init` puts a radiotap header and an 802.11 header into the buffer of the stream, and
`pb_transmit_packet` writes the sequence number and the packet behind them, at the length that the
header builder returned. On its way the radiotap header is replaced by the one of the receiving
card.

* `packetHeaderInit`, `packetHeaderInit80211N` — the two header builders.
* `wfbStreamInitRadio` — `wfb_stream_init` with its choice of a header builder.
* `RoundTrip` — the receiver finds the headers, the sequence number and the packet again.
* `streamFrame_roundTrip` — it does exactly without MCS: the builder for MCS does not count the
  radiotap header.
-/

namespace Rhex

open Memory

/-! ## Header builders -/

/-- `port_encoded` of the header builders, as it is stored in a byte. -/
def streamPortEncoded (port : Int) : UInt8 := .ofInt (port * 2 + 1)

/-- The 802.11 header of a packet type, with its port; other types end the program. -/
def streamIeeeHeader (port : Int) : Nat → Option (List UInt8)
  | 0 => some (u8aIeeeHeaderDataShort (streamPortEncoded port))
  | 1 => some (u8aIeeeHeaderData (streamPortEncoded port))
  | 2 => some (u8aIeeeHeaderRts (streamPortEncoded port))
  | _ => none

/-- `u8aRadiotapHeader80211N`, with the last three bytes that `wfb_stream_init` stores. -/
def u8aRadiotapHeader80211NStream (mcsKnown mcsFlags rate : UInt8) : List UInt8 :=
  [0x00, 0x00, 0x0d, 0x00, 0x00, 0x80, 0x08, 0x00, 0x08, 0x00, mcsKnown, mcsFlags, rate]

/-- `packet_header_init80211N`: the buffer, and the length that is returned. -/
def packetHeaderInit80211N (packetHeader : Buf) (radiotap : List UInt8) (type : Nat) (port : Int) :
    Option (Buf × Nat) := do
  let buf := memcpy packetHeader 0 radiotap
  let ieee ← streamIeeeHeader port type
  some (memcpy buf radiotap.length ieee, ieee.length)

/-- `packet_header_init`: the buffer, and the length that is returned. -/
def packetHeaderInit (packetHeader : Buf) (type rate : Nat) (port : Int) :
    Option (Buf × Nat) := do
  let rateByte ← dataRateByte rate
  let radiotap := u8aRadiotapHeader rateByte
  let buf := memcpy packetHeader 0 radiotap
  let ieee ← streamIeeeHeader port type
  some (memcpy buf radiotap.length ieee, radiotap.length + ieee.length)

/-- `mcs_known`: MCS index, bandwidth, guard interval, STBC and FEC. -/
def mcsKnown : UInt8 := 0x02 ||| 0x01 ||| 0x04 ||| 0x20 ||| 0x10

/-- `mcs_flags`. -/
def mcsFlags (useSTBC useLDPC : Bool) : UInt8 :=
  let flags : UInt8 := 0
  let flags := if useSTBC then flags ||| (1 : UInt8) <<< 5 else flags
  if useLDPC then flags ||| 0x10 else flags

/-- `wfb_stream_init`, with the radio header that it builds; `none` is a call of `exit`. -/
def wfbStreamInitRadio (port : Int) (packetType : Nat) (useMCS useSTBC useLDPC : Bool)
    (malloc : Nat → Buf) : Option TxState := do
  let (buf, phdrLen) ←
    if useMCS then
      packetHeaderInit80211N (fun _ => 0)
        (u8aRadiotapHeader80211NStream mcsKnown (mcsFlags useSTBC useLDPC) (.ofNat paramDataRate))
        packetType port
    else packetHeaderInit (fun _ => 0) packetType paramDataRate port
  some { wfbStreamInit [] malloc with buf, phdrLen }

/-! ## The round trip -/

/-- What is on the air: the radiotap header, of the length stated in its bytes 2 and 3, is for the
driver. -/
def onAir (frame : List UInt8) : List UInt8 := frame.drop (read16 (ofList frame) 2).toNat

/-- `wfb_rx_stream_interface` accepts the frame and hands the payload to `process_payload`, as
`receiveVideo_hands` has it. -/
structure Hands (interface : MonitorInterface) (c : Capture) (payload : List UInt8) : Prop where
  accepted : StreamAccepted interface c
  bytes : slice (c.packet interface).data 0 (c.packet interface).size = payload

/-- The 802.11 header on the air is whole, and behind any radiotap header the receiver finds the
sequence number and the packet. -/
structure RoundTrip (port : Int) (type : Nat) (seqNr : UInt32) (content frame : List UInt8) :
    Prop where
  header : ∃ ieee, streamIeeeHeader port type = some ieee ∧ ieee <+: onAir frame
  parsed : ∀ rt c, ValidRadiotap rt → Heard c rt (onAir frame) → ∀ interface,
    Hands interface c (le32 seqNr ++ content)

/-! ## The transmitter -/

/-- The buffer of the stream starts with the header, which ends at `phdr_len`. -/
structure Headed (header : List UInt8) (s : TxState) : Prop where
  phdrLen : s.phdrLen = header.length
  buf : Stored s.buf 0 header

namespace Headed

variable {header : List UInt8} {s : TxState}

/-- A packet is written behind the header, and leaves it alone. -/
theorem transmit (hs : Headed header s) (seqNr : UInt32) (packetData : Buf) (packetLength : Nat) :
    Headed header (pbTransmitPacket s seqNr packetData packetLength).1 ∧
      (pbTransmitPacket s seqNr packetData packetLength).2 =
        header ++ (le32 seqNr ++ slice packetData 0 packetLength) := by
  have hphdr := hs.phdrLen
  have hbuf : slice (pbTransmitPacket s seqNr packetData packetLength).1.buf 0 header.length =
      header := by
    simp only [pbTransmitPacket]
    rw [slice_memcpy_before (by omega), slice_memcpy_before (by omega)]
    exact hs.buf
  refine ⟨⟨hphdr, hbuf⟩, ?_⟩
  have hdrop := (pbTransmitPacket_spec s seqNr packetData packetLength).1
  have htake : (pbTransmitPacket s seqNr packetData packetLength).2.take s.phdrLen = header := by
    rw [hphdr, ← hbuf]
    simp only [pbTransmitPacket, length_slice]
    exact take_slice _ 0 (by omega)
  rw [← List.take_append_drop s.phdrLen (pbTransmitPacket s seqNr packetData packetLength).2, hdrop,
    htake]

end Headed

/-- A call of `pb_transmit_packet`. -/
structure PacketCall where
  seqNr : UInt32
  packetData : Buf
  packetLength : Nat

/-- The stream after a sequence of packets. -/
def transmitPackets (s : TxState) (calls : List PacketCall) : TxState :=
  calls.foldl (fun s p => (pbTransmitPacket s p.seqNr p.packetData p.packetLength).1) s

theorem Headed.packets {header : List UInt8} {s : TxState} (hs : Headed header s)
    (calls : List PacketCall) : Headed header (transmitPackets s calls) := by
  induction calls generalizing s with
  | nil => exact hs
  | cons p calls ih => exact ih (hs.transmit p.seqNr p.packetData p.packetLength).1

theorem streamIeeeHeader_spec (port : Int) {type : Nat} (htype : type ≤ 2) :
    ∃ ieee, streamIeeeHeader port type = some ieee ∧ 5 ≤ ieee.length ∧ ieee.length ≤ 24 ∧
      ∀ interface, streamHeaderLength interface (ofList ieee 1) = ieee.length := by
  interval_cases type
  · exact ⟨_, rfl, by simp [u8aIeeeHeaderDataShort], by simp [u8aIeeeHeaderDataShort], fun _ => rfl⟩
  · exact ⟨_, rfl, by simp [u8aIeeeHeaderData], by simp [u8aIeeeHeaderData], fun _ => rfl⟩
  · exact ⟨_, rfl, by simp [u8aIeeeHeaderRts], by simp [u8aIeeeHeaderRts], fun _ => rfl⟩

/-- The radiotap header of a stream. -/
def streamRadiotap (useMCS useSTBC useLDPC : Bool) : List UInt8 :=
  if useMCS then
    u8aRadiotapHeader80211NStream mcsKnown (mcsFlags useSTBC useLDPC) (.ofNat paramDataRate)
  else u8aRadiotapHeader 0x18

/-- The header that frames start with: the builder for MCS returns the length of the 802.11 header
alone. -/
def streamHeader (useMCS useSTBC useLDPC : Bool) (ieee : List UInt8) : List UInt8 :=
  if useMCS then (streamRadiotap useMCS useSTBC useLDPC ++ ieee).take ieee.length
  else streamRadiotap useMCS useSTBC useLDPC ++ ieee

theorem stored_headers (b : Buf) (radiotap ieee : List UInt8) :
    Stored (memcpy (memcpy b 0 radiotap) radiotap.length ieee) 0 (radiotap ++ ieee) := by
  have happend := slice_memcpy_append (memcpy b 0 radiotap) 0 radiotap.length ieee
  rw [Nat.zero_add, slice_memcpy, ← List.length_append] at happend
  exact happend

/-- **`wfb_stream_init`** and the header of its frames. -/
theorem wfbStreamInitRadio_spec {port : Int} {type : Nat} {ieee : List UInt8}
    (hieee : streamIeeeHeader port type = some ieee) (useMCS useSTBC useLDPC : Bool)
    (malloc : Nat → Buf) : ∃ s,
      wfbStreamInitRadio port type useMCS useSTBC useLDPC malloc = some s ∧ s.Fresh ∧
        Headed (streamHeader useMCS useSTBC useLDPC ieee) s := by
  have hfresh := wfbStreamInit_fresh [] malloc
  cases useMCS with
  | false =>
    simp only [wfbStreamInitRadio, packetHeaderInit, hieee]
    exact ⟨_, rfl, ⟨hfresh.1, hfresh.2, hfresh.3⟩, by simp [streamHeader, streamRadiotap],
      stored_headers _ _ _⟩
  | true =>
    simp only [wfbStreamInitRadio, packetHeaderInit80211N, hieee]
    refine ⟨_, rfl, ⟨hfresh.1, hfresh.2, hfresh.3⟩, by simp [streamHeader], ?_⟩
    have hstored := stored_headers (fun _ => 0) (streamRadiotap true useSTBC useLDPC) ieee
    rw [← List.take_append_drop ieee.length (streamRadiotap true useSTBC useLDPC ++ ieee)]
      at hstored
    exact (stored_append hstored).1

/-! ## The receiver -/

theorem ValidRadiotap.length_lt {rt : List UInt8} (h : ValidRadiotap rt) : rt.length < 2 ^ 16 :=
  h.length ▸ UInt16.toNat_lt _

theorem Heard.wellFormed {c : Capture} {rt air : List UInt8} (hrt : ValidRadiotap rt)
    (h : Heard c rt air) : WellFormed c.data := by
  refine hrt.wellFormed.congr fun i hi => ?_
  rw [hrt.length] at hi
  have hbyte := congrFun (congrArg ofList (slice_append h.data).1) i
  rw [ofList_slice _ _ hi, Nat.zero_add] at hbyte
  exact hbyte.symm

/-- **A frame with a known 802.11 header** is handed over, behind any radiotap header. -/
theorem Heard.hands {c : Capture} {rt ieee payload : List UInt8} (hrt : ValidRadiotap rt)
    (h : Heard c rt (ieee ++ payload)) {interface : MonitorInterface} (htwo : 2 ≤ ieee.length)
    (hkind : streamHeaderLength interface (ofList ieee 1) = ieee.length)
    (hint : (rt ++ (ieee ++ payload)).length < 2 ^ 31) : Hands interface c payload := by
  have hheader := h.headerLen hrt
  have hlen := h.len
  have hoff : streamOffset interface c = rt.length + ieee.length := by
    rw [streamOffset, h.typeByte hrt htwo, hkind, hheader]
  obtain ⟨-, hair⟩ := slice_append h.data
  have hrest := (slice_append hair).2
  have hint' := hlen.trans_lt hint
  rw [List.length_append, List.length_append] at hlen
  refine ⟨⟨by omega, (h.wellFormed hrt).init ?_⟩, ?_⟩
  · rw [toInt32_of_lt hint']
    have hfits : c.headerLen ≤ c.len.toNat := by omega
    exact_mod_cast hfits
  · have hsize : (c.packet interface).size = payload.length := by
      simp only [Capture.packet, Capture.payloadData]
      omega
    rw [hsize]
    have hdata : slice (c.packet interface).data 0 payload.length =
        slice c.data (streamOffset interface c) payload.length :=
      slice_eq_iff.mpr fun k _ => by simp only [Capture.packet, Capture.payloadData, Nat.zero_add]
    rw [hdata, hoff, ← hrest]
    simp only [Nat.zero_add, length_slice]

/-- What is on the air of a frame that makes the round trip: the 802.11 header, the sequence number
and the packet. -/
theorem RoundTrip.length {port : Int} {type : Nat} {seqNr : UInt32}
    {content frame ieee : List UInt8} (h : RoundTrip port type seqNr content frame)
    (hieee : streamIeeeHeader port type = some ieee) (htwo : 2 ≤ ieee.length)
    (hkind : ∀ interface, streamHeaderLength interface (ofList ieee 1) = ieee.length)
    (hfits : (onAir frame).length + 8 < 2 ^ 32) :
    (onAir frame).length = ieee.length + (4 + content.length) := by
  obtain ⟨ieee', hsome, rest, hair⟩ := h.header
  obtain rfl := Option.some.inj (hieee.symm.trans hsome)
  have hrt : ValidRadiotap [0, 0, 8, 0, 0, 0, 0, 0] := ⟨by decide, by decide⟩
  obtain ⟨c, hheard⟩ : ∃ c, Heard c [0, 0, 8, 0, 0, 0, 0, 0] (onAir frame) := by
    refine ⟨_, heard_ofList _ _ ?_⟩
    rw [List.length_append, Nat.add_comm]
    exact hfits
  obtain ⟨⟨hle, -⟩, hbytes⟩ := h.parsed _ c hrt hheard ⟨0⟩
  rw [← hair] at hheard ⊢
  have hoff : streamOffset ⟨0⟩ c = 8 + ieee.length := by
    rw [streamOffset, hheard.typeByte hrt htwo, hkind, hheard.headerLen hrt]
    rfl
  have hlen := hheard.len
  have hsize := congrArg List.length hbytes
  simp only [Capture.packet, Capture.payloadData, length_slice, List.length_append, length_le32,
    List.length_cons, List.length_nil] at hlen hsize ⊢
  omega

/-! ## Both together -/

theorem onAir_streamHeader {port : Int} {type : Nat} (htype : type ≤ 2) {ieee : List UInt8}
    (hieee : streamIeeeHeader port type = some ieee) (useMCS useSTBC useLDPC : Bool)
    (payload : List UInt8) : onAir (streamHeader useMCS useSTBC useLDPC ieee ++ payload) =
      (streamHeader useMCS useSTBC useLDPC ieee ++ payload).drop
        (streamRadiotap useMCS useSTBC useLDPC).length := by
  interval_cases type <;> obtain rfl := Option.some.inj hieee <;> cases useMCS <;> rfl

section

variable {port : Int} {type : Nat} {ieee : List UInt8} {useSTBC useLDPC : Bool} {s : TxState}
  (htype : type ≤ 2) (hieee : streamIeeeHeader port type = some ieee) (seqNr : UInt32)
  (packetData : Buf) {packetLength : Nat}
  (hfits : packetLength + s.phdrLen + sizeofWifiPacketHeader ≤ maxPacketLength)

include htype hieee hfits

/-- Without MCS the 802.11 header, the sequence number and the packet are on the air. -/
theorem roundTrip_of_rate (hs : Headed (streamHeader false useSTBC useLDPC ieee) s) :
    RoundTrip port type seqNr (slice packetData 0 packetLength)
      (pbTransmitPacket s seqNr packetData packetLength).2 := by
  obtain ⟨_, hsome, hge, -, hkind⟩ := streamIeeeHeader_spec port htype
  obtain rfl := Option.some.inj (hieee.symm.trans hsome)
  have hphdr := hs.phdrLen
  have hair := onAir_streamHeader htype hieee false useSTBC useLDPC
    (le32 seqNr ++ slice packetData 0 packetLength)
  rw [(hs.transmit seqNr packetData packetLength).2]
  rw [streamHeader, if_neg Bool.false_ne_true] at hair hphdr ⊢
  rw [List.append_assoc, List.drop_left] at hair
  rw [List.length_append] at hphdr
  rw [List.append_assoc]
  refine ⟨⟨ieee, hieee, hair ▸ List.prefix_append _ _⟩, fun rt c hrt hheard interface => ?_⟩
  rw [hair] at hheard
  refine hheard.hands hrt (by omega) (hkind interface) ?_
  have hlt := hrt.length_lt
  simp only [List.length_append, length_le32, length_slice, sizeofWifiPacketHeader,
    maxPacketLength] at hfits ⊢
  omega

/-- With MCS the sequence number is written over the headers: 13 bytes are missing on the air. -/
theorem not_roundTrip_of_mcs (hs : Headed (streamHeader true useSTBC useLDPC ieee) s) :
    ¬RoundTrip port type seqNr (slice packetData 0 packetLength)
      (pbTransmitPacket s seqNr packetData packetLength).2 := by
  intro h
  rw [(hs.transmit seqNr packetData packetLength).2] at h
  obtain ⟨_, hsome, hge, -, hkind⟩ := streamIeeeHeader_spec port htype
  obtain rfl := Option.some.inj (hieee.symm.trans hsome)
  have hphdr := hs.phdrLen
  have hheader : (streamHeader true useSTBC useLDPC ieee).length = ieee.length := by
    simp [streamHeader]
  have hradiotap : (streamRadiotap true useSTBC useLDPC).length = 13 := rfl
  have hair := congrArg List.length (onAir_streamHeader htype hieee true useSTBC useLDPC
    (le32 seqNr ++ slice packetData 0 packetLength))
  rw [List.length_drop, List.length_append, List.length_append, length_le32, length_slice, hheader,
    hradiotap] at hair
  simp only [sizeofWifiPacketHeader, maxPacketLength] at hfits
  have hwhole := h.length hieee (by omega) hkind (by omega)
  rw [length_slice] at hwhole
  omega

end

/-- **The round trip of a video frame.** Whatever was sent before on the stream, a packet that fits
the buffer makes the round trip exactly if the stream does not use MCS. -/
theorem streamFrame_roundTrip {type : Nat} (htype : type ≤ 2) (port : Int)
    (useMCS useSTBC useLDPC : Bool) (malloc : Nat → Buf) : ∃ s,
      wfbStreamInitRadio port type useMCS useSTBC useLDPC malloc = some s ∧
        ∀ (earlier : List PacketCall) (seqNr : UInt32) (packetData : Buf) (packetLength : Nat),
          packetLength + s.phdrLen + sizeofWifiPacketHeader ≤ maxPacketLength →
          (RoundTrip port type seqNr (slice packetData 0 packetLength)
              (pbTransmitPacket (transmitPackets s earlier) seqNr packetData packetLength).2 ↔
            useMCS = false) := by
  obtain ⟨ieee, hieee, -⟩ := streamIeeeHeader_spec port htype
  obtain ⟨s, hinit, -, hs⟩ := wfbStreamInitRadio_spec hieee useMCS useSTBC useLDPC malloc
  refine ⟨s, hinit, ?_⟩
  intro earlier seqNr packetData packetLength hfits
  have hearlier := hs.packets earlier
  rw [hs.phdrLen, ← hearlier.phdrLen] at hfits
  cases useMCS with
  | false => exact iff_of_true (roundTrip_of_rate htype hieee seqNr packetData hfits hearlier) rfl
  | true =>
    exact iff_of_false (not_roundTrip_of_mcs htype hieee seqNr packetData hfits hearlier)
      (by decide)

/-- A byte in a standard data frame of port 0. -/
theorem streamFrame_roundTrip_data : ∃ s,
    wfbStreamInitRadio 0 1 false false false (fun _ _ => 0) = some s ∧
      RoundTrip 0 1 7 [0xaa] (pbTransmitPacket s 7 (ofList [0xaa]) 1).2 := by
  obtain ⟨s, hinit, hs⟩ :=
    streamFrame_roundTrip (show 1 ≤ 2 by decide) 0 false false false fun _ _ => 0
  have hphdr : s.phdrLen = 36 := by
    rw [← Option.some.inj hinit]
    rfl
  exact ⟨s, hinit, (hs [] 7 (ofList [0xaa]) 1 (by rw [hphdr]; decide)).mpr rfl⟩

/-- The same with MCS: eleven bytes of the 802.11 header are on the air. -/
theorem streamFrame_mcs : ∃ s,
    wfbStreamInitRadio 0 1 true false false (fun _ _ => 0) = some s ∧
      onAir (pbTransmitPacket s 7 (ofList [0xaa]) 1).2 =
        [0x08, 0x02, 0x00, 0x00, 0x01, 0x00, 0x00, 0x00, 0x00, 0x00, 0x13, 7, 0, 0, 0, 0xaa] ∧
      ¬RoundTrip 0 1 7 [0xaa] (pbTransmitPacket s 7 (ofList [0xaa]) 1).2 := by
  have hieee : streamIeeeHeader 0 1 = some (u8aIeeeHeaderData 1) := rfl
  obtain ⟨s, hinit, -, hs⟩ := wfbStreamInitRadio_spec hieee true false false fun _ _ => 0
  refine ⟨s, hinit, ?_, ?_⟩
  · rw [(hs.transmit 7 (ofList [0xaa]) 1).2]
    decide
  · have hphdr : s.phdrLen = 24 := hs.phdrLen
    have hfits : 1 + s.phdrLen + sizeofWifiPacketHeader ≤ maxPacketLength := by
      rw [hphdr]
      decide
    exact not_roundTrip_of_mcs (by decide) hieee 7 (ofList [0xaa]) hfits hs

end Rhex
