import Mathlib
import Rhex.Lib.Memory

/-!
# The frame sender (`wfb_tx.c`)

`wfb_tx_send` writes a frame to each interface: a radiotap header, an 802.11 header, a header with
sequence number and length, and the data, padded to a minimal length. The frames are built in one
static buffer for each type of card.

* `wfbTxInit`, `wfbTxSend` — the two functions. `none` is a call of `exit`, or an access behind a
  buffer.
* `writeIface_eq` — the three types of card are treated alike, each with a packet buffer and a
  minimal length of its own.
* `sentFrame_eq` — the frame that an interface is sent.
* `wfbTxSend_spec` — what is written to each interface.
-/

namespace Rhex

open Memory

/-! ## Headers -/

/-- `u8aRadiotapHeader`, with its data rate. -/
def u8aRadiotapHeader (rate : UInt8) : List UInt8 :=
  [0x00, 0x00, 0x0c, 0x00, 0x04, 0x80, 0x00, 0x00, rate, 0x00, 0x00, 0x00]

/-- `u8aRadiotapHeader80211n`. -/
def u8aRadiotapHeader80211n : List UInt8 :=
  [0x00, 0x00, 0x0d, 0x00, 0x00, 0x80, 0x08, 0x00, 0x08, 0x00, 0x37, 0x30, 0x00]

/-- `u8aIeeeHeader_data`, with its port. -/
def u8aIeeeHeaderData (port : UInt8) : List UInt8 :=
  [0x08, 0x02, 0x00, 0x00, port, 0x00, 0x00, 0x00, 0x00, 0x00, 0x13, 0x22, 0x33, 0x44, 0x55, 0x66,
    0x13, 0x22, 0x33, 0x44, 0x55, 0x66, 0x00, 0x00]

/-- `u8aIeeeHeader_data_short`, with its port. -/
def u8aIeeeHeaderDataShort (port : UInt8) : List UInt8 := [0x08, 0x01, 0x00, 0x00, port]

/-- `u8aIeeeHeader_rts`, with its port. -/
def u8aIeeeHeaderRts (port : UInt8) : List UInt8 := [0xb4, 0x01, 0x00, 0x00, port]

/-- `dummydata`. -/
def dummydata : List UInt8 := List.replicate 22 0xdd

/-- The byte for `param_data_rate`; other rates end the program. -/
def dataRateByte : Nat → Option UInt8
  | 1 => some 0x02
  | 2 => some 0x04
  | 5 => some 0x0b
  | 6 => some 0x0c
  | 11 => some 0x16
  | 12 => some 0x18
  | 18 => some 0x24
  | 24 => some 0x30
  | 36 => some 0x48
  | 48 => some 0x60
  | _ => none

/-- `param_data_rate`. -/
@[simp] abbrev paramDataRate : Nat := 12

/-- `port_encoded`, as it is stored in a byte. -/
def portEncoded (port : Nat) : UInt8 := .ofNat (port * 2 + 1)

/-! ## Buffers -/

/-- The size of the packet buffers. -/
@[simp] abbrev packetBufferSize : Nat := 402

/-- A packet buffer, with the length of the headers at its start. -/
structure FrameBuffer where
  headersLen : Nat
  packetBuffer : Buf

/-- The packet buffers of the three types of card: `ral`, `ath` and `rea`. -/
structure TxBuffers where
  ral : FrameBuffer
  ath : FrameBuffer
  rea : FrameBuffer

/-- Put the headers into a packet buffer. -/
def FrameBuffer.setHeaders (b : FrameBuffer) (headers : List UInt8) : FrameBuffer :=
  ⟨headers.length, memcpy b.packetBuffer 0 headers⟩

/-- The headers for Ralink: always data short. -/
def headersRalink (rate port : UInt8) : List UInt8 :=
  u8aRadiotapHeader rate ++ u8aIeeeHeaderDataShort port

/-- The headers for Atheros: data frames with CTS protection, RTS frames without. -/
def headersAtheros (rate port : UInt8) (useCts : Bool) : List UInt8 :=
  u8aRadiotapHeader rate ++ if useCts then u8aIeeeHeaderData port else u8aIeeeHeaderRts port

/-- The headers for Realtek: RTS frames. -/
def headersRealtek (port : UInt8) : List UInt8 :=
  u8aRadiotapHeader80211n ++ u8aIeeeHeaderRts port

/-- `wfb_tx_init`, the part that fills the static buffers. -/
def wfbTxInit (b : TxBuffers) (port : Nat) (useCts : Bool) : Option TxBuffers := do
  let rate ← dataRateByte paramDataRate
  some {
    ral := b.ral.setHeaders (headersRalink rate (portEncoded port))
    ath := b.ath.setHeaders (headersAtheros rate (portEncoded port) useCts)
    rea := b.rea.setHeaders (headersRealtek (portEncoded port)) }

/-! ## Sending -/

/-- The local variables of `wfb_write` that are kept from one interface to the next, and the frames
written so far. -/
structure WriteState where
  bufs : TxBuffers
  padlen : Nat
  offset : Nat
  frames : List (List UInt8)

/-- `struct header_s`. -/
def frameHeader (seqno : UInt32) (len : UInt16) : List UInt8 := le32 seqno ++ le16 len

/-- What `wfb_write` does for one interface: in the packet buffer of the card, with a minimal
length of the data. -/
def writeCard (b : FrameBuffer) (minLen : Nat) (header : Option (List UInt8)) (data : List UInt8)
    (padlen offset : Nat) : FrameBuffer × Nat × Nat × List UInt8 :=
  let (buf, offset) := match header with
    | some h => (memcpy b.packetBuffer b.headersLen h, 6)
    | none => (b.packetBuffer, offset)
  let buf := memcpy buf (b.headersLen + offset) data
  let (buf, padlen) :=
    if data.length < minLen then
      (memcpy buf (b.headersLen + offset + data.length) (dummydata.take (minLen - data.length)),
        minLen - data.length)
    else (buf, padlen)
  (⟨b.headersLen, buf⟩, padlen, offset,
    slice buf 0 (b.headersLen + offset + data.length + padlen))

/-- The loop body of `wfb_write`, for a card of type `type`. -/
def writeIface (header : Option (List UInt8)) (data : List UInt8) (w : WriteState) (type : Nat) :
    Option WriteState :=
  let next (r : FrameBuffer × Nat × Nat × List UInt8) (bufs : TxBuffers) : Option WriteState :=
    if r.2.2.2.length > packetBufferSize then none
    else some ⟨bufs, r.2.1, r.2.2.1, w.frames ++ [r.2.2.2]⟩
  match type with
  | 0 =>
    let r := writeCard w.bufs.ral 18 header data w.padlen w.offset
    next r { w.bufs with ral := r.1 }
  | 1 =>
    let r := writeCard w.bufs.ath 5 header data w.padlen w.offset
    next r { w.bufs with ath := r.1 }
  | 2 =>
    let r := writeCard w.bufs.rea 5 header data w.padlen w.offset
    next r { w.bufs with rea := r.1 }
  | _ => none

/-- `wfb_write` over interfaces of the given types. -/
def wfbWrite (types : List Nat) (seqno : UInt32) (data : Buf) (len : UInt16) (addHeader : Bool)
    (bufs : TxBuffers) : Option (TxBuffers × List (List UInt8)) := do
  let header := if addHeader then some (frameHeader seqno len) else none
  let w ← types.foldlM (writeIface header (slice data 0 len.toNat)) ⟨bufs, 0, 0, []⟩
  some (w.bufs, w.frames)

/-- `wfb_tx_send`. -/
def wfbTxSend (types : List Nat) (seqno : UInt32) (data : Buf) (len : UInt16) (bufs : TxBuffers) :
    Option (TxBuffers × List (List UInt8)) :=
  wfbWrite types seqno data len true bufs

/-- `wfb_tx_send_raw`. -/
def wfbTxSendRaw (types : List Nat) (data : Buf) (len : UInt16) (bufs : TxBuffers) :
    Option (TxBuffers × List (List UInt8)) :=
  wfbWrite types 0 data len false bufs

/-! ## What is written -/

/-- The radiotap header of a type of card. -/
def txRadiotap (type : Nat) : List UInt8 :=
  if type = 2 then u8aRadiotapHeader80211n else u8aRadiotapHeader 0x18

/-- The 802.11 header of a type of card. -/
def ieeeHeader (type port : Nat) (useCts : Bool) : List UInt8 :=
  match type with
  | 0 => u8aIeeeHeaderDataShort (portEncoded port)
  | 1 =>
    if useCts then u8aIeeeHeaderData (portEncoded port)
    else u8aIeeeHeaderRts (portEncoded port)
  | _ => u8aIeeeHeaderRts (portEncoded port)

/-- The headers stand at the start of the packet buffer. -/
structure FrameBuffer.Ready (b : FrameBuffer) (headers : List UInt8) : Prop where
  headersLen : b.headersLen = headers.length
  packetBuffer : slice b.packetBuffer 0 headers.length = headers

/-- All headers are in place. -/
structure TxBuffers.Ready (bufs : TxBuffers) (port : Nat) (useCts : Bool) : Prop where
  ral : bufs.ral.Ready (txRadiotap 0 ++ ieeeHeader 0 port useCts)
  ath : bufs.ath.Ready (txRadiotap 1 ++ ieeeHeader 1 port useCts)
  rea : bufs.rea.Ready (txRadiotap 2 ++ ieeeHeader 2 port useCts)

theorem FrameBuffer.setHeaders_ready (b : FrameBuffer) (headers : List UInt8) :
    (b.setHeaders headers).Ready headers :=
  ⟨rfl, slice_memcpy b.packetBuffer 0 headers⟩

theorem wfbTxInit_ready (b : TxBuffers) (port : Nat) (useCts : Bool) :
    ∃ bufs, wfbTxInit b port useCts = some bufs ∧ bufs.Ready port useCts := by
  refine ⟨_, rfl, FrameBuffer.setHeaders_ready _ _, ?_, FrameBuffer.setHeaders_ready _ _⟩
  cases useCts with
  | false => exact FrameBuffer.setHeaders_ready _ _
  | true => exact FrameBuffer.setHeaders_ready _ _

/-- What is written for one interface: the headers, the data, and some padding or bytes of earlier
frames. -/
def Written (port : Nat) (useCts : Bool) (body frame : List UInt8) (type : Nat) : Prop :=
  ∃ tail : List UInt8, tail.length ≤ 18 ∧
    frame = txRadiotap type ++ ieeeHeader type port useCts ++ body ++ tail

/-- The padding that `wfb_write` carries along: there is some only if the data is short. -/
def PadOk (n padlen : Nat) : Prop := padlen ≤ 18 ∧ (18 ≤ n → padlen = 0)

theorem length_ieeeHeader (type port : Nat) (useCts : Bool) :
    (ieeeHeader type port useCts).length = if type = 1 ∧ useCts = true then 24 else 5 := by
  unfold ieeeHeader
  split
  · rfl
  · cases useCts <;> rfl
  · rename_i h
    rw [if_neg fun hc => h hc.1]
    rfl

theorem length_txRadiotap (type : Nat) :
    (txRadiotap type).length = if type = 2 then 13 else 12 := by
  unfold txRadiotap
  split_ifs <;> rfl

/-! ## Cards -/

namespace TxBuffers

/-- The packet buffer of a type of card. -/
def card (bufs : TxBuffers) : Nat → FrameBuffer
  | 0 => bufs.ral
  | 1 => bufs.ath
  | _ => bufs.rea

def setCard (bufs : TxBuffers) (type : Nat) (b : FrameBuffer) : TxBuffers :=
  match type with
  | 0 => { bufs with ral := b }
  | 1 => { bufs with ath := b }
  | _ => { bufs with rea := b }

theorem Ready.card {bufs : TxBuffers} {port : Nat} {useCts : Bool} (h : bufs.Ready port useCts)
    {type : Nat} (htype : type ≤ 2) :
    (bufs.card type).Ready (txRadiotap type ++ ieeeHeader type port useCts) :=
  match type, htype with
  | 0, _ => h.ral
  | 1, _ => h.ath
  | 2, _ => h.rea

theorem Ready.setCard {bufs : TxBuffers} {port : Nat} {useCts : Bool}
    (h : bufs.Ready port useCts) {type : Nat} (htype : type ≤ 2) {b : FrameBuffer}
    (hb : b.Ready (txRadiotap type ++ ieeeHeader type port useCts)) :
    (bufs.setCard type b).Ready port useCts :=
  match type, htype with
  | 0, _ => ⟨hb, h.ath, h.rea⟩
  | 1, _ => ⟨h.ral, hb, h.rea⟩
  | 2, _ => ⟨h.ral, h.ath, hb⟩

end TxBuffers

/-- The minimal length of the data for a type of card. -/
def minLength (type : Nat) : Nat := if type = 0 then 18 else 5

theorem minLength_le (type : Nat) : minLength type ≤ 18 := by
  unfold minLength
  split_ifs <;> omega

theorem le_minLength (type : Nat) : 5 ≤ minLength type := by
  unfold minLength
  split_ifs <;> omega

/-- The frame that is written for an interface. -/
def sentFrame (header : Option (List UInt8)) (data : List UInt8) (w : WriteState) (type : Nat) :
    List UInt8 :=
  (writeCard (w.bufs.card type) (minLength type) header data w.padlen w.offset).2.2.2

def nextWrite (header : Option (List UInt8)) (data : List UInt8) (w : WriteState) (type : Nat) :
    WriteState :=
  let r := writeCard (w.bufs.card type) (minLength type) header data w.padlen w.offset
  ⟨w.bufs.setCard type r.1, r.2.1, r.2.2.1, w.frames ++ [r.2.2.2]⟩

/-- **One interface.** -/
theorem writeIface_eq (header : Option (List UInt8)) (data : List UInt8) (w : WriteState)
    {type : Nat} (htype : type ≤ 2) :
    writeIface header data w type =
      if (sentFrame header data w type).length > packetBufferSize then none
      else some (nextWrite header data w type) :=
  match type, htype with
  | 0, _ => rfl
  | 1, _ => rfl
  | 2, _ => rfl

theorem writeIface_unknown (header : Option (List UInt8)) (data : List UInt8) (w : WriteState)
    {type : Nat} (htype : ¬type ≤ 2) : writeIface header data w type = none :=
  match type, htype with
  | _ + 3, _ => rfl

/-- The padding of the card, if the data is short. -/
def ownPadding (type n : Nat) : List UInt8 := dummydata.take (minLength type - n)

theorem length_ownPadding (type n : Nat) : (ownPadding type n).length = minLength type - n := by
  have hmin := minLength_le type
  rw [ownPadding, List.length_take]
  simp only [dummydata, List.length_replicate]
  omega

/-! ## The frame of an interface -/

/-- The header of a call, and where the data starts behind it before the first interface. -/
structure HeaderOk (header : Option (List UInt8)) (offset : Nat) : Prop where
  length : ∀ h, header = some h → h.length = 6
  offset : header = none → offset = 0

/-- `writeCard` in a row: header, data and padding. -/
theorem writeCard_eq {header : Option (List UInt8)} {offset : Nat}
    (hheader : HeaderOk header offset) (b : FrameBuffer) (minLen : Nat) (data : List UInt8)
    (padlen : Nat) :
    writeCard b minLen header data padlen offset =
      (let h := header.getD []
       let off := b.headersLen + h.length
       let pad := dummydata.take (minLen - data.length)
       let buf := memcpy (memcpy (memcpy b.packetBuffer b.headersLen h) off data)
         (off + data.length) pad
       let padlen := if data.length < minLen then minLen - data.length else padlen
       (⟨b.headersLen, buf⟩, padlen, h.length, slice buf 0 (off + data.length + padlen))) := by
  have hpad : ¬data.length < minLen → dummydata.take (minLen - data.length) = [] := by
    intro hlong
    rw [Nat.sub_eq_zero_of_le (by omega), List.take_zero]
  unfold writeCard
  cases header with
  | some h =>
    have hlen := hheader.length h rfl
    by_cases hshort : data.length < minLen
    · simp only [if_pos hshort, Option.getD_some, hlen]
    · simp only [if_neg hshort, hpad hshort, memcpy_nil, Option.getD_some, hlen]
  | none =>
    obtain rfl := hheader.offset rfl
    by_cases hshort : data.length < minLen
    · simp only [if_pos hshort, Option.getD_none, List.length_nil, memcpy_nil]
    · simp only [if_neg hshort, hpad hshort, memcpy_nil, Option.getD_none, List.length_nil]

section

variable {port : Nat} {useCts : Bool} {header : Option (List UInt8)} {data : List UInt8}
  {w : WriteState} {type : Nat}

/-- What stands behind the data: the padding of the card, or as many bytes of earlier frames as an
earlier card has left. -/
def frameTail (w : WriteState) (type off n : Nat) : List UInt8 :=
  if n < minLength type then ownPadding type n
  else slice (w.bufs.card type).packetBuffer off w.padlen

theorem length_frameTail_le {n : Nat} (hpad : PadOk n w.padlen) (type off : Nat) :
    (frameTail w type off n).length ≤ 18 := by
  unfold frameTail
  split_ifs
  · rw [length_ownPadding]
    exact (Nat.sub_le _ _).trans (minLength_le type)
  · rw [length_slice]
    exact hpad.1

/-- **The frame**: headers, header, data and what stands behind it; and the headers stay. -/
theorem sentFrame_eq (data : List UInt8) (hready : w.bufs.Ready port useCts)
    (hheader : HeaderOk header w.offset) (htype : type ≤ 2) :
    sentFrame header data w type =
        txRadiotap type ++ ieeeHeader type port useCts ++ header.getD [] ++ data ++
          frameTail w type ((txRadiotap type ++ ieeeHeader type port useCts).length +
            (header.getD []).length + data.length) data.length ∧
      (nextWrite header data w type).bufs.Ready port useCts ∧
      HeaderOk header (nextWrite header data w type).offset ∧
      (nextWrite header data w type).padlen =
        if data.length < minLength type then minLength type - data.length else w.padlen := by
  obtain ⟨hlen, hstart⟩ := hready.card htype
  obtain ⟨headers, hheaders⟩ : ∃ headers,
    headers = txRadiotap type ++ ieeeHeader type port useCts := ⟨_, rfl⟩
  rw [← hheaders] at hlen hstart
  obtain ⟨h, hh⟩ : ∃ h, h = header.getD [] := ⟨_, rfl⟩
  obtain ⟨buf, hbuf⟩ : ∃ buf, buf = memcpy (memcpy (w.bufs.card type).packetBuffer headers.length h)
    (headers.length + h.length) data := ⟨_, rfl⟩
  obtain ⟨off, hoff⟩ : ∃ off, off = headers.length + h.length + data.length := ⟨_, rfl⟩
  have hcard := writeCard_eq hheader (w.bufs.card type) (minLength type) data w.padlen
  simp only [hlen, ← hh, ← hbuf, ← hoff] at hcard
  have hhead : slice buf 0 off = headers ++ h ++ data := by
    have hfirst := slice_memcpy_append (w.bufs.card type).packetBuffer 0 headers.length h
    rw [hstart, Nat.zero_add] at hfirst
    have happend := slice_memcpy_append
      (memcpy (w.bufs.card type).packetBuffer headers.length h) 0 (headers.length + h.length) data
    rw [hfirst, Nat.zero_add, ← hbuf, ← hoff] at happend
    exact happend
  have hbehind : ∀ n, slice buf off n = slice (w.bufs.card type).packetBuffer off n := by
    intro n
    rw [hbuf, slice_memcpy_after (by omega), slice_memcpy_after (by omega)]
  refine ⟨?_, ?_, ?_, ?_⟩
  · rw [sentFrame, hcard]
    simp only
    rw [slice_add, Nat.zero_add, slice_memcpy_before (by omega), hhead, frameTail, ← hheaders, ← hh,
      ← hoff]
    congr 1
    by_cases hshort : data.length < minLength type
    · have hpad := slice_memcpy buf off (ownPadding type data.length)
      rw [length_ownPadding] at hpad
      rw [if_pos hshort, if_pos hshort]
      exact hpad
    · rw [if_neg hshort, if_neg hshort, Nat.sub_eq_zero_of_le (by omega), List.take_zero,
        memcpy_nil, hbehind]
  · refine hready.setCard htype ?_
    rw [hcard]
    refine ⟨congrArg List.length hheaders, ?_⟩
    rw [← hheaders]
    simp only
    rw [slice_memcpy_before (by omega), ← take_slice buf 0 (show headers.length ≤ off by omega),
      hhead, List.append_assoc, List.take_left' rfl]
  · refine ⟨hheader.length, fun hnone => ?_⟩
    rw [nextWrite, hcard, hh, hnone]
    rfl
  · rw [nextWrite, hcard]

theorem length_sentFrame (hready : w.bufs.Ready port useCts) (hheader : HeaderOk header w.offset)
    (htype : type ≤ 2) :
    (sentFrame header data w type).length =
      (txRadiotap type).length + (ieeeHeader type port useCts).length + (header.getD []).length +
        data.length +
        if data.length < minLength type then minLength type - data.length else w.padlen := by
  rw [(sentFrame_eq data hready hheader htype).1, frameTail]
  split_ifs
  · simp only [List.length_append, length_ownPadding]
  · simp only [List.length_append, length_slice]

theorem padOk_next (hready : w.bufs.Ready port useCts) (hheader : HeaderOk header w.offset)
    (htype : type ≤ 2) (hpad : PadOk data.length w.padlen) :
    PadOk data.length (nextWrite header data w type).padlen := by
  have hmin := minLength_le type
  rw [(sentFrame_eq data hready hheader htype).2.2.2]
  split_ifs
  · exact ⟨by omega, fun h18 => by omega⟩
  · exact hpad

/-- Headers and data fit the packet buffer of the card. -/
def FitsCard (port : Nat) (useCts : Bool) (header : Option (List UInt8)) (n type : Nat) : Prop :=
  (txRadiotap type).length + (ieeeHeader type port useCts).length + (header.getD []).length + n ≤
    packetBufferSize

instance (port : Nat) (useCts : Bool) (header : Option (List UInt8)) (n type : Nat) :
    Decidable (FitsCard port useCts header n type) :=
  inferInstanceAs (Decidable (_ ≤ _))

/-- The padding never makes a frame too long. -/
theorem length_sentFrame_le (hready : w.bufs.Ready port useCts) (hheader : HeaderOk header w.offset)
    (htype : type ≤ 2) (hpad : PadOk data.length w.padlen) :
    (sentFrame header data w type).length ≤ packetBufferSize ↔
      FitsCard port useCts header data.length type := by
  obtain ⟨hle, hlong⟩ := hpad
  have hmin := minLength_le type
  have hh : (header.getD []).length ≤ 6 := by
    cases header with
    | none => exact Nat.zero_le _
    | some h => exact (hheader.length h rfl).le
  rw [length_sentFrame hready hheader htype, FitsCard, length_ieeeHeader, length_txRadiotap]
  simp only [packetBufferSize]
  by_cases h18 : 18 ≤ data.length
  · rw [hlong h18, if_neg (show ¬data.length < minLength type by omega), Nat.add_zero]
  · have htail : (if data.length < minLength type then minLength type - data.length
        else w.padlen) ≤ 18 := by
      split_ifs <;> omega
    split_ifs at htail ⊢ <;> omega

end

/-! ## All interfaces -/

/-- The card is of a known type, and headers and data fit its packet buffer. -/
def Fits (port : Nat) (useCts : Bool) (len type : Nat) : Prop :=
  type ≤ 2 ∧
    (txRadiotap type).length + (ieeeHeader type port useCts).length + 6 + len ≤ packetBufferSize

instance (port : Nat) (useCts : Bool) (len type : Nat) : Decidable (Fits port useCts len type) :=
  inferInstanceAs (Decidable (_ ∧ _))

/-- **One interface.** -/
theorem writeIface_spec {port : Nat} {useCts : Bool} {h data : List UInt8} (hh : h.length = 6)
    {w : WriteState} (hready : w.bufs.Ready port useCts) (hpad : PadOk data.length w.padlen)
    {type : Nat} (hfits : Fits port useCts data.length type) :
    ∃ w' frame, writeIface (some h) data w type = some w' ∧ w'.bufs.Ready port useCts ∧
      PadOk data.length w'.padlen ∧ w'.frames = w.frames ++ [frame] ∧
      Written port useCts (h ++ data) frame type := by
  obtain ⟨htype, hlen⟩ := hfits
  have hheader : HeaderOk (some h) w.offset := by
    refine ⟨fun _ hsome => ?_, fun hnone => by cases hnone⟩
    obtain rfl := Option.some.inj hsome
    exact hh
  have hsize : (sentFrame (some h) data w type).length ≤ packetBufferSize := by
    rw [length_sentFrame_le hready hheader htype hpad, FitsCard, Option.getD_some, hh]
    exact hlen
  obtain ⟨hframe, hready', -, -⟩ := sentFrame_eq data hready hheader htype
  have hwritten : Written port useCts (h ++ data) (sentFrame (some h) data w type) type := by
    rw [hframe, Option.getD_some, List.append_assoc _ h data]
    exact ⟨_, length_frameTail_le hpad type _, rfl⟩
  refine ⟨nextWrite (some h) data w type, _, ?_, hready', padOk_next hready hheader htype hpad,
    rfl, hwritten⟩
  rw [writeIface_eq _ _ _ htype, if_neg (Nat.not_lt.mpr hsize)]

/-- All interfaces, by induction on how many. -/
theorem writeIfaces_spec {port : Nat} {useCts : Bool} {h : List UInt8} (hh : h.length = 6)
    (data : List UInt8) (types : List Nat) (w : WriteState) (hready : w.bufs.Ready port useCts)
    (hpad : PadOk data.length w.padlen)
    (hfits : ∀ type ∈ types, Fits port useCts data.length type) :
    ∃ w' frames, types.foldlM (writeIface (some h) data) w = some w' ∧
      w'.bufs.Ready port useCts ∧ w'.frames = w.frames ++ frames ∧
      List.Forall₂ (Written port useCts (h ++ data)) frames types := by
  induction types generalizing w with
  | nil => exact ⟨w, [], rfl, hready, (List.append_nil _).symm, List.Forall₂.nil⟩
  | cons type types ih =>
    obtain ⟨w₁, frame, hstep, hready₁, hpad₁, hframes₁, hwritten⟩ :=
      writeIface_spec hh hready hpad (hfits type List.mem_cons_self)
    obtain ⟨w', frames, hrun, hready', hframes, hall⟩ :=
      ih w₁ hready₁ hpad₁ fun x hx => hfits x (List.mem_cons_of_mem type hx)
    refine ⟨w', frame :: frames, ?_, hready', ?_, List.Forall₂.cons hwritten hall⟩
    · rw [List.foldlM_cons, hstep]
      exact hrun
    · rw [hframes, hframes₁, List.append_assoc, List.singleton_append]

/-- **`wfb_tx_send`** writes to each interface the headers of its card, sequence number, length and
data, and up to 18 bytes behind them; and it leaves the headers in place. -/
theorem wfbTxSend_spec {port : Nat} {useCts : Bool} {bufs : TxBuffers}
    (hready : bufs.Ready port useCts) (types : List Nat) (seqno : UInt32) (data : Buf)
    (len : UInt16) (hfits : ∀ type ∈ types, Fits port useCts len.toNat type) :
    ∃ bufs' frames, wfbTxSend types seqno data len bufs = some (bufs', frames) ∧
      bufs'.Ready port useCts ∧
      List.Forall₂ (Written port useCts (frameHeader seqno len ++ slice data 0 len.toNat)) frames
        types := by
  obtain ⟨w, frames, hrun, hready', hframes, hall⟩ :=
    writeIfaces_spec (show (frameHeader seqno len).length = 6 from rfl) (slice data 0 len.toNat)
      types ⟨bufs, 0, 0, []⟩ hready ⟨Nat.zero_le _, fun _ => rfl⟩
      (by simpa only [length_slice] using hfits)
  refine ⟨w.bufs, frames, ?_, hready', hall⟩
  rw [wfbTxSend, wfbWrite, if_pos rfl, hrun]
  exact congrArg (fun l => some (w.bufs, l)) hframes

end Rhex
