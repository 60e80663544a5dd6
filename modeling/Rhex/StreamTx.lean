import Mathlib
import Rhex.Fec
import Rhex.Packet

/-!
# The video transmitter (`wfb_tx_rawsock.c`)

`wfb_tx_stream` cuts what it is given into data packets and hands every eighth one to
`pb_transmit_block`, which adds four FEC packets and writes the twelve interleaved. When the
writes were slow, every other FEC packet of the next rounds is withheld.

* `wfbTxStream`, `pbTransmitBlock`, `pbTransmitPacket` — the functions as the code runs them.
* `wfbTxRun` — any sequence of calls of `wfb_tx_stream`, and the blocks it transmits.
* `TxInv` — what holds of the packets under construction between two calls.
* `wfbTxRun_spec` — every call returns, and every transmitted block is well formed.
-/

namespace Rhex

open Memory

/-! ## State -/

/-- What the transmitter reads from outside: the clock, by the number of readings so far, and
the uninitialised `fec_pool` on the stack. -/
structure TxEnv where
  clk : Nat → UInt64
  stack : Nat → Nat → Buf

/-- `wfb_stream_t` with its `input_buffer`, and the static variables of the file. -/
structure TxState where
  buf : Buf
  phdrLen : Nat
  pcnt : Nat
  seqNr : UInt32
  currPb : Nat
  pbl : Nat → PacketBuffer
  /-- An `int`; `skipfec_in_range` says when it stays one. -/
  skipfec : Int
  took : UInt64
  tookLast : UInt64
  injectionTimePrev : UInt64
  /-- The number of readings of `svc_get_monotime` so far. -/
  ticks : Nat

/-- What one of the twelve packets of a block comes to. -/
structure TxPacket where
  kind : BlockPacket
  seqNr : UInt32
  /-- The packet itself. -/
  data : List UInt8
  /-- The bytes given to `write`, or `none` for a FEC packet that is withheld. -/
  frame : Option (List UInt8)

/-- The bytes of a packet behind the radio header. -/
def TxPacket.payload (p : TxPacket) : List UInt8 := le32 p.seqNr ++ p.data

/-- A transmitted block: the data packets it was made of, and the twelve packets sent. -/
structure TxBlock where
  pbl : Nat → PacketBuffer
  packets : List TxPacket

/-! ## One packet -/

/-- `pb_transmit_packet`: the frame that is written to every socket. -/
def pbTransmitPacket (s : TxState) (seqNr : UInt32) (packetData : Buf) (packetLength : Nat) :
    TxState × List UInt8 :=
  let buf := memcpy s.buf s.phdrLen (le32 seqNr)
  let buf := memcpy buf (s.phdrLen + sizeofWifiPacketHeader) (slice packetData 0 packetLength)
  let plen := packetLength + s.phdrLen + sizeofWifiPacketHeader
  ({ s with buf }, slice buf 0 plen)

/-! ## One block -/

/-- The local variables of the sending loop of `pb_transmit_block`. -/
structure TransmitLoop where
  s : TxState
  di : Nat
  fi : Nat
  seqNrTmp : Nat
  counterfec : Nat
  /-- The packets so far. -/
  packets : List TxPacket

/-- The first half of a round: the next data packet. -/
def transmitData (packetLength nrData : Nat) (dataBlocks : Nat → Buf) (l : TransmitLoop) :
    TransmitLoop :=
  if l.di < nrData then
    let seqNr := UInt32.ofNat l.seqNrTmp
    let (s, frame) := pbTransmitPacket l.s seqNr (dataBlocks l.di) packetLength
    { l with
      s
      packets := l.packets ++
        [⟨.data l.di, seqNr, slice (dataBlocks l.di) 0 packetLength, some frame⟩]
      seqNrTmp := l.seqNrTmp + 1
      di := l.di + 1 }
  else l

/-- The second half: the next FEC packet, every other one withheld while `skipfec` is positive. -/
def transmitFec (packetLength nrFec : Nat) (fecBlocks : Nat → Buf) (l : TransmitLoop) :
    TransmitLoop :=
  if l.fi < nrFec then
    let seqNr := UInt32.ofNat l.seqNrTmp
    let (s, frame) :=
      if l.s.skipfec < 1 ∨ l.counterfec % 2 = 0 then
        let (s, frame) := pbTransmitPacket l.s seqNr (fecBlocks l.fi) packetLength
        (s, some frame)
      else (l.s, none)
    { l with
      s
      packets := l.packets ++ [⟨.fec l.fi, seqNr, slice (fecBlocks l.fi) 0 packetLength, frame⟩]
      counterfec := if l.s.skipfec < 1 then l.counterfec else l.counterfec + 1
      seqNrTmp := l.seqNrTmp + 1
      fi := l.fi + 1 }
  else l

/-- One round of the sending loop. -/
def transmitRound (packetLength nrData nrFec : Nat) (dataBlocks fecBlocks : Nat → Buf)
    (l : TransmitLoop) : TransmitLoop :=
  let l := transmitFec packetLength nrFec fecBlocks (transmitData packetLength nrData dataBlocks l)
  { l with s := { l.s with skipfec := l.s.skipfec - 1 } }

theorem transmitRound_di (packetLength nrData nrFec : Nat) (dataBlocks fecBlocks : Nat → Buf)
    (l : TransmitLoop) : (transmitRound packetLength nrData nrFec dataBlocks fecBlocks l).di =
      if l.di < nrData then l.di + 1 else l.di := by
  simp only [transmitRound, transmitFec, transmitData]
  split_ifs <;> rfl

theorem transmitRound_fi (packetLength nrData nrFec : Nat) (dataBlocks fecBlocks : Nat → Buf)
    (l : TransmitLoop) : (transmitRound packetLength nrData nrFec dataBlocks fecBlocks l).fi =
      if l.fi < nrFec then l.fi + 1 else l.fi := by
  simp only [transmitRound, transmitFec, transmitData]
  split_ifs <;> rfl

/-- The sending loop of `pb_transmit_block`. -/
def transmitLoop (packetLength nrData nrFec : Nat) (dataBlocks fecBlocks : Nat → Buf)
    (l : TransmitLoop) : TransmitLoop :=
  if l.di < nrData ∨ l.fi < nrFec then
    transmitLoop packetLength nrData nrFec dataBlocks fecBlocks
      (transmitRound packetLength nrData nrFec dataBlocks fecBlocks l)
  else l
termination_by nrData - l.di + (nrFec - l.fi)
decreasing_by
  rw [transmitRound_di, transmitRound_fi]
  split_ifs <;> omega

/-- The time keeping of `pb_transmit_block`: a slow block sets `skipfec`. -/
def measureBlock (env : TxEnv) (s : TxState) (prevTime : UInt64) (nrBytes : Nat) : TxState :=
  let tookLast := s.took
  let took := env.clk s.ticks - prevTime
  -- The code compares with `nrBytes / 1.5`.
  let skipfec := if 3 * took.toNat > 2 * nrBytes then 4 else s.skipfec
  let took := if took < tookLast then tookLast else took
  let injectionTimeNow := env.clk (s.ticks + 1)
  if injectionTimeNow - s.injectionTimePrev > 220 then
    { s with
      skipfec, took := 0, tookLast := 0
      injectionTimePrev := env.clk (s.ticks + 2), ticks := s.ticks + 3 }
  else { s with skipfec, took, tookLast, ticks := s.ticks + 2 }

/-- The end of `pb_transmit_block`: advance `seq_nr`, and empty the packets for the next block. -/
def resetBlock (s : TxState) (nrData nrFec : Nat) : TxState :=
  { s with
    seqNr := s.seqNr + .ofNat (nrData + nrFec)
    pbl := fun i => if i < nrData then { s.pbl i with len := 0 } else s.pbl i }

/-- `pb_transmit_block`. -/
def pbTransmitBlock (env : TxEnv) (s : TxState) (packetLength nrData nrFec : Nat) :
    Option (TxState × TxBlock) := do
  let dataBlocks := fun i => (s.pbl i).data
  let fecPool := env.stack s.ticks
  let fecBlocks ←
    if nrFec ≠ 0 then fecEncode packetLength dataBlocks nrData fecPool nrFec else some fecPool
  let prevTime := env.clk s.ticks
  let l := transmitLoop packetLength nrData nrFec dataBlocks fecBlocks
    ⟨{ s with ticks := s.ticks + 1 }, 0, 0, s.seqNr.toNat, 0, []⟩
  let s' := measureBlock env l.s prevTime (packetLength * (nrData + nrFec))
  some (resetBlock s' nrData nrFec, ⟨s.pbl, l.packets⟩)

/-! ## The stream -/

/-- The end of a packet in `wfb_tx_stream`: its length goes into its header, and the eighth
packet sends the block. -/
def finishPacket (env : TxEnv) (s : TxState) : Option (TxState × List TxBlock) := do
  let pb := s.pbl s.currPb
  let dataLength := UInt32.ofNat (pb.len - sizeofPayloadHeader)
  let s := { s with
    pbl := Function.update s.pbl s.currPb { pb with data := memcpy pb.data 0 (le32 dataLength) }
    pcnt := s.pcnt + 1 }
  if s.currPb = paramDataPacketsPerBlock - 1 then
    let (s, block) ← pbTransmitBlock env s paramPacketLength paramDataPacketsPerBlock
      paramFecPacketsPerBlock
    some ({ s with currPb := 0 }, [block])
  else some ({ s with currPb := s.currPb + 1 }, [])

/-- The check of `wfb_tx_stream` whether the packet is long enough to be finished. -/
def checkPacket (env : TxEnv) (s : TxState) : Option (TxState × List TxBlock) :=
  if (s.pbl s.currPb).len ≥ paramMinPacketLength then finishPacket env s else some (s, [])

/-- The start of a round of `wfb_tx_stream`: the packet takes what there is, or what it can. -/
def fillPacket (data : Buf) (len : Nat) (s : TxState) (offset : Nat) : TxState × Nat :=
  let pb := s.pbl s.currPb
  let pbLen := if pb.len = 0 then pb.len + sizeofPayloadHeader else pb.len
  let copyLen := len - offset
  let copyLen :=
    if copyLen > paramPacketLength - pbLen then paramPacketLength - pbLen else copyLen
  let pb := { pb with
    data := memcpy pb.data pbLen (slice data offset copyLen)
    len := pbLen + copyLen }
  ({ s with pbl := Function.update s.pbl s.currPb pb }, offset + copyLen)

/-- The loop of `wfb_tx_stream`, for at most `fuel` rounds. -/
def wfbTxLoop (env : TxEnv) (data : Buf) (len : Nat) :
    Nat → TxState → Nat → Option (TxState × List TxBlock)
  | 0, _, _ => none
  | fuel + 1, s, offset => do
    let (s, offset) := fillPacket data len s offset
    let (s, blocks) ← checkPacket env s
    if offset < len then
      let (s, more) ← wfbTxLoop env data len fuel s offset
      some (s, blocks ++ more)
    else some (s, blocks)

/-- `wfb_tx_stream(stream, data, len)`, and the blocks it transmits. -/
def wfbTxStream (env : TxEnv) (s : TxState) (data : Buf) (len : UInt16) :
    Option (TxState × List TxBlock) :=
  wfbTxLoop env data len.toNat (len.toNat + 1) s 0

/-- A sequence of calls of `wfb_tx_stream`. -/
def wfbTxRun (env : TxEnv) (s : TxState) :
    List (Buf × UInt16) → Option (TxState × List TxBlock)
  | [] => some (s, [])
  | (data, len) :: calls => do
    let (s, blocks) ← wfbTxStream env s data len
    let (s, more) ← wfbTxRun env s calls
    some (s, blocks ++ more)

/-- `wfb_stream_init`, for the radio header that it has put into `buf` and whatever `malloc`
returns; the static variables of the file start out zero. -/
def wfbStreamInit (header : List UInt8) (malloc : Nat → Buf) : TxState :=
  { buf := memcpy (fun _ => 0) 0 header
    phdrLen := header.length
    pcnt := 0
    seqNr := 0
    currPb := 0
    pbl := fun i => allocPacketBuffer (malloc i)
    skipfec := 0
    took := 0
    tookLast := 0
    injectionTimePrev := 0
    ticks := 0 }

/-- A stream as `wfb_stream_init` leaves it, whatever the static variables are. -/
structure TxState.Fresh (s : TxState) : Prop where
  seqNr : s.seqNr = 0
  currPb : s.currPb = 0
  empty : ∀ i < paramDataPacketsPerBlock, (s.pbl i).len = 0

theorem wfbStreamInit_fresh (header : List UInt8) (malloc : Nat → Buf) :
    (wfbStreamInit header malloc).Fresh :=
  ⟨rfl, rfl, fun _ _ => rfl⟩

/-! ## What one block puts on the air -/

/-- The frame carries the packet behind the radio header, and only `buf` changes. -/
theorem pbTransmitPacket_spec (s : TxState) (seqNr : UInt32) (packetData : Buf)
    (packetLength : Nat) :
    (pbTransmitPacket s seqNr packetData packetLength).2.drop s.phdrLen =
        le32 seqNr ++ slice packetData 0 packetLength ∧
      ∃ buf, (pbTransmitPacket s seqNr packetData packetLength).1 = { s with buf } := by
  refine ⟨?_, _, rfl⟩
  have hle : (le32 seqNr).length = sizeofWifiPacketHeader := rfl
  simp only [pbTransmitPacket]
  rw [show packetLength + s.phdrLen + sizeofWifiPacketHeader =
      s.phdrLen + (sizeofWifiPacketHeader + packetLength) by omega, slice_add,
    List.drop_left' (length_slice _ _ _), Nat.zero_add]
  have happend := slice_memcpy_append (memcpy s.buf s.phdrLen (le32 seqNr)) s.phdrLen
    sizeofWifiPacketHeader (slice packetData 0 packetLength)
  rw [length_slice] at happend
  rw [happend, ← hle, slice_memcpy]

/-- The blocks that the packets of the interleaved order are taken from. -/
def blockOf (dataBlocks fecBlocks : Nat → Buf) : BlockPacket → Buf
  | .data di => dataBlocks di
  | .fec fi => fecBlocks fi

/-- What identifies a packet, without the frame around it. -/
def TxPacket.content (p : TxPacket) : BlockPacket × UInt32 × List UInt8 := (p.kind, p.seqNr, p.data)

/-- The content of packet `k` of a block that starts at sequence number `seq`. -/
def packetContent (packetLength : Nat) (dataBlocks fecBlocks : Nat → Buf) (seq : Nat)
    (k : BlockPacket) : BlockPacket × UInt32 × List UInt8 :=
  (k, .ofNat (seq + k.slot), slice (blockOf dataBlocks fecBlocks k) 0 packetLength)

/-- Sending leaves the stream's own variables alone. -/
structure SameStream (s s' : TxState) : Prop where
  phdrLen : s'.phdrLen = s.phdrLen
  seqNr : s'.seqNr = s.seqNr
  currPb : s'.currPb = s.currPb
  pbl : s'.pbl = s.pbl

/-- The sending loop after `r` rounds from the state `s`. -/
structure Transmitting (packetLength : Nat) (dataBlocks fecBlocks : Nat → Buf) (s : TxState)
    (seq r : Nat) (l : TransmitLoop) : Prop where
  di : l.di = r
  fi : l.fi = min r paramFecPacketsPerBlock
  seqNrTmp : l.seqNrTmp = seq + r + min r paramFecPacketsPerBlock
  same : SameStream s l.s
  skipfec : l.s.skipfec = s.skipfec - r
  counterfec : r ≤ s.skipfec → l.counterfec = min r paramFecPacketsPerBlock
  content : l.packets.map TxPacket.content =
    ((List.range r).flatMap roundPackets).map (packetContent packetLength dataBlocks fecBlocks seq)
  frame : ∀ p ∈ l.packets, ∀ f, p.frame = some f → f.drop s.phdrLen = p.payload
  withheld : ∀ p ∈ l.packets, p.frame = none → ∃ fi, p.kind = .fec fi ∧ fi % 2 = 1

section

variable {packetLength : Nat} {dataBlocks fecBlocks : Nat → Buf} {s : TxState} {seq r : Nat}
  {l : TransmitLoop}

/-- The data packet of round `r`. -/
theorem transmitData_spec
    (hl : Transmitting packetLength dataBlocks fecBlocks s seq r l)
    (hr : r < paramDataPacketsPerBlock) :
    ∃ buf frame,
      transmitData packetLength paramDataPacketsPerBlock dataBlocks l =
        { l with
          s := { l.s with buf }
          packets := l.packets ++ [⟨.data r, .ofNat l.seqNrTmp,
            slice (dataBlocks r) 0 packetLength, some frame⟩]
          seqNrTmp := l.seqNrTmp + 1
          di := r + 1 } ∧
      frame.drop s.phdrLen = le32 (.ofNat l.seqNrTmp) ++ slice (dataBlocks r) 0 packetLength := by
  obtain ⟨hframe, buf, hbuf⟩ :=
    pbTransmitPacket_spec l.s (.ofNat l.seqNrTmp) (dataBlocks r) packetLength
  refine ⟨buf, (pbTransmitPacket l.s (.ofNat l.seqNrTmp) (dataBlocks r) packetLength).2, ?_, ?_⟩
  · rw [transmitData, if_pos (hl.di ▸ hr)]
    simp only [hl.di, hbuf]
  · rw [← hframe, hl.same.phdrLen]

/-- The FEC packet of a round, for a loop that is at packet `r`. -/
theorem transmitFec_spec (packetLength : Nat) (fecBlocks : Nat → Buf) {phdrLen : Nat}
    {skipfec : Int} (hfi : l.fi = r)
    (hphdr : l.s.phdrLen = phdrLen) (hskip : l.s.skipfec = skipfec)
    (hr : r < paramFecPacketsPerBlock) :
    ∃ buf frame counterfec,
      transmitFec packetLength paramFecPacketsPerBlock fecBlocks l =
        { l with
          s := { l.s with buf }
          packets := l.packets ++ [⟨.fec r, .ofNat l.seqNrTmp,
            slice (fecBlocks r) 0 packetLength, frame⟩]
          counterfec
          seqNrTmp := l.seqNrTmp + 1
          fi := r + 1 } ∧
      (∀ f, frame = some f →
        f.drop phdrLen = le32 (.ofNat l.seqNrTmp) ++ slice (fecBlocks r) 0 packetLength) ∧
      (frame = none → 1 ≤ skipfec ∧ l.counterfec % 2 = 1) ∧
      counterfec = if skipfec < 1 then l.counterfec else l.counterfec + 1 := by
  obtain ⟨hframe, buf, hbuf⟩ :=
    pbTransmitPacket_spec l.s (.ofNat l.seqNrTmp) (fecBlocks r) packetLength
  subst hskip
  obtain ⟨counterfec, hcounter⟩ : ∃ counterfec, counterfec =
      if l.s.skipfec < 1 then l.counterfec else l.counterfec + 1 := ⟨_, rfl⟩
  rw [transmitFec, if_pos (hfi ▸ hr), hfi]
  simp only [← hcounter]
  by_cases hsend : l.s.skipfec < 1 ∨ l.counterfec % 2 = 0
  · refine ⟨buf, some (pbTransmitPacket l.s (.ofNat l.seqNrTmp) (fecBlocks r) packetLength).2,
      counterfec, ?_, ?_, fun h => absurd h (by simp), rfl⟩
    · rw [if_pos hsend]
      simp only [hbuf]
    · intro f hf
      rw [← Option.some.inj hf, ← hphdr]
      exact hframe
  · refine ⟨l.s.buf, none, counterfec, ?_, fun f hf => absurd hf (by simp), ?_, rfl⟩
    · rw [if_neg hsend]
    · intro _
      have := not_or.mp hsend
      omega

/-- **One round of the sending loop.** -/
theorem Transmitting.round (hl : Transmitting packetLength dataBlocks fecBlocks s seq r l)
    (hr : r < paramDataPacketsPerBlock) :
    Transmitting packetLength dataBlocks fecBlocks s seq (r + 1)
      (transmitRound packetLength paramDataPacketsPerBlock paramFecPacketsPerBlock dataBlocks
        fecBlocks l) := by
  have hsame := hl.same
  obtain ⟨buf₁, frame, hdata, hframe⟩ := transmitData_spec hl hr
  have hslot : l.seqNrTmp = seq + (BlockPacket.data r).slot := by
    rw [hl.seqNrTmp, BlockPacket.slot, dataSlot_eq, Nat.add_assoc]
  rw [transmitRound, hdata]
  by_cases hf : r < paramFecPacketsPerBlock
  · obtain ⟨buf₂, frame₂, counterfec, hfec, hframe₂, hnone, hcounter⟩ :=
      transmitFec_spec packetLength fecBlocks
        (l := { l with
          s := { l.s with buf := buf₁ }
          packets := l.packets ++ [⟨.data r, .ofNat l.seqNrTmp,
            slice (dataBlocks r) 0 packetLength, some frame⟩]
          seqNrTmp := l.seqNrTmp + 1
          di := r + 1 }) (r := r)
        (by simp only [hl.fi]; omega) hsame.phdrLen hl.skipfec hf
    have hslot₂ : l.seqNrTmp + 1 = seq + (BlockPacket.fec r).slot := by
      rw [hslot, Nat.add_assoc]
      exact congrArg (seq + ·) (fecSlot_eq hf).symm
    rw [hfec]
    refine ⟨rfl, ?_, ?_, ⟨hsame.phdrLen, hsame.seqNr, hsame.currPb, hsame.pbl⟩, ?_, ?_, ?_, ?_, ?_⟩
    · simp only; omega
    · simp only [hl.seqNrTmp]; omega
    · simp only [hl.skipfec]; omega
    · intro hle
      have hbefore := hl.counterfec (by omega)
      simp only [hcounter, hbefore, paramFecPacketsPerBlock] at hf ⊢
      split_ifs <;> omega
    · simp only [List.map_append, hl.content, List.range_succ, List.flatMap_append,
        List.flatMap_singleton, roundPackets, if_pos hf, List.map_cons, List.map_nil,
        TxPacket.content, packetContent, blockOf, ← hslot, ← hslot₂, List.append_assoc,
        List.cons_append, List.nil_append]
    · intro p hp f hpf
      simp only [List.append_assoc, List.mem_append, List.mem_singleton] at hp
      rcases hp with hp | rfl | rfl
      · exact hl.frame p hp f hpf
      · rw [← Option.some.inj hpf]
        exact hframe
      · exact hframe₂ f hpf
    · intro p hp hpf
      simp only [List.append_assoc, List.mem_append, List.mem_singleton] at hp
      rcases hp with hp | rfl | rfl
      · exact hl.withheld p hp hpf
      · simp at hpf
      · obtain ⟨hpos, hodd⟩ := hnone hpf
        refine ⟨r, rfl, ?_⟩
        rwa [hl.counterfec (by omega), Nat.min_eq_left hf.le] at hodd
  · rw [transmitFec, if_neg (by simp only [hl.fi]; omega)]
    refine ⟨rfl, ?_, ?_, ⟨hsame.phdrLen, hsame.seqNr, hsame.currPb, hsame.pbl⟩, ?_, ?_, ?_, ?_, ?_⟩
    · simp only [hl.fi]; omega
    · simp only [hl.seqNrTmp]; omega
    · simp only [hl.skipfec]; omega
    · intro hle
      simp only [hl.counterfec (by omega), paramFecPacketsPerBlock] at hf ⊢
      omega
    · simp only [List.map_append, hl.content, List.range_succ, List.flatMap_append,
        List.flatMap_singleton, roundPackets, if_neg hf, List.map_cons, List.map_nil,
        TxPacket.content, packetContent, blockOf, ← hslot]
    · intro p hp f hpf
      rcases List.mem_append.mp hp with hp | hp
      · exact hl.frame p hp f hpf
      · rw [List.mem_singleton.mp hp] at hpf ⊢
        rw [← Option.some.inj hpf]
        exact hframe
    · intro p hp hpf
      rcases List.mem_append.mp hp with hp | hp
      · exact hl.withheld p hp hpf
      · rw [List.mem_singleton.mp hp] at hpf
        simp at hpf

/-- The rounds that are left bring the loop to its end, with whatever each of them keeps. -/
theorem Transmitting.loop {P : Nat → TransmitLoop → Prop}
    (hround : ∀ r l, Transmitting packetLength dataBlocks fecBlocks s seq r l →
      r < paramDataPacketsPerBlock → P r l → P (r + 1)
        (transmitRound packetLength paramDataPacketsPerBlock paramFecPacketsPerBlock dataBlocks
          fecBlocks l))
    (hl : Transmitting packetLength dataBlocks fecBlocks s seq r l) (hp : P r l)
    (hr : r ≤ paramDataPacketsPerBlock) :
    Transmitting packetLength dataBlocks fecBlocks s seq paramDataPacketsPerBlock
        (transmitLoop packetLength paramDataPacketsPerBlock paramFecPacketsPerBlock dataBlocks
          fecBlocks l) ∧
      P paramDataPacketsPerBlock
        (transmitLoop packetLength paramDataPacketsPerBlock paramFecPacketsPerBlock dataBlocks
          fecBlocks l) := by
  obtain ⟨n, hn⟩ := Nat.exists_eq_add_of_le hr
  induction n generalizing r l with
  | zero =>
    rw [Nat.add_zero] at hn
    have hfi : l.fi = paramFecPacketsPerBlock := by rw [hl.fi, ← hn]; decide
    rw [transmitLoop, if_neg (by rw [hl.di, hfi, hn]; omega), hn]
    exact ⟨hl, hp⟩
  | succ n ih =>
    have hlt : r < paramDataPacketsPerBlock := by omega
    rw [transmitLoop, if_pos (Or.inl (hl.di ▸ hlt))]
    exact ih (hl.round hlt) (hround r l hl hlt hp) hlt (by omega)

end

/-! ## Blocks as the receiver will see them -/

/-- A data packet that is ready to be sent: its header holds its length. -/
structure PacketBuffer.Finished (p : PacketBuffer) : Prop where
  len_ge : paramMinPacketLength ≤ p.len
  len_le : p.len ≤ paramPacketLength
  header : slice p.data 0 sizeofPayloadHeader = le32 (.ofNat (p.len - sizeofPayloadHeader))

/-- A block that starts at sequence number `seq`: the twelve packets of the interleaved order, the
data packets as they are and the FEC packets holding their parity. -/
structure TxBlock.Good (block : TxBlock) (seq : Nat) : Prop where
  order : block.packets.map TxPacket.kind = interleaving
  seqNr : ∀ p ∈ block.packets, p.seqNr = .ofNat (seq + p.kind.slot)
  data : ∀ p ∈ block.packets, ∀ di, p.kind = .data di →
    p.data = slice (block.pbl di).data 0 paramPacketLength
  fec : ∀ p ∈ block.packets, ∀ fi, p.kind = .fec fi → p.data.length = paramPacketLength ∧
    ∀ q < paramPacketLength,
      gfAt (ofList p.data) q = parity paramDataPacketsPerBlock (fun i => (block.pbl i).data) fi q

/-- The data packets of the block are finished ones. -/
def TxBlock.Finished (block : TxBlock) : Prop :=
  ∀ di < paramDataPacketsPerBlock, (block.pbl di).Finished

/-- The frames of the block carry its packets behind a radio header of `phdrLen` bytes, and only
FEC packets with an odd number may have none. -/
structure TxBlock.Framed (block : TxBlock) (phdrLen : Nat) : Prop where
  frame : ∀ p ∈ block.packets, ∀ f, p.frame = some f → f.drop phdrLen = p.payload
  withheld : ∀ p ∈ block.packets, p.frame = none → ∃ fi, p.kind = .fec fi ∧ fi % 2 = 1

theorem TxPacket.length_payload (p : TxPacket) : p.payload.length = 4 + p.data.length := by
  rw [TxPacket.payload, List.length_append, length_le32]

/-- The frame of the packet in a slot, if it is written. -/
def TxBlock.frame (block : TxBlock) (slot : Nat) : Option (List UInt8) :=
  block.packets[slot]?.bind TxPacket.frame

/-- The packets of a block that are written whatever `skipfec` is. -/
def BlockPacket.AlwaysSent : BlockPacket → Prop
  | .data di => di < paramDataPacketsPerBlock
  | .fec fi => fi < paramFecPacketsPerBlock ∧ fi % 2 = 0

instance : DecidablePred BlockPacket.AlwaysSent
  | .data di => inferInstanceAs (Decidable (di < paramDataPacketsPerBlock))
  | .fec fi => inferInstanceAs (Decidable (fi < paramFecPacketsPerBlock ∧ fi % 2 = 0))

theorem BlockPacket.AlwaysSent.valid {k : BlockPacket} (h : k.AlwaysSent) : k.Valid := by
  cases k with
  | data di => exact h
  | fec fi => exact h.1

/-- The frames that are written for a block that starts at sequence number `seq`: behind the radio
header stand the number of the packet and, in a data packet, its length and the payload. -/
structure TxBlock.Written (block : TxBlock) (phdrLen seq : Nat) : Prop where
  frame : ∀ k : BlockPacket, k.AlwaysSent → ∃ f, block.frame k.slot = some f ∧
    f.length = phdrLen + (sizeofWifiPacketHeader + paramPacketLength) ∧
    read32 (ofList f) phdrLen = .ofNat (seq + k.slot)
  payload : ∀ di < paramDataPacketsPerBlock, ∀ f, block.frame (dataSlot di) = some f →
    slice (ofList f) (phdrLen + (sizeofWifiPacketHeader + sizeofPayloadHeader))
      (read32 (ofList f) (phdrLen + sizeofWifiPacketHeader)).toNat = (block.pbl di).payload

namespace TxBlock

variable {block : TxBlock} {phdrLen seq : Nat}

theorem Good.packet (hgood : block.Good seq) {k : BlockPacket} (hk : k.Valid) :
    ∃ p ∈ block.packets, block.packets[k.slot]? = some p ∧ p.kind = k := by
  have hslot := interleaving_slot hk
  rw [← hgood.order, List.getElem?_map, Option.map_eq_some_iff] at hslot
  obtain ⟨p, hp, hkind⟩ := hslot
  exact ⟨p, List.mem_of_getElem? hp, hp, hkind⟩

/-- A packet that is written stands behind the radio header. -/
theorem Good.written_packet (hgood : block.Good seq) (hframed : block.Framed phdrLen)
    {p : TxPacket} (hp : p ∈ block.packets) {f : List UInt8} (hf : p.frame = some f) :
    f.length = phdrLen + (sizeofWifiPacketHeader + paramPacketLength) ∧
      read32 (ofList f) phdrLen = .ofNat (seq + p.kind.slot) ∧
      Stored (ofList f) (phdrLen + sizeofWifiPacketHeader) p.data := by
  have hlen : p.data.length = paramPacketLength := by
    cases hkind : p.kind with
    | data di => rw [hgood.data p hp di hkind, length_slice]
    | fec fi => exact (hgood.fec p hp fi hkind).1
  have hdrop := hframed.frame p hp f hf
  have hlength := congrArg List.length hdrop
  rw [List.length_drop, p.length_payload, hlen] at hlength
  have hstored := stored_drop (l := f) (n := phdrLen) (by
    simp only [paramPacketLength] at hlength
    omega)
  rw [hdrop, TxPacket.payload] at hstored
  obtain ⟨hseq, hdata⟩ := stored_append hstored
  rw [hgood.seqNr p hp] at hseq
  refine ⟨?_, read32_of_slice hseq, hdata⟩
  simp only [sizeofWifiPacketHeader, paramPacketLength] at hlength ⊢
  omega

/-- The payload of a finished data packet, read as its header says. -/
theorem Finished.payload_eq (hfinished : block.Finished) {di : Nat}
    (hdi : di < paramDataPacketsPerBlock) {buf : Buf} {pos : Nat}
    (h : Stored buf pos (slice (block.pbl di).data 0 paramPacketLength)) :
    slice buf (pos + sizeofPayloadHeader) (read32 buf pos).toNat = (block.pbl di).payload := by
  have hfin := hfinished di hdi
  have hge := hfin.len_ge
  have hle := hfin.len_le
  rw [Stored, length_slice, slice_eq_iff] at h
  simp only [paramPacketLength, Nat.zero_add] at h
  have hheader : read32 buf pos = (block.pbl di).dataLength :=
    read32_congr (slice_eq_iff.mpr fun k hk => by rw [Nat.zero_add]; exact h k (by omega))
  have hsmall : (block.pbl di).dataLength.toNat ≤ paramPacketLength - sizeofPayloadHeader := by
    rw [PacketBuffer.dataLength, read32_of_slice hfin.header, UInt32.toNat_ofNat']
    exact (Nat.mod_le _ _).trans (Nat.sub_le_sub_right hle _)
  rw [hheader, PacketBuffer.payload, slice_eq_iff]
  intro k hk
  rw [Nat.add_assoc]
  simp only [paramPacketLength, sizeofPayloadHeader] at hsmall ⊢
  exact h (4 + k) (by omega)

/-- **The frames of a block.** -/
theorem Good.written (hgood : block.Good seq) (hframed : block.Framed phdrLen)
    (hfinished : block.Finished) : block.Written phdrLen seq := by
  constructor
  · intro k hk
    obtain ⟨p, hp, hslot, rfl⟩ := hgood.packet hk.valid
    cases hf : p.frame with
    | none =>
      obtain ⟨fi, hfec, hodd⟩ := hframed.withheld p hp hf
      rw [hfec] at hk
      have := hk.2
      omega
    | some f =>
      obtain ⟨hlength, hseq, -⟩ := hgood.written_packet hframed hp hf
      exact ⟨f, by rw [frame, hslot, Option.bind_some, hf], hlength, hseq⟩
  · intro di hdi f hframe
    obtain ⟨p, hp, hslot, hkind⟩ := hgood.packet (k := .data di) hdi
    rw [frame, show dataSlot di = (BlockPacket.data di).slot from rfl, hslot,
      Option.bind_some] at hframe
    obtain ⟨-, -, hdata⟩ := hgood.written_packet hframed hp hframe
    rw [hgood.data p hp di hkind] at hdata
    rw [← Nat.add_assoc]
    exact hfinished.payload_eq hdi hdata

end TxBlock

theorem measureBlock_same (env : TxEnv) (s : TxState) (prevTime : UInt64) (nrBytes : Nat) :
    SameStream s (measureBlock env s prevTime nrBytes) := by
  simp only [measureBlock]
  by_cases h : env.clk (s.ticks + 1) - s.injectionTimePrev > 220
  · rw [if_pos h]
    exact ⟨rfl, rfl, rfl, rfl⟩
  · rw [if_neg h]
    exact ⟨rfl, rfl, rfl, rfl⟩

theorem Transmitting.packet {packetLength seq : Nat} {dataBlocks fecBlocks : Nat → Buf}
    {s : TxState} {l : TransmitLoop}
    (hl : Transmitting packetLength dataBlocks fecBlocks s seq paramDataPacketsPerBlock l)
    {p : TxPacket} (hp : p ∈ l.packets) :
    p.seqNr = .ofNat (seq + p.kind.slot) ∧
      p.data = slice (blockOf dataBlocks fecBlocks p.kind) 0 packetLength ∧ p.kind.Valid := by
  have hmem := List.mem_map_of_mem (f := TxPacket.content) hp
  rw [hl.content] at hmem
  obtain ⟨k, hk, hcontent⟩ := List.mem_map.mp hmem
  simp only [packetContent, TxPacket.content, Prod.mk.injEq] at hcontent
  obtain ⟨rfl, hseq, hdata⟩ := hcontent
  exact ⟨hseq.symm, hdata.symm, mem_interleaving.mp hk⟩

theorem Transmitting.order {packetLength seq : Nat} {dataBlocks fecBlocks : Nat → Buf}
    {s : TxState} {l : TransmitLoop}
    (hl : Transmitting packetLength dataBlocks fecBlocks s seq paramDataPacketsPerBlock l) :
    l.packets.map TxPacket.kind = interleaving := by
  have hkinds := congrArg (List.map Prod.fst) hl.content
  rw [List.map_map, List.map_map] at hkinds
  exact hkinds.trans (List.map_id _)

/-- The variables before the sending loop of `pb_transmit_block`. -/
def transmitStart (s : TxState) : TransmitLoop :=
  ⟨{ s with ticks := s.ticks + 1 }, 0, 0, s.seqNr.toNat, 0, []⟩

theorem transmitStart_spec (packetLength : Nat) (dataBlocks fecBlocks : Nat → Buf) (s : TxState) :
    Transmitting packetLength dataBlocks fecBlocks s s.seqNr.toNat 0 (transmitStart s) := by
  refine ⟨rfl, rfl, rfl, ⟨rfl, rfl, rfl, rfl⟩, ?_, fun _ => rfl, rfl, ?_, ?_⟩
  · simp [transmitStart]
  · intro p hp
    exact absurd hp List.not_mem_nil
  · intro p hp
    exact absurd hp List.not_mem_nil

/-- `pb_transmit_block` runs its loop on the data packets and their parity, with whatever each
round keeps. -/
theorem pbTransmitBlock_runs (env : TxEnv) (s : TxState) (packetLength : Nat)
    {P : Nat → TransmitLoop → Prop} (hstart : P 0 (transmitStart s))
    (hround : ∀ dataBlocks fecBlocks r l,
      Transmitting packetLength dataBlocks fecBlocks s s.seqNr.toNat r l →
      r < paramDataPacketsPerBlock → P r l → P (r + 1)
        (transmitRound packetLength paramDataPacketsPerBlock paramFecPacketsPerBlock dataBlocks
          fecBlocks l)) :
    ∃ fecBlocks l, pbTransmitBlock env s packetLength paramDataPacketsPerBlock
        paramFecPacketsPerBlock = some (resetBlock (measureBlock env l.s (env.clk s.ticks)
          (packetLength * (paramDataPacketsPerBlock + paramFecPacketsPerBlock)))
          paramDataPacketsPerBlock paramFecPacketsPerBlock, ⟨s.pbl, l.packets⟩) ∧
      (∀ row < paramFecPacketsPerBlock, ∀ p < packetLength, gfAt (fecBlocks row) p =
        parity paramDataPacketsPerBlock (fun i => (s.pbl i).data) row p) ∧
      Transmitting packetLength (fun i => (s.pbl i).data) fecBlocks s s.seqNr.toNat
        paramDataPacketsPerBlock l ∧ P paramDataPacketsPerBlock l := by
  obtain ⟨fecBlocks, hfec, hparity, -⟩ := fecEncode_spec packetLength
    paramDataPacketsPerBlock paramFecPacketsPerBlock (fun i => (s.pbl i).data)
    (env.stack s.ticks) (by decide) (by decide) (by decide)
  refine ⟨fecBlocks, _, ?_, hparity, (transmitStart_spec packetLength _ fecBlocks s).loop
    (hround _ fecBlocks) hstart (Nat.zero_le _)⟩
  rw [pbTransmitBlock, if_pos (by decide), hfec]
  rfl

/-- **Transmitting a block.** It never fails an assertion, sends the data packets with their
parity, advances `seq_nr` by twelve and empties the data packets. -/
theorem pbTransmitBlock_spec (env : TxEnv) (s : TxState) :
    ∃ s' block, pbTransmitBlock env s paramPacketLength paramDataPacketsPerBlock
        paramFecPacketsPerBlock = some (s', block) ∧
      block.pbl = s.pbl ∧ block.Good s.seqNr.toNat ∧ block.Framed s.phdrLen ∧
      s'.seqNr = s.seqNr + 12 ∧ s'.phdrLen = s.phdrLen ∧ s'.currPb = s.currPb ∧
      ∀ di < paramDataPacketsPerBlock, (s'.pbl di).len = 0 := by
  obtain ⟨fecBlocks, l, hrun, hparity, hend, -⟩ :=
    pbTransmitBlock_runs env s paramPacketLength (P := fun _ _ => True) trivial
      fun _ _ _ _ _ _ _ => trivial
  obtain ⟨m, hm⟩ : ∃ m, m = measureBlock env l.s (env.clk s.ticks)
    (paramPacketLength * (paramDataPacketsPerBlock + paramFecPacketsPerBlock)) := ⟨_, rfl⟩
  have hsame : SameStream l.s m := hm ▸ measureBlock_same env l.s _ _
  rw [← hm] at hrun
  refine ⟨_, _, hrun, rfl, ?_, ?_, ?_, ?_, ?_, ?_⟩
  · refine ⟨hend.order, fun p hp => (hend.packet hp).1, ?_, ?_⟩
    · intro p hp di hk
      rw [(hend.packet hp).2.1, hk]
      rfl
    · intro p hp fi hk
      obtain ⟨-, hdata, hvalid⟩ := hend.packet hp
      rw [hk] at hdata hvalid
      refine ⟨by rw [hdata, length_slice], ?_⟩
      intro q hq
      rw [← hparity fi hvalid q hq, hdata, gfAt, ofList_slice _ _ hq, Nat.zero_add]
      rfl
  · exact ⟨hend.frame, hend.withheld⟩
  · rw [← hend.same.seqNr, ← hsame.seqNr]
    rfl
  · exact hsame.phdrLen.trans hend.same.phdrLen
  · exact hsame.currPb.trans hend.same.currPb
  · intro di hdi
    simp only [resetBlock, if_pos hdi]

/-! ## The packets under construction -/

/-- What holds between two rounds of `wfb_tx_stream`: the packets before `curr_pb` are finished,
the one at `curr_pb` is empty or too short to be sent, and the others are empty. -/
structure TxInv (s : TxState) : Prop where
  currPb_lt : s.currPb < paramDataPacketsPerBlock
  finished : ∀ i < s.currPb, (s.pbl i).Finished
  short : (s.pbl s.currPb).len < paramMinPacketLength
  opened : (s.pbl s.currPb).len = 0 ∨ sizeofPayloadHeader ≤ (s.pbl s.currPb).len
  later : ∀ i, s.currPb < i → i < paramDataPacketsPerBlock → (s.pbl i).len = 0

theorem TxInv.first {s : TxState} (hcurr : s.currPb = 0)
    (hempty : ∀ i < paramDataPacketsPerBlock, (s.pbl i).len = 0) : TxInv s := by
  have hzero := hempty 0 (by decide)
  refine ⟨by rw [hcurr]; decide, fun i hi => ?_, ?_, Or.inl ?_, fun i _ hi => hempty i hi⟩
  · rw [hcurr] at hi
    exact absurd hi (Nat.not_lt_zero i)
  · rw [hcurr, hzero]; decide
  · rw [hcurr, hzero]

theorem TxState.Fresh.inv {s : TxState} (h : s.Fresh) : TxInv s := .first h.currPb h.empty

theorem TxInv.next {s : TxState} (hlt : s.currPb + 1 < paramDataPacketsPerBlock)
    (hdone : ∀ i ≤ s.currPb, (s.pbl i).Finished)
    (hlater : ∀ i, s.currPb < i → i < paramDataPacketsPerBlock → (s.pbl i).len = 0) :
    TxInv { s with currPb := s.currPb + 1 } := by
  have hnext := hlater _ (Nat.lt_succ_self _) hlt
  refine ⟨hlt, fun i hi => hdone i (Nat.le_of_lt_succ hi), ?_, Or.inl hnext,
    fun i hi hi8 => hlater i (Nat.lt_of_succ_lt hi) hi8⟩
  simp only [hnext]
  decide

/-- A packet that has taken its share: the packets before it are finished, those behind it are
empty, and it is open. -/
structure Filled (s : TxState) : Prop where
  currPb_lt : s.currPb < paramDataPacketsPerBlock
  finished : ∀ i < s.currPb, (s.pbl i).Finished
  opened : sizeofPayloadHeader ≤ (s.pbl s.currPb).len
  len_le : (s.pbl s.currPb).len ≤ paramPacketLength
  later : ∀ i, s.currPb < i → i < paramDataPacketsPerBlock → (s.pbl i).len = 0

theorem fillPacket_eq (data : Buf) (len : Nat) (s : TxState) (offset : Nat) :
    ∃ pbLen copyLen,
      pbLen = (if (s.pbl s.currPb).len = 0
        then (s.pbl s.currPb).len + sizeofPayloadHeader else (s.pbl s.currPb).len) ∧
      copyLen = (if len - offset > paramPacketLength - pbLen
        then paramPacketLength - pbLen else len - offset) ∧
      fillPacket data len s offset =
        ({ s with pbl := Function.update s.pbl s.currPb { s.pbl s.currPb with
            data := memcpy (s.pbl s.currPb).data pbLen (slice data offset copyLen)
            len := pbLen + copyLen } }, offset + copyLen) :=
  ⟨_, _, rfl, rfl, rfl⟩

/-- **Filling a packet** makes progress, and a packet that is still too short has taken all
there was. -/
theorem fillPacket_spec (data : Buf) (len : Nat) {s : TxState} {offset : Nat} (hs : TxInv s)
    (hoff : offset ≤ len) :
    ∃ s' offset', fillPacket data len s offset = (s', offset') ∧ Filled s' ∧
      s'.seqNr = s.seqNr ∧ s'.phdrLen = s.phdrLen ∧ offset' ≤ len ∧
      (offset' < len → offset < offset') ∧
      ((s'.pbl s'.currPb).len < paramMinPacketLength → offset' = len) := by
  have hshort := hs.short
  have hopened := hs.opened
  obtain ⟨pbLen, copyLen, hpbLen, hcopyLen, hfill⟩ := fillPacket_eq data len s offset
  simp only [paramMinPacketLength, sizeofPayloadHeader, paramPacketLength] at *
  have hpb : 4 ≤ pbLen ∧ pbLen < 24 := by
    rw [hpbLen]
    split_ifs <;> omega
  have hcopy : copyLen ≤ len - offset ∧ copyLen ≤ 1024 - pbLen ∧
      (copyLen = len - offset ∨ copyLen = 1024 - pbLen) := by
    rw [hcopyLen]
    split_ifs <;> omega
  have hother : ∀ i pb, i ≠ s.currPb → Function.update s.pbl s.currPb pb i = s.pbl i :=
    fun i pb hi => Function.update_of_ne hi _ _
  refine ⟨_, _, hfill, ⟨hs.currPb_lt, fun i hi => ?_, ?_, ?_, fun i hi hi8 => ?_⟩, rfl, rfl,
    by omega, by omega, ?_⟩
  · change (Function.update s.pbl s.currPb _ i).Finished
    rw [hother i _ (Nat.ne_of_lt hi)]
    exact hs.finished i hi
  · simp only [Function.update_self, sizeofPayloadHeader]; omega
  · simp only [Function.update_self, paramPacketLength]; omega
  · change (Function.update s.pbl s.currPb _ i).len = 0
    rw [hother i _ (Nat.ne_of_gt hi)]
    exact hs.later i hi hi8
  · simp only [Function.update_self]; omega

/-- From `s` to `s'` the blocks were transmitted one after the other. -/
structure Emits (s s' : TxState) (blocks : List TxBlock) : Prop where
  phdrLen : s'.phdrLen = s.phdrLen
  seqNr : s'.seqNr = s.seqNr + .ofNat (12 * blocks.length)
  good : ∀ i (block : TxBlock), blocks[i]? = some block →
    block.Good (s.seqNr + .ofNat (12 * i)).toNat
  framed : ∀ block ∈ blocks, block.Framed s.phdrLen
  finished : ∀ block ∈ blocks, block.Finished

theorem Emits.refl {s s' : TxState} (hphdr : s'.phdrLen = s.phdrLen) (hseq : s'.seqNr = s.seqNr) :
    Emits s s' [] := by
  refine ⟨hphdr, ?_, fun i block h => ?_, fun block h => absurd h List.not_mem_nil,
    fun block h => absurd h List.not_mem_nil⟩
  · rw [hseq]
    exact (UInt32.add_zero _).symm
  · simp at h

theorem Emits.trans {s s' s'' : TxState} {blocks more : List TxBlock} (h : Emits s s' blocks)
    (h' : Emits s' s'' more) : Emits s s'' (blocks ++ more) := by
  have hadd : ∀ n, s'.seqNr + .ofNat (12 * n) = s.seqNr + .ofNat (12 * (blocks.length + n)) := by
    intro n
    rw [h.seqNr, UInt32.add_assoc, ← UInt32.ofNat_add, Nat.mul_add]
  refine ⟨h'.phdrLen.trans h.phdrLen, ?_, fun i block hi => ?_, fun block hblock => ?_,
    fun block hblock => ?_⟩
  · rw [h'.seqNr, hadd, List.length_append]
  · by_cases hlt : i < blocks.length
    · rw [List.getElem?_append_left hlt] at hi
      exact h.good i block hi
    · rw [List.getElem?_append_right (by omega)] at hi
      have := h'.good _ block hi
      rwa [hadd, Nat.add_sub_cancel' (by omega)] at this
  · rcases List.mem_append.mp hblock with hm | hm
    · exact h.framed block hm
    · exact h.phdrLen ▸ h'.framed block hm
  · rcases List.mem_append.mp hblock with hm | hm
    · exact h.finished block hm
    · exact h'.finished block hm

theorem Emits.written {s s' : TxState} {blocks : List TxBlock} (h : Emits s s' blocks)
    (hs : s.Fresh) {i : Nat} {block : TxBlock} (hi : blocks[i]? = some block) :
    block.Written s.phdrLen (12 * i % 2 ^ 32) := by
  have hmem := List.mem_of_getElem? hi
  have hgood := h.good i block hi
  rw [hs.seqNr, UInt32.zero_add, UInt32.toNat_ofNat'] at hgood
  exact hgood.written (h.framed block hmem) (h.finished block hmem)

theorem Emits.single {s s' : TxState} {block : TxBlock} (hphdr : s'.phdrLen = s.phdrLen)
    (hseq : s'.seqNr = s.seqNr + 12) (hgood : block.Good s.seqNr.toNat)
    (hframed : block.Framed s.phdrLen) (hfinished : block.Finished) : Emits s s' [block] := by
  refine ⟨hphdr, hseq, fun i b hi => ?_, fun b hb => ?_, fun b hb => ?_⟩
  · obtain ⟨rfl, rfl⟩ : i = 0 ∧ block = b := by
      cases i with
      | zero => exact ⟨rfl, by simpa using hi⟩
      | succ i => simp at hi
    have hzero : s.seqNr + UInt32.ofNat (12 * 0) = s.seqNr := UInt32.add_zero _
    rw [hzero]
    exact hgood
  · rw [List.mem_singleton.mp hb]
    exact hframed
  · rw [List.mem_singleton.mp hb]
    exact hfinished

theorem finished_header {pb : PacketBuffer} (hge : paramMinPacketLength ≤ pb.len)
    (hle : pb.len ≤ paramPacketLength) :
    ({ pb with
      data := memcpy pb.data 0 (le32 (.ofNat (pb.len - sizeofPayloadHeader))) } :
      PacketBuffer).Finished :=
  ⟨hge, hle, slice_memcpy pb.data 0 (le32 (.ofNat (pb.len - sizeofPayloadHeader)))⟩

/-- The state in which the length of the packet is in its header. -/
def stampPacket (s : TxState) : TxState :=
  let pb := s.pbl s.currPb
  { s with
    pbl := Function.update s.pbl s.currPb
      { pb with data := memcpy pb.data 0 (le32 (.ofNat (pb.len - sizeofPayloadHeader))) }
    pcnt := s.pcnt + 1 }

theorem finishPacket_eq (env : TxEnv) (s : TxState) : finishPacket env s =
    if s.currPb = paramDataPacketsPerBlock - 1 then do
      let (s, block) ← pbTransmitBlock env (stampPacket s) paramPacketLength
        paramDataPacketsPerBlock paramFecPacketsPerBlock
      some ({ s with currPb := 0 }, [block])
    else some ({ stampPacket s with currPb := s.currPb + 1 }, []) := rfl

theorem stampPacket_self (s : TxState) : (stampPacket s).pbl s.currPb =
    { s.pbl s.currPb with
      data := memcpy (s.pbl s.currPb).data 0
        (le32 (.ofNat ((s.pbl s.currPb).len - sizeofPayloadHeader))) } :=
  Function.update_self _ _ _

theorem stampPacket_of_ne {s : TxState} {i : Nat} (h : i ≠ s.currPb) :
    (stampPacket s).pbl i = s.pbl i :=
  Function.update_of_ne h _ _

theorem Filled.stamped {s : TxState} (hs : Filled s)
    (hlen : paramMinPacketLength ≤ (s.pbl s.currPb).len) :
    ∀ i ≤ s.currPb, ((stampPacket s).pbl i).Finished := by
  intro i hi
  by_cases h : i = s.currPb
  · rw [h, stampPacket_self]
    exact finished_header hlen hs.len_le
  · rw [stampPacket_of_ne h]
    exact hs.finished i (by omega)

/-- **Finishing a packet**, and with the eighth the block. -/
theorem finishPacket_spec (env : TxEnv) {s : TxState} (hs : Filled s)
    (hlen : paramMinPacketLength ≤ (s.pbl s.currPb).len) :
    ∃ s' blocks, finishPacket env s = some (s', blocks) ∧ TxInv s' ∧ Emits s s' blocks ∧
      (s'.pbl s'.currPb).len = 0 ∧ s'.currPb = (s.currPb + 1) % paramDataPacketsPerBlock ∧
      blocks.length = (s.currPb + 1) / paramDataPacketsPerBlock := by
  have hlt := hs.currPb_lt
  have hdone := hs.stamped hlen
  rw [finishPacket_eq]
  by_cases hlast : s.currPb = paramDataPacketsPerBlock - 1
  · obtain ⟨s₂, block, hrun, hpbl₂, hgood, hframed, hseq, hphdr, -, hempty⟩ :=
      pbTransmitBlock_spec env (stampPacket s)
    have hfinished : block.Finished := by
      intro di hdi
      rw [hpbl₂]
      exact hdone di (by omega)
    rw [if_pos hlast, hrun, hlast]
    exact ⟨{ s₂ with currPb := 0 }, [block], rfl, .first rfl hempty,
      .single hphdr hseq hgood hframed hfinished, hempty 0 (by decide), rfl, rfl⟩
  · rw [if_neg hlast]
    have hlt₁ : s.currPb + 1 < paramDataPacketsPerBlock := by omega
    have hlater : ∀ i, s.currPb < i → i < paramDataPacketsPerBlock →
        ((stampPacket s).pbl i).len = 0 := by
      intro i hi hi8
      rw [stampPacket_of_ne (by omega)]
      exact hs.later i hi hi8
    have hnext : TxInv { stampPacket s with currPb := s.currPb + 1 } :=
      @TxInv.next (stampPacket s) hlt₁ hdone hlater
    refine ⟨_, _, rfl, hnext, .refl rfl rfl, hlater _ (Nat.lt_succ_self _) hlt₁, ?_, ?_⟩
    · rw [Nat.mod_eq_of_lt (by omega)]
    · exact (Nat.div_eq_of_lt (by omega)).symm

/-- The loop of `wfb_tx_stream` returns within its fuel. -/
theorem wfbTxLoop_spec (env : TxEnv) (data : Buf) (len fuel : Nat) {s : TxState}
    {offset : Nat} (hs : TxInv s) (hoff : offset ≤ len) (hfuel : len - offset < fuel) :
    ∃ s' blocks, wfbTxLoop env data len fuel s offset = some (s', blocks) ∧ TxInv s' ∧
      Emits s s' blocks := by
  induction fuel generalizing s offset with
  | zero => exact absurd hfuel (Nat.not_lt_zero _)
  | succ fuel ih =>
    obtain ⟨s₁, offset₁, hfill, hfilled, hseq, hphdr, hoff₁, hprogress, hall⟩ :=
      fillPacket_spec data len hs hoff
    have hmid : ∃ s₂ blocks, checkPacket env s₁ = some (s₂, blocks) ∧ TxInv s₂ ∧
        Emits s₁ s₂ blocks := by
      rw [checkPacket]
      by_cases hlen : (s₁.pbl s₁.currPb).len ≥ paramMinPacketLength
      · obtain ⟨s₂, blocks, hrun, hinv, hemits, -⟩ := finishPacket_spec env hfilled hlen
        rw [if_pos hlen]
        exact ⟨s₂, blocks, hrun, hinv, hemits⟩
      · rw [if_neg hlen]
        exact ⟨s₁, [], rfl, ⟨hfilled.currPb_lt, hfilled.finished, by omega,
          Or.inr hfilled.opened, hfilled.later⟩, Emits.refl rfl rfl⟩
    obtain ⟨s₂, blocks, hrun, hinv, hemits⟩ := hmid
    have hemits₀ := (Emits.refl hphdr hseq).trans hemits
    rw [List.nil_append] at hemits₀
    by_cases hmore : offset₁ < len
    · obtain ⟨s', more, hrest, hinv', hemits'⟩ := ih hinv hoff₁ (by omega)
      refine ⟨s', blocks ++ more, ?_, hinv', hemits₀.trans hemits'⟩
      simp only [wfbTxLoop, hfill, hrun, Option.bind_eq_bind, Option.bind_some, if_pos hmore, hrest]
    · refine ⟨s₂, blocks, ?_, hinv, hemits₀⟩
      simp only [wfbTxLoop, hfill, hrun, Option.bind_eq_bind, Option.bind_some, if_neg hmore]

/-- **A run of the transmitter.** Every call of `wfb_tx_stream` returns, the invariant of the
packets under construction is kept, and the blocks transmitted are well formed. -/
theorem wfbTxRun_spec (env : TxEnv) (calls : List (Buf × UInt16)) {s : TxState} (hs : TxInv s) :
    ∃ s' blocks, wfbTxRun env s calls = some (s', blocks) ∧ TxInv s' ∧ Emits s s' blocks := by
  induction calls generalizing s with
  | nil => exact ⟨s, [], rfl, hs, Emits.refl rfl rfl⟩
  | cons call calls ih =>
    obtain ⟨data, len⟩ := call
    obtain ⟨s₁, blocks, hrun, hinv, hemits⟩ :=
      wfbTxLoop_spec env data len.toNat (len.toNat + 1) hs (Nat.zero_le _) (by omega)
    obtain ⟨s', more, hrest, hinv', hemits'⟩ := ih hinv
    refine ⟨s', blocks ++ more, ?_, hinv', hemits.trans hemits'⟩
    simp only [wfbTxRun, wfbTxStream, hrun, Option.bind_eq_bind, Option.bind_some, hrest]

/-- A call with twenty bytes on an empty packet makes exactly that packet. -/
theorem wfbTxStream_small (env : TxEnv) {s : TxState} (hs : TxInv s)
    (hempty : (s.pbl s.currPb).len = 0) (data : Buf) :
    ∃ s' blocks, wfbTxStream env s data 20 = some (s', blocks) ∧ TxInv s' ∧
      (s'.pbl s'.currPb).len = 0 ∧ s'.currPb = (s.currPb + 1) % paramDataPacketsPerBlock ∧
      blocks.length = (s.currPb + 1) / paramDataPacketsPerBlock := by
  obtain ⟨s₁, offset, hfill, hfilled, -, -, -, -, -⟩ :=
    fillPacket_spec data 20 hs (Nat.zero_le 20)
  have hwhole : s₁.currPb = s.currPb ∧ (s₁.pbl s₁.currPb).len = 24 ∧ offset = 20 := by
    have := congrArg Prod.fst hfill
    have hoff := congrArg Prod.snd hfill
    simp [fillPacket, hempty] at this hoff
    exact ⟨by rw [← this], by rw [← this]; simp, hoff.symm⟩
  obtain ⟨hcurr, hlen, rfl⟩ := hwhole
  obtain ⟨s', blocks, hrun, hinv, -, hempty', hcurr', hblocks⟩ :=
    finishPacket_spec env hfilled (by rw [hlen])
  refine ⟨s', blocks, ?_, hinv, hempty', hcurr ▸ hcurr', hcurr ▸ hblocks⟩
  have hcheck : checkPacket env s₁ = some (s', blocks) := by
    rw [checkPacket, if_pos (by rw [hlen]), hrun]
  have hloop : wfbTxStream env s data 20 = wfbTxLoop env data 20 (20 + 1) s 0 := rfl
  rw [hloop, wfbTxLoop]
  simp only [hfill, hcheck, Option.bind_eq_bind, Option.bind_some, Nat.lt_irrefl, if_false]

/-- Runs of any number of blocks exist: eight such calls make a block. -/
theorem wfbTxRun_small (env : TxEnv) (data : Buf) (n : Nat) {s : TxState} (hs : TxInv s)
    (hempty : (s.pbl s.currPb).len = 0) :
    ∃ s' blocks, wfbTxRun env s (List.replicate n (data, 20)) = some (s', blocks) ∧
      blocks.length = (s.currPb + n) / paramDataPacketsPerBlock := by
  induction n generalizing s with
  | zero => exact ⟨s, [], rfl, (Nat.div_eq_of_lt hs.currPb_lt).symm⟩
  | succ n ih =>
    obtain ⟨s₁, blocks, hrun, hinv, hempty₁, hcurr, hlen⟩ := wfbTxStream_small env hs hempty data
    obtain ⟨s', more, hrest, hlen'⟩ := ih hinv hempty₁
    refine ⟨s', blocks ++ more, ?_, ?_⟩
    · simp only [List.replicate_succ, wfbTxRun, hrun, Option.bind_eq_bind, Option.bind_some, hrest]
    · have hlt := hs.currPb_lt
      rw [List.length_append, hlen, hlen', hcurr]
      simp only [paramDataPacketsPerBlock] at hlt ⊢
      omega

/-! ## Runs of blocks -/

/-- Calls of `pb_transmit_block` one after the other, each on the data packets that it finds. -/
def transmitBlocks (env : TxEnv) (s : TxState) :
    List (Nat → PacketBuffer) → Option (TxState × List TxBlock)
  | [] => some (s, [])
  | pbl :: pbls => do
    let (s, block) ← pbTransmitBlock env { s with pbl } paramPacketLength
      paramDataPacketsPerBlock paramFecPacketsPerBlock
    let (s, more) ← transmitBlocks env s pbls
    some (s, block :: more)

/-- After any number of blocks, `seq_nr` has wrapped as often as it takes. -/
theorem transmitBlocks_spec (env : TxEnv) (pbls : List (Nat → PacketBuffer)) (s : TxState) :
    ∃ s' blocks, transmitBlocks env s pbls = some (s', blocks) ∧ blocks.length = pbls.length ∧
      s'.seqNr = s.seqNr + .ofNat (12 * pbls.length) := by
  induction pbls generalizing s with
  | nil => exact ⟨s, [], rfl, rfl, (UInt32.add_zero _).symm⟩
  | cons pbl pbls ih =>
    obtain ⟨s₁, block, hrun, -, -, -, hseq, -⟩ := pbTransmitBlock_spec env { s with pbl }
    obtain ⟨s', more, hrest, hlen, hseq'⟩ := ih s₁
    refine ⟨s', block :: more, ?_, by rw [List.length_cons, List.length_cons, hlen], ?_⟩
    · simp only [transmitBlocks, hrun, Option.bind_eq_bind, Option.bind_some, hrest]
    · have h12 : s.seqNr + (12 : UInt32) = s.seqNr + .ofNat 12 := rfl
      rw [hseq', hseq, h12, UInt32.add_assoc, ← UInt32.ofNat_add, List.length_cons,
        Nat.mul_succ, Nat.add_comm]

end Rhex
