import Mathlib
import Rhex.Fec
import Rhex.Netlink
import Rhex.Packet

/-!
# The video receiver (`process_payload` of `wfb_rx_rawsock.c`)

`process_payload` collects the packets of one block. The first packet of a later block flushes
what was collected: the packets are split into data and FEC packets, missing data packets are
replaced by FEC packets, the block is decoded and its payloads are appended to the output. A block
number far behind the newest one means that the transmitter was restarted, and drops what was
collected.

* `processPayload` — the function as the code runs it, on the state it keeps between calls.
* `splitLoop`, `replaceLoop`, `outputLoop` — the loops of a flush.
* `flushBlock_spec` — what a flush appends to the output.
-/

namespace Rhex

open Memory

/-! ## State -/

/-- `param_block_buffers`. -/
@[simp] abbrev paramBlockBuffers : Nat := 1

/-- `TIME_MS`, in nanoseconds. -/
def timeMs : UInt64 := 1000000

/-- `wifi_adapter_rx_status_t`. -/
structure AdapterStatus where
  receivedPacketCnt : UInt32
  wrongCrcCnt : UInt32
  currentSignalDbm : Int
  signalGood : Int

/-- `wifibroadcast_rx_status_t`, the fields that `process_payload` writes. -/
structure RxStatus where
  receivedBlockCnt : UInt32
  damagedBlockCnt : UInt32
  lostPacketCnt : UInt32
  receivedPacketCnt : UInt32
  lostPerBlockCnt : UInt32
  txRestartCnt : UInt32
  kbitrate : UInt32
  adapter : Nat → AdapterStatus

/-- `block_buffer_t`. -/
structure BlockBuffer where
  blockNum : Int
  packetBufferList : Nat → PacketBuffer

/-- `wfb_rx_stream_t`, and the static variables of the file. -/
structure RxState where
  blockBufferList : Nat → BlockBuffer
  maxBlockNum : Int
  rxStatus : RxStatus
  bytesDecoded : Nat
  packetsMissing : UInt32
  packetsMissingLast : UInt32
  prevTime : UInt64
  pmPrevTime : UInt64
  /-- The number of readings of `svc_get_monotime` so far. -/
  ticks : Nat

/-- `struct payload_data_t`. -/
structure PayloadData where
  data : Buf
  size : Nat
  crcOk : Bool

namespace PayloadData

/-- `wph->sequence_number`. -/
def sequenceNumber (pd : PayloadData) : UInt32 := read32 pd.data 0

def blockNum (pd : PayloadData) : Nat := pd.sequenceNumber.toNat / 12

/-- The packet's slot in its block. -/
def packetNum (pd : PayloadData) : Nat := pd.sequenceNumber.toNat % 12

end PayloadData

/-- `wfb_rx_stream_packet_t`. -/
structure RxData where
  bytes : Nat
  data : Buf

/-- What has been written to `data`. -/
def RxData.content (r : RxData) : List UInt8 := slice r.data 0 r.bytes

/-- The number of slots of a block. -/
@[simp] abbrev packetsPerBlock : Nat := paramDataPacketsPerBlock + paramFecPacketsPerBlock

/-! ## Resets -/

/-- `valid = 0`, `crc_correct = 0`, `len = 0` for all packets of a block. -/
def resetPackets (packets : Nat → PacketBuffer) : Nat → PacketBuffer := fun j =>
  if j < packetsPerBlock then { packets j with valid := false, crcCorrect := false, len := 0 }
  else packets j

/-- `block_buffer_list_reset`. -/
def blockBufferListReset (blockBufferList : Nat → BlockBuffer) : Nat → BlockBuffer := fun i =>
  if i < paramBlockBuffers then ⟨-1, resetPackets (blockBufferList i).packetBufferList⟩
  else blockBufferList i

/-- What `process_payload` does on a restart of the transmitter. -/
def restartRx (s : RxState) : RxState :=
  { s with
    rxStatus := { s.rxStatus with
      txRestartCnt := s.rxStatus.txRestartCnt + 1
      receivedBlockCnt := 0
      damagedBlockCnt := 0
      receivedPacketCnt := 0
      lostPacketCnt := 0
      kbitrate := 0
      adapter := fun g => if g < nlMaxIfaces then ⟨0, 0, -126, 0⟩ else s.rxStatus.adapter g }
    blockBufferList := blockBufferListReset s.blockBufferList }

/-! ## The split into data and FEC packets -/

/-- The variables of the split loop. The pointers `data_pkgs` and `fec_pkgs` are indices into
`packet_buffer_list`. -/
structure SplitState where
  i : Nat
  di : Nat
  fi : Nat
  dataPkgs : Nat → Nat
  fecPkgs : Nat → Nat
  datasMissing : Nat
  fecsMissing : Nat

/-- The first half of a round: the next data packet. -/
def splitData (packets : Nat → PacketBuffer) (st : SplitState) : SplitState :=
  if st.di < paramDataPacketsPerBlock then
    { st with
      dataPkgs := Function.update st.dataPkgs st.di st.i
      i := st.i + 1
      datasMissing := if !(packets st.i).valid then st.datasMissing + 1 else st.datasMissing
      di := st.di + 1 }
  else st

/-- The second half: the next FEC packet. -/
def splitFec (packets : Nat → PacketBuffer) (st : SplitState) : SplitState :=
  if st.fi < paramFecPacketsPerBlock then
    { st with
      fecPkgs := Function.update st.fecPkgs st.fi st.i
      i := st.i + 1
      fecsMissing := if !(packets st.i).valid then st.fecsMissing + 1 else st.fecsMissing
      fi := st.fi + 1 }
  else st

theorem splitRound_di (packets : Nat → PacketBuffer) (st : SplitState) :
    (splitFec packets (splitData packets st)).di =
      if st.di < paramDataPacketsPerBlock then st.di + 1 else st.di := by
  simp only [splitFec, splitData]
  split_ifs <;> rfl

theorem splitRound_fi (packets : Nat → PacketBuffer) (st : SplitState) :
    (splitFec packets (splitData packets st)).fi =
      if st.fi < paramFecPacketsPerBlock then st.fi + 1 else st.fi := by
  simp only [splitFec, splitData]
  split_ifs <;> rfl

/-- The split loop of `process_payload`. -/
def splitLoop (packets : Nat → PacketBuffer) (st : SplitState) : SplitState :=
  if st.di < paramDataPacketsPerBlock ∨ st.fi < paramFecPacketsPerBlock then
    splitLoop packets (splitFec packets (splitData packets st))
  else st
termination_by paramDataPacketsPerBlock - st.di + (paramFecPacketsPerBlock - st.fi)
decreasing_by
  rw [splitRound_di, splitRound_fi]
  split_ifs <;> omega

/-- The split from its start; the pointer arrays are not initialised. -/
def split (packets : Nat → PacketBuffer) : SplitState :=
  splitLoop packets ⟨0, 0, 0, fun _ => 0, fun _ => 0, 0, 0⟩

/-! ## Replacing missing data packets by FEC packets -/

/-- The variables of the replacement loop. -/
structure ReplaceState where
  di : Nat
  fi : Nat
  nrFecBlocks : Nat
  erasedBlocks : Nat → Nat
  fecBlockNos : Nat → Nat

/-- One round of the replacement loop: `dataFine` and `fecValid` are its tests of the packets. -/
def replaceRound (dataFine fecValid : Nat → Bool) (st : ReplaceState) : ReplaceState :=
  if dataFine st.di then { st with di := st.di + 1 }
  else if !fecValid st.fi then { st with fi := st.fi + 1 }
  else
    { di := st.di + 1
      fi := st.fi + 1
      nrFecBlocks := st.nrFecBlocks + 1
      erasedBlocks := Function.update st.erasedBlocks st.nrFecBlocks st.di
      fecBlockNos := Function.update st.fecBlockNos st.nrFecBlocks st.fi }

/-- The loop that looks for missing data packets and replaces them with good FEC packets. -/
def replaceLoop (dataFine fecValid : Nat → Bool) (st : ReplaceState) : ReplaceState :=
  if st.di < paramDataPacketsPerBlock ∧ st.fi < paramFecPacketsPerBlock then
    replaceLoop dataFine fecValid (replaceRound dataFine fecValid st)
  else st
termination_by paramDataPacketsPerBlock - st.di + (paramFecPacketsPerBlock - st.fi)
decreasing_by
  simp only [replaceRound]
  split_ifs <;> simp only <;> omega

/-- The replacement from its start; the two arrays are not initialised. -/
def replaceMissing (dataFine fecValid : Nat → Bool) : ReplaceState :=
  replaceLoop dataFine fecValid ⟨0, 0, 0, fun _ => 0, fun _ => 0⟩

/-! ## Output -/

/-- The variables of the output loop. -/
structure OutputState where
  s : RxState
  rxData : RxData
  dataBlocks : Nat → Buf

/-- Limit a header's `data_length` to `param_packet_length`, in place. -/
def limitLength (block : Buf) : Buf :=
  if (read32 block 0).toNat > paramPacketLength then
    memcpy block 0 (le32 (.ofNat paramPacketLength))
  else block

/-- The bit rate that `process_payload` works out as it writes, every 500 ms. -/
def measureRate (clk : Nat → UInt64) (s : RxState) (nrBytes : Nat) : RxState :=
  let now := clk s.ticks
  let bytesDecoded := s.bytesDecoded + nrBytes
  if now - s.prevTime > 500 * timeMs then
    { s with
      prevTime := clk (s.ticks + 1)
      rxStatus := { s.rxStatus with kbitrate := .ofNat (bytesDecoded * 8 / 1024 * 2) }
      bytesDecoded := 0
      ticks := s.ticks + 2 }
  else { s with bytesDecoded, ticks := s.ticks + 1 }

/-- One round of the output loop. -/
def outputRound (clk : Nat → UInt64) (reconstructionFailed : Bool) (dataValid : Nat → Bool)
    (o : OutputState) (i : Nat) : OutputState :=
  if !reconstructionFailed || dataValid i then
    let block := limitLength (o.dataBlocks i)
    let dataLength := (read32 block 0).toNat
    { s := measureRate clk o.s dataLength
      rxData :=
        ⟨o.rxData.bytes + dataLength,
          memcpy o.rxData.data o.rxData.bytes (slice block sizeofPayloadHeader dataLength)⟩
      dataBlocks := Function.update o.dataBlocks i block }
  else o

/-- The output loop of `process_payload`. -/
def outputLoop (clk : Nat → UInt64) (reconstructionFailed : Bool) (dataValid : Nat → Bool)
    (n : Nat) (o : OutputState) : OutputState :=
  (List.range n).foldl (outputRound clk reconstructionFailed dataValid) o

/-! ## A flush -/

/-- The packet counters of a flush. -/
def countPackets (clk : Nat → UInt64) (s : RxState) (datasMissing fecsMissing : Nat) : RxState :=
  let packetsLostInBlock := UInt32.ofNat (datasMissing + fecsMissing)
  let st := s.rxStatus
  let st := { st with
    lostPacketCnt := st.lostPacketCnt + packetsLostInBlock
    receivedPacketCnt := st.receivedPacketCnt + .ofNat packetsPerBlock - packetsLostInBlock }
  let packetsMissingLast := s.packetsMissing
  let packetsMissing :=
    if packetsLostInBlock < packetsMissingLast then packetsMissingLast else packetsLostInBlock
  let pmNow := clk s.ticks
  if pmNow - s.pmPrevTime > 220 * timeMs then
    { s with
      pmPrevTime := clk (s.ticks + 1)
      rxStatus := { st with lostPerBlockCnt := packetsMissing }
      packetsMissing := 0, packetsMissingLast := 0, ticks := s.ticks + 2 }
  else { s with rxStatus := st, packetsMissing, packetsMissingLast, ticks := s.ticks + 1 }

/-- Write the blocks that a decode worked on back into their packets. -/
def storeBlocks (packets : Nat → PacketBuffer) (n : Nat) (pkgs : Nat → Nat) (blocks : Nat → Buf) :
    Nat → PacketBuffer :=
  (List.range n).foldl (fun packets i =>
    Function.update packets (pkgs i) { packets (pkgs i) with data := blocks i }) packets

/-- The replacement for the packets as the split found them. -/
def replacePackets (packets : Nat → PacketBuffer) (st : SplitState) : ReplaceState :=
  replaceMissing
    (fun di => (packets (st.dataPkgs di)).valid && (packets (st.dataPkgs di)).crcCorrect)
    (fun fi => (packets (st.fecPkgs fi)).valid)

/-- The call of `fec_decode`, on the data packets and the FEC packets chosen. -/
def decodePackets (packets : Nat → PacketBuffer) (st : SplitState) (re : ReplaceState) :
    Option ((Nat → Buf) × (Nat → Buf)) :=
  fecDecode paramPacketLength (fun di => (packets (st.dataPkgs di)).data) paramDataPacketsPerBlock
    (fun i => (packets (st.fecPkgs (re.fecBlockNos i))).data) re.fecBlockNos re.erasedBlocks
    re.nrFecBlocks

/-- The counters of a flush: the block itself, its packets, and whether it is damaged. -/
def countBlock (clk : Nat → UInt64) (s : RxState) (st : SplitState)
    (reconstructionFailed : Bool) : RxState :=
  let s := { s with rxStatus :=
    { s.rxStatus with receivedBlockCnt := s.rxStatus.receivedBlockCnt + 1 } }
  let s := countPackets clk s st.datasMissing st.fecsMissing
  if reconstructionFailed then
    { s with rxStatus := { s.rxStatus with damagedBlockCnt := s.rxStatus.damagedBlockCnt + 1 } }
  else s

/-- The end of a flush: the packets of the buffer are reset. -/
def emptyBuffer (s : RxState) (idx : Nat) (packets : Nat → PacketBuffer) : RxState :=
  { s with
    blockBufferList := Function.update s.blockBufferList idx
      { s.blockBufferList idx with packetBufferList := resetPackets packets } }

/-- The flush of the block buffer `idx`. `none` is a failed assertion of `fec_decode`. -/
def flushBlock (clk : Nat → UInt64) (s : RxState) (idx : Nat) (rxData : RxData) :
    Option (RxState × RxData) := do
  let packets := (s.blockBufferList idx).packetBufferList
  let st := split packets
  let goodFecs := paramFecPacketsPerBlock - st.fecsMissing
  let re := replacePackets packets st
  let reconstructionFailed := decide (st.datasMissing > goodFecs)
  let s := countBlock clk s st reconstructionFailed
  let (dataBlocks, fecBlocks) ← decodePackets packets st re
  let o := outputLoop clk reconstructionFailed (fun di => (packets (st.dataPkgs di)).valid)
    paramDataPacketsPerBlock ⟨s, rxData, dataBlocks⟩
  let packets := storeBlocks packets paramDataPacketsPerBlock st.dataPkgs o.dataBlocks
  let packets :=
    storeBlocks packets re.nrFecBlocks (fun i => st.fecPkgs (re.fecBlockNos i)) fecBlocks
  some (emptyBuffer o.s idx packets, o.rxData)

/-! ## One packet -/

/-- The search for the smallest block number among the buffers. -/
def minBlockNumIdx (blockBufferList : Nat → BlockBuffer) : Nat :=
  ((List.range paramBlockBuffers).foldl
    (fun (m : Int × Nat) i =>
      if (blockBufferList i).blockNum < m.1 then ((blockBufferList i).blockNum, i) else m)
    (2 ^ 31 - 1, 0)).2

/-- Flush the buffer `idx` unless it was never opened. The third result is the number of the
block that was flushed. -/
def flushOldest (clk : Nat → UInt64) (s : RxState) (idx : Nat) (rxData : RxData) :
    Option (RxState × RxData × Option Int) :=
  let lastBlockNum := (s.blockBufferList idx).blockNum
  if lastBlockNum ≠ -1 then
    (flushBlock clk s idx rxData).map fun r => (r.1, r.2, some lastBlockNum)
  else some (s, rxData, none)

/-- Open the buffer `idx` for a new block. -/
def setBlock (s : RxState) (idx : Nat) (blockNum : Int) : RxState :=
  { s with
    blockBufferList := Function.update s.blockBufferList idx
      { s.blockBufferList idx with blockNum }
    maxBlockNum := blockNum }

/-- A packet of a new block: flush the oldest buffer, and open it for the new block. -/
def openBlock (clk : Nat → UInt64) (s : RxState) (blockNum : Int) (txRestart : Bool)
    (rxData : RxData) : Option (RxState × RxData × Option Int) := do
  let s := if txRestart then restartRx s else s
  let idx := minBlockNumIdx s.blockBufferList
  let (s, rxData, flushed) ← flushOldest clk s idx rxData
  some (setBlock s idx blockNum, rxData, flushed)

/-- Make room for a block with a number above all seen so far, or far below: the transmitter was
restarted. -/
def makeRoom (clk : Nat → UInt64) (s : RxState) (blockNum : Int) (crcOk : Bool)
    (rxData : RxData) : Option (RxState × RxData × Option Int) :=
  let txRestart := decide (blockNum + 128 * paramBlockBuffers < s.maxBlockNum)
  if (blockNum > s.maxBlockNum ∨ txRestart = true) ∧ crcOk = true then
    openBlock clk s blockNum txRestart rxData
  else some (s, rxData, none)

/-- Subtraction on `size_t`. -/
def sizeSub (a b : Nat) : Nat := if b ≤ a then a - b else 2 ^ 64 + a - b

/-- A packet buffer that has taken in what was received. -/
def fillSlot (p : PacketBuffer) (pd : PayloadData) : PacketBuffer :=
  let dataLen := sizeSub pd.size sizeofWifiPacketHeader
  { data := memcpy p.data 0 (slice pd.data sizeofWifiPacketHeader dataLen)
    len := dataLen
    valid := true
    crcCorrect := pd.crcOk }

/-- Store a packet in the buffer of its block, unless its slot is filled. The second result is the
slot and the number of bytes copied. -/
def storePacket (s : RxState) (blockNum : Int) (pd : PayloadData) :
    RxState × Option (Nat × Nat) :=
  match (List.range paramBlockBuffers).find?
      fun i => decide ((s.blockBufferList i).blockNum = blockNum) with
  | none => (s, none)
  | some i =>
    let packetNum := pd.sequenceNumber.toNat % packetsPerBlock
    let pbl := (s.blockBufferList i).packetBufferList
    if (pbl packetNum).crcCorrect = false then
      ({ s with
          blockBufferList := Function.update s.blockBufferList i
            { s.blockBufferList i with
              packetBufferList :=
                Function.update pbl packetNum (fillSlot (pbl packetNum) pd) } },
        some (packetNum, sizeSub pd.size sizeofWifiPacketHeader))
    else (s, none)

/-- What one call of `process_payload` leaves, and what it did on the way. -/
structure RxStep where
  state : RxState
  rxData : RxData
  /-- The block that was flushed. -/
  flushed : Option Int
  /-- The slot that was written, and the length of the copy. -/
  stored : Option (Nat × Nat)

/-- `process_payload`. -/
def processPayload (clk : Nat → UInt64) (s : RxState) (pd : PayloadData) (rxData : RxData) :
    Option RxStep := do
  let blockNum : Int := pd.sequenceNumber.toNat / packetsPerBlock
  let (s, rxData, flushed) ← makeRoom clk s blockNum pd.crcOk rxData
  let (s, stored) := storePacket s blockNum pd
  some ⟨s, rxData, flushed, stored⟩

theorem processPayload_eq (clk : Nat → UInt64) (s : RxState) (pd : PayloadData) (rxData : RxData) :
    processPayload clk s pd rxData =
      (makeRoom clk s pd.blockNum pd.crcOk rxData).bind fun r =>
        some ⟨(storePacket r.1 pd.blockNum pd).1, r.2.1, r.2.2,
          (storePacket r.1 pd.blockNum pd).2⟩ :=
  rfl

/-! ## What the split finds -/

/-- The number of `n` first items that fail a test. -/
def countMissing (valid : Nat → Bool) (n : Nat) : Nat := (List.range n).countP fun i => !valid i

theorem countMissing_succ (valid : Nat → Bool) (n : Nat) :
    countMissing valid (n + 1) =
      if !valid n then countMissing valid n + 1 else countMissing valid n := by
  rw [countMissing, List.range_succ, List.countP_append, ← countMissing]
  split_ifs with h
  · simp [h]
  · simp [h]

theorem countMissing_congr {v w : Nat → Bool} {n : Nat} (h : ∀ i < n, v i = w i) :
    countMissing v n = countMissing w n :=
  List.countP_congr fun i hi => by rw [h i (List.mem_range.mp hi)]

theorem countMissing_mono (valid : Nat → Bool) {m n : Nat} (h : m ≤ n) :
    countMissing valid m ≤ countMissing valid n :=
  List.Sublist.countP_le (List.range_sublist.mpr h)

theorem forall_update {α : Type} {P : Nat → α → Prop} {f : Nat → α} {n : Nat} {v : α}
    (h : ∀ i < n, P i (f i)) (hv : P n v) : ∀ i < n + 1, P i (Function.update f n v i) := by
  intro i hi
  rcases Nat.lt_or_eq_of_le (Nat.lt_succ_iff.mp hi) with hlt | rfl
  · rw [Function.update_of_ne hlt.ne]
    exact h i hlt
  · rwa [Function.update_self]

theorem increasing_update {f : Nat → Nat} {n v : Nat} (h : ∀ i j, i < j → j < n → f i < f j)
    (hv : ∀ i < n, f i < v) : ∀ i j, i < j → j < n + 1 →
      Function.update f n v i < Function.update f n v j := by
  intro i j hij hj
  rcases Nat.lt_or_eq_of_le (Nat.lt_succ_iff.mp hj) with hlt | rfl
  · rw [Function.update_of_ne (hij.trans hlt).ne, Function.update_of_ne hlt.ne]
    exact h i j hij hlt
  · rw [Function.update_of_ne hij.ne, Function.update_self]
    exact hv i hij

/-- Is data packet `di` of the block there? -/
def dataThere (packets : Nat → PacketBuffer) (di : Nat) : Bool := (packets (dataSlot di)).valid

/-- Is FEC packet `fi` of the block there? -/
def fecThere (packets : Nat → PacketBuffer) (fi : Nat) : Bool := (packets (fecSlot fi)).valid

/-- The split loop after `r` rounds. -/
structure Splitting (packets : Nat → PacketBuffer) (r : Nat) (st : SplitState) : Prop where
  i : st.i = r + min r paramFecPacketsPerBlock
  di : st.di = r
  fi : st.fi = min r paramFecPacketsPerBlock
  dataPkgs : ∀ di < r, st.dataPkgs di = dataSlot di
  fecPkgs : ∀ fi < min r paramFecPacketsPerBlock, st.fecPkgs fi = fecSlot fi
  datasMissing : st.datasMissing = countMissing (dataThere packets) r
  fecsMissing : st.fecsMissing = countMissing (fecThere packets) (min r paramFecPacketsPerBlock)

/-- One round of the split loop reads the slots that one round of the transmitter writes. -/
theorem Splitting.round {packets : Nat → PacketBuffer} {r : Nat} {st : SplitState}
    (h : Splitting packets r st) (hr : r < paramDataPacketsPerBlock) :
    Splitting packets (r + 1) (splitFec packets (splitData packets st)) := by
  have hslot : st.i = dataSlot r := h.i.trans (dataSlot_eq r).symm
  obtain ⟨st₁, hst₁⟩ : ∃ st₁, st₁ = splitData packets st := ⟨_, rfl⟩
  have hdata : st₁ = { st with
      dataPkgs := Function.update st.dataPkgs r st.i
      i := st.i + 1
      datasMissing := countMissing (dataThere packets) (r + 1)
      di := r + 1 } := by
    rw [hst₁, splitData, if_pos (h.di ▸ hr), countMissing_succ, ← h.datasMissing, dataThere,
      ← hslot, h.di]
  have hpkgs : ∀ di < r + 1, st₁.dataPkgs di = dataSlot di := by
    rw [hdata]
    exact forall_update (P := fun di x => x = dataSlot di) h.dataPkgs hslot
  rw [← hst₁]
  by_cases hf : r < paramFecPacketsPerBlock
  · have hmin : min r paramFecPacketsPerBlock = r := Nat.min_eq_left hf.le
    have hmin₁ : min (r + 1) paramFecPacketsPerBlock = r + 1 := Nat.min_eq_left hf
    have hfi : st₁.fi = r := by rw [hdata]; exact h.fi.trans hmin
    have hi : st₁.i = fecSlot r := by
      rw [hdata, fecSlot_eq hf, ← hslot]
    have hfec : splitFec packets st₁ = { st₁ with
        fecPkgs := Function.update st₁.fecPkgs r (fecSlot r)
        i := fecSlot r + 1
        fecsMissing := countMissing (fecThere packets) (r + 1)
        fi := r + 1 } := by
      have hmissing : st₁.fecsMissing = countMissing (fecThere packets) r := by
        rw [hdata]
        exact h.fecsMissing.trans (by rw [hmin])
      rw [splitFec, if_pos (hfi ▸ hf), countMissing_succ, ← hmissing, fecThere, ← hi, hfi]
    have hfecPkgs : ∀ fi < r, st₁.fecPkgs fi = fecSlot fi := by
      rw [hdata]
      exact hmin ▸ h.fecPkgs
    rw [hfec]
    refine ⟨?_, by rw [hdata], hmin₁.symm, hpkgs, ?_, by rw [hdata], by rw [hmin₁]⟩
    · simp only [fecSlot]; omega
    · rw [hmin₁]
      exact forall_update (P := fun fi x => x = fecSlot fi) hfecPkgs rfl
  · have hmin : min (r + 1) paramFecPacketsPerBlock = min r paramFecPacketsPerBlock := by omega
    rw [splitFec, if_neg (by rw [hdata]; simp only [h.fi]; omega)]
    refine ⟨?_, by rw [hdata], ?_, hpkgs, ?_, by rw [hdata], ?_⟩
    · rw [hdata, hmin]
      simp only [h.i]
      omega
    · rw [hdata, hmin]
      exact h.fi
    · intro fi hfi
      rw [hdata]
      exact h.fecPkgs fi (hmin ▸ hfi)
    · rw [hdata, hmin]
      exact h.fecsMissing

theorem Splitting.loop {packets : Nat → PacketBuffer} {r : Nat} {st : SplitState}
    (h : Splitting packets r st) (hr : r ≤ paramDataPacketsPerBlock) :
    Splitting packets paramDataPacketsPerBlock (splitLoop packets st) := by
  obtain ⟨n, hn⟩ := Nat.exists_eq_add_of_le hr
  induction n generalizing r st with
  | zero =>
    rw [Nat.add_zero] at hn
    have hfi : st.fi = paramFecPacketsPerBlock := by rw [h.fi, ← hn]; decide
    rw [splitLoop, if_neg (by rw [h.di, hfi, hn]; omega), hn]
    exact h
  | succ n ih =>
    have hlt : r < paramDataPacketsPerBlock := by omega
    rw [splitLoop, if_pos (Or.inl (h.di ▸ hlt))]
    exact ih (h.round hlt) hlt (by omega)

/-- **The split** reads the data and FEC packets back from the slots of the interleaved order. -/
theorem split_spec (packets : Nat → PacketBuffer) :
    Splitting packets paramDataPacketsPerBlock (split packets) := by
  refine Splitting.loop (r := 0) ⟨rfl, rfl, rfl, fun di h => ?_, fun fi h => ?_, rfl, rfl⟩
    (Nat.zero_le _)
  · exact absurd h (Nat.not_lt_zero di)
  · exact absurd h (by simp)

/-! ## What is replaced -/

/-- The number of `n` first items that pass a test. -/
def countThere (valid : Nat → Bool) (n : Nat) : Nat := (List.range n).countP fun i => valid i

theorem countThere_succ (valid : Nat → Bool) (n : Nat) :
    countThere valid (n + 1) = if valid n then countThere valid n + 1 else countThere valid n := by
  rw [countThere, List.range_succ, List.countP_append, ← countThere]
  split_ifs with h
  · simp [h]
  · simp [h]

theorem countThere_congr {v w : Nat → Bool} {n : Nat} (h : ∀ i < n, v i = w i) :
    countThere v n = countThere w n :=
  List.countP_congr fun i hi => by rw [h i (List.mem_range.mp hi)]

theorem countThere_add_countMissing (valid : Nat → Bool) (n : Nat) :
    countThere valid n + countMissing valid n = n := by
  induction n with
  | zero => rfl
  | succ n ih =>
    rw [countThere_succ, countMissing_succ]
    cases valid n
    · simp; omega
    · simp; omega

/-- The replacement loop has passed `di` data packets and `fi` FEC packets, and has paired every
missing one of the former with one of the latter that is there. -/
structure Replacing (dataFine fecValid : Nat → Bool) (st : ReplaceState) : Prop where
  di_le : st.di ≤ paramDataPacketsPerBlock
  fi_le : st.fi ≤ paramFecPacketsPerBlock
  nr_data : st.nrFecBlocks = countMissing dataFine st.di
  nr_fec : st.nrFecBlocks = countThere fecValid st.fi
  erased : ∀ i < st.nrFecBlocks,
    st.erasedBlocks i < st.di ∧ dataFine (st.erasedBlocks i) = false
  erased_mono : ∀ i j, i < j → j < st.nrFecBlocks → st.erasedBlocks i < st.erasedBlocks j
  fec : ∀ i < st.nrFecBlocks, st.fecBlockNos i < st.fi ∧ fecValid (st.fecBlockNos i) = true
  fec_mono : ∀ i j, i < j → j < st.nrFecBlocks → st.fecBlockNos i < st.fecBlockNos j
  covered : ∀ di < st.di, dataFine di = false → ∃ i < st.nrFecBlocks, st.erasedBlocks i = di

/-- **One round of the replacement loop.** -/
theorem Replacing.round {dataFine fecValid : Nat → Bool} {st : ReplaceState}
    (h : Replacing dataFine fecValid st) (hdi : st.di < paramDataPacketsPerBlock)
    (hfi : st.fi < paramFecPacketsPerBlock) :
    Replacing dataFine fecValid (replaceRound dataFine fecValid st) := by
  rw [replaceRound]
  by_cases hd : dataFine st.di = true
  · rw [if_pos hd]
    refine ⟨hdi, h.fi_le, ?_, h.nr_fec, fun i hi => ?_, h.erased_mono, h.fec, h.fec_mono,
      fun di hlt hmiss => ?_⟩
    · simp only [countMissing_succ, hd]
      exact h.nr_data
    · exact ⟨Nat.lt_succ_of_lt (h.erased i hi).1, (h.erased i hi).2⟩
    · rcases Nat.lt_or_eq_of_le (Nat.lt_succ_iff.mp hlt) with hlt | rfl
      · exact h.covered di hlt hmiss
      · simp [hd] at hmiss
  rw [if_neg hd]
  by_cases hf : fecValid st.fi = true
  swap
  · rw [if_pos (by simp [hf])]
    refine ⟨h.di_le, hfi, h.nr_data, ?_, h.erased, h.erased_mono, fun i hi => ?_, h.fec_mono,
      h.covered⟩
    · simp only [countThere_succ, hf]
      exact h.nr_fec
    · exact ⟨Nat.lt_succ_of_lt (h.fec i hi).1, (h.fec i hi).2⟩
  rw [if_neg (by simp [hf])]
  rw [Bool.not_eq_true] at hd
  -- The old entries of the two arrays stay, the new one is the last.
  refine ⟨hdi, hfi, ?_, ?_, ?_, ?_, ?_, ?_, fun di hlt hmiss => ?_⟩
  · simp only [countMissing_succ, hd, h.nr_data]
    rfl
  · simp only [countThere_succ, hf, h.nr_fec]
    rfl
  · exact forall_update (P := fun _ di => di < st.di + 1 ∧ dataFine di = false)
      (fun i hi => ⟨Nat.lt_succ_of_lt (h.erased i hi).1, (h.erased i hi).2⟩)
      ⟨Nat.lt_succ_self _, hd⟩
  · exact increasing_update h.erased_mono fun i hi => (h.erased i hi).1
  · exact forall_update (P := fun _ fi => fi < st.fi + 1 ∧ fecValid fi = true)
      (fun i hi => ⟨Nat.lt_succ_of_lt (h.fec i hi).1, (h.fec i hi).2⟩)
      ⟨Nat.lt_succ_self _, hf⟩
  · exact increasing_update h.fec_mono fun i hi => (h.fec i hi).1
  · rcases Nat.lt_or_eq_of_le (Nat.lt_succ_iff.mp hlt) with hlt | rfl
    · obtain ⟨i, hi, he⟩ := h.covered di hlt hmiss
      exact ⟨i, Nat.lt_succ_of_lt hi, by simp only [Function.update_of_ne hi.ne, he]⟩
    · exact ⟨st.nrFecBlocks, Nat.lt_succ_self _, by simp only [Function.update_self]⟩

theorem Replacing.loop {dataFine fecValid : Nat → Bool} {st : ReplaceState}
    (h : Replacing dataFine fecValid st) :
    Replacing dataFine fecValid (replaceLoop dataFine fecValid st) ∧
      ((replaceLoop dataFine fecValid st).di = paramDataPacketsPerBlock ∨
        (replaceLoop dataFine fecValid st).fi = paramFecPacketsPerBlock) := by
  fun_induction replaceLoop dataFine fecValid st with
  | case1 st hc ih => exact ih (h.round hc.1 hc.2)
  | case2 st hc =>
    have hdi := h.di_le
    have hfi := h.fi_le
    exact ⟨h, by omega⟩

theorem replaceMissing_spec (dataFine fecValid : Nat → Bool) :
    Replacing dataFine fecValid (replaceMissing dataFine fecValid) ∧
      ((replaceMissing dataFine fecValid).di = paramDataPacketsPerBlock ∨
        (replaceMissing dataFine fecValid).fi = paramFecPacketsPerBlock) := by
  refine Replacing.loop ⟨Nat.zero_le _, Nat.zero_le _, rfl, rfl, fun i h => ?_, fun i j _ h => ?_,
    fun i h => ?_, fun i j _ h => ?_, fun di h => ?_⟩ <;> exact absurd h (Nat.not_lt_zero _)

/-- The replaced packets are a repair that `fec_decode` can make. -/
theorem Replacing.erasure {dataFine fecValid : Nat → Bool} {st : ReplaceState}
    (h : Replacing dataFine fecValid st) :
    Erasure paramDataPacketsPerBlock st.nrFecBlocks st.fecBlockNos st.erasedBlocks := by
  have hdi := h.di_le
  have hfi := h.fi_le
  simp only [paramDataPacketsPerBlock, paramFecPacketsPerBlock] at hdi hfi
  refine ⟨by decide, ?_, h.erased_mono, ?_, ?_⟩
  · intro i hi
    exact Nat.lt_of_lt_of_le (h.erased i hi).1 hdi
  · intro i hi
    have := (h.fec i hi).1
    omega
  · intro i j hij hj
    exact Nat.ne_of_lt (h.fec_mono i j hij hj)

theorem Replacing.fine {dataFine fecValid : Nat → Bool} {st : ReplaceState}
    (h : Replacing dataFine fecValid st) {di : Nat} (hdi : dataFine di = true) :
    ¬IsErased st.nrFecBlocks st.erasedBlocks di := by
  rintro ⟨i, hi, rfl⟩
  rw [(h.erased i hi).2] at hdi
  exact absurd hdi (by decide)

/-- **With enough FEC packets every missing data packet is replaced.** -/
theorem Replacing.all {dataFine fecValid : Nat → Bool} {st : ReplaceState}
    (h : Replacing dataFine fecValid st)
    (hend : st.di = paramDataPacketsPerBlock ∨ st.fi = paramFecPacketsPerBlock)
    (henough : countMissing dataFine paramDataPacketsPerBlock ≤
      countThere fecValid paramFecPacketsPerBlock)
    {di : Nat} (hdi : di < paramDataPacketsPerBlock) (hmiss : dataFine di = false) :
    IsErased st.nrFecBlocks st.erasedBlocks di := by
  refine h.covered di ?_ hmiss
  rcases hend with hend | hend
  · exact hend ▸ hdi
  · -- All FEC packets are used up, by as many missing packets as there are.
    by_contra hge
    have hle := countMissing_mono dataFine (Nat.le_of_not_lt hge)
    have hlt := countMissing_mono dataFine hdi
    rw [Nat.succ_eq_add_one, countMissing_succ, hmiss] at hlt
    have hnr := h.nr_data.symm.trans (h.nr_fec.trans (by rw [hend]))
    simp only [Bool.not_false, if_true] at hlt
    omega

/-! ## What is written out -/

/-- The payload that the output loop takes from a data block. -/
def blockPayload (block : Buf) : List UInt8 :=
  slice block sizeofPayloadHeader (min (read32 block 0).toNat paramPacketLength)

theorem read32_limitLength (block : Buf) :
    (read32 (limitLength block) 0).toNat = min (read32 block 0).toNat paramPacketLength := by
  rw [limitLength]
  split_ifs with h
  · have hslice := slice_memcpy block 0 (le32 (.ofNat paramPacketLength))
    rw [length_le32] at hslice
    rw [read32_of_slice hslice, Nat.min_eq_right h.le]
    rfl
  · rw [Nat.min_eq_left (Nat.le_of_not_lt h)]

theorem slice_limitLength (block : Buf) (n : Nat) :
    slice (limitLength block) sizeofPayloadHeader n = slice block sizeofPayloadHeader n := by
  rw [limitLength]
  split_ifs with h
  · exact slice_memcpy_after (by simp)
  · rfl

/-- Counting and measuring leave the buffers alone. -/
structure SameBuffers (s s' : RxState) : Prop where
  blockBufferList : s'.blockBufferList = s.blockBufferList
  maxBlockNum : s'.maxBlockNum = s.maxBlockNum

theorem SameBuffers.trans {s s' s'' : RxState} (h : SameBuffers s s') (h' : SameBuffers s' s'') :
    SameBuffers s s'' :=
  ⟨h'.1.trans h.1, h'.2.trans h.2⟩

theorem measureRate_same (clk : Nat → UInt64) (s : RxState) (nrBytes : Nat) :
    SameBuffers s (measureRate clk s nrBytes) := by
  simp only [measureRate]
  split_ifs
  · exact ⟨rfl, rfl⟩
  · exact ⟨rfl, rfl⟩

theorem countBlock_same (clk : Nat → UInt64) (s : RxState) (st : SplitState) (failed : Bool) :
    SameBuffers s (countBlock clk s st failed) := by
  have hcount : ∀ (s : RxState) m n, SameBuffers s (countPackets clk s m n) := by
    intro s m n
    simp only [countPackets]
    by_cases h : clk s.ticks - s.pmPrevTime > 220 * timeMs
    · rw [if_pos h]
      exact ⟨rfl, rfl⟩
    · rw [if_neg h]
      exact ⟨rfl, rfl⟩
  obtain ⟨h₁, h₂⟩ := hcount { s with rxStatus :=
    { s.rxStatus with receivedBlockCnt := s.rxStatus.receivedBlockCnt + 1 } }
    st.datasMissing st.fecsMissing
  rw [countBlock]
  cases failed
  · exact ⟨h₁, h₂⟩
  · exact ⟨h₁, h₂⟩

/-- The output loop after `n` rounds. -/
structure Outputting (failed : Bool) (dataValid : Nat → Bool) (n : Nat) (o₀ o : OutputState) :
    Prop where
  same : SameBuffers o₀.s o.s
  content : o.rxData.content = o₀.rxData.content ++
    (List.range n).flatMap fun i =>
      if !failed || dataValid i then blockPayload (o₀.dataBlocks i) else []
  ahead : ∀ i, n ≤ i → o.dataBlocks i = o₀.dataBlocks i

theorem outputLoop_spec (clk : Nat → UInt64) (failed : Bool) (dataValid : Nat → Bool) (n : Nat)
    (o₀ : OutputState) :
    Outputting failed dataValid n o₀ (outputLoop clk failed dataValid n o₀) := by
  induction n with
  | zero => exact ⟨⟨rfl, rfl⟩, by simp [outputLoop], fun i _ => rfl⟩
  | succ n ih =>
    obtain ⟨o, ho⟩ : ∃ o, o = outputLoop clk failed dataValid n o₀ := ⟨_, rfl⟩
    have hloop : outputLoop clk failed dataValid (n + 1) o₀ =
        outputRound clk failed dataValid o n := by
      rw [outputLoop, List.range_succ, List.foldl_append, ho]
      rfl
    rw [← ho] at ih
    rw [hloop, outputRound]
    by_cases hsel : (!failed || dataValid n) = true
    · rw [if_pos hsel]
      refine ⟨ih.same.trans (measureRate_same clk o.s _), ?_, ?_⟩
      · have happend := slice_memcpy_append o.rxData.data 0 o.rxData.bytes
          (slice (limitLength (o.dataBlocks n)) sizeofPayloadHeader
            (read32 (limitLength (o.dataBlocks n)) 0).toNat)
        rw [length_slice, Nat.zero_add] at happend
        rw [List.range_succ, List.flatMap_append, ← List.append_assoc, ← ih.content,
          List.flatMap_singleton, if_pos hsel, ← ih.ahead n le_rfl]
        simp only [RxData.content]
        rw [happend, slice_limitLength, read32_limitLength, blockPayload]
      · intro i hi
        simp only
        rw [Function.update_of_ne (by omega), ih.ahead i (by omega)]
    · rw [if_neg hsel]
      refine ⟨ih.same, ?_, fun i hi => ih.ahead i (by omega)⟩
      rw [List.range_succ, List.flatMap_append, ← List.append_assoc, ← ih.content,
        List.flatMap_singleton, if_neg hsel, List.append_nil]

/-! ## A whole flush -/

/-- Are there FEC packets enough for the missing data packets? -/
def repairable (packets : Nat → PacketBuffer) : Bool :=
  decide (countMissing (dataThere packets) paramDataPacketsPerBlock ≤
    countThere (fecThere packets) paramFecPacketsPerBlock)

/-- A packet counts as correct exactly when it is there, as long as no frame fails its check. -/
def CrcValid (packets : Nat → PacketBuffer) : Prop :=
  ∀ j < packetsPerBlock, (packets j).crcCorrect = (packets j).valid

/-- All packets of the block are gone. -/
def NoneThere (packets : Nat → PacketBuffer) : Prop :=
  ∀ j < packetsPerBlock, (packets j).valid = false ∧ (packets j).crcCorrect = false

theorem resetPackets_noneThere (packets : Nat → PacketBuffer) :
    NoneThere (resetPackets packets) := by
  intro j hj
  simp only [resetPackets, if_pos hj, and_self]

/-- What a flush outputs, once its data blocks are `blocks`. -/
def flushOutput (packets : Nat → PacketBuffer) (blocks : Nat → Buf) : List UInt8 :=
  (List.range paramDataPacketsPerBlock).flatMap fun di =>
    if repairable packets || dataThere packets di then blockPayload (blocks di) else []

/-- The data blocks of a flush are the received ones, and where the block can be repaired from
consistent packets, the original ones. -/
structure Decoded (packets : Nat → PacketBuffer) (blocks : Nat → Buf) : Prop where
  there : ∀ di < paramDataPacketsPerBlock, dataThere packets di = true →
    blocks di = (packets (dataSlot di)).data
  repaired : repairable packets = true → ∀ original : Nat → Buf, ∀ q < paramPacketLength,
    (∀ di < paramDataPacketsPerBlock, dataThere packets di = true →
      (packets (dataSlot di)).data q = original di q) →
    ((∃ di < paramDataPacketsPerBlock, dataThere packets di = false) →
      ∀ fi < paramFecPacketsPerBlock, fecThere packets fi = true →
        gfAt (packets (fecSlot fi)).data q = parity paramDataPacketsPerBlock original fi q) →
    ∀ di < paramDataPacketsPerBlock, blocks di q = original di q

theorem dataSlot_lt {di : Nat} (h : di < paramDataPacketsPerBlock) :
    dataSlot di < packetsPerBlock :=
  slot_lt (p := .data di) h

theorem fecSlot_lt {fi : Nat} (h : fi < paramFecPacketsPerBlock) : fecSlot fi < packetsPerBlock :=
  slot_lt (p := .fec fi) h

/-- The decoding step of a flush never fails, and gives the blocks back. -/
theorem decodePackets_spec {packets : Nat → PacketBuffer} (hcrc : CrcValid packets) :
    ∃ blocks fecBlocks, decodePackets packets (split packets)
        (replacePackets packets (split packets)) = some (blocks, fecBlocks) ∧
      Decoded packets blocks := by
  have hsplit := split_spec packets
  have hdata : ∀ di < paramDataPacketsPerBlock,
      ((packets ((split packets).dataPkgs di)).valid &&
        (packets ((split packets).dataPkgs di)).crcCorrect) = dataThere packets di := by
    intro di hdi
    rw [hsplit.dataPkgs di hdi, hcrc _ (dataSlot_lt hdi), Bool.and_self, dataThere]
  have hfecPkg : ∀ fi < paramFecPacketsPerBlock, (split packets).fecPkgs fi = fecSlot fi :=
    fun fi hfi => hsplit.fecPkgs fi (by simpa using hfi)
  obtain ⟨hre, hend⟩ := replaceMissing_spec
    (fun di => (packets ((split packets).dataPkgs di)).valid &&
      (packets ((split packets).dataPkgs di)).crcCorrect)
    (fun fi => (packets ((split packets).fecPkgs fi)).valid)
  change Replacing _ _ (replacePackets packets (split packets)) at hre
  change (replacePackets packets (split packets)).di = _ ∨
    (replacePackets packets (split packets)).fi = _ at hend
  obtain ⟨re, hre₀⟩ : ∃ re, re = replacePackets packets (split packets) := ⟨_, rfl⟩
  rw [← hre₀] at hre hend ⊢
  obtain ⟨blocks, fecBlocks, hdecode, hback, hframe, -⟩ :=
    fecDecode_spec paramPacketLength hre.erasure
      (fun di => (packets ((split packets).dataPkgs di)).data)
      (fun i => (packets ((split packets).fecPkgs (re.fecBlockNos i))).data)
  refine ⟨blocks, fecBlocks, hdecode, fun di hdi hthere => ?_, ?_⟩
  · rw [hframe di (hre.fine ((hdata di hdi).trans hthere)), hsplit.dataPkgs di hdi]
  intro hrep original q hq hdataOk hfecOk di hdi
  have hcountData : countMissing (fun di => (packets ((split packets).dataPkgs di)).valid &&
      (packets ((split packets).dataPkgs di)).crcCorrect) paramDataPacketsPerBlock =
      countMissing (dataThere packets) paramDataPacketsPerBlock := countMissing_congr hdata
  have hcountFec : countThere (fun fi => (packets ((split packets).fecPkgs fi)).valid)
      paramFecPacketsPerBlock = countThere (fecThere packets) paramFecPacketsPerBlock :=
    countThere_congr fun fi hfi => by rw [hfecPkg fi hfi, fecThere]
  have henough : countMissing (dataThere packets) paramDataPacketsPerBlock ≤
      countThere (fecThere packets) paramFecPacketsPerBlock := of_decide_eq_true hrep
  refine hback original q hq (fun i hi hne => ?_) (fun j hj => ?_) di hdi
  · simp only [hsplit.dataPkgs i hi]
    apply hdataOk i hi
    by_contra hno
    rw [Bool.not_eq_true] at hno
    exact hne (hre.all hend (by rw [hcountData, hcountFec]; exact henough) hi
      ((hdata i hi).trans hno))
  · obtain ⟨hlt, hvalid⟩ := hre.fec j hj
    have hlt := Nat.lt_of_lt_of_le hlt hre.fi_le
    obtain ⟨he, hmiss⟩ := hre.erased j hj
    have he := Nat.lt_of_lt_of_le he hre.di_le
    simp only [hfecPkg _ hlt] at hvalid ⊢
    exact hfecOk ⟨_, he, (hdata _ he).symm.trans hmiss⟩ _ hlt hvalid

theorem reconstructionFailed_eq (packets : Nat → PacketBuffer) :
    decide ((split packets).datasMissing >
      paramFecPacketsPerBlock - (split packets).fecsMissing) = !repairable packets := by
  have hsplit := split_spec packets
  have hgood : paramFecPacketsPerBlock - (split packets).fecsMissing =
      countThere (fecThere packets) paramFecPacketsPerBlock := by
    have := countThere_add_countMissing (fecThere packets) paramFecPacketsPerBlock
    rw [hsplit.fecsMissing, show min paramDataPacketsPerBlock paramFecPacketsPerBlock =
      paramFecPacketsPerBlock by decide]
    omega
  rw [hgood, hsplit.datasMissing, repairable, ← decide_not]
  exact decide_eq_decide.mpr (by omega)

/-- **A flush** never fails an assertion, appends the payloads of the decoded blocks to the
output, and empties the buffer. -/
theorem flushBlock_spec (clk : Nat → UInt64) (s : RxState) (idx : Nat) (rxData : RxData)
    (hcrc : CrcValid (s.blockBufferList idx).packetBufferList) :
    ∃ s' rxData' blocks, flushBlock clk s idx rxData = some (s', rxData') ∧
      Decoded (s.blockBufferList idx).packetBufferList blocks ∧
      rxData'.content =
        rxData.content ++ flushOutput (s.blockBufferList idx).packetBufferList blocks ∧
      s'.maxBlockNum = s.maxBlockNum ∧
      (s'.blockBufferList idx).blockNum = (s.blockBufferList idx).blockNum ∧
      NoneThere (s'.blockBufferList idx).packetBufferList := by
  obtain ⟨packets, hpackets⟩ : ∃ packets, packets = (s.blockBufferList idx).packetBufferList :=
    ⟨_, rfl⟩
  rw [← hpackets] at hcrc ⊢
  obtain ⟨blocks, fecBlocks, hdecode, hblocks⟩ := decodePackets_spec hcrc
  have hsplit := split_spec packets
  obtain ⟨failed, hf⟩ : ∃ failed, failed = !repairable packets := ⟨_, rfl⟩
  obtain ⟨s₁, hs₁⟩ : ∃ s₁, s₁ = countBlock clk s (split packets) failed := ⟨_, rfl⟩
  obtain ⟨o, ho⟩ : ∃ o, o = outputLoop clk failed
      (fun di => (packets ((split packets).dataPkgs di)).valid) paramDataPacketsPerBlock
      ⟨s₁, rxData, blocks⟩ := ⟨_, rfl⟩
  have hout := outputLoop_spec clk failed
    (fun di => (packets ((split packets).dataPkgs di)).valid) paramDataPacketsPerBlock
    ⟨s₁, rxData, blocks⟩
  rw [← ho] at hout
  have hsame : SameBuffers s o.s := (hs₁ ▸ countBlock_same clk s _ failed).trans hout.same
  obtain ⟨left, hleft⟩ : ∃ left, left =
      storeBlocks (storeBlocks packets paramDataPacketsPerBlock (split packets).dataPkgs
        o.dataBlocks) (replacePackets packets (split packets)).nrFecBlocks
        (fun i => (split packets).fecPkgs
          ((replacePackets packets (split packets)).fecBlockNos i)) fecBlocks := ⟨_, rfl⟩
  have hrun : flushBlock clk s idx rxData = some (emptyBuffer o.s idx left, o.rxData) := by
    rw [flushBlock]
    simp only [← hpackets, reconstructionFailed_eq, ← hf, ← hs₁, hdecode, Option.bind_eq_bind,
      Option.bind_some, ← ho, ← hleft]
  refine ⟨_, o.rxData, blocks, hrun, hblocks, ?_, hsame.maxBlockNum, ?_, ?_⟩
  · rw [hout.content]
    congr 1
    apply List.flatMap_congr
    intro di hdi
    rw [hsplit.dataPkgs di (List.mem_range.mp hdi), hf, Bool.not_not]
    rfl
  · rw [emptyBuffer, ← hsame.blockBufferList]
    simp only [Function.update_self]
  · simp only [emptyBuffer, Function.update_self]
    exact resetPackets_noneThere left

/-! ## One call of `process_payload` -/

namespace RxState

def blockNum (s : RxState) : Int := (s.blockBufferList 0).blockNum

/-- The packets of the one buffer. -/
def packets (s : RxState) : Nat → PacketBuffer := (s.blockBufferList 0).packetBufferList

end RxState

/-- What holds between two calls: the buffer belongs to the newest block, and before the first
block it is empty. -/
structure RxInv (s : RxState) : Prop where
  crc : CrcValid s.packets
  block : s.blockNum = s.maxBlockNum
  ge : -1 ≤ s.maxBlockNum
  empty : s.maxBlockNum = -1 → NoneThere s.packets

/-- The state of a receiver as `wfb_rx_stream_init` leaves it. -/
structure RxState.Fresh (s : RxState) : Prop where
  block : s.blockNum = -1
  maxBlockNum : s.maxBlockNum = -1
  empty : NoneThere s.packets

/-- `wfb_rx_stream_init`: the buffer is new, the counters and the static variables are zero. -/
def wfbRxStreamInit (malloc : Nat → Buf) : RxState :=
  { blockBufferList := fun _ => ⟨-1, fun j => allocPacketBuffer (malloc j)⟩
    maxBlockNum := -1
    rxStatus := ⟨0, 0, 0, 0, 0, 0, 0, fun _ => ⟨0, 0, 0, 0⟩⟩
    bytesDecoded := 0
    packetsMissing := 0
    packetsMissingLast := 0
    prevTime := 0
    pmPrevTime := 0
    ticks := 0 }

theorem wfbRxStreamInit_fresh (malloc : Nat → Buf) : (wfbRxStreamInit malloc).Fresh :=
  ⟨rfl, rfl, fun _ _ => ⟨rfl, rfl⟩⟩

theorem NoneThere.crcValid {packets : Nat → PacketBuffer} (h : NoneThere packets) :
    CrcValid packets := fun j hj => (h j hj).2.trans (h j hj).1.symm

theorem RxState.Fresh.inv {s : RxState} (h : s.Fresh) : RxInv s :=
  ⟨h.empty.crcValid, h.block.trans h.maxBlockNum.symm, h.maxBlockNum.ge, fun _ => h.empty⟩

/-- The state after the packet `pd` has opened its block: no other packet of it is there. -/
structure Opened (pd : PayloadData) (r : RxStep) : Prop where
  max : r.state.maxBlockNum = pd.blockNum
  block : r.state.blockNum = pd.blockNum
  only : ∀ j < packetsPerBlock, j ≠ pd.packetNum → (r.state.packets j).valid = false ∧
    (r.state.packets j).crcCorrect = false
  slot : ∃ p, r.state.packets pd.packetNum = fillSlot p pd
  stored : r.stored = some (pd.packetNum, sizeSub pd.size sizeofWifiPacketHeader)

/-- **What one call of `process_payload` can do** with an intact packet. -/
inductive Processed (s : RxState) (pd : PayloadData) (rxData : RxData) (r : RxStep) : Prop where
  /-- The packet of a later block flushes the one before. -/
  | flush (hnew : s.maxBlockNum < pd.blockNum) (hopen : s.maxBlockNum ≠ -1)
      (blocks : Nat → Buf) (hdecoded : Decoded s.packets blocks)
      (hout : r.rxData.content = rxData.content ++ flushOutput s.packets blocks)
      (hflushed : r.flushed = some s.maxBlockNum) (hopened : Opened pd r)
  /-- The first packet, or the packet of a restarted transmitter, drops what was collected. -/
  | open (hnew : s.maxBlockNum = -1 ∨ (pd.blockNum : Int) + 128 < s.maxBlockNum)
      (hout : r.rxData = rxData) (hflushed : r.flushed = none) (hopened : Opened pd r)
  /-- A packet of the current block fills its slot. -/
  | store (hblock : s.maxBlockNum = pd.blockNum)
      (hfree : (s.packets pd.packetNum).valid = false)
      (hout : r.rxData = rxData) (hflushed : r.flushed = none)
      (hmax : r.state.maxBlockNum = s.maxBlockNum) (hnum : r.state.blockNum = s.blockNum)
      (hpackets : r.state.packets =
        Function.update s.packets pd.packetNum (fillSlot (s.packets pd.packetNum) pd))
      (hstored : r.stored = some (pd.packetNum, sizeSub pd.size sizeofWifiPacketHeader))
  /-- A packet of the current block finds its slot filled. -/
  | duplicate (hblock : s.maxBlockNum = pd.blockNum)
      (hfilled : (s.packets pd.packetNum).valid = true)
      (hr : r = ⟨s, rxData, none, none⟩)
  /-- The packet of an earlier block comes too late. -/
  | late (hlt : pd.blockNum < s.maxBlockNum) (hge : s.maxBlockNum ≤ (pd.blockNum : Int) + 128)
      (hr : r = ⟨s, rxData, none, none⟩)

theorem minBlockNumIdx_eq (blockBufferList : Nat → BlockBuffer) :
    minBlockNumIdx blockBufferList = 0 := by
  simp only [minBlockNumIdx, paramBlockBuffers, List.range_one, List.foldl_cons, List.foldl_nil]
  split_ifs <;> rfl

theorem packetNum_lt (pd : PayloadData) : pd.packetNum < packetsPerBlock :=
  Nat.mod_lt _ (by decide)

theorem restartRx_spec (s : RxState) :
    (restartRx s).blockNum = -1 ∧ NoneThere (restartRx s).packets := by
  constructor
  · simp [restartRx, RxState.blockNum, blockBufferListReset]
  · have : (restartRx s).packets = resetPackets s.packets := by
      simp [restartRx, RxState.packets, blockBufferListReset]
    rw [this]
    exact resetPackets_noneThere s.packets

theorem crcOk_fillSlot {pd : PayloadData} (h : pd.crcOk = true) (p : PacketBuffer) :
    (fillSlot p pd).crcCorrect = (fillSlot p pd).valid := h

theorem CrcValid.fillSlot {packets : Nat → PacketBuffer} (h : CrcValid packets) {pd : PayloadData}
    (hcrc : pd.crcOk = true) :
    CrcValid (Function.update packets pd.packetNum (fillSlot (packets pd.packetNum) pd)) := by
  intro j hj
  by_cases hne : j = pd.packetNum
  · rw [hne, Function.update_self]
    exact crcOk_fillSlot hcrc _
  · rw [Function.update_of_ne hne]
    exact h j hj

/-- Storing into the buffer of the packet's block. -/
theorem storePacket_spec {s : RxState} {pd : PayloadData} (hblock : s.blockNum = pd.blockNum) :
    storePacket s pd.blockNum pd =
      if (s.packets pd.packetNum).crcCorrect = false then
        ({ s with
            blockBufferList := Function.update s.blockBufferList 0
              { s.blockBufferList 0 with
                packetBufferList := Function.update s.packets pd.packetNum
                  (fillSlot (s.packets pd.packetNum) pd) } },
          some (pd.packetNum, sizeSub pd.size sizeofWifiPacketHeader))
      else (s, none) := by
  have hfind : (List.range paramBlockBuffers).find?
      (fun i => decide ((s.blockBufferList i).blockNum = pd.blockNum)) = some 0 := by
    simp only [paramBlockBuffers, List.range_one]
    exact List.find?_cons_of_pos (decide_eq_true hblock)
  rw [storePacket, hfind]
  rfl

theorem storePacket_other {s : RxState} {pd : PayloadData} (hblock : s.blockNum ≠ pd.blockNum) :
    storePacket s pd.blockNum pd = (s, none) := by
  have hfind : (List.range paramBlockBuffers).find?
      (fun i => decide ((s.blockBufferList i).blockNum = pd.blockNum)) = none := by
    simp only [paramBlockBuffers, List.range_one]
    exact List.find?_cons_of_neg (by rw [decide_eq_true_eq]; exact hblock)
  rw [storePacket, hfind]

/-- A packet that finds its block's buffer empty opens it. -/
theorem storePacket_opened {s : RxState} {pd : PayloadData} (hcrc : pd.crcOk = true)
    (hmax : s.maxBlockNum = pd.blockNum) (hblock : s.blockNum = pd.blockNum)
    (hnone : NoneThere s.packets) (rxData : RxData) (flushed : Option Int) :
    Opened pd ⟨(storePacket s pd.blockNum pd).1, rxData, flushed,
      (storePacket s pd.blockNum pd).2⟩ ∧ RxInv (storePacket s pd.blockNum pd).1 := by
  rw [storePacket_spec hblock, if_pos (hnone _ (packetNum_lt pd)).2]
  refine ⟨⟨hmax, ?_, fun j hj hne => ?_, ⟨s.packets pd.packetNum, ?_⟩, rfl⟩,
    ⟨fun j hj => ?_, ?_, ?_, fun h => ?_⟩⟩
  · simpa [RxState.blockNum] using hblock
  · simp only [RxState.packets, Function.update_self, Function.update_of_ne hne]
    exact hnone j hj
  · simp only [RxState.packets, Function.update_self]
  · simp only [RxState.packets, Function.update_self]
    exact hnone.crcValid.fillSlot hcrc j hj
  · simp only [RxState.blockNum, Function.update_self]
    exact hblock.trans hmax.symm
  · simp only [hmax]; omega
  · simp only [hmax] at h; omega

theorem setBlock_spec (s : RxState) (blockNum : Int) :
    (setBlock s 0 blockNum).maxBlockNum = blockNum ∧ (setBlock s 0 blockNum).blockNum = blockNum ∧
      (setBlock s 0 blockNum).packets = s.packets := by
  simp [setBlock, RxState.blockNum, RxState.packets]

theorem openBlock_empty (clk : Nat → UInt64) {s : RxState} {txRestart : Bool}
    (hblock : (if txRestart then restartRx s else s).blockNum = -1) (blockNum : Int)
    (rxData : RxData) : openBlock clk s blockNum txRestart rxData =
      some (setBlock (if txRestart then restartRx s else s) 0 blockNum, rxData, none) := by
  rw [RxState.blockNum] at hblock
  rw [openBlock]
  simp only [minBlockNumIdx_eq, flushOldest, Option.bind_eq_bind]
  rw [if_neg (not_not.mpr hblock)]
  rfl

/-- Opening a block in the buffer of another one flushes it. -/
theorem openBlock_flush (clk : Nat → UInt64) {s : RxState} (hblock : s.blockNum ≠ -1)
    (hcrc : CrcValid s.packets) (blockNum : Int) (rxData : RxData) :
    ∃ s' rxData' blocks, openBlock clk s blockNum false rxData =
        some (setBlock s' 0 blockNum, rxData', some s.blockNum) ∧
      Decoded s.packets blocks ∧
      rxData'.content = rxData.content ++ flushOutput s.packets blocks ∧
      NoneThere s'.packets := by
  obtain ⟨s', rxData', blocks, hflush, hdecoded, hout, -, -, hnone⟩ :=
    flushBlock_spec clk s 0 rxData hcrc
  refine ⟨s', rxData', blocks, ?_, hdecoded, hout, hnone⟩
  rw [RxState.blockNum] at hblock ⊢
  rw [openBlock]
  simp only [minBlockNumIdx_eq, flushOldest, Option.bind_eq_bind, Bool.false_eq_true, if_false]
  rw [if_pos hblock, hflush]
  rfl

theorem RxInv.store {s : RxState} (hs : RxInv s) (hopen : s.maxBlockNum ≠ -1) {pd : PayloadData}
    (hcrc : pd.crcOk = true) :
    RxInv { s with
      blockBufferList := Function.update s.blockBufferList 0
        { s.blockBufferList 0 with
          packetBufferList := Function.update s.packets pd.packetNum
            (fillSlot (s.packets pd.packetNum) pd) } } := by
  refine ⟨fun j hj => ?_, ?_, hs.ge, fun h => absurd h hopen⟩
  · simp only [RxState.packets, Function.update_self]
    exact hs.crc.fillSlot hcrc j hj
  · simp only [RxState.blockNum, Function.update_self]
    exact hs.block

/-- A packet for which no room is made fills a slot of the current block, or is dropped. -/
theorem storePacket_kept {s : RxState} (hs : RxInv s) {pd : PayloadData} (hcrc : pd.crcOk = true)
    (hle : pd.blockNum ≤ s.maxBlockNum) (hge : s.maxBlockNum ≤ (pd.blockNum : Int) + 128)
    (rxData : RxData) :
    Processed s pd rxData
        ⟨(storePacket s pd.blockNum pd).1, rxData, none, (storePacket s pd.blockNum pd).2⟩ ∧
      RxInv (storePacket s pd.blockNum pd).1 := by
  by_cases hblock : s.maxBlockNum = pd.blockNum
  · have hvalid := hs.crc _ (packetNum_lt pd)
    rw [storePacket_spec (hs.block.trans hblock)]
    by_cases hfree : (s.packets pd.packetNum).valid = false
    · rw [if_pos (hvalid.trans hfree)]
      refine ⟨Processed.store hblock hfree rfl rfl rfl ?_ ?_ rfl, hs.store (by omega) hcrc⟩
      · simp [RxState.blockNum]
      · simp [RxState.packets]
    · rw [Bool.not_eq_false] at hfree
      rw [if_neg (by rw [hvalid, hfree]; decide)]
      exact ⟨Processed.duplicate hblock hfree rfl, hs⟩
  · have hnum : s.blockNum ≠ pd.blockNum := fun h => hblock (hs.block ▸ h)
    rw [storePacket_other hnum]
    exact ⟨Processed.late (by omega) hge rfl, hs⟩

/-- **One call of `process_payload`** on an intact packet never fails an assertion, does one of
the things listed, and keeps the invariant. -/
theorem processPayload_spec (clk : Nat → UInt64) {s : RxState} (hs : RxInv s) {pd : PayloadData}
    (hcrc : pd.crcOk = true) (rxData : RxData) :
    ∃ r, processPayload clk s pd rxData = some r ∧ Processed s pd rxData r ∧ RxInv r.state := by
  rw [processPayload_eq, makeRoom]
  by_cases hroom : ((pd.blockNum : Int) > s.maxBlockNum ∨
      decide ((pd.blockNum : Int) + 128 * paramBlockBuffers < s.maxBlockNum) = true) ∧
      pd.crcOk = true
  · rw [if_pos hroom]
    by_cases hrestart : (pd.blockNum : Int) + 128 * paramBlockBuffers < s.maxBlockNum
    · -- The block is far behind: the transmitter was restarted.
      obtain ⟨hblock, hnone⟩ := restartRx_spec s
      rw [decide_eq_true hrestart, openBlock_empty clk (by simpa using hblock)]
      obtain ⟨hmax, hnum, hpackets⟩ := setBlock_spec (restartRx s) pd.blockNum
      obtain ⟨hopened, hinv⟩ := storePacket_opened hcrc hmax hnum (hpackets ▸ hnone) rxData none
      refine ⟨_, rfl, Processed.open (Or.inr ?_) rfl rfl hopened, hinv⟩
      simpa using hrestart
    · have hnew : s.maxBlockNum < pd.blockNum := by
        rcases hroom.1 with h | h
        · exact h
        · exact absurd (of_decide_eq_true h) hrestart
      rw [decide_eq_false hrestart]
      by_cases hfirst : s.maxBlockNum = -1
      · have hblock := hs.block.trans hfirst
        rw [openBlock_empty clk (by simpa using hblock)]
        obtain ⟨hmax, hnum, hpackets⟩ := setBlock_spec s pd.blockNum
        obtain ⟨hopened, hinv⟩ :=
          storePacket_opened hcrc hmax hnum (hpackets ▸ hs.empty hfirst) rxData none
        exact ⟨_, rfl, Processed.open (Or.inl hfirst) rfl rfl hopened, hinv⟩
      · obtain ⟨s', rxData', blocks, hflush, hdecoded, hout, hnone⟩ :=
          openBlock_flush clk (by rw [hs.block]; exact hfirst) hs.crc pd.blockNum rxData
        rw [hflush]
        obtain ⟨hmax, hnum, hpackets⟩ := setBlock_spec s' pd.blockNum
        obtain ⟨hopened, hinv⟩ := storePacket_opened hcrc hmax hnum (hpackets ▸ hnone) rxData'
          (some s.blockNum)
        exact ⟨_, rfl, Processed.flush hnew hfirst blocks hdecoded hout
          (congrArg some hs.block) hopened, hinv⟩
  · rw [if_neg hroom]
    have hle : (pd.blockNum : Int) ≤ s.maxBlockNum := by
      by_contra h
      exact hroom ⟨Or.inl (by omega), hcrc⟩
    have hge : s.maxBlockNum ≤ (pd.blockNum : Int) + 128 := by
      by_contra h
      exact hroom ⟨Or.inr (decide_eq_true (by simp only [paramBlockBuffers]; omega)), hcrc⟩
    obtain ⟨hprocessed, hinv⟩ := storePacket_kept hs hcrc hle hge rxData
    exact ⟨_, rfl, hprocessed, hinv⟩

/-! ## A run of the receiver -/

/-- A run of `process_payload`: its state, the buffer of `rx_data`, what has been appended to
`rx_data` so far, and the blocks flushed. -/
structure RxRun where
  state : RxState
  data : Buf
  out : List UInt8
  flushed : List Int

/-- One packet of a run. `video_main` sets `rx_data->bytes` to 0 before every call. -/
def rxRunStep (clk : Nat → UInt64) (run : RxRun) (pd : PayloadData) : Option RxRun := do
  let r ← processPayload clk run.state pd ⟨0, run.data⟩
  some ⟨r.state, r.rxData.data, run.out ++ r.rxData.content, run.flushed ++ r.flushed.toList⟩

/-- A run over the packets delivered. -/
def rxRun (clk : Nat → UInt64) (run : RxRun) (dlv : List PayloadData) : Option RxRun :=
  dlv.foldlM (rxRunStep clk) run

theorem rxRun_append (clk : Nat → UInt64) (run : RxRun) (dlv more : List PayloadData) :
    rxRun clk run (dlv ++ more) = (rxRun clk run dlv).bind fun run => rxRun clk run more :=
  List.foldlM_append

end Rhex
