import Mathlib
import Rhex.Capture
import Rhex.Lib.Run
import Rhex.Radiotap
import Rhex.StreamRx

/-!
# Captured video frames (`wfb_rx_stream` of `wfb_rx_rawsock.c`)

`wfb_rx_stream` waits for a frame, and `wfb_rx_stream_interface` takes it from pcap, strips its two
headers and hands the rest to `process_payload`. The accesses to the frame are part of the model.

* `wfbRxStreamInterface`, `wfbRxStream` — the two functions; no result is a call of `exit`.
* `receiveVideo_spec`, `receiveVideo_bounds` — what becomes of a frame, and how much of it is read.
* `stream_bounds` — which frames are read within their captured bytes, and copied into their slot.
-/

namespace Rhex

open Memory Traced

/-! ## State -/

/-- `wfb_rx_stream_t`, and the static variables of the file. -/
structure StreamRx where
  rx : RxState
  iface : Nat → MonitorInterface
  dbm : Nat → Int
  dbmLast : Nat → Int
  dbmTsPrev : Nat → UInt64
  packetcounter : Nat → UInt32
  packetcounterLast : Nat → UInt32
  packetcounterTsPrev : UInt64
  bytesReceived : Nat
  currentAirDatarateTs : UInt64

/-- Change the status of an adapter. -/
def RxState.setAdapter (s : RxState) (i : Nat) (f : AdapterStatus → AdapterStatus) : RxState :=
  { s with rxStatus := { s.rxStatus with
    adapter := Function.update s.rxStatus.adapter i (f (s.rxStatus.adapter i)) } }

/-- The clock was read `n` times. -/
def RxState.tick (s : RxState) (n : Nat) : RxState := { s with ticks := s.ticks + n }

@[simp] theorem RxState.setAdapter_same (s : RxState) (i : Nat)
    (f : AdapterStatus → AdapterStatus) : SameBuffers s (s.setAdapter i f) := ⟨rfl, rfl⟩

@[simp] theorem RxState.tick_same (s : RxState) (n : Nat) : SameBuffers s (s.tick n) := ⟨rfl, rfl⟩

/-! ## Statistics -/

/-- The signal level of a frame: the lower of two in a row, published every 220 ms. -/
def noteSignal (clk : Nat → UInt64) (i : Nat) (signal : Int) (s : StreamRx) : StreamRx :=
  let dbmLast := s.dbm i
  let dbm := if signal > dbmLast then dbmLast else signal
  if clk s.rx.ticks - s.dbmTsPrev i > 220 * timeMs then
    { s with
      rx := (s.rx.setAdapter i fun a => { a with currentSignalDbm := dbm }).tick 2
      dbm := Function.update s.dbm i 99
      dbmLast := Function.update s.dbmLast i 99
      dbmTsPrev := Function.update s.dbmTsPrev i (clk (s.rx.ticks + 1)) }
  else
    { s with
      rx := s.rx.tick 1
      dbm := Function.update s.dbm i dbm
      dbmLast := Function.update s.dbmLast i dbmLast }

/-- The search for the adapter with the best signal. -/
def bestAdapter (count : Nat) (status : RxStatus) : Nat :=
  ((List.range count).foldl
    (fun (m : Int × Nat) j =>
      if m.1 < (status.adapter j).currentSignalDbm then ((status.adapter j).currentSignalDbm, j)
      else m) (-1000, 0)).2

/-- The counters of `wfb_rx_stream_interface`, for a body of `size` bytes. -/
def countReceived (clk : Nat → UInt64) (count i size : Nat) (s : StreamRx) : StreamRx :=
  let rx := s.rx.setAdapter i fun a => { a with receivedPacketCnt := a.receivedPacketCnt + 1 }
  let bytesReceived :=
    if i = bestAdapter count rx.rxStatus then s.bytesReceived + size else s.bytesReceived
  let now := clk rx.ticks
  if now - s.currentAirDatarateTs > 500 * timeMs then
    { s with rx := rx.tick 1, bytesReceived := 0, currentAirDatarateTs := now }
  else { s with rx := rx.tick 1, bytesReceived }

/-- What `wfb_rx_stream` does every 220 ms: which adapters have received anything? -/
def watchAdapters (clk : Nat → UInt64) (count : Nat) (s : StreamRx) : StreamRx :=
  if clk s.rx.ticks - s.packetcounterTsPrev > 220 * timeMs then
    let counter (i : Nat) := (s.rx.rxStatus.adapter i).receivedPacketCnt
    { s with
      rx := (List.range count).foldl (fun rx i =>
        rx.setAdapter i fun a =>
          { a with signalGood := if counter i = s.packetcounter i then 0 else 1 }) (s.rx.tick 2)
      packetcounterTsPrev := clk (s.rx.ticks + 1)
      packetcounterLast := fun i => if i < count then s.packetcounter i else s.packetcounterLast i
      packetcounter := fun i => if i < count then counter i else s.packetcounter i }
  else { s with rx := s.rx.tick 1 }

/-! ## One frame -/

/-- An `int` from 32 bits. -/
def toInt32 (x : UInt32) : Int := (x.toNat : Int).bmod (2 ^ 32)

/-- `n80211HeaderLength` of a frame; frames of other kinds keep the interface's length. -/
def streamHeaderLength (interface : MonitorInterface) (b : UInt8) : Nat :=
  if b = 0x01 then 0x05 else if b = 0x02 then 0x18 else interface.n80211HeaderLength

/-- `interface->n80211HeaderLength = n`. -/
def StreamRx.setHeaderLength (s : StreamRx) (i n : Nat) : StreamRx :=
  { s with iface := Function.update s.iface i ⟨n⟩ }

/-- The loop over the radiotap arguments. -/
def argLoop (clk : Nat → UInt64) (rt : Buf) (i : Nat) (it : RadiotapIterator) (s : StreamRx) :
    Traced StreamRx :=
  match _h : radiotapIteratorNext it with
  | none => pure s
  | some it' =>
    if it'.thisArgIndex = radiotapDbmAntsignal then do
      let signal ← load8 rt it'.thisArg
      argLoop clk rt i it' (noteSignal clk i (toInt8 signal) s)
    else argLoop clk rt i it' s
termination_by rtSizes.length - it.argIndex
decreasing_by
  all_goals
    obtain ⟨hlt, hle, -, -⟩ := radiotapIteratorNext_spec _h
    omega

/-- The body of a frame, from `off` on. -/
def Capture.payloadData (c : Capture) (off : Nat) : PayloadData :=
  ⟨fun i => c.data (off + i), c.len.toNat - off, true⟩

/-- The access of the `memcpy` of `process_payload`. -/
def accessStored (off : Nat) : Option (Nat × Nat) → Traced Unit
  | none => pure ()
  | some (_, dataLen) => access (off + sizeofWifiPacketHeader) dataLen

/-- What one call leaves: the state, the output, and the slot that was written with the length of
the copy. -/
structure StreamStep where
  state : StreamRx
  rxData : RxData
  stored : Option (Nat × Nat)

/-- What `wfb_rx_stream_interface` does with a frame from interface `i`. -/
def receiveVideo (clk : Nat → UInt64) (count : Nat) (s : StreamRx) (i : Nat) (rxData : RxData)
    (c : Capture) : Traced StreamStep := do
  let headerLen ← load16 c.data 2
  let type ← load8 c.data (headerLen.toNat + 1)
  let n := streamHeaderLength (s.iface i) type
  let off := headerLen.toNat + n
  if c.len.toNat < off then fail
  else
    let it ← radiotapIteratorInit c.data (toInt32 c.len)
    let s ← argLoop clk c.data i it (s.setHeaderLength i n)
    let pd := c.payloadData off
    let s := countReceived clk count i pd.size s
    access off sizeofWifiPacketHeader
    let r ← ofOption (processPayload clk s.rx pd rxData)
    accessStored off r.stored
    pure ⟨{ s with rx := r.state }, r.rxData, r.stored⟩

/-- `wfb_rx_stream_interface`. -/
def wfbRxStreamInterface (clk : Nat → UInt64) (count : Nat) (s : StreamRx) (i : Nat)
    (rxData : RxData) : NextEx → Traced (Int × StreamStep)
  | .error => fail
  | .empty => pure (1, ⟨s, rxData, none⟩)
  | .frame c => do
    let r ← receiveVideo clk count s i rxData c
    pure (0, r)

/-- `wfb_rx_stream`. -/
def wfbRxStream {count : Nat} (clk : Nat → UInt64) (s : StreamRx) (rxData : RxData)
    (cycle : Cycle count) : Traced (Int × StreamStep) :=
  let s := watchAdapters clk count s
  if cycle.result > 0 then
    match (List.range count).find? cycle.isset with
    | some i => wfbRxStreamInterface clk count s i rxData cycle.next
    | none => pure (cycle.result, ⟨s, rxData, none⟩)
  else pure (cycle.result, ⟨s, rxData, none⟩)

/-! ## The walk through the arguments -/

theorem noteSignal_same (clk : Nat → UInt64) (i : Nat) (signal : Int) (s : StreamRx) :
    SameBuffers s.rx (noteSignal clk i signal s).rx := by
  unfold noteSignal
  by_cases h : clk s.rx.ticks - s.dbmTsPrev i > 220 * timeMs
  · simp only [if_pos h]
    exact ⟨rfl, rfl⟩
  · simp only [if_neg h]
    exact ⟨rfl, rfl⟩

theorem argLoop_result (clk : Nat → UInt64) (rt : Buf) (i : Nat) (it : RadiotapIterator)
    (s : StreamRx) : ∃ s', (argLoop clk rt i it s).result = some s' ∧ SameBuffers s.rx s'.rx := by
  fun_induction argLoop clk rt i it s with
  | case1 it s hnext => exact ⟨s, rfl, rfl, rfl⟩
  | case2 it s it' hnext hindex ih =>
    obtain ⟨s', hrun, hsame⟩ := ih (rt it'.thisArg)
    exact ⟨s', by simpa using hrun, (noteSignal_same _ _ _ s).trans hsame⟩
  | case3 it s it' hnext hindex ih => exact ih

theorem argLoop_within (clk : Nat → UInt64) (rt : Buf) (i : Nat) (it : RadiotapIterator)
    (s : StreamRx) {n : Nat} (h : it.maxLength ≤ n) : (argLoop clk rt i it s).Within n := by
  fun_induction argLoop clk rt i it s with
  | case1 it s hnext => exact within_pure s
  | case2 it s it' hnext hindex ih =>
    obtain ⟨-, -, hmax, harg⟩ := radiotapIteratorNext_spec hnext
    rw [within_bind, within_load8]
    exact ⟨by omega, fun signal _ => ih signal (by omega)⟩
  | case3 it s it' hnext hindex ih =>
    obtain ⟨-, -, hmax, -⟩ := radiotapIteratorNext_spec hnext
    exact ih (by omega)

theorem countReceived_same (clk : Nat → UInt64) (count i size : Nat) (s : StreamRx) :
    SameBuffers s.rx (countReceived clk count i size s).rx := by
  simp only [countReceived]
  split_ifs <;> exact ⟨rfl, rfl⟩

theorem watchAdapters_same (clk : Nat → UInt64) (count : Nat) (s : StreamRx) :
    SameBuffers s.rx (watchAdapters clk count s).rx := by
  unfold watchAdapters
  by_cases h : clk s.rx.ticks - s.packetcounterTsPrev > 220 * timeMs
  · simp only [if_pos h]
    have hfold : ∀ (f : Nat → AdapterStatus → AdapterStatus) (l : List Nat) (rx : RxState),
        SameBuffers rx (l.foldl (fun rx i => rx.setAdapter i (f i)) rx) := by
      intro f l
      induction l with
      | nil => exact fun rx => ⟨rfl, rfl⟩
      | cons j l ih => exact fun rx => (rx.setAdapter_same j (f j)).trans (ih _)
    exact (s.rx.tick_same 2).trans (hfold _ _ _)
  · simp only [if_neg h]
    exact s.rx.tick_same 1

/-! ## The packets are left to `process_payload` -/

theorem RxInv.of_same {s s' : RxState} (h : SameBuffers s s') (hs : RxInv s) : RxInv s' := by
  obtain ⟨hlist, hmax⟩ := h
  have hpackets : s'.packets = s.packets := congrArg (fun l => (l 0).packetBufferList) hlist
  have hblock : s'.blockNum = s.blockNum := congrArg (fun l => (l 0).blockNum) hlist
  exact ⟨hpackets ▸ hs.crc, by rw [hblock, hmax, hs.block], hmax ▸ hs.ge,
    fun h => hpackets ▸ hs.empty (hmax ▸ h)⟩

/-- The packet is one that `process_payload` copies into a slot: it opens a block, or its slot in
the current block is free. -/
def Takes (s : RxState) (pd : PayloadData) : Prop :=
  s.maxBlockNum < pd.blockNum ∨ (pd.blockNum : Int) + 128 < s.maxBlockNum ∨
    (s.maxBlockNum = pd.blockNum ∧ (s.packets pd.packetNum).valid = false)

theorem takes_congr {s s' : RxState} (h : SameBuffers s s') (pd : PayloadData) :
    Takes s' pd ↔ Takes s pd := by
  obtain ⟨hlist, hmax⟩ := h
  simp only [Takes, RxState.packets, hlist, hmax]

/-- The length of the copy. -/
def PayloadData.dataLen (pd : PayloadData) : Nat := sizeSub pd.size sizeofWifiPacketHeader

/-- What `process_payload` copies. -/
theorem Processed.stored_eq {s : RxState} {pd : PayloadData} {rxData : RxData}
    {r : RxStep} (h : Processed s pd rxData r) :
    (Takes s pd ∧ r.stored = some (pd.packetNum, pd.dataLen)) ∨
      (¬Takes s pd ∧ r.stored = none) := by
  cases h with
  | flush hnew hopen blocks hdecoded hout hflushed hopened =>
    exact Or.inl ⟨Or.inl hnew, hopened.stored⟩
  | «open» hnew hout hflushed hopened =>
    refine Or.inl ⟨?_, hopened.stored⟩
    rcases hnew with hnew | hnew
    · exact Or.inl (by omega)
    · exact Or.inr (Or.inl hnew)
  | store hblock hfree hout hflushed hmax hnum hpackets hstored =>
    exact Or.inl ⟨Or.inr (Or.inr ⟨hblock, hfree⟩), hstored⟩
  | duplicate hblock hfilled hr =>
    refine Or.inr ⟨?_, by rw [hr]⟩
    rintro (h | h | ⟨-, h⟩)
    · omega
    · omega
    · rw [hfilled] at h
      exact absurd h (by decide)
  | late hlt hge hr =>
    refine Or.inr ⟨?_, by rw [hr]⟩
    rintro (h | h | ⟨h, -⟩) <;> omega

theorem storePacket_congr (s : RxState) (blockNum : Int) {pd pd' : PayloadData}
    (hsize : pd.size = pd'.size) (hcrc : pd.crcOk = pd'.crcOk)
    (hseq : pd.sequenceNumber = pd'.sequenceNumber)
    (hdata : ∀ slot dataLen, (storePacket s blockNum pd).2 = some (slot, dataLen) →
      slice pd.data sizeofWifiPacketHeader dataLen =
        slice pd'.data sizeofWifiPacketHeader dataLen) :
    storePacket s blockNum pd = storePacket s blockNum pd' := by
  unfold storePacket at hdata ⊢
  cases hfind : (List.range paramBlockBuffers).find?
      fun i => decide ((s.blockBufferList i).blockNum = blockNum) with
  | none => rfl
  | some i =>
    rw [hfind] at hdata
    dsimp only at hdata ⊢
    rw [← hseq, ← hsize]
    by_cases hfree : ((s.blockBufferList i).packetBufferList
        (pd.sequenceNumber.toNat % packetsPerBlock)).crcCorrect = false
    · rw [if_pos hfree] at hdata ⊢
      have hfill : ∀ p, fillSlot p pd = fillSlot p pd' := by
        intro p
        simp only [fillSlot, ← hsize, ← hcrc, hdata _ _ rfl]
      rw [if_pos hfree, hfill]
    · rw [if_neg hfree, if_neg hfree]

/-- **The accesses listed are all** that `process_payload` makes: a packet that agrees on them has
the same effect. -/
theorem processPayload_congr (clk : Nat → UInt64) (s : RxState) {pd pd' : PayloadData}
    (rxData : RxData) (hsize : pd.size = pd'.size) (hcrc : pd.crcOk = pd'.crcOk)
    (hseq : slice pd.data 0 sizeofWifiPacketHeader = slice pd'.data 0 sizeofWifiPacketHeader)
    (hdata : ∀ r slot dataLen, processPayload clk s pd rxData = some r →
      r.stored = some (slot, dataLen) →
      slice pd.data sizeofWifiPacketHeader dataLen =
        slice pd'.data sizeofWifiPacketHeader dataLen) :
    processPayload clk s pd rxData = processPayload clk s pd' rxData := by
  have hnumber : pd.sequenceNumber = pd'.sequenceNumber := read32_congr hseq
  have hblock : pd.blockNum = pd'.blockNum := by rw [PayloadData.blockNum, hnumber]; rfl
  rw [processPayload_eq] at hdata ⊢
  rw [processPayload_eq, ← hblock, ← hcrc]
  cases hroom : makeRoom clk s pd.blockNum pd.crcOk rxData with
  | none => rfl
  | some r =>
    rw [hroom, Option.bind_some] at hdata
    rw [Option.bind_some, Option.bind_some, storePacket_congr r.1 pd.blockNum hsize hcrc hnumber
      fun slot dataLen hstored => hdata _ slot dataLen rfl hstored]

/-! ## What becomes of a frame -/

/-- Where the body of a frame starts. -/
def streamOffset (interface : MonitorInterface) (c : Capture) : Nat :=
  c.headerLen + streamHeaderLength interface c.typeByte

/-- The frame passes the checks of `wfb_rx_stream_interface`. -/
def StreamAccepted (interface : MonitorInterface) (c : Capture) : Prop :=
  streamOffset interface c ≤ c.len.toNat ∧
    (radiotapIteratorInit c.data (toInt32 c.len)).result.isSome = true

/-- The packet in the body of a frame. -/
def Capture.packet (c : Capture) (interface : MonitorInterface) : PayloadData :=
  c.payloadData (streamOffset interface c)

theorem accessStored_result (off : Nat) (stored : Option (Nat × Nat)) :
    (accessStored off stored).result = some () := by
  cases stored <;> rfl

theorem accessStored_within (off n : Nat) (stored : Option (Nat × Nat)) :
    (accessStored off stored).Within n ↔ ∀ slot dataLen, stored = some (slot, dataLen) →
      (⟨off + sizeofWifiPacketHeader, dataLen⟩ : Access).Within n := by
  cases stored with
  | none => exact ⟨fun _ _ _ h => absurd h (by simp), fun _ => within_pure ()⟩
  | some x =>
    rw [accessStored, within_access]
    refine ⟨fun h slot dataLen hx => ?_, fun h => h _ _ rfl⟩
    obtain rfl := Option.some.inj hx
    exact h

variable (clk : Nat → UInt64) (count : Nat) {s : StreamRx} {i : Nat} {c : Capture}

/-- A frame that passes the checks is handed to `process_payload`, and this is how much of it is
read. -/
theorem receiveVideo_hands (h : StreamAccepted (s.iface i) c) (rxData : RxData) :
    ∃ s' : StreamRx, SameBuffers s.rx s'.rx ∧
      (receiveVideo clk count s i rxData c).result =
        (processPayload clk s'.rx (c.packet (s.iface i)) rxData).map
          (fun r => ⟨{ s' with rx := r.state }, r.rxData, r.stored⟩) ∧
      ∀ r, processPayload clk s'.rx (c.packet (s.iface i)) rxData = some r →
        ∀ n, (receiveVideo clk count s i rxData c).Within n ↔
          (radiotapIteratorInit c.data (toInt32 c.len)).Within n ∧
          streamOffset (s.iface i) c + sizeofWifiPacketHeader ≤ n ∧
          (accessStored (streamOffset (s.iface i) c) r.stored).Within n := by
  obtain ⟨hlen, hinit⟩ := h
  obtain ⟨it, hit⟩ := Option.isSome_iff_exists.mp hinit
  have hmax := radiotapIteratorInit_spec hit
  obtain ⟨s₀, hs₀⟩ : ∃ s₀, s₀ = s.setHeaderLength i (streamHeaderLength (s.iface i) c.typeByte) :=
    ⟨_, rfl⟩
  have hsame₀ : SameBuffers s.rx s₀.rx := hs₀ ▸ ⟨rfl, rfl⟩
  obtain ⟨s₁, hloop, hsame₁⟩ := argLoop_result clk c.data i it s₀
  obtain ⟨s₂, hs₂⟩ : ∃ s₂, s₂ = countReceived clk count i (c.packet (s.iface i)).size s₁ := ⟨_, rfl⟩
  have hsame₂ : SameBuffers s₁.rx s₂.rx := hs₂ ▸ countReceived_same clk count i _ s₁
  refine ⟨s₂, (hsame₀.trans hsame₁).trans hsame₂, ?_⟩
  unfold receiveVideo
  simp only [Capture.packet, streamOffset, Capture.typeByte, Capture.headerLen] at *
  constructor
  · simp only [result_bind, result_load16, result_load8, Option.bind_some,
      if_neg (Nat.not_lt.mpr hlen), hit, ← hs₀, hloop, ← hs₂, result_access, result_ofOption]
    cases processPayload clk s₂.rx (c.payloadData _) rxData with
    | none => rfl
    | some r => simp only [Option.bind_some, accessStored_result, result_pure, Option.map_some]
  · intro r hprocess n
    simp only [within_bind, within_load16, within_load8, result_load16, result_load8,
      Option.some.injEq, forall_eq', if_neg (Nat.not_lt.mpr hlen), hit, ← hs₀, hloop, ← hs₂,
      result_access, result_ofOption, hprocess, accessStored_result, within_ofOption, within_pure,
      within_access, Access.within_iff, forall_const, true_and, and_true]
    constructor
    · rintro ⟨-, -, hchecks, -, hnumber, hcopy⟩
      exact ⟨hchecks, hnumber.resolve_left (by decide), hcopy⟩
    · rintro ⟨hchecks, hnumber, hcopy⟩
      have hfour : _ + 4 ≤ n := hnumber
      have hheader := argLoop_within clk c.data i it s₀ (show it.maxLength ≤ n by omega)
      exact ⟨by omega, by omega, hchecks, hheader, Or.inr hnumber, hcopy⟩

/-- **A frame that passes the checks** is handed to `process_payload`. -/
theorem receiveVideo_spec (hs : RxInv s.rx) (h : StreamAccepted (s.iface i) c) (rxData : RxData) :
    ∃ r, (receiveVideo clk count s i rxData c).result = some r ∧ RxInv r.state.rx ∧
      ((Takes s.rx (c.packet (s.iface i)) ∧ r.stored =
          some ((c.packet (s.iface i)).packetNum, (c.packet (s.iface i)).dataLen)) ∨
        (¬Takes s.rx (c.packet (s.iface i)) ∧ r.stored = none)) ∧
      ∀ n, (receiveVideo clk count s i rxData c).Within n ↔
        (radiotapIteratorInit c.data (toInt32 c.len)).Within n ∧
        streamOffset (s.iface i) c + sizeofWifiPacketHeader ≤ n ∧
        (accessStored (streamOffset (s.iface i) c) r.stored).Within n := by
  obtain ⟨s', hsame, hresult, hwithin⟩ := receiveVideo_hands clk count h rxData
  obtain ⟨r, hprocess, hprocessed, hinv⟩ :=
    processPayload_spec clk (hs.of_same hsame) (show (c.packet (s.iface i)).crcOk = true from rfl)
      rxData
  have hstored := hprocessed.stored_eq
  rw [takes_congr hsame] at hstored
  rw [hprocess, Option.map_some] at hresult
  exact ⟨_, hresult, hinv, hstored, hwithin r hprocess⟩

/-- Any other frame ends the program. -/
theorem receiveVideo_rejects (h : ¬StreamAccepted (s.iface i) c) (rxData : RxData) :
    (receiveVideo clk count s i rxData c).result = none := by
  unfold receiveVideo
  simp only [StreamAccepted, streamOffset, Capture.typeByte, Capture.headerLen] at h
  simp only [result_bind, result_load16, result_load8, Option.bind_some]
  split_ifs with hlen
  · rfl
  · have hinit : (radiotapIteratorInit c.data (toInt32 c.len)).result = none := by
      rw [← Option.not_isSome_iff_eq_none]
      intro hsome
      exact h ⟨Nat.not_lt.mp hlen, hsome⟩
    rw [result_bind, hinit]
    rfl

/-! ## Memory bounds -/

/-- If the call accepts a frame, each byte that it reads is one of the captured ones, and the copy
fits its slot. -/
def InBounds (x : Traced (Int × StreamStep)) (next : NextEx) : Prop :=
  ∀ c, next = .frame c → ∀ r, x.result = some r →
    x.Within c.caplen.toNat ∧
      ∀ slot dataLen, r.2.stored = some (slot, dataLen) → dataLen ≤ maxPacketLength

/-- The frame is captured as far as `wfb_rx_stream_interface` reads it: to the end of the present
bitmaps and of the sequence number, and to the end if `process_payload` copies it; and then it is
neither shorter than the sequence number nor longer than a slot. -/
def FrameFits (s : RxState) (interface : MonitorInterface) (c : Capture) : Prop :=
  8 ≤ c.caplen.toNat ∧ (hasExt (read32 c.data 4) = true → 12 ≤ c.caplen.toNat) ∧
    streamOffset interface c + sizeofWifiPacketHeader ≤ c.caplen.toNat ∧
    (Takes s (c.packet interface) →
      streamOffset interface c + sizeofWifiPacketHeader ≤ c.len.toNat ∧
      c.len.toNat ≤ c.caplen.toNat ∧
      c.len.toNat ≤ streamOffset interface c + sizeofWifiPacketHeader + maxPacketLength)

/-- The frame that the call accepts, if there is one, fits. -/
def CallFits {count : Nat} (s : StreamRx) (cycle : Cycle count) : Prop :=
  0 < cycle.result → ∀ c, cycle.next = .frame c → StreamAccepted (s.iface cycle.adapter) c →
    FrameFits s.rx (s.iface cycle.adapter) c

/-- The bounds of one copy: a body that is too short makes its length wrap. -/
theorem copy_within {off len n : Nat} (hlen : off ≤ len)
    (hnumber : off + sizeofWifiPacketHeader ≤ n) :
    (Access.Within n
          ⟨off + sizeofWifiPacketHeader, sizeSub (len - off) sizeofWifiPacketHeader⟩ ∧
        sizeSub (len - off) sizeofWifiPacketHeader ≤ maxPacketLength) ↔
      off + sizeofWifiPacketHeader ≤ len ∧ len ≤ n ∧
        len ≤ off + sizeofWifiPacketHeader + maxPacketLength := by
  simp only [sizeofWifiPacketHeader, maxPacketLength, Access.within_iff, sizeSub] at *
  split_ifs <;> omega

/-- **One frame.** -/
theorem receiveVideo_bounds (hs : RxInv s.rx) (h : StreamAccepted (s.iface i) c) (rxData : RxData) :
    (∀ r, (receiveVideo clk count s i rxData c).result = some r →
      (receiveVideo clk count s i rxData c).Within c.caplen.toNat ∧
        ∀ slot dataLen, r.stored = some (slot, dataLen) → dataLen ≤ maxPacketLength) ↔
      FrameFits s.rx (s.iface i) c := by
  obtain ⟨r, hrun, -, hstored, hwithin⟩ := receiveVideo_spec clk count hs h rxData
  have hoff : (read16 c.data 2).toNat ≤ streamOffset (s.iface i) c := Nat.le_add_right _ _
  simp only [hrun, Option.some.injEq, forall_eq', hwithin, accessStored_within, FrameFits]
  constructor
  · rintro ⟨⟨hchecks, hnumber, hcopy⟩, hslot⟩
    have hheader : (read16 c.data 2).toNat + 4 ≤ c.caplen.toNat :=
      le_trans (Nat.add_le_add_right hoff 4) hnumber
    obtain ⟨h8, h12⟩ := (radiotapIteratorInit_within hheader h.2).mp hchecks
    refine ⟨h8, h12, hnumber, ?_⟩
    intro htakes
    obtain ⟨-, hsome⟩ := hstored.resolve_right fun hnot => hnot.1 htakes
    exact (copy_within h.1 hnumber).mp ⟨hcopy _ _ hsome, hslot _ _ hsome⟩
  · rintro ⟨h8, h12, hnumber, hcopy⟩
    have hheader : (read16 c.data 2).toNat + 4 ≤ c.caplen.toNat :=
      le_trans (Nat.add_le_add_right hoff 4) hnumber
    have hchecks := (radiotapIteratorInit_within hheader h.2).mpr ⟨h8, h12⟩
    have hall : ∀ slot dataLen, r.stored = some (slot, dataLen) →
        (⟨streamOffset (s.iface i) c + sizeofWifiPacketHeader, dataLen⟩ : Access).Within
          c.caplen.toNat ∧ dataLen ≤ maxPacketLength := by
      intro slot dataLen hsome
      rcases hstored with ⟨htakes, hr⟩ | ⟨-, hr⟩
      · rw [hr] at hsome
        obtain ⟨-, rfl⟩ := Prod.mk.inj (Option.some.inj hsome)
        exact (copy_within h.1 hnumber).mpr (hcopy htakes)
      · rw [hr] at hsome
        exact absurd hsome (by simp)
    exact ⟨⟨hchecks, hnumber, fun slot dataLen hr => (hall slot dataLen hr).1⟩,
      fun slot dataLen hr => (hall slot dataLen hr).2⟩

/-- **`wfb_rx_stream_interface`** with a frame. -/
theorem streamInterface_bounds (hs : RxInv s.rx) (i : Nat) (rxData : RxData) (c : Capture) :
    (∀ r, (wfbRxStreamInterface clk count s i rxData (.frame c)).result = some r →
      RxInv r.2.state.rx) ∧
    (InBounds (wfbRxStreamInterface clk count s i rxData (.frame c)) (.frame c) ↔
      (StreamAccepted (s.iface i) c → FrameFits s.rx (s.iface i) c)) := by
  by_cases haccepted : StreamAccepted (s.iface i) c
  · obtain ⟨r, hrun, hinv, -⟩ := receiveVideo_spec clk count hs haccepted rxData
    have hbounds := receiveVideo_bounds clk count hs haccepted rxData
    simp only [InBounds, wfbRxStreamInterface, within_bind, result_bind, hrun, Option.bind_some,
      result_pure, NextEx.frame.injEq, forall_eq', Option.some.injEq, within_pure, and_true,
      haccepted, forall_const] at hbounds ⊢
    exact ⟨hinv, hbounds⟩
  · have hnone : (wfbRxStreamInterface clk count s i rxData (.frame c)).result = none := by
      rw [wfbRxStreamInterface, result_bind, receiveVideo_rejects clk count haccepted,
        Option.bind_none]
    rw [InBounds, hnone]
    refine ⟨fun r hr => absurd hr (by simp), fun _ h => absurd h haccepted, ?_⟩
    intro _ _ _ r hr
    exact absurd hr (by simp)

theorem watchAdapters_iface (s : StreamRx) : (watchAdapters clk count s).iface = s.iface := by
  unfold watchAdapters
  split_ifs <;> rfl

/-- **One call** of `wfb_rx_stream` keeps the invariant, and is in bounds exactly if the frame that
it accepts fits. -/
theorem wfbRxStream_bounds {count : Nat} (hs : RxInv s.rx) (rxData : RxData) (cycle : Cycle count) :
    (∀ r, (wfbRxStream clk s rxData cycle).result = some r → RxInv r.2.state.rx) ∧
      (InBounds (wfbRxStream clk s rxData cycle) cycle.next ↔ CallFits s cycle) := by
  obtain ⟨s', hs'⟩ : ∃ s', s' = watchAdapters clk count s := ⟨_, rfl⟩
  have hsame : SameBuffers s.rx s'.rx := hs' ▸ watchAdapters_same clk count s
  have hinv : RxInv s'.rx := hs.of_same hsame
  have hiface : s'.iface = s.iface := hs' ▸ watchAdapters_iface clk count s
  have hdone : ∀ result : Int, InBounds (pure (result, ⟨s', rxData, none⟩)) cycle.next := by
    intro result c _ r hr
    obtain rfl := Option.some.inj hr
    exact ⟨within_pure _, fun _ _ h => absurd h (by simp)⟩
  simp only [wfbRxStream, ← hs']
  by_cases hresult : cycle.result > 0
  · rw [if_pos hresult, cycle.find_adapter hresult]
    dsimp only
    cases hnext : cycle.next with
    | error =>
      refine ⟨fun r hr => absurd hr (by simp [wfbRxStreamInterface]), ?_, ?_⟩
      · intro _ _ c hc
        exact absurd (hnext.symm.trans hc) (by simp)
      · intro _ c hc
        exact absurd hc (by simp)
    | empty =>
      refine ⟨?_, ?_, ?_⟩
      · intro r hr
        obtain rfl := Option.some.inj hr
        exact hinv
      · intro _ _ c hc
        exact absurd (hnext.symm.trans hc) (by simp)
      · intro _ c hc
        exact absurd hc (by simp)
    | frame c =>
      obtain ⟨hkeeps, hbounds⟩ := streamInterface_bounds clk count hinv cycle.adapter rxData c
      refine ⟨hkeeps, hbounds.trans ?_⟩
      have hpos : 0 < cycle.result := hresult
      simp only [CallFits, hnext, NextEx.frame.injEq, forall_eq', hpos, forall_const, hiface,
        FrameFits, takes_congr hsame]
  · rw [if_neg hresult]
    refine ⟨?_, fun _ hpos => absurd hpos hresult, fun _ => hdone _⟩
    intro r hr
    obtain rfl := Option.some.inj hr
    exact hinv

/-! ## Runs -/

/-- `wfb_rx_stream_init`, on a `wfb_rx_stream_t` of zeros. -/
def StreamRx.init (malloc : Nat → Buf) : StreamRx where
  rx := wfbRxStreamInit malloc
  iface := fun _ => ⟨0⟩
  dbm := fun _ => 0
  dbmLast := fun _ => 0
  dbmTsPrev := fun _ => 0
  packetcounter := fun _ => 0
  packetcounterLast := fun _ => 0
  packetcounterTsPrev := 0
  bytesReceived := 0
  currentAirDatarateTs := 0

/-- A call of `wfb_rx_stream`: the buffer of `video_main`, and what the system answers. -/
structure StreamCall (count : Nat) where
  rxData : RxData
  cycle : Cycle count

/-- One call of a run; a call of `exit` ends it. -/
def streamStep {count : Nat} (s : StreamRx) (e : StreamCall count) : Option StreamRx :=
  (wfbRxStream clk s e.rxData e.cycle).result.map fun r => r.2.state

theorem streamStep_inv {count : Nat} {s s' : StreamRx} {e : StreamCall count} (hs : RxInv s.rx)
    (h : streamStep clk s e = some s') : RxInv s'.rx := by
  obtain ⟨r, hr, rfl⟩ := Option.map_eq_some_iff.mp h
  exact (wfbRxStream_bounds clk hs e.rxData e.cycle).1 r hr

/-- **The memory bounds of the video receiver.** In a run of `wfb_rx_stream` each call is in bounds
exactly if each frame that is accepted fits. -/
theorem stream_bounds (malloc : Nat → Buf) {count : Nat} (calls : List (StreamCall count)) :
    Run.Throughout (streamStep clk)
        (fun s e => InBounds (wfbRxStream clk s e.rxData e.cycle) e.cycle.next) (.init malloc)
        calls ↔
      Run.Throughout (streamStep clk) (fun s e => CallFits s e.cycle) (.init malloc) calls := by
  exact Run.Throughout.congr (I := fun s => RxInv s.rx) (fun _ _ _ _ => streamStep_inv clk)
    (fun s e _ hs => (wfbRxStream_bounds clk hs e.rxData e.cycle).2)
    (wfbRxStreamInit_fresh malloc).inv

/-- A frame without a body, of 13 bytes, is accepted: the sequence number is read behind it. -/
theorem stream_empty_body :
    let frame := [0, 0, 8, 0, 0, 0, 0, 0, 0x08, 0x01, 0x00, 0x00, 0x01]
    let next := NextEx.frame ⟨13, 13, ofList frame⟩
    let cycle : Cycle 1 := ⟨1, fun _ => true, next, 0, fun _ => ⟨0, by decide, rfl⟩⟩
    ¬InBounds (wfbRxStream (fun _ => 0) (.init fun _ _ => 0) ⟨0, fun _ => 0⟩ cycle) next := by
  intro frame next cycle hbounds
  have hfits := (wfbRxStream_bounds (fun _ => 0) (wfbRxStreamInit_fresh _).inv _ cycle).2.mp hbounds
  obtain ⟨-, -, hnumber, -⟩ := hfits (by decide) _ rfl ⟨by decide, by decide⟩
  exact absurd hnumber (by decide)

end Rhex
