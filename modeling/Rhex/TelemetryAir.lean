import Mathlib
import Rhex.Lib.Once
import Rhex.Ports
import Rhex.TelemetryCrc
import Rhex.TelemetryLink

/-!
# Telemetry over the air (`rhex_telemetry.c`, `rhex_telemetry_rx.c`)

In each cycle the robot seals a record with its checksum and sends it under the next number; in each
cycle the ground station takes a frame from one of its adapters and forwards what it has not
forwarded lately. In between are the radio and the drivers. The layout of `vector_telemetry_t` is
given by its size and the offset of `CRC`.

* `rhexTelemetryMain`, `telemetryRxMain` — the two services.
* `HearsRecords` — the cycles in which frames of the records are received.
* `relay` — what the ground station is for.
* `telemetry_over_air` — what it forwards.
-/

namespace Rhex

open Memory

/-! ## The robot -/

/-- `vot.CRC` is stored. -/
def sealRecord (crcOff : Nat) (vot : Buf) : Option Buf :=
  let fields := slice vot 0 crcOff
  (vtCrc16 fields fields.length 0xFFFF).map fun crc => memcpy vot crcOff (le16 crc)

/-- The cycles of `rhex_telemetry_main`, in each of which `read_gps_status` and
`read_sensors_status` have left some `vot`, and the frames that each writes. -/
def rhexTelemetryCycles (types : List Nat) (size : UInt16) (crcOff : Nat) :
    UInt32 → TxBuffers → List Buf → Option (List (List (List UInt8)))
  | _, _, [] => some []
  | seqno, bufs, vot :: vots => do
    let record ← sealRecord crcOff vot
    let r ← wfbTxSend types seqno record size bufs
    let frames ← rhexTelemetryCycles types size crcOff (seqno + 1) r.1 vots
    some (r.2 :: frames)

/-- `rhex_telemetry_main`. -/
def rhexTelemetryMain (b : TxBuffers) (types : List Nat) (size : UInt16) (crcOff : Nat)
    (vots : List Buf) : Option (List (List (List UInt8))) := do
  let bufs ← wfbTxInit b RadioSender.telemetry.port RadioSender.telemetry.useCts
  rhexTelemetryCycles types size crcOff 0 bufs vots

/-- A record with the checksum of its fields. -/
def sealedRecord (size : UInt16) (crcOff : Nat) (vot : Buf) : List UInt8 :=
  slice (memcpy vot crcOff (le16 (crc16Ccitt 0xFFFF (slice vot 0 crcOff)))) 0 size.toNat

/-- The frames of a record, one for each card. -/
def RecordSent (size : UInt16) (crcOff : Nat) (types : List Nat) (seqno : UInt32) (vot : Buf)
    (frames : List (List UInt8)) : Prop :=
  List.Forall₂ (Written RadioSender.telemetry.port RadioSender.telemetry.useCts
    (frameHeader seqno size ++ sealedRecord size crcOff vot)) frames types

section

variable {types : List Nat} {size : UInt16} {crcOff : Nat}

theorem sealRecord_eq (hcrc : crcOff ≤ 65535) (vot : Buf) :
    sealRecord crcOff vot =
      some (memcpy vot crcOff (le16 (crc16Ccitt 0xFFFF (slice vot 0 crcOff)))) := by
  simp only [sealRecord]
  rw [vtCrc16_eq _ _ (by rw [length_slice]; exact hcrc)]
  rfl

/-- **The cycles of the robot**: the record of each goes out under its number. -/
theorem rhexTelemetryCycles_spec (hcrc : crcOff ≤ 65535)
    (hfits : ∀ type ∈ types, Fits RadioSender.telemetry.port RadioSender.telemetry.useCts
      size.toNat type) (vots : List Buf) (seqno : UInt32) {bufs : TxBuffers}
    (hready : bufs.Ready RadioSender.telemetry.port RadioSender.telemetry.useCts) :
    ∃ frames, rhexTelemetryCycles types size crcOff seqno bufs vots = some frames ∧
      frames.length = vots.length ∧ ∀ i fs, frames[i]? = some fs → ∃ vot, vots[i]? = some vot ∧
        RecordSent size crcOff types (seqno + .ofNat i) vot fs := by
  induction vots generalizing seqno bufs with
  | nil => exact ⟨[], rfl, rfl, fun i fs h => absurd h.symm (Option.some_ne_none fs)⟩
  | cons vot vots ih =>
    obtain ⟨bufs', first, hsend, hready', hwritten⟩ := wfbTxSend_spec hready types seqno
      (memcpy vot crcOff (le16 (crc16Ccitt 0xFFFF (slice vot 0 crcOff)))) size hfits
    obtain ⟨frames, hrun, hlen, hsent⟩ := ih (seqno + 1) hready'
    refine ⟨first :: frames, ?_, congrArg (· + 1) hlen, fun i fs hi => ?_⟩
    · simp only [rhexTelemetryCycles, sealRecord_eq hcrc, hsend, hrun, Option.bind_eq_bind,
        Option.bind_some]
    · cases i with
      | zero =>
        obtain rfl := Option.some.inj hi
        refine ⟨vot, rfl, ?_⟩
        rw [show seqno + UInt32.ofNat 0 = seqno from UInt32.add_zero seqno]
        exact hwritten
      | succ i =>
        obtain ⟨vot', hvot, hframes⟩ := hsent i fs hi
        refine ⟨vot', hvot, ?_⟩
        rwa [UInt32.ofNat_add, UInt32.add_comm (.ofNat i), ← UInt32.add_assoc]

end

/-! ## The ground station -/

/-- What the system answers in a cycle of `telemetry_rx_main`. -/
structure TelemetryCycle (count : Nat) where
  cycle : Cycle count
  now : UInt64
  sendtoOk : Bool

/-- The interfaces, the static variables, and the datagrams forwarded so far. -/
structure TelemetryRx where
  rx : WfbRx
  state : TelemetryState
  sent : List (List UInt8)

/-- What a frame adds to the datagrams. -/
def Verdict.datagrams : Verdict → List (List UInt8)
  | .forwarded datagram => [datagram]
  | _ => []

/-- A cycle of `telemetry_rx_main`. -/
def telemetryRxMain {count : Nat} (t : TelemetryRx) (e : TelemetryCycle count) :
    Option TelemetryRx :=
  (wfbRxPacket t.rx .zero e.cycle).bind fun r =>
    (telemetryMain t.state r.1 r.2.2 e.now e.sendtoOk).map fun v =>
      ⟨r.2.1, v.1, t.sent ++ v.2.datagrams⟩

def telemetryRun {count : Nat} (t : TelemetryRx) (es : List (TelemetryCycle count)) :
    Option TelemetryRx :=
  es.foldlM telemetryRxMain t

/-! ## What is heard -/

/-- A call of `process_packet`: for a record by its number, or for the zeros that `rx_data` holds
when pcap has nothing. -/
structure HeardRecord where
  number : Option Nat
  sendtoOk : Bool

/-- The records heard in some cycles: `select` has a timeout, or pcap has nothing, or a frame of one
of the records arrives at one of the adapters, behind another radiotap header. -/
inductive HearsRecords {count : Nat} (frames : List (List (List UInt8))) :
    List (TelemetryCycle count) → List HeardRecord → Prop where
  | nil : HearsRecords frames [] []
  | idle {e es heard} (hresult : e.cycle.result = 0) (hes : HearsRecords frames es heard) :
      HearsRecords frames (e :: es) heard
  | empty {e es heard} (hresult : 0 < e.cycle.result) (hnext : e.cycle.next = .empty)
      (hes : HearsRecords frames es heard) :
      HearsRecords frames (e :: es) (⟨none, e.sendtoOk⟩ :: heard)
  | frame {e es heard i fs f rt fcs c} (hresult : 0 < e.cycle.result)
      (hnext : e.cycle.next = .frame c) (hfs : frames[i]? = some fs) (hf : f ∈ fs)
      (hrt : ValidRadiotap rt) (hfcs : fcs.length ≤ 4) (hheard : Heard c rt (onAir f ++ fcs))
      (hes : HearsRecords frames es heard) :
      HearsRecords frames (e :: es) (⟨some i, e.sendtoOk⟩ :: heard)

/-! ## What the ground station is for -/

namespace HeardRecord

def seqnumber (h : HeardRecord) : Nat := h.number.getD 0

def data (records : List (List UInt8)) (h : HeardRecord) : List UInt8 :=
  match h.number with
  | none => []
  | some i => (records[i]?).getD []

end HeardRecord

/-- What is forwarded: of the records heard those whose numbers are not among the last 100 that were
forwarded, and that can be sent. -/
def relay (records : List (List UInt8)) (recent : List Nat) :
    List HeardRecord → List (List UInt8)
  | [] => []
  | h :: heard =>
    if h.seqnumber ∉ recent.take bufSz ∧ h.sendtoOk = true then
      h.data records :: relay records (h.seqnumber :: recent) heard
    else relay records recent heard

/-- Only what was heard is forwarded. -/
theorem mem_relay {records : List (List UInt8)} {recent : List Nat} {heard : List HeardRecord}
    {datagram : List UInt8} (h : datagram ∈ relay records recent heard) :
    ∃ r ∈ heard, datagram = r.data records := by
  induction heard generalizing recent with
  | nil => exact absurd h List.not_mem_nil
  | cons r heard ih =>
    rw [relay] at h
    split_ifs at h
    · rcases List.mem_cons.mp h with rfl | h
      · exact ⟨r, List.mem_cons_self, rfl⟩
      · obtain ⟨r', hr', hdata⟩ := ih h
        exact ⟨r', List.mem_cons_of_mem r hr', hdata⟩
    · obtain ⟨r', hr', hdata⟩ := ih h
      exact ⟨r', List.mem_cons_of_mem r hr', hdata⟩

theorem relay_eq_passed (records : List (List UInt8)) (recent numbers : List Nat) :
    relay records recent (numbers.map fun i => ⟨some i, true⟩) =
      (Once.passed bufSz recent numbers).map fun i => (records[i]?).getD [] := by
  induction numbers generalizing recent with
  | nil => rfl
  | cons i numbers ih =>
    rw [List.map_cons, relay, Once.passed, ih, ih]
    by_cases hmem : i ∈ recent.take bufSz
    · rw [if_pos hmem, if_neg (fun h => h.1 hmem)]
    · rw [if_neg hmem, if_pos ⟨hmem, rfl⟩]
      rfl

/-! ## One cycle -/

/-- What the ring remembers are the numbers forwarded, the newest first; at the start it is full of
zeros. -/
structure Relays (t : TelemetryRx) (recent : List Nat) : Prop where
  inv : TelemetryInv t.state (recent.map .ofNat)
  lower : ∀ i ∈ recent, i < 2 ^ 31

section

variable {count : Nat} {t : TelemetryRx} {recent : List Nat} {e : TelemetryCycle count}

theorem Relays.init (rx : WfbRx) (sent : List (List UInt8)) :
    Relays ⟨rx, .init, sent⟩ (List.replicate bufSz 0) := by
  refine ⟨?_, fun i hi => ?_⟩
  · rw [List.map_replicate]
    exact TelemetryInv.init
  · rw [List.eq_of_mem_replicate hi]
    decide

theorem Relays.passes_iff (h : Relays t recent) {i : Nat} (hi : i < 2 ^ 31) :
    Passes (recent.map .ofNat) (.ofNat i) ↔ i ∉ recent.take bufSz := by
  have hnat {k : Nat} (hk : k < 2 ^ 31) : (UInt32.ofNat k).toNat = k :=
    UInt32.toNat_ofNat_of_lt' (lt_trans hk (by decide))
  rw [Passes, ← List.map_take, List.mem_map, hnat hi]
  constructor
  · rintro ⟨hnot, -⟩ hmem
    exact hnot ⟨i, hmem, rfl⟩
  · refine fun hnot => ⟨?_, by omega⟩
    rintro ⟨k, hk, heq⟩
    have hki := congrArg UInt32.toNat heq
    rw [hnat (h.lower k (List.mem_of_mem_take hk)), hnat hi] at hki
    exact hnot (hki ▸ hk)

/-- What the filter makes of a frame whose number is in the lower half. -/
theorem Relays.filter (h : Relays t recent) {r : Received} {i : Nat} (hi : i < 2 ^ 31)
    (hseq : r.seqnumber = .ofNat i) (hlen : r.length ≤ 400) :
    ∃ recent' verdict, filterPacket (recent.map .ofNat) r = some (recent', verdict) ∧
      if i ∉ recent.take bufSz ∧ r.sendtoOk = true then
        verdict = .forwarded (headerData r.rxData.data) ∧ recent' = (i :: recent).map .ofNat
      else verdict.datagrams = [] ∧ recent' = recent.map .ofNat := by
  have hpasses := h.passes_iff hi
  rw [← hseq] at hpasses
  unfold filterPacket
  by_cases hmem : i ∈ recent.take bufSz
  · rw [if_neg fun hp => hpasses.mp hp hmem]
    refine ⟨_, _, rfl, ?_⟩
    rw [if_neg fun hc => hc.1 hmem]
    exact ⟨rfl, rfl⟩
  · rw [if_pos (hpasses.mpr hmem), if_neg (Nat.not_lt.mpr hlen)]
    by_cases hok : r.sendtoOk = true
    · rw [if_pos hok]
      refine ⟨_, _, rfl, ?_⟩
      rw [if_pos ⟨hmem, hok⟩, hseq]
      exact ⟨rfl, rfl⟩
    · rw [if_neg hok]
      refine ⟨_, _, rfl, ?_⟩
      rw [if_neg fun hc => hok hc.2]
      exact ⟨rfl, rfl⟩

/-- **A call of `process_packet`** on a frame whose number is in the lower half. -/
theorem Relays.step (h : Relays t recent) {rxData : RxPacket} {rx : WfbRx} {i : Nat}
    (hi : i < 2 ^ 31) (hseq : headerSeqnumber rxData.data = .ofNat i)
    (hlen : (headerLength rxData.data).toNat ≤ 400)
    (hrx : wfbRxPacket t.rx .zero e.cycle = some (1, rx, rxData)) :
    ∃ t', telemetryRxMain t e = some t' ∧
      if i ∉ recent.take bufSz ∧ e.sendtoOk = true then
        t'.sent = t.sent ++ [headerData rxData.data] ∧ Relays t' (i :: recent)
      else t'.sent = t.sent ∧ Relays t' recent := by
  obtain ⟨recent', verdict, hfilter, hcase⟩ :=
    h.filter (r := ⟨rxData, e.now, e.sendtoOk⟩) hi hseq hlen
  obtain ⟨s', hrun, hinv⟩ := processPacket_of_filter h.inv hfilter
  refine ⟨⟨rx, s', t.sent ++ verdict.datagrams⟩, ?_, ?_⟩
  · rw [telemetryRxMain, hrx, Option.bind_some]
    simp only [telemetryMain]
    rw [if_neg (by decide), if_pos (by decide)]
    exact congrArg (Option.map _) hrun
  · by_cases hc : i ∉ recent.take bufSz ∧ e.sendtoOk = true
    · rw [if_pos hc] at hcase ⊢
      obtain ⟨rfl, rfl⟩ := hcase
      exact ⟨rfl, hinv, List.forall_mem_cons.mpr ⟨hi, h.lower⟩⟩
    · rw [if_neg hc] at hcase ⊢
      obtain ⟨hnone, rfl⟩ := hcase
      exact ⟨by rw [hnone, List.append_nil], hinv, h.lower⟩

/-- **A call of `process_packet`** is a step of the relay. -/
theorem Relays.hears (h : Relays t recent) (records : List (List UInt8)) {r : HeardRecord}
    {rxData : RxPacket} {rx : WfbRx} (hi : r.seqnumber < 2 ^ 31)
    (hseq : headerSeqnumber rxData.data = .ofNat r.seqnumber)
    (hlen : (headerLength rxData.data).toNat ≤ 400)
    (hdata : headerData rxData.data = r.data records) (hok : r.sendtoOk = e.sendtoOk)
    (hrx : wfbRxPacket t.rx .zero e.cycle = some (1, rx, rxData)) :
    ∃ t' recent', telemetryRxMain t e = some t' ∧ Relays t' recent' ∧ ∀ heard,
      t'.sent ++ relay records recent' heard = t.sent ++ relay records recent (r :: heard) := by
  obtain ⟨t', hstep, hcase⟩ := h.step hi hseq hlen hrx
  rw [hdata, ← hok] at hcase
  by_cases hc : r.seqnumber ∉ recent.take bufSz ∧ r.sendtoOk = true
  · rw [if_pos hc] at hcase
    refine ⟨t', r.seqnumber :: recent, hstep, hcase.2, fun heard => ?_⟩
    rw [relay, if_pos hc, hcase.1, List.append_assoc, List.singleton_append]
  · rw [if_neg hc] at hcase
    refine ⟨t', recent, hstep, hcase.2, fun heard => ?_⟩
    rw [relay, if_neg hc, hcase.1]

theorem Relays.idle (h : Relays t recent) (hresult : e.cycle.result = 0) :
    ∃ t', telemetryRxMain t e = some t' ∧ t'.sent = t.sent ∧ Relays t' recent := by
  refine ⟨⟨t.rx, t.state, t.sent ++ []⟩, ?_, List.append_nil t.sent, h.inv, h.lower⟩
  rw [telemetryRxMain, wfbRxPacket, if_neg (by omega), Option.bind_some, hresult]
  rfl

/-- pcap has nothing: `process_packet` takes the zeros of `rx_data` for a frame. -/
theorem wfbRxPacket_empty (rx : WfbRx) (hresult : 0 < e.cycle.result)
    (hnext : e.cycle.next = .empty) : ∃ rx' rxData,
      wfbRxPacket rx .zero e.cycle = some (1, rx', rxData) ∧ rxData.data = fun _ => 0 := by
  refine ⟨{ rx with iface := Function.update rx.iface e.cycle.adapter (rx.iface e.cycle.adapter) },
    { RxPacket.zero with adapter := e.cycle.adapter }, ?_, rfl⟩
  rw [wfbRxPacket, if_pos hresult, e.cycle.find_adapter hresult, hnext]
  rfl

/-- A frame that was sent to some card is taken over. -/
theorem wfbRxPacket_written (rx : WfbRx) {port type : Nat} {useCts : Bool} {s : Send}
    {frame rt fcs : List UInt8} {c : Capture} (hresult : 0 < e.cycle.result)
    (hnext : e.cycle.next = .frame c) (hfits : Fits port useCts s.len.toNat type)
    (hframe : Written port useCts (frameHeader s.seqno s.len ++ slice s.data 0 s.len.toNat) frame
      type)
    (hrt : ValidRadiotap rt) (hfcs : fcs.length ≤ 4) (hheard : Heard c rt (onAir frame ++ fcs)) :
    ∃ rx' rxData, wfbRxPacket rx .zero e.cycle = some (1, rx', rxData) ∧
      headerSeqnumber rxData.data = s.seqno ∧ headerLength rxData.data = s.len ∧
        headerData rxData.data = slice s.data 0 s.len.toNat := by
  rw [onAir_written hframe] at hheard
  obtain ⟨interface', rxData, tail, hrun, hbody⟩ := received_of_written hframe hfits hrt hfcs hheard
    e.cycle.nsData (rx.iface e.cycle.adapter)
  refine ⟨{ rx with iface := Function.update rx.iface e.cycle.adapter interface' },
    { rxData with adapter := e.cycle.adapter }, ?_, ?_⟩
  · rw [wfbRxPacket, if_pos hresult, e.cycle.find_adapter hresult, hnext]
    simp only [hrun]
    rfl
  · obtain ⟨hheader, hrest⟩ := slice_append hbody
    obtain ⟨hseq, hlength⟩ := slice_append hheader
    have hlen : headerLength rxData.data = s.len := read16_of_slice hlength
    refine ⟨read32_of_slice hseq, hlen, ?_⟩
    have hdata := (slice_append hrest).1
    rw [length_slice] at hdata
    rw [headerData, hlen]
    exact hdata

/-! ## The cycles, one after the other -/

variable {types : List Nat} {size : UInt16} {crcOff : Nat} {vots : List Buf}
  {frames : List (List (List UInt8))}

theorem RecordSent.written {seqno : UInt32} {vot : Buf} {fs : List (List UInt8)} {f : List UInt8}
    (h : RecordSent size crcOff types seqno vot fs) (hf : f ∈ fs) :
    ∃ type ∈ types, Written RadioSender.telemetry.port RadioSender.telemetry.useCts
      (frameHeader seqno size ++ sealedRecord size crcOff vot) f type := by
  obtain ⟨i, rfl⟩ := List.mem_iff_get.mp hf
  rw [RecordSent, List.forall₂_iff_get] at h
  have hi : i.val < types.length := h.1 ▸ i.isLt
  exact ⟨types.get ⟨i, hi⟩, List.get_mem _ _, h.2 i i.isLt hi⟩

/-- **The ground station relays** what it hears. -/
theorem Relays.run (hlen : vots.length ≤ 2 ^ 31)
    (hfits : ∀ type ∈ types, Fits RadioSender.telemetry.port RadioSender.telemetry.useCts
      size.toNat type)
    (hsent : ∀ i fs, frames[i]? = some fs → ∃ vot, vots[i]? = some vot ∧
      RecordSent size crcOff types (.ofNat i) vot fs)
    {es : List (TelemetryCycle count)} {heard : List HeardRecord}
    (hes : HearsRecords frames es heard) (h : Relays t recent) :
    ∃ t', telemetryRun t es = some t' ∧
      t'.sent = t.sent ++ relay (vots.map (sealedRecord size crcOff)) recent heard := by
  induction hes generalizing t recent with
  | nil => exact ⟨t, rfl, (List.append_nil t.sent).symm⟩
  | idle hresult hes ih =>
    obtain ⟨t₁, hstep, hfirst, hrelays⟩ := h.idle hresult
    obtain ⟨t', hrun, hrest⟩ := ih hrelays
    refine ⟨t', ?_, by rw [hrest, hfirst]⟩
    rw [telemetryRun, List.foldlM_cons, hstep]
    exact hrun
  | @empty e es heard hresult hnext hes ih =>
    obtain ⟨rx, rxData, hrx, hzero⟩ := wfbRxPacket_empty t.rx hresult hnext
    have hdata : headerData rxData.data = [] := by
      rw [hzero]
      rfl
    obtain ⟨t₁, recent₁, hstep, hrelays, hnow⟩ := h.hears (e := e) (r := ⟨none, e.sendtoOk⟩)
      (vots.map (sealedRecord size crcOff)) (show 0 < 2 ^ 31 by decide) (by rw [hzero]; rfl)
      (by rw [hzero]; decide) hdata rfl hrx
    obtain ⟨t', hrun, hrest⟩ := ih hrelays
    refine ⟨t', ?_, by rw [hrest, hnow]⟩
    rw [telemetryRun, List.foldlM_cons, hstep]
    exact hrun
  | @frame e es heard i fs f rt fcs c hresult hnext hfs hf hrt hfcs hheard hes ih =>
    obtain ⟨vot, hvot, hrecord⟩ := hsent i fs hfs
    obtain ⟨type, htype, hwritten⟩ := hrecord.written hf
    obtain ⟨rx, rxData, hrx, hseq, hlength, hdata⟩ := wfbRxPacket_written t.rx
      (s := ⟨.ofNat i, memcpy vot crcOff (le16 (crc16Ccitt 0xFFFF (slice vot 0 crcOff))), size⟩)
      hresult hnext (hfits type htype) hwritten hrt hfcs hheard
    obtain ⟨hlt, -⟩ := List.getElem?_eq_some_iff.mp hvot
    have hcontent : headerData rxData.data =
        ((vots.map (sealedRecord size crcOff))[i]?).getD [] := by
      rw [hdata, List.getElem?_map, hvot]
      rfl
    obtain ⟨t₁, recent₁, hstep, hrelays, hnow⟩ := h.hears (r := ⟨some i, e.sendtoOk⟩)
      (vots.map (sealedRecord size crcOff)) (show i < 2 ^ 31 by omega) hseq
      (by rw [hlength]; exact (hfits type htype).le) hcontent rfl hrx
    obtain ⟨t', hrun, hrest⟩ := ih hrelays
    refine ⟨t', ?_, by rw [hrest, hnow]⟩
    rw [telemetryRun, List.foldlM_cons, hstep]
    exact hrun

theorem HearsRecords.number_lt {es : List (TelemetryCycle count)} {heard : List HeardRecord}
    (hes : HearsRecords frames es heard) :
    ∀ r ∈ heard, ∀ i, r.number = some i → i < frames.length := by
  induction hes with
  | nil => exact fun r hr => absurd hr List.not_mem_nil
  | idle _ _ ih => exact ih
  | empty _ _ _ ih =>
    exact List.forall_mem_cons.mpr ⟨fun i hi => absurd hi.symm (Option.some_ne_none i), ih⟩
  | frame _ _ hfs _ _ _ _ _ ih =>
    refine List.forall_mem_cons.mpr ⟨fun i hi => ?_, ih⟩
    obtain rfl := Option.some.inj hi
    exact (List.getElem?_eq_some_iff.mp hfs).1

end

/-- **Telemetry over the air.** In whichever cycles, on whichever adapters and behind whichever
radiotap headers the frames of at most 2³¹ records are received, also lost, repeated or out of
order: no cycle ends the service, and it forwards only records of the robot, as they were sealed,
and empty datagrams. If pcap always has the frame that `select` announces, all datagrams can be sent
and less than 100 other records are heard between two copies of one, where record 0 counts as heard
before the start, it forwards each record once, when it is heard first, except record 0. -/
theorem telemetry_over_air (b : TxBuffers) {types : List Nat} {size : UInt16} {crcOff : Nat}
    (hfits : ∀ type ∈ types, Fits RadioSender.telemetry.port RadioSender.telemetry.useCts
      size.toNat type) (hcrc : crcOff + 2 ≤ size.toNat) {vots : List Buf}
    (hlen : vots.length ≤ 2 ^ 31) :
    ∃ frames, rhexTelemetryMain b types size crcOff vots = some frames ∧
      ∀ (count : Nat) (es : List (TelemetryCycle count)) (heard : List HeardRecord) (rx : WfbRx),
        HearsRecords frames es heard → ∃ t, telemetryRun ⟨rx, .init, []⟩ es = some t ∧
          (∀ datagram ∈ t.sent,
            datagram = [] ∨ ∃ vot ∈ vots, datagram = sealedRecord size crcOff vot) ∧
          ∀ numbers : List Nat, heard = numbers.map (fun i => ⟨some i, true⟩) →
            Once.CopiesWithin bufSz (0 :: numbers) →
            t.sent.map some = ((numbers.filter fun i => !(i == 0)).eraseDups.map fun i =>
              vots[i]?.map (sealedRecord size crcOff)) := by
  have hoff : crcOff ≤ 65535 := by
    have hsize := size.toNat_lt
    omega
  obtain ⟨bufs, hinit, hready⟩ :=
    wfbTxInit_ready b RadioSender.telemetry.port RadioSender.telemetry.useCts
  obtain ⟨frames, hrun, hcount, hsent⟩ :=
    rhexTelemetryCycles_spec hoff hfits vots 0 hready
  refine ⟨frames, ?_, fun count es heard rx hes => ?_⟩
  · rw [rhexTelemetryMain, hinit]
    exact hrun
  · obtain ⟨t, ht, hrelay⟩ := (Relays.init rx []).run hlen hfits
      (fun i fs hfs => by simpa using hsent i fs hfs) hes
    rw [List.nil_append] at hrelay
    refine ⟨t, ht, fun datagram hmem => ?_, ?_⟩
    · obtain ⟨r, -, rfl⟩ := mem_relay (hrelay ▸ hmem)
      rw [HeardRecord.data]
      cases r.number with
      | none => exact .inl rfl
      | some i =>
        dsimp only
        rw [List.getElem?_map]
        cases hvot : vots[i]? with
        | none => exact .inl rfl
        | some vot => exact .inr ⟨vot, List.mem_of_getElem? hvot, rfl⟩
    · rintro numbers rfl hwithin
      rw [hrelay, relay_eq_passed, Once.passed_start (by decide) hwithin, List.map_map]
      refine List.map_congr_left fun i hi => ?_
      have hlt : i < vots.length := hcount ▸ hes.number_lt ⟨some i, true⟩
        (List.mem_map_of_mem (List.mem_of_mem_filter (List.mem_eraseDups.mp hi))) i rfl
      rw [Function.comp_apply, List.getElem?_map, List.getElem?_eq_getElem hlt]
      rfl

/-- Two records, of which the second is heard twice. -/
theorem telemetry_over_air_copy : ∃ frames t, ∃ es : List (TelemetryCycle 1),
    rhexTelemetryMain ⟨⟨0, fun _ => 0⟩, ⟨0, fun _ => 0⟩, ⟨0, fun _ => 0⟩⟩ [0] 5 3
        [fun _ => 7, fun _ => 8] = some frames ∧
      HearsRecords frames es [⟨some 1, true⟩, ⟨some 1, true⟩] ∧
      telemetryRun ⟨⟨fun _ => ⟨0⟩⟩, .init, []⟩ es = some t ∧
      t.sent.map some = [some (sealedRecord 5 3 fun _ => 8)] := by
  have hfits : ∀ type ∈ [0], Fits RadioSender.telemetry.port RadioSender.telemetry.useCts
      (5 : UInt16).toNat type := by decide
  obtain ⟨frames, hrun, hair⟩ := @telemetry_over_air
    ⟨⟨0, fun _ => 0⟩, ⟨0, fun _ => 0⟩, ⟨0, fun _ => 0⟩⟩ [0] 5 3 hfits (by decide)
    [fun _ => 7, fun _ => 8] (by decide)
  obtain ⟨bufs, hinit, hready⟩ := wfbTxInit_ready
    ⟨⟨0, fun _ => 0⟩, ⟨0, fun _ => 0⟩, ⟨0, fun _ => 0⟩⟩ RadioSender.telemetry.port
    RadioSender.telemetry.useCts
  obtain ⟨frames', hcycles, hcount, hsent⟩ := @rhexTelemetryCycles_spec [0] 5 3 (by decide) hfits
    [fun _ => 7, fun _ => 8] 0 _ hready
  obtain rfl : frames = frames' := by
    rw [rhexTelemetryMain, hinit] at hrun
    exact Option.some.inj (hrun.symm.trans hcycles)
  obtain ⟨fs, hfs⟩ : ∃ fs, frames[1]? = some fs :=
    ⟨_, List.getElem?_eq_getElem (by rw [hcount]; decide)⟩
  obtain ⟨vot, -, hrecord⟩ := hsent 1 fs hfs
  obtain ⟨f, hf⟩ : ∃ f, f ∈ fs := by
    refine List.exists_mem_of_length_pos ?_
    rw [hrecord.length_eq]
    exact Nat.one_pos
  obtain ⟨type, htype, hwritten⟩ := hrecord.written hf
  have hshort : ([0, 0, 8, 0, 0, 0, 0, 0] ++ (onAir f ++ [])).length < 2 ^ 32 := by
    have hle : f.length ≤ packetBufferSize + 18 := Written.length_le hwritten (hfits type htype)
    simp only [onAir, List.length_append, List.length_drop, List.length_cons, List.length_nil,
      packetBufferSize] at hle ⊢
    omega
  have hcopy {es : List (TelemetryCycle 1)} {heard : List HeardRecord}
      (hes : HearsRecords frames es heard) : HearsRecords frames (⟨⟨1, fun _ => true, .frame _, 0,
        fun _ => ⟨0, Nat.one_pos, rfl⟩⟩, 0, true⟩ :: es) (⟨some 1, true⟩ :: heard) :=
    .frame (show 0 < (1 : Int) by decide) rfl hfs hf ⟨by decide, by decide⟩ (Nat.zero_le _)
      (heard_ofList _ _ hshort) hes
  have hes := hcopy (hcopy .nil)
  obtain ⟨t, ht, -, honce⟩ := hair 1 _ _ ⟨fun _ => ⟨0⟩⟩ hes
  exact ⟨frames, t, _, hrun, hes, ht, honce [1, 1] rfl (.of_card (by decide))⟩

end Rhex
