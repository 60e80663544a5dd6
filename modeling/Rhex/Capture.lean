import Mathlib
import Rhex.RadiotapRc

/-!
# Captured frames (`wfb_rx.c`)

`wfb_rx_packet` waits for a frame with `select`, and `wfb_rx_packet_interface` takes it from pcap
and strips its two headers.

* `captureFilter` — the filter that `open_and_configure_interface` installs.
* `wfbRxPacketInterface`, `wfbRxPacket` — the two functions. `none` is a call of `exit`.
* `receiveFrame_spec` — what becomes of a frame.
-/

namespace Rhex

open Memory

/-! ## What pcap hands over -/

/-- A captured frame: the fields of `pcap_pkthdr`, and the memory at the packet's pointer, of which
the first `caplen` bytes are the frame. -/
structure Capture where
  caplen : UInt32
  len : UInt32
  data : Buf

/-- The result of `pcap_next_ex`. -/
inductive NextEx where
  /-- A negative value. -/
  | error
  /-- 0: no packet. -/
  | empty
  /-- 1: a packet. -/
  | frame (c : Capture)

namespace Capture

/-- `u16HeaderLen`. -/
def headerLen (c : Capture) : Nat := (read16 c.data 2).toNat

/-- The byte that tells the kinds of frame apart. -/
def typeByte (c : Capture) : UInt8 := c.data (c.headerLen + 1)

end Capture

/-- The filter of `open_and_configure_interface`. In `ether[..]` pcap counts from behind the
radiotap header, and a load behind the captured bytes rejects the frame. -/
def captureFilter (port : Nat) (c : Capture) : Bool :=
  let ether (i : Nat) := c.data (c.headerLen + i)
  decide (c.headerLen + 5 ≤ c.caplen.toNat) &&
    ((ether 0 == 0x08 && ether 1 == 0x01) || (ether 0 == 0x08 && ether 1 == 0x02) ||
      (ether 0 == 0xb4 && ether 1 == 0x01 && ether 2 == 0x00 && ether 3 == 0x00)) &&
    ether 4 == .ofNat (port * 2 + 1)

/-! ## State -/

/-- `MAX_MTU`. -/
@[simp] abbrev maxMtu : Nat := 1500

/-- `monitor_interface_t`. -/
structure MonitorInterface where
  n80211HeaderLength : Nat

/-- `wfb_rx_t`. -/
structure WfbRx where
  iface : Nat → MonitorInterface

/-- `wfb_rx_packet_t`. -/
structure RxPacket where
  adapter : Nat
  type : Nat
  dbm : Int
  bytes : Nat
  data : Buf

/-- `wfb_rx_packet_t rx_data = {0,}`. -/
def RxPacket.zero : RxPacket := ⟨0, 0, 0, 0, fun _ => 0⟩

/-! ## One frame -/

/-- The length of the 802.11 header and the type of a frame; frames of other kinds keep the
interface's length. -/
def frameKind (interface : MonitorInterface) (type : Nat) (b : UInt8) : Nat × Nat :=
  if b = 0xBF then (0x04, 0)
  else if b = 0x01 then (0x05, 1)
  else if b = 0x02 then (0x18, 1)
  else (interface.n80211HeaderLength, type)

/-- A byte as `int8_t`. -/
def toInt8 (b : UInt8) : Int := (b.toNat : Int).bmod (2 ^ 8)

/-- The best signal so far. -/
def bestSignal (rt : Buf) (it : RcIterator) (dbm : Int) : Int :=
  let signalDbm := toInt8 (rt it.thisArg)
  if it.thisArgIndex = radiotapDbmAntsignal ∧ signalDbm < 0 ∧ signalDbm > -126 ∧
      signalDbm > dbm then signalDbm
  else dbm

/-- The loop over the radiotap arguments, of at most `fuel` rounds of either loop. -/
def signalLoop (rt : Buf) : Nat → RcIterator → Int → Option Int
  | 0, _, _ => none
  | fuel + 1, it, dbm =>
    (radiotapIteratorNextRc rt (fuel + 1) it).bind fun r =>
      match r with
      | none => some dbm
      | some it' => signalLoop rt fuel it' (bestSignal rt it' dbm)

/-- What `wfb_rx_packet_interface` does with a frame. `nsData` is what the iterator's
`_next_ns_data` happens to hold. -/
def receiveFrame (nsData : Nat) (interface : MonitorInterface) (rxData : RxPacket) (c : Capture) :
    Option (Int × MonitorInterface × RxPacket) := do
  let kind := frameKind interface rxData.type c.typeByte
  if c.len.toNat < c.headerLen + kind.1 then none
  else
    let it ← radiotapIteratorInitRc c.data c.len.toNat nsData
    let dbm ← signalLoop c.data (32 * it.maxLength + 32) it (-127)
    let bytes := min (c.len.toNat - (c.headerLen + kind.1)) maxMtu
    some (1, ⟨kind.1⟩, { rxData with
      type := kind.2
      dbm
      bytes
      data := memcpy rxData.data 0 (slice c.data (c.headerLen + kind.1) bytes) })

/-- `wfb_rx_packet_interface`. -/
def wfbRxPacketInterface (nsData : Nat) (interface : MonitorInterface) (rxData : RxPacket) :
    NextEx → Option (Int × MonitorInterface × RxPacket)
  | .error => none
  | .empty => some (1, interface, rxData)
  | .frame c => receiveFrame nsData interface rxData c

/-! ## One call of `wfb_rx_packet` -/

/-- What the system answers in one call of `wfb_rx_packet` with `count` interfaces: the result of
`select` and the descriptors it leaves set, of which there is one when the result is positive, and
the result of `pcap_next_ex`. -/
structure Cycle (count : Nat) where
  result : Int
  isset : Nat → Bool
  next : NextEx
  nsData : Nat
  ready : 0 < result → ∃ i < count, isset i = true

/-- `wfb_rx_packet`. -/
def wfbRxPacket {count : Nat} (rx : WfbRx) (rxData : RxPacket) (cycle : Cycle count) :
    Option (Int × WfbRx × RxPacket) :=
  if cycle.result > 0 then
    match (List.range count).find? cycle.isset with
    | some i =>
      (wfbRxPacketInterface cycle.nsData (rx.iface i) rxData cycle.next).map fun r =>
        (r.1, { rx with iface := Function.update rx.iface i r.2.1 }, { r.2.2 with adapter := i })
    | none => some (cycle.result, rx, rxData)
  else some (cycle.result, rx, rxData)

/-! ## Specifications -/

/-- Where the body of a frame starts. -/
def bodyOffset (interface : MonitorInterface) (c : Capture) : Nat :=
  c.headerLen + (frameKind interface 0 c.typeByte).1

/-- The frame passes the checks of `wfb_rx_packet_interface`. -/
def Accepted (interface : MonitorInterface) (c : Capture) : Prop :=
  bodyOffset interface c ≤ c.len.toNat ∧
    (radiotapIteratorInitRc c.data c.len.toNat 0).isSome = true

/-- The body of a frame as it stands in `rx_data`, cut at `MAX_MTU` and filled with zeros. -/
def rxBody (interface : MonitorInterface) (c : Capture) : Buf :=
  memcpy RxPacket.zero.data 0 (slice c.data (bodyOffset interface c)
    (min (c.len.toNat - bodyOffset interface c) maxMtu))

/-- The loop over the arguments comes to an end. -/
theorem signalLoop_returns {rt : Buf} (fuel : Nat) {it : RcIterator} {m : Nat}
    (h : RoundsLeft rt it m) (hfuel : m ≤ fuel) (dbm : Int) :
    ∃ dbm', signalLoop rt fuel it dbm = some dbm' := by
  induction fuel generalizing it m dbm with
  | zero =>
    have := h.pos
    omega
  | succ fuel ih =>
    obtain ⟨r, hrun, hnext⟩ := nextRc_returns (fuel + 1) h hfuel
    rw [signalLoop, hrun, Option.bind_some]
    cases r with
    | none => exact ⟨dbm, rfl⟩
    | some it' =>
      obtain ⟨m', hlt, hleft⟩ := hnext it' rfl
      exact ih hleft (by omega) _

/-- What the uninitialised pointer holds decides nothing about the checks. -/
theorem radiotapIteratorInitRc_isSome (rt : Buf) (maxLength nsData nsData' : Nat) :
    (radiotapIteratorInitRc rt maxLength nsData).isSome =
      (radiotapIteratorInitRc rt maxLength nsData').isSome := by
  simp only [radiotapIteratorInitRc]
  split_ifs <;> simp

/-- **A frame that passes the checks** is taken over: its body, and whatever signal. -/
theorem receiveFrame_spec (nsData : Nat) {interface : MonitorInterface} {c : Capture}
    (h : Accepted interface c) : ∃ rxData, receiveFrame nsData interface .zero c =
        some (1, ⟨(frameKind interface 0 c.typeByte).1⟩, rxData) ∧
      rxData.data = rxBody interface c ∧
      rxData.bytes = min (c.len.toNat - bodyOffset interface c) maxMtu := by
  obtain ⟨hlen, hinit⟩ := h
  rw [radiotapIteratorInitRc_isSome _ _ _ nsData] at hinit
  obtain ⟨it, hit⟩ := Option.isSome_iff_exists.mp hinit
  obtain ⟨dbm, hdbm⟩ := signalLoop_returns _ (radiotapIteratorInitRc_spec hit) le_rfl (-127)
  have hge : ¬c.len.toNat < c.headerLen + (frameKind interface RxPacket.zero.type c.typeByte).1 :=
    Nat.not_lt.mpr hlen
  simp only [receiveFrame, if_neg hge, hit, hdbm, Option.bind_eq_bind, Option.bind_some]
  exact ⟨_, rfl, rfl, rfl⟩

theorem receiveFrame_rejects (nsData : Nat) {interface : MonitorInterface} {c : Capture}
    (h : ¬Accepted interface c) : receiveFrame nsData interface .zero c = none := by
  simp only [receiveFrame]
  by_cases hlen : c.len.toNat < c.headerLen + (frameKind interface RxPacket.zero.type c.typeByte).1
  · rw [if_pos hlen]
  · rw [if_neg hlen]
    have hinit : radiotapIteratorInitRc c.data c.len.toNat nsData = none := by
      rw [← Option.not_isSome_iff_eq_none, radiotapIteratorInitRc_isSome _ _ _ 0]
      intro hsome
      exact h ⟨Nat.not_lt.mp hlen, hsome⟩
    rw [hinit]
    rfl

/-! ## Frames of known headers -/

/-- A radiotap header that the parser accepts. -/
structure ValidRadiotap (rt : List UInt8) : Prop where
  length : (read16 (ofList rt) 2).toNat = rt.length
  accepted : (radiotapIteratorInitRc (ofList rt) rt.length 0).isSome = true

/-- The capture is a radiotap header and what was on the air, whole. -/
structure Heard (c : Capture) (rt air : List UInt8) : Prop where
  caplen : c.caplen = c.len
  len : c.len.toNat = (rt ++ air).length
  data : slice c.data 0 (rt ++ air).length = rt ++ air

theorem heard_ofList (rt air : List UInt8) (h : (rt ++ air).length < 2 ^ 32) :
    Heard ⟨.ofNat (rt ++ air).length, .ofNat (rt ++ air).length, ofList (rt ++ air)⟩ rt air :=
  ⟨rfl, UInt32.toNat_ofNat_of_lt' h, slice_ofList (rt ++ air)⟩

theorem ValidRadiotap.ge {rt : List UInt8} (h : ValidRadiotap rt) : 8 ≤ rt.length := by
  by_contra hlt
  have haccepted := h.accepted
  simp only [radiotapIteratorInitRc] at haccepted
  rw [if_pos (by omega)] at haccepted
  exact absurd haccepted (by decide)

theorem Heard.headerLen {c : Capture} {rt air : List UInt8} (hrt : ValidRadiotap rt)
    (h : Heard c rt air) : c.headerLen = rt.length := by
  have hge := hrt.ge
  have hslice := (slice_append h.data).1
  rw [Capture.headerLen, ← hrt.length]
  refine congrArg UInt16.toNat (read16_congr (slice_congr fun k hk => ?_))
  have hbyte := congrFun (congrArg ofList hslice) (2 + k)
  rwa [ofList_slice _ _ (by omega), Nat.zero_add] at hbyte

theorem Heard.ether {c : Capture} {rt air : List UInt8} (hrt : ValidRadiotap rt)
    (h : Heard c rt air) {i : Nat} (hi : i < air.length) :
    c.data (c.headerLen + i) = ofList air i := by
  have hbyte := congrFun (congrArg ofList (slice_append h.data).2) i
  rwa [ofList_slice _ _ hi, Nat.zero_add, ← h.headerLen hrt] at hbyte

theorem Heard.typeByte {c : Capture} {rt ieee body : List UInt8} (hrt : ValidRadiotap rt)
    (h : Heard c rt (ieee ++ body)) (htwo : 2 ≤ ieee.length) : c.typeByte = ofList ieee 1 := by
  rw [Capture.typeByte, h.ether hrt (by rw [List.length_append]; omega), ofList, ofList,
    List.getD_append _ _ _ _ (by omega)]

/-- **A frame with known headers** is accepted, and its body taken over. -/
theorem Heard.body {c : Capture} {rt ieee body : List UInt8} (hrt : ValidRadiotap rt)
    (h : Heard c rt (ieee ++ body)) {interface : MonitorInterface} (htwo : 2 ≤ ieee.length)
    (hkind : (frameKind interface 0 (ofList ieee 1)).1 = ieee.length)
    (hbody : body.length ≤ maxMtu) :
    Accepted interface c ∧ slice (rxBody interface c) 0 body.length = body := by
  have hge := hrt.ge
  have hheader := h.headerLen hrt
  have hlen := h.len
  have htype := h.typeByte hrt htwo
  obtain ⟨hslice, hair⟩ := slice_append h.data
  have hrest := (slice_append hair).2
  rw [Nat.zero_add] at hrest
  rw [List.length_append, List.length_append] at hlen
  have hoff : bodyOffset interface c = rt.length + ieee.length := by
    rw [bodyOffset, htype, hkind, hheader]
  refine ⟨⟨by omega, ?_⟩, ?_⟩
  · rw [radiotapIteratorInitRc_congr 0 (fun i hi => ?_) hge hrt.length (by omega) le_rfl]
    · exact hrt.accepted
    · have hbyte := congrFun (congrArg ofList hslice) i
      rwa [ofList_slice _ _ hi, Nat.zero_add] at hbyte
  · have hmin : min (c.len.toNat - bodyOffset interface c) maxMtu = body.length := by omega
    rw [rxBody, hmin, hoff, hrest]
    exact slice_memcpy _ 0 body

/-! ## The specification of `wfb_rx_packet` -/

/-- The interface that a cycle reads from. -/
def Cycle.adapter {count : Nat} (cycle : Cycle count) : Nat :=
  ((List.range count).find? cycle.isset).getD 0

theorem Cycle.find_adapter {count : Nat} (cycle : Cycle count) (h : 0 < cycle.result) :
    (List.range count).find? cycle.isset = some cycle.adapter := by
  obtain ⟨i, hi, hset⟩ := cycle.ready h
  have hsome : ((List.range count).find? cycle.isset).isSome = true :=
    List.find?_isSome.mpr ⟨i, List.mem_range.mpr hi, hset⟩
  obtain ⟨j, hj⟩ := Option.isSome_iff_exists.mp hsome
  rw [Cycle.adapter, hj]
  rfl

/-- **What one call of `wfb_rx_packet` can do.** -/
inductive Polled {count : Nat} (rx : WfbRx) (cycle : Cycle count) :
    Option (Int × WfbRx × RxPacket) → Prop where
  /-- A timeout, or an error of `select`. -/
  | idle (hresult : cycle.result ≤ 0) : Polled rx cycle (some (cycle.result, rx, .zero))
  /-- A descriptor is ready, but there is no packet: the buffer stays as it was. -/
  | empty (hresult : 0 < cycle.result) (hnext : cycle.next = .empty) (rx' : WfbRx) :
      Polled rx cycle (some (1, rx', { RxPacket.zero with adapter := cycle.adapter }))
  /-- A frame is taken over. -/
  | frame (hresult : 0 < cycle.result) (c : Capture) (hnext : cycle.next = .frame c)
      (haccepted : Accepted (rx.iface cycle.adapter) c) (rx' : WfbRx) (rxData : RxPacket)
      (hdata : rxData.data = rxBody (rx.iface cycle.adapter) c) :
      Polled rx cycle (some (1, rx', rxData))
  /-- The program ends. -/
  | exit (hresult : 0 < cycle.result)
      (hnext : cycle.next = .error ∨
        ∃ c, cycle.next = .frame c ∧ ¬Accepted (rx.iface cycle.adapter) c) : Polled rx cycle none

theorem wfbRxPacket_spec {count : Nat} (rx : WfbRx) (cycle : Cycle count) :
    Polled rx cycle (wfbRxPacket rx .zero cycle) := by
  unfold wfbRxPacket
  by_cases hresult : cycle.result > 0
  · rw [if_pos hresult, cycle.find_adapter hresult]
    cases hnext : cycle.next with
    | error => exact .exit hresult (Or.inl hnext)
    | empty => exact .empty hresult hnext _
    | frame c =>
      dsimp only [wfbRxPacketInterface]
      by_cases haccepted : Accepted (rx.iface cycle.adapter) c
      · obtain ⟨rxData, hrun, hdata, -⟩ := receiveFrame_spec cycle.nsData haccepted
        rw [hrun, Option.map_some]
        exact .frame hresult c hnext haccepted _ _ hdata
      · rw [receiveFrame_rejects cycle.nsData haccepted]
        exact .exit hresult (Or.inr ⟨c, hnext, haccepted⟩)
  · rw [if_neg hresult]
    exact .idle (by omega)

end Rhex
