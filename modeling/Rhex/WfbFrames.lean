import Mathlib
import Rhex.Lib.Run
import Rhex.Lib.Traced
import Rhex.RcLink

/-!
# The frames of `wfb_write`

`wfb_write` copies into packet buffers of 402 bytes, and keeps the length of the padding from one
interface to the next.

* `traceWrite` — `wfb_write` with its accesses to the packet buffers.
* `txRc_within` — when the ground service stays within the packet buffers.
* `wfbWrite_own` — when an interface is sent a frame that depends on its type and the data only.
-/

namespace Rhex

open Memory

/-! ## Accesses -/

section

variable {port : Nat} {useCts : Bool} {header : Option (List UInt8)} {data : List UInt8}
  {w : WriteState} {type : Nat}

/-- `writeCard` with its accesses to the packet buffer: two or three copies, and `write`. -/
def traceCard (b : FrameBuffer) (minLen : Nat) (header : Option (List UInt8)) (data : List UInt8)
    (padlen offset : Nat) : Traced (FrameBuffer × Nat × Nat × List UInt8) := do
  let offset' ← match header with
    | some h => Traced.access b.headersLen h.length >>= fun _ => pure 6
    | none => pure offset
  Traced.access (b.headersLen + offset') data.length
  if data.length < minLen then
    Traced.access (b.headersLen + offset' + data.length) (minLen - data.length)
  let r := writeCard b minLen header data padlen offset
  Traced.access 0 r.2.2.2.length
  return r

/-- The loop body of `wfb_write` with its accesses. -/
def traceIface (header : Option (List UInt8)) (data : List UInt8) (w : WriteState) (type : Nat) :
    Traced WriteState :=
  if type ≤ 2 then do
    let r ← traceCard (w.bufs.card type) (minLength type) header data w.padlen w.offset
    return ⟨w.bufs.setCard type r.1, r.2.1, r.2.2.1, w.frames ++ [r.2.2.2]⟩
  else Traced.fail

/-- The length that is written bounds the copies. -/
theorem traceCard_within (hheader : HeaderOk header w.offset) (b : FrameBuffer)
    (minLen padlen n : Nat) :
    (traceCard b minLen header data padlen w.offset).Within n ↔
      (writeCard b minLen header data padlen w.offset).2.2.2.length ≤ n := by
  have hlength : (writeCard b minLen header data padlen w.offset).2.2.2.length =
      b.headersLen + (header.getD []).length + data.length +
        if data.length < minLen then minLen - data.length else padlen := by
    rw [writeCard_eq hheader]
    exact length_slice _ _ _
  obtain ⟨r, hr⟩ : ∃ r, r = writeCard b minLen header data padlen w.offset := ⟨_, rfl⟩
  unfold traceCard
  simp only [← hr] at hlength ⊢
  cases header with
  | some h =>
    have hlen := hheader.length h rfl
    by_cases hshort : data.length < minLen
    · simp [hshort, hlen, Access.within_iff, -List.length_eq_zero_iff] at hlength ⊢
      omega
    · simp [hshort, hlen, Access.within_iff, -List.length_eq_zero_iff] at hlength ⊢
      omega
  | none =>
    have hzero := hheader.offset rfl
    by_cases hshort : data.length < minLen
    · simp [hshort, hzero, Access.within_iff, -List.length_eq_zero_iff] at hlength ⊢
      omega
    · simp [hshort, hzero, Access.within_iff, -List.length_eq_zero_iff] at hlength ⊢
      omega

/-- What the accesses are good for: behind the bytes they stay within nothing changes. -/
theorem traceCard_frame (hheader : HeaderOk header w.offset) {b : FrameBuffer}
    {minLen padlen n : Nat} (h : (traceCard b minLen header data padlen w.offset).Within n)
    {i : Nat} (hi : n ≤ i) :
    (writeCard b minLen header data padlen w.offset).1.packetBuffer i = b.packetBuffer i := by
  have hlength := (traceCard_within hheader b minLen padlen n).mp h
  rw [writeCard_eq hheader] at hlength ⊢
  simp only [length_slice] at hlength ⊢
  have hpad : (dummydata.take (minLen - data.length)).length ≤ minLen - data.length :=
    List.length_take_le _ _
  rw [memcpy_of_ge, memcpy_of_ge (by omega), memcpy_of_ge (by omega)]
  split_ifs at hlength <;> omega

theorem result_traceIface (htype : type ≤ 2) :
    (traceIface header data w type).result = some (nextWrite header data w type) := by
  rw [traceIface, if_pos htype]
  unfold traceCard
  cases header with
  | some h =>
    by_cases hshort : data.length < minLength type
    · simp [hshort, nextWrite]
    · simp [hshort, nextWrite]
  | none =>
    by_cases hshort : data.length < minLength type
    · simp [hshort, nextWrite]
    · simp [hshort, nextWrite]

theorem traceIface_within (hheader : HeaderOk header w.offset) (htype : type ≤ 2) (n : Nat) :
    (traceIface header data w type).Within n ↔ (sentFrame header data w type).length ≤ n := by
  rw [traceIface, if_pos htype, Traced.within_bind, traceCard_within hheader, sentFrame]
  simp only [Traced.within_pure, implies_true, and_true]

theorem traceIface_unknown (htype : ¬type ≤ 2) :
    traceIface header data w type = Traced.fail := by
  rw [traceIface, if_neg htype]

/-- **`wfb_write` returns** when its accesses stay within the packet buffers and all types are
known. -/
theorem writeIfaces_iff_trace (types : List Nat) {w' : WriteState}
    (hready : w.bufs.Ready port useCts) (hheader : HeaderOk header w.offset) :
    types.foldlM (writeIface header data) w = some w' ↔
      (types.foldlM (traceIface header data) w).Within packetBufferSize ∧
        (types.foldlM (traceIface header data) w).result = some w' := by
  induction types generalizing w with
  | nil => simp [List.foldlM_nil]
  | cons type types ih =>
    rw [List.foldlM_cons, List.foldlM_cons, Traced.within_bind, Traced.result_bind,
      Option.bind_eq_bind]
    by_cases htype : type ≤ 2
    · obtain ⟨-, hready', hheader', -⟩ := sentFrame_eq data hready hheader htype
      rw [traceIface_within hheader htype, result_traceIface htype,
        writeIface_eq header data w htype]
      by_cases hsize : (sentFrame header data w type).length > packetBufferSize
      · simp only [if_pos hsize, Option.bind_none, reduceCtorEq, false_iff, not_and]
        omega
      · simp only [if_neg hsize, Option.bind_some, Option.some.injEq, forall_eq',
          ih hready' hheader', Nat.le_of_not_lt hsize, true_and]
    · simp [writeIface_unknown header data w htype, traceIface_unknown htype]

/-- When the accesses of `wfb_write` stay within the packet buffers. -/
theorem traceIfaces_within (types : List Nat) (hready : w.bufs.Ready port useCts)
    (hheader : HeaderOk header w.offset) (hpad : PadOk data.length w.padlen) :
    (types.foldlM (traceIface header data) w).Within packetBufferSize ↔
      ∀ type ∈ types.takeWhile (· ≤ 2), FitsCard port useCts header data.length type := by
  induction types generalizing w with
  | nil => simp [List.foldlM_nil]
  | cons type types ih =>
    rw [List.foldlM_cons, Traced.within_bind]
    by_cases htype : type ≤ 2
    · obtain ⟨-, hready', hheader', -⟩ := sentFrame_eq data hready hheader htype
      have hpad' := padOk_next hready hheader htype hpad
      rw [traceIface_within hheader htype, length_sentFrame_le hready hheader htype hpad,
        result_traceIface htype]
      simp only [Option.some.injEq, forall_eq', ih hready' hheader' hpad', decide_eq_true htype,
        List.takeWhile_cons_of_pos, List.forall_mem_cons]
    · simp [traceIface_unknown htype, htype]

/-- What some interfaces leave behind. -/
structure AfterIfaces (port : Nat) (useCts : Bool) (header : Option (List UInt8)) (n : Nat)
    (types : List Nat) (w w' : WriteState) : Prop where
  ready : w'.bufs.Ready port useCts
  header : HeaderOk header w'.offset
  frames : ∃ frames, w'.frames = w.frames ++ frames ∧ frames.length = types.length
  /-- A Ralink card leaves padding for data that is short for it. -/
  padlen : 5 ≤ n → w'.padlen = if 0 ∈ types ∧ n < 18 then 18 - n else w.padlen

theorem writeIfaces_after (types : List Nat) {w' : WriteState} (hready : w.bufs.Ready port useCts)
    (hheader : HeaderOk header w.offset) (h : types.foldlM (writeIface header data) w = some w') :
    AfterIfaces port useCts header data.length types w w' := by
  induction types generalizing w with
  | nil =>
    obtain rfl := Option.some.inj h
    exact ⟨hready, hheader, ⟨[], (List.append_nil _).symm, rfl⟩, fun _ => by simp⟩
  | cons type types ih =>
    rw [List.foldlM_cons, Option.bind_eq_bind, Option.bind_eq_some_iff] at h
    obtain ⟨w₁, hstep, hrest⟩ := h
    have htype : type ≤ 2 := by
      by_contra htype
      rw [writeIface_unknown header data w htype] at hstep
      cases hstep
    rw [writeIface_eq header data w htype] at hstep
    split_ifs at hstep
    obtain rfl := Option.some.inj hstep
    obtain ⟨-, hready', hheader', hpad'⟩ := sentFrame_eq data hready hheader htype
    obtain ⟨hready'', hheader'', ⟨frames, hframes, hlen⟩, hpad''⟩ := ih hready' hheader' hrest
    refine ⟨hready'', hheader'', ⟨sentFrame header data w type :: frames, ?_, ?_⟩, fun h5 => ?_⟩
    · rw [hframes, nextWrite, List.append_assoc]
      rfl
    · rw [List.length_cons, List.length_cons, hlen]
    · rw [hpad'' h5, hpad', minLength]
      simp only [List.mem_cons]
      by_cases hzero : type = 0
      · simp only [hzero, if_true, true_or, true_and]
        split_ifs <;> omega
      · simp only [if_neg hzero, Ne.symm hzero, false_or]
        split_ifs <;> omega

end

/-! ## The ground service stays within the buffers -/

/-- `wfb_write` over interfaces of the given types, with its accesses. -/
def traceWrite (types : List Nat) (seqno : UInt32) (data : Buf) (len : UInt16) (addHeader : Bool)
    (bufs : TxBuffers) : Traced (TxBuffers × List (List UInt8)) := do
  let header := if addHeader then some (frameHeader seqno len) else none
  let w ← types.foldlM (traceIface header (slice data 0 len.toNat)) ⟨bufs, 0, 0, []⟩
  return (w.bufs, w.frames)

theorem headerOk_start (seqno : UInt32) (len : UInt16) (addHeader : Bool) :
    HeaderOk (if addHeader then some (frameHeader seqno len) else none) 0 := by
  refine ⟨fun h hh => ?_, fun _ => rfl⟩
  cases addHeader with
  | false => cases hh
  | true =>
    obtain rfl := Option.some.inj hh
    rfl

theorem traceWrite_within (types : List Nat) (seqno : UInt32) (data : Buf) (len : UInt16)
    (addHeader : Bool) (bufs : TxBuffers) (n : Nat) :
    (traceWrite types seqno data len addHeader bufs).Within n ↔
      (types.foldlM (traceIface (if addHeader then some (frameHeader seqno len) else none)
        (slice data 0 len.toNat)) ⟨bufs, 0, 0, []⟩).Within n := by
  rw [traceWrite, Traced.within_bind]
  simp only [Traced.within_pure, implies_true, and_true]

/-- `wfb_write` is `traceWrite` as long as the accesses stay within the packet buffers. -/
theorem wfbWrite_iff_trace {port : Nat} {useCts : Bool} {bufs : TxBuffers}
    (hready : bufs.Ready port useCts) (types : List Nat) (seqno : UInt32) (data : Buf)
    (len : UInt16) (addHeader : Bool) (r : TxBuffers × List (List UInt8)) :
    wfbWrite types seqno data len addHeader bufs = some r ↔
      (traceWrite types seqno data len addHeader bufs).Within packetBufferSize ∧
        (traceWrite types seqno data len addHeader bufs).result = some r := by
  rw [traceWrite_within, traceWrite, Traced.result_bind, wfbWrite, Option.bind_eq_bind]
  simp only [Option.bind_eq_some_iff, Traced.result_pure,
    writeIfaces_iff_trace types (w := ⟨bufs, 0, 0, []⟩) hready (headerOk_start seqno len addHeader)]
  constructor
  · rintro ⟨w, ⟨hwithin, hrun⟩, hr⟩
    exact ⟨hwithin, w, hrun, hr⟩
  · rintro ⟨hwithin, w, hrun, hr⟩
    exact ⟨w, ⟨hwithin, hrun⟩, hr⟩

/-- A cycle of the ground service. -/
def txRcStep (types : List Nat) (s : TxRcState) (d : Datagram) : Option TxRcState :=
  (txRcCycle types s d).map Prod.fst

/-- The copies and the lengths of `write` stay within the packet buffers. -/
def InBuffers (types : List Nat) (s : TxRcState) (d : Datagram) : Prop :=
  (traceWrite types s.seqno d.rcData d.len true s.bufs).Within packetBufferSize

/-- The datagram fits the cards before one of an unknown type, which ends the service. -/
def FitsReached (types : List Nat) (_ : TxRcState) (d : Datagram) : Prop :=
  d.FitsCards (types.takeWhile (· ≤ 2))

instance (types : List Nat) (s : TxRcState) (d : Datagram) : Decidable (FitsReached types s d) :=
  inferInstanceAs (Decidable (∀ _ ∈ _, _))

theorem txRcStep_ready {types : List Nat} {s s' : TxRcState} {d : Datagram}
    (hs : s.bufs.Ready txRcPort false) (h : txRcStep types s d = some s') :
    s'.bufs.Ready txRcPort false := by
  simp only [txRcStep, txRcCycle, wfbTxSend, wfbWrite, Option.map_map, Option.map_eq_some_iff,
    Option.bind_eq_bind, Option.bind_eq_some_iff] at h
  obtain ⟨r, ⟨w, hrun, hr⟩, rfl⟩ := h
  obtain rfl := Option.some.inj hr
  exact (writeIfaces_after types hs (headerOk_start s.seqno d.len true) hrun).ready

theorem inBuffers_iff {types : List Nat} {s : TxRcState} {d : Datagram}
    (hs : s.bufs.Ready txRcPort false) : InBuffers types s d ↔ FitsReached types s d := by
  rw [InBuffers, traceWrite_within, traceIfaces_within types hs
    (headerOk_start s.seqno d.len true) ⟨Nat.zero_le _, fun _ => rfl⟩, length_slice]
  refine forall₂_congr fun type htype => ?_
  have hknown : type ≤ 2 := by simpa using List.mem_takeWhile_imp htype
  rw [FitsCard, Fits]
  exact (and_iff_right hknown).symm

/-- **The ground service stays within the packet buffers exactly as long as each datagram, in the
16 bits of its length, fits them with its headers.** -/
theorem txRc_within (b : TxBuffers) (types : List Nat) (ds : List Datagram) :
    ∃ bufs, wfbTxInit b txRcPort false = some bufs ∧
      (Run.Throughout (txRcStep types) (InBuffers types) ⟨bufs, 0⟩ ds ↔
        Run.Throughout (txRcStep types) (FitsReached types) ⟨bufs, 0⟩ ds) := by
  obtain ⟨bufs, hinit, hready⟩ := wfbTxInit_ready b txRcPort false
  exact ⟨bufs, hinit, Run.Throughout.congr (I := fun s => s.bufs.Ready txRcPort false)
    (fun _ _ _ _ hs h => txRcStep_ready hs h) (fun _ _ _ hs => inBuffers_iff hs) hready⟩

/-- `recvfrom` fails, with a Ralink card: 65535 bytes are copied. -/
theorem txRc_overflows : ∃ bufs,
    wfbTxInit ⟨⟨0, fun _ => 0⟩, ⟨0, fun _ => 0⟩, ⟨0, fun _ => 0⟩⟩ txRcPort false = some bufs ∧
      (⟨-1, fun _ => 0⟩ : Datagram).len = 65535 ∧
      ¬Run.Throughout (txRcStep [0]) (InBuffers [0]) ⟨bufs, 0⟩ [⟨-1, fun _ => 0⟩] := by
  obtain ⟨bufs, hinit, hready⟩ := wfbTxInit_ready
    ⟨⟨0, fun _ => 0⟩, ⟨0, fun _ => 0⟩, ⟨0, fun _ => 0⟩⟩ txRcPort false
  refine ⟨bufs, hinit, rfl, fun h => ?_⟩
  have hfits : (⟨-1, fun _ => 0⟩ : Datagram).FitsCards [0] := (inBuffers_iff hready).mp h.1
  exact absurd hfits (by decide)

/-! ## The frame of one interface among others -/

/-- The frame of a type of card: headers, header, data, and padding up to its own minimal length. -/
def ownFrame (port : Nat) (useCts : Bool) (type : Nat) (seqno : UInt32) (data : Buf) (len : UInt16)
    (addHeader : Bool) : List UInt8 :=
  txRadiotap type ++ ieeeHeader type port useCts ++
    (if addHeader then some (frameHeader seqno len) else none).getD [] ++ slice data 0 len.toNat ++
      ownPadding type len.toNat

/-- `wfb_write` returns within its buffers, and an interface between others is sent its own
frame. -/
def SendsOwn (port : Nat) (useCts : Bool) (bufs : TxBuffers) (before : List (Fin 3)) (type : Fin 3)
    (after : List (Fin 3)) (seqno : UInt32) (data : Buf) (len : UInt16) (addHeader : Bool) : Prop :=
  ∃ bufs' frames, wfbWrite ((before ++ type :: after).map Fin.val) seqno data len addHeader bufs =
      some (bufs', frames) ∧
    frames[before.length]? = some (ownFrame port useCts type seqno data len addHeader)

/-- The data fits the packet buffers of all cards, behind the headers. -/
def FitsCards (port : Nat) (useCts : Bool) (types : List (Fin 3)) (seqno : UInt32) (len : UInt16)
    (addHeader : Bool) : Prop :=
  ∀ type ∈ types, FitsCard port useCts
    (if addHeader then some (frameHeader seqno len) else none) len.toNat type

instance (port : Nat) (useCts : Bool) (types : List (Fin 3)) (seqno : UInt32) (len : UInt16)
    (addHeader : Bool) : Decidable (FitsCards port useCts types seqno len addHeader) :=
  inferInstanceAs (Decidable (∀ _ ∈ _, _))

/-- A Ralink card pads the data for itself, and a later card of another type does not. -/
def PaddedBefore (before : List (Fin 3)) (type : Fin 3) (len : UInt16) : Prop :=
  5 ≤ len.toNat ∧ len.toNat < 18 ∧ type.val ≠ 0 ∧ 0 ∈ before.map Fin.val

section

variable {port : Nat} {useCts : Bool} {bufs : TxBuffers}

/-- The frame that `wfb_write` sends to an interface, among those it has sent. -/
theorem wfbWrite_frame (hready : bufs.Ready port useCts) (before : List (Fin 3)) (type : Fin 3)
    (after : List (Fin 3)) {seqno : UInt32} {data : Buf} {len : UInt16} {addHeader : Bool}
    {r : TxBuffers × List (List UInt8)}
    (h : wfbWrite ((before ++ type :: after).map Fin.val) seqno data len addHeader bufs = some r) :
    ∃ w, AfterIfaces port useCts (if addHeader then some (frameHeader seqno len) else none)
        len.toNat (before.map Fin.val) ⟨bufs, 0, 0, []⟩ w ∧
      r.2[before.length]? = some (sentFrame
        (if addHeader then some (frameHeader seqno len) else none) (slice data 0 len.toNat) w
        type) := by
  obtain ⟨header, hheader⟩ : ∃ header,
    header = if addHeader then some (frameHeader seqno len) else none := ⟨_, rfl⟩
  have hstart := headerOk_start seqno len addHeader
  rw [← hheader] at hstart ⊢
  rw [wfbWrite, ← hheader, List.map_append, List.map_cons, List.foldlM_append] at h
  simp only [Option.bind_eq_bind, Option.bind_eq_some_iff, List.foldlM_cons, Option.some.injEq] at h
  obtain ⟨w', ⟨w, hbefore, w₁, hstep, hafter⟩, rfl⟩ := h
  have htype : type.val ≤ 2 := Nat.le_of_lt_succ type.isLt
  have hw := writeIfaces_after (before.map Fin.val) (w := ⟨bufs, 0, 0, []⟩) hready hstart hbefore
  rw [writeIface_eq header _ w htype] at hstep
  split_ifs at hstep
  obtain rfl := Option.some.inj hstep
  obtain ⟨-, hready₁, hheader₁, -⟩ :=
    sentFrame_eq (slice data 0 len.toNat) hw.ready hw.header htype
  obtain ⟨frames, hframes, -⟩ := (writeIfaces_after _ hready₁ hheader₁ hafter).frames
  obtain ⟨first, hfirst, hlen⟩ := hw.frames
  rw [List.nil_append] at hfirst
  rw [length_slice] at hw
  refine ⟨w, hw, ?_⟩
  rw [hframes, nextWrite, hfirst, List.append_assoc,
    List.getElem?_append_right (by simpa using hlen.le), hlen, List.length_map, Nat.sub_self]
  rfl

/-- The frame is the own frame of the card when nothing is left of the padding of another. -/
theorem sentFrame_own {before : List (Fin 3)} (type : Fin 3) {seqno : UInt32} (data : Buf)
    {len : UInt16} {addHeader : Bool} {w : WriteState}
    (hw : AfterIfaces port useCts (if addHeader then some (frameHeader seqno len) else none)
        len.toNat (before.map Fin.val) ⟨bufs, 0, 0, []⟩ w) :
    sentFrame (if addHeader then some (frameHeader seqno len) else none) (slice data 0 len.toNat) w
        type = ownFrame port useCts type seqno data len addHeader ↔
      ¬PaddedBefore before type len := by
  have htype : type.val ≤ 2 := Nat.le_of_lt_succ type.isLt
  have hmin := le_minLength type
  have hpad := hw.padlen
  rw [(sentFrame_eq _ hw.ready hw.header htype).1, ownFrame, List.append_cancel_left_eq, frameTail,
    PaddedBefore, length_slice]
  by_cases hshort : len.toNat < minLength type
  · rw [if_pos hshort]
    simp only [true_iff]
    rintro ⟨h5, -, hother, -⟩
    rw [minLength, if_neg hother] at hshort
    omega
  · have hnone : ownPadding type len.toNat = [] :=
      List.eq_nil_of_length_eq_zero (by rw [length_ownPadding]; omega)
    rw [if_neg hshort, hnone, ← List.length_eq_zero_iff, length_slice, hpad (by omega)]
    simp only [minLength] at hshort
    split_ifs at hshort ⊢ <;> grind

theorem result_traceIfaces (header : Option (List UInt8)) (data : List UInt8)
    (types : List (Fin 3)) (w : WriteState) :
    ∃ w', ((types.map Fin.val).foldlM (traceIface header data) w).result = some w' := by
  induction types generalizing w with
  | nil => exact ⟨w, rfl⟩
  | cons type types ih =>
    obtain ⟨w', hrun⟩ := ih (nextWrite header data w type)
    refine ⟨w', ?_⟩
    rw [List.map_cons, List.foldlM_cons, Traced.result_bind,
      result_traceIface (Nat.le_of_lt_succ type.isLt), Option.bind_some, hrun]

/-- A call over cards of known types returns exactly if the data fits all of them. -/
theorem wfbWrite_returns_iff (hready : bufs.Ready port useCts) (types : List (Fin 3))
    (seqno : UInt32) (data : Buf) (len : UInt16) (addHeader : Bool) :
    (∃ r, wfbWrite (types.map Fin.val) seqno data len addHeader bufs = some r) ↔
      FitsCards port useCts types seqno len addHeader := by
  have hheader := headerOk_start seqno len addHeader
  obtain ⟨w', hrun⟩ := result_traceIfaces
    (if addHeader then some (frameHeader seqno len) else none) (slice data 0 len.toNat) types
    ⟨bufs, 0, 0, []⟩
  have hresult : (traceWrite (types.map Fin.val) seqno data len addHeader bufs).result =
      some (w'.bufs, w'.frames) := by
    rw [traceWrite, Traced.result_bind, hrun]
    rfl
  have hknown : (types.map Fin.val).takeWhile (· ≤ 2) = types.map Fin.val := by
    rw [List.takeWhile_eq_self_iff]
    intro type htype
    obtain ⟨t, -, rfl⟩ := List.mem_map.mp htype
    exact decide_eq_true (Nat.le_of_lt_succ t.isLt)
  simp only [wfbWrite_iff_trace hready, hresult, Option.some.injEq, exists_and_left, exists_eq',
    and_true]
  rw [traceWrite_within, traceIfaces_within _ hready hheader ⟨Nat.zero_le _, fun _ => rfl⟩, hknown,
    List.forall_mem_map, length_slice]
  rfl

/-- **An interface is sent its own frame exactly if the data fits all cards, and it is not short for
a Ralink card before the interface and long enough for its own type.** -/
theorem wfbWrite_own (hready : bufs.Ready port useCts) (before : List (Fin 3)) (type : Fin 3)
    (after : List (Fin 3)) (seqno : UInt32) (data : Buf) (len : UInt16) (addHeader : Bool) :
    SendsOwn port useCts bufs before type after seqno data len addHeader ↔
      FitsCards port useCts (before ++ type :: after) seqno len addHeader ∧
        ¬PaddedBefore before type len := by
  rw [← wfbWrite_returns_iff hready _ seqno data]
  constructor
  · rintro ⟨bufs', frames, hrun, hown⟩
    obtain ⟨w, hw, hframe⟩ := wfbWrite_frame hready before type after hrun
    exact ⟨⟨_, hrun⟩, (sentFrame_own type data hw).mp (Option.some.inj (hframe.symm.trans hown))⟩
  · rintro ⟨⟨r, hrun⟩, hpadded⟩
    obtain ⟨w, hw, hframe⟩ := wfbWrite_frame hready before type after hrun
    exact ⟨r.1, r.2, hrun, hframe.trans (congrArg some ((sentFrame_own type data hw).mpr hpadded))⟩

/-- Two runs then send the same frame, whatever the interfaces before are. -/
theorem wfbWrite_same {bufs₁ bufs₂ : TxBuffers} (hready₁ : bufs₁.Ready port useCts)
    (hready₂ : bufs₂.Ready port useCts) {before₁ before₂ after₁ after₂ : List (Fin 3)}
    {type : Fin 3} {seqno : UInt32} {data : Buf} {len : UInt16} {addHeader : Bool}
    {r₁ r₂ : TxBuffers × List (List UInt8)}
    (h₁ : wfbWrite ((before₁ ++ type :: after₁).map Fin.val) seqno data len addHeader bufs₁ =
      some r₁)
    (h₂ : wfbWrite ((before₂ ++ type :: after₂).map Fin.val) seqno data len addHeader bufs₂ =
      some r₂)
    (hown₁ : ¬PaddedBefore before₁ type len) (hown₂ : ¬PaddedBefore before₂ type len) :
    r₁.2[before₁.length]? = r₂.2[before₂.length]? := by
  obtain ⟨w₁, hw₁, hframe₁⟩ := wfbWrite_frame hready₁ before₁ type after₁ h₁
  obtain ⟨w₂, hw₂, hframe₂⟩ := wfbWrite_frame hready₂ before₂ type after₂ h₂
  rw [hframe₁, hframe₂, (sentFrame_own type data hw₁).mpr hown₁,
    (sentFrame_own type data hw₂).mpr hown₂]

end

/-- An Atheros card behind a Ralink card is sent its own frame of twenty bytes. -/
theorem wfbWrite_own_behind :
    ∃ bufs, wfbTxInit ⟨⟨0, fun _ => 0⟩, ⟨0, fun _ => 0⟩, ⟨0, fun _ => 0⟩⟩ 1 false = some bufs ∧
      SendsOwn 1 false bufs [⟨0, by decide⟩] ⟨1, by decide⟩ [] 7 (fun _ => 9) 20 true := by
  obtain ⟨bufs, hinit, hready⟩ := wfbTxInit_ready
    ⟨⟨0, fun _ => 0⟩, ⟨0, fun _ => 0⟩, ⟨0, fun _ => 0⟩⟩ 1 false
  refine ⟨bufs, hinit, ?_⟩
  rw [wfbWrite_own hready]
  exact ⟨by decide, fun h => absurd h.2.1 (by decide)⟩

/-- Five bytes to an Atheros card, alone and behind a Ralink card: two different frames. -/
theorem wfbWrite_not_alone :
    ∃ bufs r₁ r₂,
      wfbTxInit ⟨⟨0, fun _ => 0⟩, ⟨0, fun _ => 0⟩, ⟨0, fun _ => 0⟩⟩ 1 false = some bufs ∧
        wfbWrite [1] 7 (fun _ => 9) 5 true bufs = some r₁ ∧
        wfbWrite [0, 1] 7 (fun _ => 9) 5 true bufs = some r₂ ∧ r₁.2[0]? ≠ r₂.2[1]? := by
  obtain ⟨bufs, hinit, hready⟩ := wfbTxInit_ready
    ⟨⟨0, fun _ => 0⟩, ⟨0, fun _ => 0⟩, ⟨0, fun _ => 0⟩⟩ 1 false
  let ral : Fin 3 := ⟨0, by decide⟩
  let ath : Fin 3 := ⟨1, by decide⟩
  obtain ⟨r₁, hrun₁⟩ :=
    (wfbWrite_returns_iff hready [ath] 7 (fun _ => 9) 5 true).mpr (by decide)
  obtain ⟨r₂, hrun₂⟩ :=
    (wfbWrite_returns_iff hready [ral, ath] 7 (fun _ => 9) 5 true).mpr (by decide)
  obtain ⟨w₁, hw₁, hframe₁⟩ := wfbWrite_frame hready [] ath [] hrun₁
  obtain ⟨w₂, hw₂, hframe₂⟩ := wfbWrite_frame hready [ral] ath [] hrun₂
  refine ⟨bufs, r₁, r₂, hinit, hrun₁, hrun₂, fun hsame => ?_⟩
  -- The frame behind the Ralink card would be the own frame, too.
  have hown := (sentFrame_own ath (fun _ => 9) hw₁).mpr fun h => absurd h.2.2.2 (by decide)
  rw [List.length_nil, hown] at hframe₁
  rw [List.length_singleton, ← hsame, hframe₁] at hframe₂
  have hpadded : PaddedBefore [ral] ath 5 := ⟨by decide, by decide, by decide, by decide⟩
  exact (sentFrame_own ath (fun _ => 9) hw₂).mp (Option.some.inj hframe₂).symm hpadded

end Rhex
