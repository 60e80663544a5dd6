import Mathlib
import Rhex.StreamTx

/-!
# What `wfb_tx_stream` is given, and what it makes of it

The bytes given to `wfb_tx_stream` stand in the packets that were transmitted, then in the finished
packets of the block under construction, and last in the packet that is open.

* `PacketBuffer.body`, `TxState.pending` — the bytes of a packet, and those not yet transmitted.
* `fillPacket_pending`, `finishPacket_pending` — what filling and finishing a packet does to them.
* `wfbTxRun_segments` — nothing is lost in any sequence of calls.
-/

namespace Rhex

open Memory

/-! ## Packets -/

namespace PacketBuffer

/-- The bytes behind the payload header. -/
def body (p : PacketBuffer) : List UInt8 :=
  slice p.data sizeofPayloadHeader (p.len - sizeofPayloadHeader)

theorem length_body (p : PacketBuffer) : p.body.length = p.len - sizeofPayloadHeader :=
  length_slice _ _ _

theorem body_of_empty {p : PacketBuffer} (h : p.len = 0) : p.body = [] := by
  rw [body, h]
  rfl

/-- A packet to be sent: 20 to 1020 bytes of payload, and a header that says how many. -/
structure Whole (p : PacketBuffer) : Prop where
  length_ge : 20 ≤ p.body.length
  length_le : p.body.length ≤ 1020
  dataLength : p.dataLength.toNat = p.body.length
  payload : p.payload = p.body

theorem Finished.whole {p : PacketBuffer} (h : p.Finished) : p.Whole := by
  have hge := h.len_ge
  have hle := h.len_le
  simp only [paramMinPacketLength, paramPacketLength] at hge hle
  have hlength : p.dataLength.toNat = p.body.length := by
    rw [length_body, dataLength, read32_of_slice h.header, UInt32.toNat_ofNat']
    simp only [sizeofPayloadHeader]
    omega
  refine ⟨?_, ?_, hlength, ?_⟩
  · rw [length_body]
    simp only [sizeofPayloadHeader]
    omega
  · rw [length_body]
    simp only [sizeofPayloadHeader]
    omega
  · rw [payload, hlength, length_body, body]

theorem body_header (p : PacketBuffer) (x : UInt32) :
    ({ p with data := memcpy p.data 0 (le32 x) } : PacketBuffer).body = p.body := by
  simp only [body]
  exact slice_memcpy_after (by rw [length_le32])

theorem body_append {p : PacketBuffer} (h : p.len = 0 ∨ sizeofPayloadHeader ≤ p.len) {pbLen : Nat}
    (hlen : pbLen = if p.len = 0 then p.len + sizeofPayloadHeader else p.len)
    (bytes : List UInt8) :
    ({ p with data := memcpy p.data pbLen bytes, len := pbLen + bytes.length } :
      PacketBuffer).body = p.body ++ bytes := by
  obtain ⟨n, hn⟩ : ∃ n, n = p.len - sizeofPayloadHeader := ⟨_, rfl⟩
  have hstart : pbLen = sizeofPayloadHeader + n := by
    simp only [sizeofPayloadHeader] at h hlen hn ⊢
    split_ifs at hlen <;> omega
  have happend := slice_memcpy_append p.data sizeofPayloadHeader n bytes
  simp only [body, ← hn, hstart, Nat.add_assoc, Nat.add_sub_cancel_left]
  exact happend

end PacketBuffer

def TxBlock.payloads (block : TxBlock) : List UInt8 :=
  (List.range paramDataPacketsPerBlock).flatMap fun di => (block.pbl di).payload

/-- The bytes that are not transmitted yet: those of the finished packets, and of the open one. -/
def TxState.pending (s : TxState) : List UInt8 :=
  ((List.range s.currPb).flatMap fun i => (s.pbl i).body) ++ (s.pbl s.currPb).body

theorem TxState.pending_eq (s : TxState) :
    s.pending = (List.range (s.currPb + 1)).flatMap fun i => (s.pbl i).body := by
  rw [pending, List.range_succ, List.flatMap_append, List.flatMap_singleton]

theorem flatMap_body_congr {n : Nat} {f g : Nat → PacketBuffer}
    (h : ∀ i < n, (f i).body = (g i).body) :
    ((List.range n).flatMap fun i => (f i).body) = (List.range n).flatMap fun i => (g i).body := by
  rw [List.flatMap_congr fun i hi => h i (List.mem_range.mp hi)]

/-! ## One round of `wfb_tx_stream` -/

/-- **Filling a packet** appends to the bytes that are pending. -/
theorem fillPacket_pending (data : Buf) (len : Nat) {s : TxState} (offset : Nat) (hs : TxInv s) :
    (fillPacket data len s offset).1.pending =
      s.pending ++ slice data offset ((fillPacket data len s offset).2 - offset) := by
  obtain ⟨pbLen, copyLen, hpbLen, hcopyLen, hfill⟩ := fillPacket_eq data len s offset
  have hbody := PacketBuffer.body_append hs.opened hpbLen (slice data offset copyLen)
  rw [length_slice] at hbody
  rw [hfill]
  simp only [TxState.pending, Function.update_self, hbody, Nat.add_sub_cancel_left,
    ← List.append_assoc]
  rw [flatMap_body_congr fun i hi => by rw [Function.update_of_ne hi.ne]]

theorem stampPacket_body (s : TxState) (i : Nat) :
    ((stampPacket s).pbl i).body = (s.pbl i).body := by
  by_cases h : i = s.currPb
  · rw [h, stampPacket_self, PacketBuffer.body_header]
  · rw [stampPacket_of_ne h]

/-- **Finishing a packet** moves the bytes on, into a block with the eighth. -/
theorem finishPacket_pending {env : TxEnv} {s s' : TxState} {blocks : List TxBlock} (hs : Filled s)
    (hlen : paramMinPacketLength ≤ (s.pbl s.currPb).len)
    (h : finishPacket env s = some (s', blocks)) :
    blocks.flatMap TxBlock.payloads ++ s'.pending = s.pending := by
  have hlt := hs.currPb_lt
  have hdone := hs.stamped hlen
  have hstamped : ((List.range (s.currPb + 1)).flatMap fun i => ((stampPacket s).pbl i).body) =
      s.pending := by
    rw [TxState.pending_eq, flatMap_body_congr fun i _ => stampPacket_body s i]
  rw [finishPacket_eq] at h
  by_cases hlast : s.currPb = paramDataPacketsPerBlock - 1
  · obtain ⟨s₂, block, hrun, hpbl, -, -, -, -, -, hempty⟩ :=
      pbTransmitBlock_spec env (stampPacket s)
    rw [if_pos hlast, hrun] at h
    obtain ⟨rfl, rfl⟩ := Prod.mk.inj (Option.some.inj h)
    have hnothing : ({ s₂ with currPb := 0 } : TxState).pending = [] :=
      PacketBuffer.body_of_empty (hempty 0 (by decide))
    have hpayloads : block.payloads =
        (List.range paramDataPacketsPerBlock).flatMap fun i => ((stampPacket s).pbl i).body := by
      rw [TxBlock.payloads, hpbl]
      refine List.flatMap_congr fun i hi => ?_
      exact (hdone i (by have := List.mem_range.mp hi; omega)).whole.payload
    rw [hlast] at hstamped
    rw [hnothing, List.append_nil, List.flatMap_singleton, hpayloads]
    exact hstamped
  · rw [if_neg hlast] at h
    obtain ⟨rfl, rfl⟩ := Prod.mk.inj (Option.some.inj h)
    have hnext : ((stampPacket s).pbl (s.currPb + 1)).body = [] := by
      rw [stampPacket_body]
      exact PacketBuffer.body_of_empty (hs.later _ (Nat.lt_succ_self _) (by omega))
    rw [List.flatMap_nil, List.nil_append, TxState.pending, hnext, List.append_nil]
    exact hstamped

/-- **A packet that is long enough is finished**, and else it stays open. -/
theorem checkPacket_pending {env : TxEnv} {s s' : TxState} {blocks : List TxBlock} (hs : Filled s)
    (h : checkPacket env s = some (s', blocks)) :
    TxInv s' ∧ blocks.flatMap TxBlock.payloads ++ s'.pending = s.pending := by
  rw [checkPacket] at h
  by_cases hlen : (s.pbl s.currPb).len ≥ paramMinPacketLength
  · rw [if_pos hlen] at h
    obtain ⟨s₁, blocks₁, hrun, hinv, -⟩ := finishPacket_spec env hs hlen
    obtain ⟨rfl, rfl⟩ := Prod.mk.inj (Option.some.inj (hrun.symm.trans h))
    exact ⟨hinv, finishPacket_pending hs hlen hrun⟩
  · rw [if_neg hlen] at h
    obtain ⟨rfl, rfl⟩ := Prod.mk.inj (Option.some.inj h)
    exact ⟨⟨hs.currPb_lt, hs.finished, by omega, .inr hs.opened, hs.later⟩, rfl⟩

/-- The loop of `wfb_tx_stream`. -/
theorem wfbTxLoop_pending {env : TxEnv} {data : Buf} {len fuel : Nat} {s s' : TxState}
    {offset : Nat} {blocks : List TxBlock} (hs : TxInv s) (hoff : offset ≤ len)
    (h : wfbTxLoop env data len fuel s offset = some (s', blocks)) :
    blocks.flatMap TxBlock.payloads ++ s'.pending =
      s.pending ++ slice data offset (len - offset) := by
  induction fuel generalizing s offset blocks with
  | zero => cases h
  | succ fuel ih =>
    have hpending := fillPacket_pending data len offset hs
    obtain ⟨s₁, offset₁, hfill, hfilled, -, -, hoff₁, hprogress, -⟩ :=
      fillPacket_spec data len hs hoff
    rw [hfill] at hpending
    simp only at hpending
    simp only [wfbTxLoop, hfill, Option.bind_eq_bind, Option.bind_eq_some_iff] at h
    obtain ⟨⟨s₂, blocks₂⟩, hcheck, hrest⟩ := h
    obtain ⟨hinv, hmoved⟩ := checkPacket_pending hfilled hcheck
    have hbytes : slice data offset (len - offset) =
        slice data offset (offset₁ - offset) ++ slice data offset₁ (len - offset₁) := by
      have hle : offset ≤ offset₁ := by omega
      have hadd := slice_add data offset (offset₁ - offset) (len - offset₁)
      rwa [show offset₁ - offset + (len - offset₁) = len - offset by omega,
        Nat.add_sub_cancel' hle] at hadd
    rw [hbytes, ← List.append_assoc, ← hpending, ← hmoved]
    by_cases hmore : offset₁ < len
    · rw [if_pos hmore] at hrest
      obtain ⟨⟨s₃, more⟩, hloop, hres⟩ := Option.bind_eq_some_iff.mp hrest
      obtain ⟨rfl, rfl⟩ := Prod.mk.inj (Option.some.inj hres)
      rw [List.flatMap_append, List.append_assoc, ih hinv hoff₁ hloop, List.append_assoc]
    · rw [if_neg hmore] at hrest
      obtain ⟨rfl, rfl⟩ := Prod.mk.inj (Option.some.inj hrest)
      rw [Nat.sub_eq_zero_of_le (by omega), slice_zero, List.append_nil]

/-! ## Runs -/

/-- What stands in the packets between two calls: those before `curr_pb` are whole, the one at
`curr_pb` is empty or too short, and all later ones are empty. -/
structure Segmented (s : TxState) : Prop where
  currPb_lt : s.currPb < paramDataPacketsPerBlock
  whole : ∀ i < s.currPb, (s.pbl i).Whole
  short : (s.pbl s.currPb).body.length < 20
  later : ∀ i, s.currPb < i → i < paramDataPacketsPerBlock → (s.pbl i).len = 0

theorem TxInv.segmented {s : TxState} (h : TxInv s) : Segmented s := by
  have hshort := h.short
  refine ⟨h.currPb_lt, fun i hi => (h.finished i hi).whole, ?_, h.later⟩
  rw [PacketBuffer.length_body]
  simp only [paramMinPacketLength, sizeofPayloadHeader] at hshort ⊢
  omega

theorem TxState.Fresh.pending {s : TxState} (h : s.Fresh) : s.pending = [] := by
  have hfirst := PacketBuffer.body_of_empty (h.empty 0 (by decide))
  rw [TxState.pending, h.currPb, hfirst]
  rfl

theorem wfbTxRun_pending {env : TxEnv} {calls : List (Buf × UInt16)} {s s' : TxState}
    {blocks : List TxBlock} (hs : TxInv s) (h : wfbTxRun env s calls = some (s', blocks)) :
    blocks.flatMap TxBlock.payloads ++ s'.pending =
      s.pending ++ calls.flatMap fun call => slice call.1 0 call.2.toNat := by
  induction calls generalizing s blocks with
  | nil =>
    obtain ⟨rfl, rfl⟩ := Prod.mk.inj (Option.some.inj h)
    exact (List.append_nil _).symm
  | cons call calls ih =>
    obtain ⟨data, len⟩ := call
    simp only [wfbTxRun, wfbTxStream, Option.bind_eq_bind, Option.bind_eq_some_iff] at h
    obtain ⟨⟨s₁, blocks₁⟩, hcall, ⟨s₂, more⟩, hrest, hres⟩ := h
    obtain ⟨rfl, rfl⟩ := Prod.mk.inj (Option.some.inj hres)
    obtain ⟨_, _, hrun, hinv, -⟩ :=
      wfbTxLoop_spec env data len.toNat (len.toNat + 1) hs (Nat.zero_le _) (by omega)
    obtain ⟨rfl, rfl⟩ := Prod.mk.inj (Option.some.inj (hrun.symm.trans hcall))
    have hcalled := wfbTxLoop_pending hs (Nat.zero_le _) hcall
    rw [List.flatMap_append, List.append_assoc, ih hinv hrest, ← List.append_assoc, hcalled,
      List.flatMap_cons, List.append_assoc]
    rfl

/-- **Segmentation loses nothing.** On a fresh stream each call returns, the packets are as
described after any number of calls, those of transmitted blocks are whole and stand in the frames
that are written, and what was transmitted and what is pending make up what was given. -/
theorem wfbTxRun_segments (env : TxEnv) {s : TxState} (hs : s.Fresh)
    (calls : List (Buf × UInt16)) :
    ∃ s' blocks, wfbTxRun env s calls = some (s', blocks) ∧ Segmented s' ∧
      (∀ i (block : TxBlock), blocks[i]? = some block → block.Written s.phdrLen (12 * i % 2 ^ 32) ∧
        ∀ di < paramDataPacketsPerBlock, (block.pbl di).Whole) ∧
      blocks.flatMap TxBlock.payloads ++ s'.pending =
        calls.flatMap fun call => slice call.1 0 call.2.toNat := by
  obtain ⟨s', blocks, hrun, hinv, hemits⟩ := wfbTxRun_spec env calls hs.inv
  refine ⟨s', blocks, hrun, hinv.segmented, fun i block hi => ⟨hemits.written hs hi, ?_⟩, ?_⟩
  · intro di hdi
    exact (hemits.finished block (List.mem_of_getElem? hi) di hdi).whole
  · rw [wfbTxRun_pending hs.inv hrun, hs.pending, List.nil_append]

/-- Two calls on the stream of `wfb_stream_init`. -/
theorem wfbTxRun_segments_two :
    ∃ s' blocks, wfbTxRun ⟨fun _ => 0, fun _ _ _ => 0⟩ (wfbStreamInit [] fun _ _ => 0)
        [(fun _ => 1, 7), (fun _ => 2, 65535)] = some (s', blocks) ∧ Segmented s' ∧
      (∀ i (block : TxBlock), blocks[i]? = some block → block.Written 0 (12 * i % 2 ^ 32) ∧
        ∀ di < paramDataPacketsPerBlock, (block.pbl di).Whole) ∧
      blocks.flatMap TxBlock.payloads ++ s'.pending =
        [((fun _ => 1, 7) : Buf × UInt16), (fun _ => 2, 65535)].flatMap
          fun call => slice call.1 0 call.2.toNat :=
  wfbTxRun_segments _ (wfbStreamInit_fresh [] _) _

end Rhex
