import Mathlib
import Rhex.Lib.Traced
import Rhex.Telemetry

/-!
# The ring of the telemetry receiver in memory

`process_packet` copies as many bytes into the ring as the header of the frame says, wherever these
bytes come from and go to.

* `processPacketMem` — `process_packet` on the bytes of `buffer`, with its accesses to `rx_data`.
* `processPacketMem_refines` — on frames that fit an entry it is `processPacket`.
* `telemetry_within` — when it reads what was received and writes into one entry.
-/

namespace Rhex

open Memory

/-! ## The ring as bytes -/

/-- `sizeof(buffer_t)`, with its padding. -/
@[simp] abbrev sizeofEntry : Nat := 408

/-- `sizeof(buffer[i].payload)` -/
@[simp] abbrev sizeofPayload : Nat := 400

/-- Where entry `i` starts. -/
@[simp] abbrev entryOffset (i : Nat) : Nat := sizeofEntry * i

@[simp] abbrev payloadOffset (i : Nat) : Nat := sizeofEntry * i + 7

/-- The static variables of the file, `buffer` as it lies in memory. -/
structure RingMem where
  buffer : Buf
  bufPos : Nat
  lastseq : UInt32
  status : TelemetryStatus

namespace RingMem

/-- `buffer[i].seq` -/
def seq (m : RingMem) (i : Nat) : UInt32 := read32 m.buffer (entryOffset i)

/-- `buffer[i]` -/
def entry (m : RingMem) (i : Nat) : BufferEntry where
  seq := m.seq i
  len := read16 m.buffer (entryOffset i + 4)
  filled := m.buffer (entryOffset i + 6) != 0
  payload := fun k => if k < sizeofPayload then m.buffer (payloadOffset i + k) else 0

def state (m : RingMem) : TelemetryState := ⟨m.entry, m.bufPos, m.lastseq, m.status⟩

/-- After the start of `telemetry_rx_main`. -/
def init : RingMem := ⟨fun _ => 0, bufSz - 2, 0, ⟨fun _ => -127, fun _ => 0, 0⟩⟩

end RingMem

/-! ## `process_packet` -/

/-- What `process_packet` leaves, makes of the frame, and copies into the ring. -/
structure PacketStep where
  mem : RingMem
  verdict : Verdict
  copies : List Access

/-- `already_received` -/
def RingMem.alreadyReceived (m : RingMem) (seqnumber : UInt32) : Bool :=
  (List.range bufSz).any fun i => decide (m.seq i = seqnumber)

/-- The end of `process_packet`: `len`, `seq` and `filled` of the entry, and `buf_pos`. -/
def RingMem.fill (m : RingMem) (seqnumber : UInt32) (length : UInt16) : RingMem :=
  let buffer := memcpy m.buffer (entryOffset m.bufPos + 4) (le16 length)
  let buffer := memcpy buffer (entryOffset m.bufPos) (le32 seqnumber)
  let buffer := memcpy buffer (entryOffset m.bufPos + 6) [1]
  { m with buffer, bufPos := if m.bufPos + 1 ≥ bufSz then 0 else m.bufPos + 1 }

/-- `process_packet`, with its accesses to `rx_data->data`. -/
def processPacketMem (m : RingMem) (e : Received) : Traced PacketStep := do
  let m := { m with status := countFrame m.status e.rxData e.now }
  let seqnumber ← Traced.load32 e.rxData.data 0
  if m.alreadyReceived seqnumber then
    return ⟨m, .dropped, []⟩
  else if (seqnumber - m.lastseq).toNat > 2147483647 then
    return ⟨m, .dropped, []⟩
  else
    let length ← Traced.load16 e.rxData.data 4
    -- The source of `memcpy`, and the datagram of `sendto`.
    Traced.access 6 length.toNat
    let data := slice e.rxData.data 6 length.toNat
    let m := { m with buffer := memcpy m.buffer (payloadOffset m.bufPos) data }
    let copies := [⟨payloadOffset m.bufPos, length.toNat⟩]
    Traced.access 6 length.toNat
    if e.sendtoOk then
      return ⟨m.fill seqnumber length, .forwarded data, copies⟩
    else
      return ⟨m, .failed, copies⟩

def RingMem.Passes (m : RingMem) (e : Received) : Prop :=
  m.alreadyReceived e.seqnumber = false ∧ (e.seqnumber - m.lastseq).toNat ≤ 2147483647

instance (m : RingMem) (e : Received) : Decidable (m.Passes e) :=
  inferInstanceAs (Decidable (_ ∧ _))

/-- The memory after a frame that passes. -/
def RingMem.forward (m : RingMem) (e : Received) : RingMem :=
  let m := { m with
    buffer := memcpy m.buffer (payloadOffset m.bufPos) (headerData e.rxData.data)
    status := countFrame m.status e.rxData e.now }
  if e.sendtoOk then m.fill e.seqnumber (headerLength e.rxData.data) else m

/-- **What `process_packet` does**: its accesses, the memory, and the copy. -/
theorem processPacketMem_cases (m : RingMem) (e : Received) :
    (m.Passes e ∧
      (∀ n, (processPacketMem m e).Within n ↔ 6 + e.length ≤ n) ∧
      (processPacketMem m e).result = some ⟨m.forward e,
        if e.sendtoOk then .forwarded (headerData e.rxData.data) else .failed,
        [⟨payloadOffset m.bufPos, e.length⟩]⟩) ∨
    (¬m.Passes e ∧
      (∀ n, (processPacketMem m e).Within n ↔ 4 ≤ n) ∧
      (processPacketMem m e).result =
        some ⟨{ m with status := countFrame m.status e.rxData e.now }, .dropped, []⟩) := by
  have hnumber : read32 e.rxData.data 0 = e.seqnumber := rfl
  have hseq : ({ m with status := countFrame m.status e.rxData e.now } :
      RingMem).alreadyReceived e.seqnumber = m.alreadyReceived e.seqnumber := rfl
  by_cases hdup : m.alreadyReceived e.seqnumber = true
  · refine .inr ⟨fun h => absurd h.1 (by simp [hdup]), fun n => ?_, ?_⟩
    · simp [processPacketMem, hnumber, hseq, hdup]
    · simp [processPacketMem, hnumber, hseq, hdup]
  · by_cases hold : (e.seqnumber - m.lastseq).toNat > 2147483647
    · refine .inr ⟨fun h => absurd h.2 (by omega), fun n => ?_, ?_⟩
      · simp [processPacketMem, hnumber, hseq, hdup, hold]
      · simp [processPacketMem, hnumber, hseq, hdup, hold]
    · refine .inl ⟨⟨by simpa using hdup, by omega⟩, fun n => ?_, ?_⟩
      · cases hsend : e.sendtoOk with
        | true =>
          simp [processPacketMem, hnumber, hseq, hdup, hold, hsend, Access.within_iff,
            Received.length, headerLength]
          omega
        | false =>
          simp [processPacketMem, hnumber, hseq, hdup, hold, hsend, Access.within_iff,
            Received.length, headerLength]
          omega
      · cases hsend : e.sendtoOk with
        | true =>
          simp only [processPacketMem, Traced.result_bind, Traced.result_load32, Option.bind_some,
            hnumber, hseq, if_neg hdup, if_neg hold, Traced.result_load16, Traced.result_access,
            hsend, RingMem.forward]
          rfl
        | false =>
          simp only [processPacketMem, Traced.result_bind, Traced.result_load32, Option.bind_some,
            hnumber, hseq, if_neg hdup, if_neg hold, Traced.result_load16, Traced.result_access,
            hsend, RingMem.forward]
          rfl

/-! ## The entries after a frame -/

namespace RingMem

/-- An entry is its bytes. -/
theorem entry_congr {m m' : RingMem} {i : Nat}
    (h : ∀ k < sizeofEntry, m'.buffer (entryOffset i + k) = m.buffer (entryOffset i + k)) :
    m'.entry i = m.entry i := by
  have hslice : ∀ off n, off + n ≤ sizeofEntry →
      slice m'.buffer (entryOffset i + off) n = slice m.buffer (entryOffset i + off) n := by
    intro off n hle
    refine slice_eq_iff.mpr fun k hk => ?_
    rw [Nat.add_assoc]
    exact h _ (by omega)
  simp only [entry, seq]
  congr 1
  · exact read32_congr (hslice 0 4 (by decide))
  · exact read16_congr (hslice 4 2 (by decide))
  · rw [h 6 (by decide)]
  · funext k
    split_ifs with hk
    · rw [show payloadOffset i + k = entryOffset i + (7 + k) by simp; omega]
      exact h _ (by simp only [sizeofPayload] at hk; simp only [sizeofEntry]; omega)
    · rfl

theorem buffer_fill {m : RingMem} {seqnumber : UInt32} {length : UInt16} {i : Nat}
    (h : i < entryOffset m.bufPos ∨ payloadOffset m.bufPos ≤ i) :
    (m.fill seqnumber length).buffer i = m.buffer i := by
  have hpayload : payloadOffset m.bufPos = entryOffset m.bufPos + 7 := rfl
  simp only [fill]
  rcases h with h | h
  · rw [memcpy_of_lt (by omega), memcpy_of_lt h, memcpy_of_lt (by omega)]
  · rw [memcpy_of_ge (by simp only [List.length_singleton]; omega),
      memcpy_of_ge (by rw [length_le32]; omega), memcpy_of_ge (by rw [length_le16]; omega)]

/-- The bytes before the entry, and behind the copy. -/
theorem buffer_forward {m : RingMem} {e : Received} {i : Nat}
    (h : i < entryOffset m.bufPos ∨ payloadOffset m.bufPos + e.length ≤ i) :
    (m.forward e).buffer i = m.buffer i := by
  have hlen : (headerData e.rxData.data).length = e.length := length_slice _ _ _
  have hpayload : payloadOffset m.bufPos = entryOffset m.bufPos + 7 := rfl
  have hcopy : memcpy m.buffer (payloadOffset m.bufPos) (headerData e.rxData.data) i =
      m.buffer i := by
    rcases h with h | h
    · exact memcpy_of_lt (by omega)
    · exact memcpy_of_ge (by omega)
  unfold forward
  cases e.sendtoOk with
  | true =>
    rw [if_pos rfl, buffer_fill (by simp only; omega)]
    exact hcopy
  | false => exact hcopy

theorem bufPos_forward (m : RingMem) (e : Received) : (m.forward e).bufPos =
    if e.sendtoOk then if m.bufPos + 1 ≥ bufSz then 0 else m.bufPos + 1 else m.bufPos := by
  unfold forward
  cases e.sendtoOk <;> rfl

end RingMem

/-! ## The entries of `processPacket` -/

namespace RingMem

/-- The entry after `len`, `seq` and `filled` are written. -/
theorem entry_fill (m : RingMem) (seqnumber : UInt32) (length : UInt16) :
    (m.fill seqnumber length).entry m.bufPos =
      { m.entry m.bufPos with len := length, seq := seqnumber, filled := true } := by
  obtain ⟨off, hoff⟩ : ∃ off, off = entryOffset m.bufPos := ⟨_, rfl⟩
  simp only [entry, seq]
  congr 1
  · apply read32_of_slice
    simp only [fill, ← hoff]
    rw [slice_memcpy_before (by omega)]
    exact slice_memcpy _ _ (le32 seqnumber)
  · apply read16_of_slice
    simp only [fill, ← hoff]
    rw [slice_memcpy_before (by omega), slice_memcpy_after (by rw [length_le32])]
    exact slice_memcpy _ _ (le16 length)
  · have hfilled : (m.fill seqnumber length).buffer (off + 6) = 1 := by
      simp only [fill, ← hoff]
      exact memcpy_add (k := 0) (by decide)
    rw [← hoff, hfilled]
    rfl
  · funext k
    rw [buffer_fill (.inr (Nat.le_add_right _ k))]

/-- The entry after the copy of the payload. -/
theorem entry_copy (m : RingMem) (status : TelemetryStatus) (data : List UInt8)
    (hlen : data.length ≤ sizeofPayload) :
    ({ m with buffer := memcpy m.buffer (payloadOffset m.bufPos) data, status } : RingMem).entry
        m.bufPos =
      { m.entry m.bufPos with payload := memcpy (m.entry m.bufPos).payload 0 data } := by
  have hoff : payloadOffset m.bufPos = entryOffset m.bufPos + 7 := rfl
  have hbefore : ∀ off n, off + n ≤ payloadOffset m.bufPos →
      slice (memcpy m.buffer (payloadOffset m.bufPos) data) off n = slice m.buffer off n :=
    fun off n h => slice_memcpy_before h
  simp only [entry, seq]
  congr 1
  · exact read32_congr (hbefore _ _ (by omega))
  · exact read16_congr (hbefore _ _ (by omega))
  · rw [memcpy_of_lt (by omega)]
  · funext k
    simp only [memcpy, Nat.le_add_right, if_true, Nat.add_sub_cancel_left, Nat.zero_le,
      Nat.sub_zero]
    by_cases hk : k < sizeofPayload
    · rw [if_pos hk, if_pos hk]
    · rw [if_neg hk, if_neg hk, List.getElem?_eq_none (by omega)]
      rfl

/-- The ring after a frame that passes and fits: one entry is written. -/
theorem entry_forward {m : RingMem} {e : Received} (hlen : e.length ≤ sizeofPayload) :
    (m.forward e).entry =
      (let entry := { m.entry m.bufPos with
        payload := memcpy (m.entry m.bufPos).payload 0 (headerData e.rxData.data) }
      Function.update m.entry m.bufPos
        (if e.sendtoOk then { entry with
          len := headerLength e.rxData.data
          seq := e.seqnumber
          filled := true }
        else entry)) := by
  have hdata : (headerData e.rxData.data).length = e.length := length_slice _ _ _
  have hcopy := entry_copy m (countFrame m.status e.rxData e.now) (headerData e.rxData.data)
    (by omega)
  funext i
  by_cases hi : i = m.bufPos
  · subst hi
    rw [Function.update_self, forward]
    cases e.sendtoOk with
    | true =>
      rw [if_pos rfl, if_pos rfl]
      exact (entry_fill _ _ _).trans (by rw [hcopy])
    | false => exact hcopy
  · rw [Function.update_of_ne hi]
    refine entry_congr fun k hk => buffer_forward ?_
    simp only [sizeofPayload, sizeofEntry, entryOffset, payloadOffset] at hlen hk ⊢
    omega

end RingMem

/-- **On frames that fit an entry, the bytes are those of `processPacket`.** -/
theorem processPacketMem_refines (m : RingMem) {e : Received} (hlen : e.length ≤ sizeofPayload) :
    (processPacketMem m e).result.map (fun r => (r.mem.state, r.verdict)) =
      processPacket m.state e.rxData e.now e.sendtoOk := by
  have hseq : ∀ status, alreadyReceived { m.state with status } e.seqnumber =
    m.alreadyReceived e.seqnumber := fun _ => rfl
  have hnumber : headerSeqnumber e.rxData.data = e.seqnumber := rfl
  have hfits : ¬(headerLength e.rxData.data).toNat > 400 := Nat.not_lt.mpr hlen
  unfold processPacket
  simp only [hnumber, hseq]
  obtain ⟨⟨hnew, hyoung⟩, -, hresult⟩ | ⟨hpasses, -, hresult⟩ := processPacketMem_cases m e
  · have hlast : ¬(e.seqnumber - m.state.lastseq).toNat > 2147483647 := Nat.not_lt.mpr hyoung
    rw [hresult, hnew, if_neg Bool.false_ne_true, if_neg hlast, forwardFrame, if_neg hfits]
    simp only [Option.map_some, RingMem.state, RingMem.entry_forward hlen, RingMem.bufPos_forward]
    unfold RingMem.forward
    cases e.sendtoOk <;> rfl
  · rw [hresult]
    by_cases hdup : m.alreadyReceived e.seqnumber = true
    · rw [if_pos hdup]
      rfl
    · have hlast : (e.seqnumber - m.state.lastseq).toNat > 2147483647 := by
        by_contra hyoung
        exact hpasses ⟨by simpa using hdup, Nat.not_lt.mp hyoung⟩
      rw [if_neg hdup, if_pos hlast]
      rfl

/-! ## Within the entry -/

/-- `process_packet` reads bytes that were received, and copies into the payload of the entry that
it has selected: all other entries keep their bytes, and `buf_pos` at most goes on. -/
structure InEntry (m : RingMem) (e : Received) : Prop where
  reads : (processPacketMem m e).Within e.rxData.bytes
  copies : ∀ r, (processPacketMem m e).result = some r → ∀ a ∈ r.copies, ∀ i < a.len,
    payloadOffset m.bufPos ≤ a.off + i ∧ a.off + i < payloadOffset m.bufPos + sizeofPayload
  others : ∀ r, (processPacketMem m e).result = some r → ∀ i,
    i < entryOffset m.bufPos ∨ entryOffset m.bufPos + sizeofEntry ≤ i →
      r.mem.buffer i = m.buffer i
  bufPos : ∀ r, (processPacketMem m e).result = some r →
    r.mem.bufPos = m.bufPos ∨ r.mem.bufPos = (m.bufPos + 1) % bufSz

/-- The number was received; and if the frame passes, its length fits an entry, and as much was
received. -/
def FitsEntry (m : RingMem) (e : Received) : Prop :=
  4 ≤ e.rxData.bytes ∧
    (m.Passes e → e.length ≤ sizeofPayload ∧ 6 + e.length ≤ e.rxData.bytes)

def ringStep (m : RingMem) (e : Received) : Option RingMem :=
  (processPacketMem m e).result.map PacketStep.mem

theorem ringStep_bufPos {m m' : RingMem} {e : Received} (hm : m.bufPos < bufSz)
    (h : ringStep m e = some m') : m'.bufPos < bufSz := by
  rw [ringStep] at h
  obtain ⟨-, -, hresult⟩ | ⟨-, -, hresult⟩ := processPacketMem_cases m e
  · rw [hresult] at h
    obtain rfl := Option.some.inj h
    rw [RingMem.bufPos_forward]
    simp only [bufSz] at hm ⊢
    split_ifs <;> omega
  · rw [hresult] at h
    obtain rfl := Option.some.inj h
    exact hm

theorem inEntry_iff {m : RingMem} (hm : m.bufPos < bufSz) (e : Received) :
    InEntry m e ↔ FitsEntry m e := by
  obtain ⟨hpasses, hwithin, hresult⟩ | ⟨hpasses, hwithin, hresult⟩ := processPacketMem_cases m e
  · constructor
    · intro h
      have hreads := (hwithin _).mp h.reads
      refine ⟨by omega, fun _ => ⟨?_, hreads⟩⟩
      by_contra hlong
      have hlast := (h.copies _ hresult _ List.mem_cons_self sizeofPayload (Nat.not_le.mp hlong)).2
      exact absurd hlast (Nat.lt_irrefl _)
    · rintro ⟨-, hfits⟩
      obtain ⟨hlen, hreads⟩ := hfits hpasses
      refine ⟨(hwithin _).mpr hreads, ?_, ?_, ?_⟩
      · intro r hr a ha i hi
        obtain rfl := Option.some.inj (hresult.symm.trans hr)
        obtain rfl := List.mem_singleton.mp ha
        simp only [sizeofPayload] at hlen hi ⊢
        omega
      · intro r hr i hi
        obtain rfl := Option.some.inj (hresult.symm.trans hr)
        refine RingMem.buffer_forward ?_
        simp only [sizeofPayload, sizeofEntry, entryOffset, payloadOffset] at hlen hi ⊢
        omega
      · intro r hr
        obtain rfl := Option.some.inj (hresult.symm.trans hr)
        simp only [RingMem.bufPos_forward, bufSz] at hm ⊢
        split_ifs <;> omega
  · constructor
    · exact fun h => ⟨(hwithin _).mp h.reads, fun hp => absurd hp hpasses⟩
    · rintro ⟨hreads, -⟩
      refine ⟨(hwithin _).mpr hreads, ?_, ?_, ?_⟩
      · intro r hr a ha
        obtain rfl := Option.some.inj (hresult.symm.trans hr)
        exact absurd ha List.not_mem_nil
      · intro r hr i _
        obtain rfl := Option.some.inj (hresult.symm.trans hr)
        rfl
      · intro r hr
        obtain rfl := Option.some.inj (hresult.symm.trans hr)
        exact .inl rfl

/-- **`process_packet` stays within what was received and within the entry it has selected exactly
as long as the frames fit.** -/
theorem telemetry_within (es : List Received) :
    Run.Throughout ringStep InEntry .init es ↔ Run.Throughout ringStep FitsEntry .init es :=
  Run.Throughout.congr (I := fun m => m.bufPos < bufSz) (fun _ _ _ _ hm h => ringStep_bufPos hm h)
    (fun _ e _ hm => inEntry_iff hm e) (by decide)

/-- Six bytes that announce 65535 more. -/
theorem telemetry_overflows : ¬Run.Throughout ringStep InEntry .init
    [⟨⟨0, 1, -50, 6, ofList (le32 1 ++ le16 65535)⟩, 0, true⟩] := by
  intro h
  have hfits := (inEntry_iff (by decide) _).mp h.1
  exact absurd (hfits.2 (by decide)).1 (by decide)

end Rhex
