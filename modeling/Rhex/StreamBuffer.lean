import Mathlib
import Rhex.StreamStats
import Rhex.VideoLink

/-!
# The block buffer of the video receiver

The buffer holds the packets of one block, from the packet that opened the block on; the first
packet of each number is kept. What a call appends to `rx_data` is bounded whatever the packets
say about their lengths.

* `RxAppended` — what a loop may do to `rx_data`; `processPayload_appended` for a call.
* `BufferRun` — a run that remembers the packets handed over since the block was opened.
* `SlotHolds`, `BufferRun.Holds` — what the slots are, in every run.
* `sinceRestart`, `Newest` — the packets whose highest block is the one in the buffer.
* `rx_block_buffer` — both, from the start.
-/

namespace Rhex

open Memory

/-! ## What a call appends -/

/-- The size of `data` in `wfb_rx_stream_packet_t`. -/
@[simp] abbrev rxDataSize : Nat := maxPacketLength * 2

/-- At most `max` bytes were appended, and no other byte was written. -/
structure RxAppended (max : Nat) (r r' : RxData) : Prop where
  ge : r.bytes ≤ r'.bytes
  le : r'.bytes ≤ r.bytes + max
  frame : ∀ i, i < r.bytes ∨ r'.bytes ≤ i → r'.data i = r.data i

namespace RxAppended

variable {m n : Nat} {r r' r'' : RxData}

theorem refl (n : Nat) (r : RxData) : RxAppended n r r :=
  ⟨le_rfl, Nat.le_add_right _ _, fun _ _ => rfl⟩

theorem trans (h : RxAppended m r r') (h' : RxAppended n r' r'') : RxAppended (m + n) r r'' := by
  have hge := h.ge
  have hge' := h'.ge
  refine ⟨hge.trans hge', ?_, fun i hi => ?_⟩
  · have hle := h.le
    have hle' := h'.le
    omega
  · rw [h'.frame i (by omega), h.frame i (by omega)]

end RxAppended

section

variable {clk : Nat → UInt64} {s : RxState} {rxData : RxData}

/-- A round of the output loop copies at most one packet, whatever `data_length` is. -/
theorem outputRound_appended (failed : Bool) (dataValid : Nat → Bool) (o : OutputState) (i : Nat) :
    RxAppended paramPacketLength o.rxData (outputRound clk failed dataValid o i).rxData := by
  rw [outputRound]
  split_ifs
  · have hlen : (read32 (limitLength (o.dataBlocks i)) 0).toNat ≤ paramPacketLength := by
      rw [read32_limitLength]
      exact Nat.min_le_right _ _
    refine ⟨Nat.le_add_right _ _, Nat.add_le_add_left hlen _, fun j hj => ?_⟩
    rcases hj with hj | hj
    · exact memcpy_of_lt hj
    · exact memcpy_of_ge (by rwa [length_slice])
  · exact .refl _ _

theorem outputLoop_appended (failed : Bool) (dataValid : Nat → Bool) (n : Nat) (o : OutputState) :
    RxAppended (paramPacketLength * n) o.rxData (outputLoop clk failed dataValid n o).rxData := by
  induction n with
  | zero => exact .refl _ _
  | succ n ih =>
    rw [outputLoop, List.range_succ, List.foldl_append, ← outputLoop, Nat.mul_succ]
    exact ih.trans (outputRound_appended failed dataValid _ n)

/-- The most that a flush appends. -/
@[simp] abbrev flushSize : Nat := paramPacketLength * paramDataPacketsPerBlock

theorem flushBlock_appended {idx : Nat} {r : RxState × RxData}
    (h : flushBlock clk s idx rxData = some r) : RxAppended flushSize rxData r.2 := by
  rw [flushBlock] at h
  simp only [Option.bind_eq_bind, Option.bind_eq_some_iff] at h
  obtain ⟨⟨blocks, fecBlocks⟩, -, h⟩ := h
  cases h
  exact outputLoop_appended _ _ _ ⟨_, rxData, blocks⟩

theorem flushOldest_appended {idx : Nat} {r : RxState × RxData × Option Int}
    (h : flushOldest clk s idx rxData = some r) : RxAppended flushSize rxData r.2.1 := by
  simp only [flushOldest] at h
  split_ifs at h
  · obtain ⟨r, hflush, rfl⟩ := Option.map_eq_some_iff.mp h
    exact flushBlock_appended hflush
  · cases h
    exact .refl _ _

theorem openBlock_appended {blockNum : Int} {txRestart : Bool} {r : RxState × RxData × Option Int}
    (h : openBlock clk s blockNum txRestart rxData = some r) :
    RxAppended flushSize rxData r.2.1 := by
  rw [openBlock] at h
  simp only [Option.bind_eq_bind, Option.bind_eq_some_iff] at h
  obtain ⟨r', hflush, h⟩ := h
  cases h
  have happended := flushOldest_appended hflush
  exact happended

theorem processPayload_appended {pd : PayloadData} {r : RxStep}
    (h : processPayload clk s pd rxData = some r) : RxAppended flushSize rxData r.rxData := by
  rw [processPayload_eq, makeRoom] at h
  obtain ⟨room, hroom, h⟩ := Option.bind_eq_some_iff.mp h
  cases h
  split_ifs at hroom
  · exact openBlock_appended hroom
  · cases hroom
    exact .refl _ _

end

/-! ## What the slots hold -/

/-- The packet has the number of the slot `j` of a block. -/
def PayloadData.Numbered (pd : PayloadData) (blockNum : Int) (j : Nat) : Prop :=
  (pd.sequenceNumber.toNat : Int) = 12 * blockNum + j

instance (pd : PayloadData) (blockNum : Int) (j : Nat) : Decidable (pd.Numbered blockNum j) :=
  inferInstanceAs (Decidable (_ = _))

/-- The first packet with the number of the slot. -/
def firstPacket (handed : List PayloadData) (blockNum : Int) (j : Nat) : Option PayloadData :=
  handed.find? fun pd => decide (pd.Numbered blockNum j)

/-- A slot holds the first packet with its number, or nothing. -/
structure SlotHolds (p : PacketBuffer) (first : Option PayloadData) : Prop where
  crc : p.valid = p.crcCorrect
  valid : p.valid = first.isSome
  data : ∀ pd ∈ first, p.len = sizeSub pd.size sizeofWifiPacketHeader ∧
    slice p.data 0 p.len = slice pd.data sizeofWifiPacketHeader p.len

theorem numbered_iff {pd : PayloadData} {blockNum : Int} {j : Nat} (hj : j < packetsPerBlock) :
    pd.Numbered blockNum j ↔ (pd.blockNum : Int) = blockNum ∧ pd.packetNum = j := by
  simp only [PayloadData.Numbered, PayloadData.blockNum, PayloadData.packetNum]
  simp only [packetsPerBlock, paramDataPacketsPerBlock, paramFecPacketsPerBlock] at hj
  omega

theorem slotHolds_fillSlot {pd : PayloadData} (hcrc : pd.crcOk = true) (p : PacketBuffer) :
    SlotHolds (fillSlot p pd) (some pd) := by
  refine ⟨hcrc.symm, rfl, ?_⟩
  rintro _ ⟨⟩
  have hcopy := slice_memcpy p.data 0
    (slice pd.data sizeofWifiPacketHeader (sizeSub pd.size sizeofWifiPacketHeader))
  rw [length_slice] at hcopy
  exact ⟨rfl, hcopy⟩

theorem slotHolds_none {p : PacketBuffer} (hvalid : p.valid = false) (hcrc : p.crcCorrect = false) :
    SlotHolds p none :=
  ⟨hvalid.trans hcrc.symm, hvalid, fun _ h => nomatch h⟩

section

variable {handed : List PayloadData} {pd : PayloadData} {blockNum : Int} {j : Nat}

theorem firstPacket_append : firstPacket (handed ++ [pd]) blockNum j =
    (firstPacket handed blockNum j).or (if pd.Numbered blockNum j then some pd else none) := by
  rw [firstPacket, List.find?_append, ← firstPacket, List.find?_singleton]
  simp

theorem firstPacket_append_of_not (h : ¬pd.Numbered blockNum j) :
    firstPacket (handed ++ [pd]) blockNum j = firstPacket handed blockNum j := by
  rw [firstPacket_append, if_neg h, Option.or_none]

end

/-! ## Runs -/

/-- A call of `process_payload`. -/
structure RxCall where
  pd : PayloadData
  rxData : RxData

/-- The packet opens a block: its number is above all seen so far, or far below. -/
def Opens (s : RxState) (pd : PayloadData) : Prop :=
  s.maxBlockNum < pd.blockNum ∨ (pd.blockNum : Int) + 128 < s.maxBlockNum

instance (s : RxState) (pd : PayloadData) : Decidable (Opens s pd) :=
  inferInstanceAs (Decidable (_ ∨ _))

/-- A run of `process_payload`, and the packets handed over since the block was opened. -/
structure BufferRun where
  state : RxState
  handed : List PayloadData

namespace BufferRun

def start (malloc : Nat → Buf) : BufferRun := ⟨wfbRxStreamInit malloc, []⟩

/-- A call; the packet that opens a block is the first one of it. -/
def step (clk : Nat → UInt64) (run : BufferRun) (call : RxCall) : Option BufferRun :=
  (processPayload clk run.state call.pd call.rxData).map fun r =>
    ⟨r.state, if Opens run.state call.pd then [call.pd] else run.handed ++ [call.pd]⟩

/-- **What holds between two calls.** -/
structure Holds (run : BufferRun) : Prop where
  inv : RxInv run.state
  slot : ∀ j < packetsPerBlock,
    SlotHolds (run.state.packets j) (firstPacket run.handed run.state.blockNum j)

variable {run : BufferRun} {pd : PayloadData} {r : RxStep}

theorem holds_start (malloc : Nat → Buf) : (start malloc).Holds :=
  ⟨(wfbRxStreamInit_fresh malloc).inv, fun _ _ => slotHolds_none rfl rfl⟩

/-- After the packet that opened the block. -/
theorem Holds.opened (hcrc : pd.crcOk = true) (hinv : RxInv r.state) (h : Opened pd r) :
    Holds ⟨r.state, [pd]⟩ := by
  refine ⟨hinv, fun j hj => ?_⟩
  have hnumbered : pd.Numbered r.state.blockNum j ↔ pd.packetNum = j := by
    rw [numbered_iff hj, h.block]
    exact and_iff_right rfl
  have hfirst := @firstPacket_append [] pd r.state.blockNum j
  by_cases hne : pd.packetNum = j
  · obtain ⟨p, hp⟩ := h.slot
    rw [if_pos (hnumbered.mpr hne)] at hfirst
    rw [← hne] at hfirst ⊢
    rw [hp]
    exact hfirst ▸ slotHolds_fillSlot hcrc p
  · obtain ⟨hvalid, hcrcCorrect⟩ := h.only j hj (Ne.symm hne)
    rw [if_neg fun hno => hne (hnumbered.mp hno)] at hfirst
    exact hfirst ▸ slotHolds_none hvalid hcrcCorrect

/-- After a packet of the block whose slot was free. -/
theorem Holds.stored (h : run.Holds) (hcrc : pd.crcOk = true) (hinv : RxInv r.state)
    (hblock : run.state.maxBlockNum = pd.blockNum)
    (hfree : (run.state.packets pd.packetNum).valid = false)
    (hnum : r.state.blockNum = run.state.blockNum)
    (hpackets : r.state.packets = Function.update run.state.packets pd.packetNum
      (fillSlot (run.state.packets pd.packetNum) pd)) :
    Holds ⟨r.state, run.handed ++ [pd]⟩ := by
  refine ⟨hinv, fun j hj => ?_⟩
  have hnumbered : pd.Numbered run.state.blockNum j ↔ pd.packetNum = j := by
    rw [numbered_iff hj, h.inv.block, hblock]
    exact and_iff_right rfl
  simp only [hnum, hpackets]
  by_cases hne : j = pd.packetNum
  · subst hne
    have hnone : firstPacket run.handed run.state.blockNum pd.packetNum = none := by
      rw [← Option.not_isSome_iff_eq_none, ← (h.slot _ hj).valid, hfree]
      decide
    rw [firstPacket_append, hnone, if_pos (hnumbered.mpr rfl), Function.update_self]
    exact slotHolds_fillSlot hcrc _
  · rw [firstPacket_append_of_not fun hno => hne (hnumbered.mp hno).symm,
      Function.update_of_ne hne]
    exact h.slot j hj

/-- After a packet that is dropped: it has not the number of a free slot. -/
theorem Holds.dropped (h : run.Holds)
    (hdrop : ∀ j < packetsPerBlock, pd.Numbered run.state.blockNum j →
      (run.state.packets j).valid = true) :
    Holds ⟨run.state, run.handed ++ [pd]⟩ := by
  refine ⟨h.inv, fun j hj => ?_⟩
  have hkeep : firstPacket (run.handed ++ [pd]) run.state.blockNum j =
      firstPacket run.handed run.state.blockNum j := by
    by_cases hnumbered : pd.Numbered run.state.blockNum j
    · have hsome := (h.slot j hj).valid.symm.trans (hdrop j hj hnumbered)
      obtain ⟨first, hfirst⟩ := Option.isSome_iff_exists.mp hsome
      rw [firstPacket_append, hfirst, Option.some_or]
    · exact firstPacket_append_of_not hnumbered
  simp only [hkeep]
  exact h.slot j hj

/-- **One call.** -/
theorem Holds.step (clk : Nat → UInt64) (h : run.Holds) {call : RxCall}
    (hcrc : call.pd.crcOk = true) :
    ∃ run', run.step clk call = some run' ∧ run'.Holds := by
  obtain ⟨pd, rxData⟩ := call
  change pd.crcOk = true at hcrc
  obtain ⟨r, hr, hprocessed, hinv⟩ := processPayload_spec clk h.inv hcrc rxData
  have hstep : run.step clk ⟨pd, rxData⟩ =
      some ⟨r.state, if Opens run.state pd then [pd] else run.handed ++ [pd]⟩ := by
    rw [BufferRun.step, hr]
    rfl
  have hge := h.inv.ge
  refine ⟨_, hstep, ?_⟩
  cases hprocessed with
  | flush hnew _ _ _ _ _ hopened =>
    rw [if_pos (.inl hnew)]
    exact .opened hcrc hinv hopened
  | «open» hnew _ _ hopened =>
    have hopens : Opens run.state pd := by
      rcases hnew with hfirst | hfar
      · exact .inl (by omega)
      · exact .inr hfar
    rw [if_pos hopens]
    exact .opened hcrc hinv hopened
  | store hblock hfree _ _ _ hnum hpackets =>
    rw [if_neg (by rintro (hlt | hlt) <;> omega)]
    exact h.stored hcrc hinv hblock hfree hnum hpackets
  | duplicate hblock hfilled hr =>
    subst hr
    rw [if_neg (by rintro (hlt | hlt) <;> omega)]
    refine h.dropped fun j hj hnumbered => ?_
    rwa [← ((numbered_iff hj).mp hnumbered).2]
  | late hlt hge hr =>
    subst hr
    rw [if_neg (by rintro (hlt | hlt) <;> omega)]
    refine h.dropped fun j hj hnumbered => ?_
    have hblock := ((numbered_iff hj).mp hnumbered).1
    rw [h.inv.block] at hblock
    omega

theorem Holds.runs (clk : Nat → UInt64) {calls : List RxCall} (h : run.Holds)
    (hcrc : ∀ call ∈ calls, call.pd.crcOk = true) :
    ∃ run', calls.foldlM (BufferRun.step clk) run = some run' ∧ run'.Holds := by
  induction calls generalizing run with
  | nil => exact ⟨run, rfl, h⟩
  | cons call calls ih =>
    obtain ⟨next, hnext, hholds⟩ := h.step clk (hcrc call List.mem_cons_self)
    rw [List.foldlM_cons, hnext]
    exact ih hholds fun x hx => hcrc x (List.mem_cons_of_mem _ hx)

end BufferRun

/-! ## Which block it is -/

/-- The packets handed over since the last restart, which is one more than 128 blocks back. -/
def sinceRestart (pds : List PayloadData) : List PayloadData :=
  pds.foldl (fun since pd => if pd.blockNum + 128 < highest since then [pd] else since ++ [pd]) []

theorem sinceRestart_concat (pds : List PayloadData) (pd : PayloadData) :
    sinceRestart (pds ++ [pd]) = if pd.blockNum + 128 < highest (sinceRestart pds) then [pd]
      else sinceRestart pds ++ [pd] := by
  rw [sinceRestart, List.foldl_append]
  rfl

/-- The newest block is the highest one since the last restart. -/
def Newest (s : RxState) (pds : List PayloadData) : Prop :=
  s.maxBlockNum = if pds = [] then -1 else (highest (sinceRestart pds) : Int)

/-- **One packet more.** -/
theorem Newest.step {s : RxState} {pds : List PayloadData} {pd : PayloadData} {rxData : RxData}
    {r : RxStep} (h : Newest s pds) (hp : Processed s pd rxData r) :
    Newest r.state (pds ++ [pd]) := by
  have hhigh : s.maxBlockNum = -1 ∧ pds = [] ∨ s.maxBlockNum = highest (sinceRestart pds) := by
    rw [Newest] at h
    split_ifs at h with hpds
    · exact .inl ⟨h, hpds⟩
    · exact .inr h
  have hone : highest [pd] = pd.blockNum := Nat.zero_max _
  rw [Newest, if_neg (by simp), sinceRestart_concat]
  cases hp with
  | flush hnew _ _ _ _ _ hopened =>
    rw [if_neg (by omega), highest_concat, Nat.max_eq_right (by omega), hopened.max]
  | «open» hnew _ _ hopened =>
    rw [hopened.max]
    rcases hhigh with ⟨-, rfl⟩ | hhigh
    · exact congrArg Nat.cast hone.symm
    · rw [if_pos (by omega), hone]
  | store hblock _ _ _ hmax _ _ _ =>
    rw [if_neg (by omega), highest_concat, Nat.max_eq_left (by omega)]
    omega
  | duplicate hblock _ hr =>
    have hmax : r.state.maxBlockNum = s.maxBlockNum := by rw [hr]
    rw [if_neg (by omega), highest_concat, Nat.max_eq_left (by omega)]
    omega
  | late hlt hge hr =>
    have hmax : r.state.maxBlockNum = s.maxBlockNum := by rw [hr]
    rw [if_neg (by omega), highest_concat, Nat.max_eq_left (by omega)]
    omega

/-- The newest block of a run. -/
theorem BufferRun.newest (clk : Nat → UInt64) {calls : List RxCall} {run run' : BufferRun}
    {pds : List PayloadData} (hrun : calls.foldlM (BufferRun.step clk) run = some run')
    (h : run.Holds) (hcrc : ∀ call ∈ calls, call.pd.crcOk = true) (hnew : Newest run.state pds) :
    Newest run'.state (pds ++ calls.map RxCall.pd) := by
  induction calls generalizing run pds with
  | nil =>
    obtain rfl := Option.some.inj hrun
    rwa [List.map_nil, List.append_nil]
  | cons call calls ih =>
    have hcall := hcrc call List.mem_cons_self
    obtain ⟨next, hnext, hholds⟩ := h.step clk hcall
    rw [List.foldlM_cons, hnext] at hrun
    obtain ⟨r, hr, hprocessed, -⟩ := processPayload_spec clk h.inv hcall call.rxData
    rw [BufferRun.step, hr] at hnext
    obtain rfl := Option.some.inj hnext
    have := ih hrun hholds (fun x hx => hcrc x (List.mem_cons_of_mem _ hx)) (hnew.step hprocessed)
    rwa [List.append_assoc] at this

/-- **The block buffer.** After any calls the buffer is new, or belongs to the newest block, which
is the highest one handed over since the last restart; a slot is valid exactly if its checksum is
correct, and exactly if a packet with its number was handed over since the block was opened, and it
holds the first one. The next call on an empty `rx_data` appends at most 8192 bytes, and writes
nothing behind them. -/
theorem rx_block_buffer (clk : Nat → UInt64) (malloc : Nat → Buf) (calls : List RxCall)
    (hcrc : ∀ call ∈ calls, call.pd.crcOk = true) :
    ∃ run, calls.foldlM (BufferRun.step clk) (.start malloc) = some run ∧
      (run.state.blockNum = -1 ∧ run.state.maxBlockNum = -1 ∨
        run.state.blockNum = run.state.maxBlockNum) ∧
      run.state.blockNum = (if calls = [] then -1
        else (highest (sinceRestart (calls.map RxCall.pd)) : Int)) ∧
      (∀ j < packetsPerBlock,
        ((run.state.packets j).valid = true ↔ (run.state.packets j).crcCorrect = true) ∧
        ((run.state.packets j).valid = true ↔
          ∃ pd ∈ run.handed, pd.Numbered run.state.blockNum j) ∧
        ∀ pd, firstPacket run.handed run.state.blockNum j = some pd →
          (run.state.packets j).len = sizeSub pd.size sizeofWifiPacketHeader ∧
          slice (run.state.packets j).data 0 (run.state.packets j).len =
            slice pd.data sizeofWifiPacketHeader (run.state.packets j).len) ∧
      ∀ pd data, pd.crcOk = true → ∃ r, processPayload clk run.state pd ⟨0, data⟩ = some r ∧
        r.rxData.bytes ≤ 8192 ∧ r.rxData.bytes ≤ rxDataSize ∧
        ∀ i, r.rxData.bytes ≤ i → r.rxData.data i = data i := by
  have hstart := BufferRun.holds_start malloc
  obtain ⟨run, hrun, hholds⟩ := hstart.runs clk hcrc
  have hnewest : Newest run.state ([] ++ calls.map RxCall.pd) :=
    BufferRun.newest clk hrun hstart hcrc rfl
  simp only [Newest, List.nil_append, List.map_eq_nil_iff] at hnewest
  refine ⟨run, hrun, .inr hholds.inv.block, hholds.inv.block.trans hnewest, fun j hj => ?_,
    fun pd data hok => ?_⟩
  · have hslot := hholds.slot j hj
    refine ⟨by rw [hslot.crc], ?_, hslot.data⟩
    rw [hslot.valid, firstPacket, List.find?_isSome]
    simp only [decide_eq_true_eq]
  · obtain ⟨r, hr, -, -⟩ := processPayload_spec clk hholds.inv hok ⟨0, data⟩
    have happended := processPayload_appended hr
    have hle : r.rxData.bytes ≤ 8192 := by simpa using happended.le
    refine ⟨r, hr, hle, hle.trans (by decide), fun i hi => happended.frame i (.inr hi)⟩

/-- A packet with nothing behind its number. -/
def numberedCall (seq : UInt32) : RxCall := ⟨numberedPacket seq, 0, fun _ => 0⟩

/-- The packets 0 and 2400, and a restart with the packet 1. -/
theorem rx_block_buffer_restart :
    ∃ run, [numberedCall 0, numberedCall 2400, numberedCall 1].foldlM
        (BufferRun.step fun _ => 0) (.start fun _ _ => 0) = some run ∧
      run.state.blockNum = 0 ∧ ∀ j < packetsPerBlock, (run.state.packets j).valid = true ↔
        ∃ pd ∈ run.handed, pd.Numbered run.state.blockNum j := by
  obtain ⟨run, hrun, -, hblock, hslot, -⟩ := rx_block_buffer (fun _ => 0) (fun _ _ => 0)
    [numberedCall 0, numberedCall 2400, numberedCall 1] (by simp [numberedCall, numberedPacket])
  exact ⟨run, hrun, hblock.trans (by decide), fun j hj => (hslot j hj).2.1⟩

end Rhex
