import Mathlib
import Rhex.StreamRx

/-!
# The counters of the video receiver

A flush counts the block, counts its packets as received or lost, and counts the block as damaged
when it cannot be repaired. A restart of the transmitter sets these counters to zero.

* `omitted` — the data packets that a flush leaves out.
* `RxState.counts` — the counters; `processPayload_counts` — what one call makes of them.
* `StatsRun` — a run that remembers the blocks flushed since the last restart.
* `rx_statistics` — the counters of a run agree with each other and with what was written out.
-/

namespace Rhex

open Memory

/-! ## Data packets that are left out -/

/-- The data packets that a flush does not write out. -/
def omitted (packets : Nat → PacketBuffer) : List Nat :=
  (List.range paramDataPacketsPerBlock).filter fun di =>
    !(repairable packets || dataThere packets di)

theorem flatMap_filter {α β : Type} (p : α → Bool) (f : α → List β) (l : List α) :
    (l.filter p).flatMap f = l.flatMap fun a => if p a then f a else [] := by
  induction l with
  | nil => rfl
  | cons a l ih =>
    rw [List.filter_cons, List.flatMap_cons, ← ih]
    split_ifs
    · rfl
    · rfl

theorem flushOutput_eq (packets : Nat → PacketBuffer) (blocks : Nat → Buf) :
    flushOutput packets blocks =
      ((List.range paramDataPacketsPerBlock).filter fun di => di ∉ omitted packets).flatMap
        fun di => blockPayload (blocks di) := by
  rw [flushOutput, flatMap_filter]
  apply List.flatMap_congr
  intro di hdi
  simp [omitted, List.mem_range.mp hdi]

/-- A block from which something is left out is one that cannot be repaired. -/
theorem omitted_ne_nil_iff (packets : Nat → PacketBuffer) :
    omitted packets ≠ [] ↔ repairable packets = false := by
  constructor
  · intro h
    obtain ⟨di, hdi⟩ := List.exists_mem_of_ne_nil _ h
    have hfails := (List.mem_filter.mp hdi).2
    cases hrep : repairable packets with
    | false => rfl
    | true => simp [hrep] at hfails
  · intro hrep
    -- More data packets are missing than FEC packets are there, so at least one is.
    have hlt : 0 < countMissing (dataThere packets) paramDataPacketsPerBlock := by
      rw [repairable, decide_eq_false_iff_not] at hrep
      omega
    obtain ⟨di, hdi, hmiss⟩ := List.countP_pos_iff.mp hlt
    have hmem : di ∈ omitted packets := List.mem_filter.mpr ⟨hdi, by simpa [hrep] using hmiss⟩
    exact List.ne_nil_of_mem hmem

/-! ## The counters -/

/-- The counters of blocks and packets. -/
structure Counts where
  receivedBlock : UInt32
  damagedBlock : UInt32
  lostPacket : UInt32
  receivedPacket : UInt32

def RxState.counts (s : RxState) : Counts :=
  ⟨s.rxStatus.receivedBlockCnt, s.rxStatus.damagedBlockCnt, s.rxStatus.lostPacketCnt,
    s.rxStatus.receivedPacketCnt⟩

/-- The packets of a block that are missing. -/
def missing (packets : Nat → PacketBuffer) : Nat :=
  countMissing (dataThere packets) paramDataPacketsPerBlock +
    countMissing (fecThere packets) paramFecPacketsPerBlock

/-- A block is counted. -/
def Counts.count (c : Counts) (missing : Nat) (damaged : Bool) : Counts where
  receivedBlock := c.receivedBlock + 1
  damagedBlock := if damaged then c.damagedBlock + 1 else c.damagedBlock
  lostPacket := c.lostPacket + .ofNat missing
  receivedPacket := c.receivedPacket + .ofNat packetsPerBlock - .ofNat missing

theorem Counts.count_packets {c : Counts}
    (h : c.receivedPacket + c.lostPacket = 12 * c.receivedBlock) (missing : Nat) (damaged : Bool) :
    (c.count missing damaged).receivedPacket + (c.count missing damaged).lostPacket =
      12 * (c.count missing damaged).receivedBlock := by
  have htwelve : UInt32.ofNat packetsPerBlock = 12 := rfl
  simp only [Counts.count, htwelve]
  grind

section

variable {clk : Nat → UInt64} {s : RxState} {rxData : RxData}

theorem measureRate_counts (s : RxState) (nrBytes : Nat) :
    (measureRate clk s nrBytes).counts = s.counts := by
  simp only [measureRate]
  split_ifs
  · rfl
  · rfl

theorem outputLoop_counts (failed : Bool) (dataValid : Nat → Bool) (n : Nat) (o : OutputState) :
    (outputLoop clk failed dataValid n o).s.counts = o.s.counts := by
  induction n with
  | zero => rfl
  | succ n ih =>
    rw [outputLoop, List.range_succ, List.foldl_append, ← outputLoop, List.foldl_cons,
      List.foldl_nil, outputRound]
    split_ifs
    · exact (measureRate_counts _ _).trans ih
    · exact ih

theorem countPackets_counts (clk : Nat → UInt64) (s : RxState) (datasMissing fecsMissing : Nat) :
    (countPackets clk s datasMissing fecsMissing).counts = { s.counts with
      lostPacket := s.counts.lostPacket + .ofNat (datasMissing + fecsMissing)
      receivedPacket := s.counts.receivedPacket + .ofNat packetsPerBlock -
        .ofNat (datasMissing + fecsMissing) } := by
  simp only [countPackets]
  by_cases h : clk s.ticks - s.pmPrevTime > 220 * timeMs
  · rw [if_pos h]
    rfl
  · rw [if_neg h]
    rfl

theorem countBlock_counts (s : RxState) (st : SplitState) (failed : Bool) :
    (countBlock clk s st failed).counts =
      s.counts.count (st.datasMissing + st.fecsMissing) failed := by
  have hpackets := countPackets_counts clk { s with rxStatus :=
    { s.rxStatus with receivedBlockCnt := s.rxStatus.receivedBlockCnt + 1 } }
    st.datasMissing st.fecsMissing
  simp only [RxState.counts, Counts.mk.injEq] at hpackets
  obtain ⟨hblock, hdamaged, hlost, hreceived⟩ := hpackets
  rw [countBlock]
  cases failed
  · simp [RxState.counts, Counts.count, hblock, hdamaged, hlost, hreceived]
  · simp [RxState.counts, Counts.count, hblock, hdamaged, hlost, hreceived]

theorem flushBlock_counts {idx : Nat} {r : RxState × RxData}
    (h : flushBlock clk s idx rxData = some r) :
    r.1.counts = s.counts.count (missing (s.blockBufferList idx).packetBufferList)
      (!repairable (s.blockBufferList idx).packetBufferList) := by
  have hsplit := split_spec (s.blockBufferList idx).packetBufferList
  rw [flushBlock] at h
  simp only [Option.bind_eq_bind, Option.bind_eq_some_iff] at h
  obtain ⟨⟨blocks, fecBlocks⟩, -, h⟩ := h
  cases h
  refine (outputLoop_counts _ _ _ _).trans ?_
  rw [countBlock_counts, reconstructionFailed_eq, hsplit.datasMissing, hsplit.fecsMissing]
  rfl

theorem flushOldest_counts {idx : Nat} {r : RxState × RxData × Option Int}
    (h : flushOldest clk s idx rxData = some r) :
    (r.2.2 = none ∧ r.1.counts = s.counts) ∨
      (r.2.2 = some (s.blockBufferList idx).blockNum ∧
        r.1.counts = s.counts.count (missing (s.blockBufferList idx).packetBufferList)
          (!repairable (s.blockBufferList idx).packetBufferList)) := by
  simp only [flushOldest] at h
  split_ifs at h with hopen
  · obtain ⟨r, hflush, rfl⟩ := Option.map_eq_some_iff.mp h
    exact .inr ⟨rfl, flushBlock_counts hflush⟩
  · cases h
    exact .inl ⟨rfl, rfl⟩

theorem openBlock_restart {blockNum : Int} {r : RxState × RxData × Option Int}
    (h : openBlock clk s blockNum true rxData = some r) :
    r.1.counts = ⟨0, 0, 0, 0⟩ ∧ r.2.2 = none := by
  rw [openBlock_empty clk (by simpa using (restartRx_spec s).1)] at h
  cases h
  exact ⟨rfl, rfl⟩

theorem openBlock_counts {blockNum : Int} {r : RxState × RxData × Option Int}
    (h : openBlock clk s blockNum false rxData = some r) :
    (r.2.2 = none ∧ r.1.counts = s.counts) ∨ (r.2.2 = some s.blockNum ∧
      r.1.counts = s.counts.count (missing s.packets) (!repairable s.packets)) := by
  rw [openBlock] at h
  simp only [minBlockNumIdx_eq, Bool.false_eq_true, if_false, Option.bind_eq_bind,
    Option.bind_eq_some_iff] at h
  obtain ⟨r', hflush, h⟩ := h
  cases h
  have hcounts := flushOldest_counts hflush
  exact hcounts

theorem storePacket_counts (s : RxState) (blockNum : Int) (pd : PayloadData) :
    (storePacket s blockNum pd).1.counts = s.counts := by
  rw [storePacket]
  split
  · rfl
  · dsimp only
    split_ifs
    · rfl
    · rfl

end

/-- A packet far behind the newest block: the transmitter was restarted. -/
def txRestart (s : RxState) (pd : PayloadData) : Bool :=
  decide ((pd.blockNum : Int) + 128 * paramBlockBuffers < s.maxBlockNum)

/-- **What one call of `process_payload`** on an intact packet makes of the counters. -/
inductive CountsStep (s : RxState) (pd : PayloadData) (r : RxStep) : Prop where
  | restart (h : txRestart s pd = true) (hcounts : r.state.counts = ⟨0, 0, 0, 0⟩)
      (hflushed : r.flushed = none)
  | flush (h : txRestart s pd = false)
      (hcounts : r.state.counts = s.counts.count (missing s.packets) (!repairable s.packets))
      (hflushed : r.flushed = some s.blockNum)
  | same (h : txRestart s pd = false) (hcounts : r.state.counts = s.counts)
      (hflushed : r.flushed = none)

theorem processPayload_counts {clk : Nat → UInt64} {s : RxState} {pd : PayloadData}
    {rxData : RxData} {r : RxStep} (hcrc : pd.crcOk = true)
    (h : processPayload clk s pd rxData = some r) : CountsStep s pd r := by
  rw [processPayload_eq, makeRoom, ← txRestart] at h
  obtain ⟨room, hroom, h⟩ := Option.bind_eq_some_iff.mp h
  cases h
  have hstore := storePacket_counts room.1 pd.blockNum pd
  cases hrestart : txRestart s pd with
  | true =>
    rw [hrestart, if_pos ⟨.inr rfl, hcrc⟩] at hroom
    obtain ⟨hcounts, hflushed⟩ := openBlock_restart hroom
    exact .restart hrestart (hstore.trans hcounts) hflushed
  | false =>
    simp only [hrestart, hcrc, Bool.false_eq_true, or_false, and_true] at hroom
    split_ifs at hroom
    · rcases openBlock_counts hroom with ⟨hflushed, hcounts⟩ | ⟨hflushed, hcounts⟩
      · exact .same hrestart (hstore.trans hcounts) hflushed
      · exact .flush hrestart (hstore.trans hcounts) hflushed
    · cases hroom
      exact .same hrestart hstore rfl

/-! ## Runs -/

/-- A block that was flushed: the packets of it that had come, and what was written out. -/
structure FlushedBlock where
  packets : Nat → PacketBuffer
  output : List UInt8

/-- Was a data packet left out? -/
def FlushedBlock.incomplete (f : FlushedBlock) : Bool := !(omitted f.packets).isEmpty

theorem FlushedBlock.incomplete_eq (f : FlushedBlock) :
    f.incomplete = !repairable f.packets := by
  have h := omitted_ne_nil_iff f.packets
  rw [incomplete]
  cases hrep : repairable f.packets
  · rw [List.isEmpty_eq_false_iff.mpr (h.mpr hrep)]
  · rw [List.isEmpty_iff.mpr (by_contra fun hne => absurd (hrep.symm.trans (h.mp hne)) (by decide))]

/-- A run of `process_payload`: its state, the buffer of `rx_data`, what has been appended to
`rx_data` so far, and the blocks flushed since the last restart. -/
structure StatsRun where
  state : RxState
  data : Buf
  out : List UInt8
  since : List FlushedBlock

namespace StatsRun

def start (malloc : Nat → Buf) (data : Buf) : StatsRun := ⟨wfbRxStreamInit malloc, data, [], []⟩

/-- The run after a call on the packet `pd`. -/
def next (run : StatsRun) (pd : PayloadData) (r : RxStep) : StatsRun where
  state := r.state
  data := r.rxData.data
  out := run.out ++ r.rxData.content
  since := (if txRestart run.state pd then [] else run.since) ++
    (r.flushed.map fun _ => ⟨run.state.packets, r.rxData.content⟩).toList

end StatsRun

/-- One packet of a run. `video_main` sets `rx_data->bytes` to 0 before every call. -/
def statsStep (clk : Nat → UInt64) (run : StatsRun) (pd : PayloadData) : Option StatsRun :=
  (processPayload clk run.state pd ⟨0, run.data⟩).map (run.next pd)

/-- The counters agree with each other and with the blocks flushed since the last restart. -/
structure Consistent (run : StatsRun) : Prop where
  packets : run.state.rxStatus.receivedPacketCnt + run.state.rxStatus.lostPacketCnt =
    12 * run.state.rxStatus.receivedBlockCnt
  blocks : run.state.rxStatus.receivedBlockCnt = .ofNat run.since.length
  damaged : run.since.length < 2 ^ 32 →
    run.state.rxStatus.damagedBlockCnt ≤ run.state.rxStatus.receivedBlockCnt ∧
      run.state.rxStatus.damagedBlockCnt.toNat = run.since.countP FlushedBlock.incomplete
  /-- Of each of these blocks the data packets were written out that were not left out. -/
  written : ∀ f ∈ run.since, ∃ blocks, Decoded f.packets blocks ∧
    f.output = ((List.range paramDataPacketsPerBlock).filter fun di =>
      di ∉ omitted f.packets).flatMap fun di => blockPayload (blocks di)
  output : ∃ before, run.out = before ++ run.since.flatMap FlushedBlock.output

theorem Processed.output {s : RxState} {pd : PayloadData} {data : Buf} {r : RxStep}
    (h : Processed s pd ⟨0, data⟩ r) :
    (r.flushed = none ∧ r.rxData.content = []) ∨ ∃ num blocks, r.flushed = some num ∧
      Decoded s.packets blocks ∧ r.rxData.content = flushOutput s.packets blocks := by
  cases h with
  | flush _ _ blocks hdecoded hout hflushed _ => exact .inr ⟨_, blocks, hflushed, hdecoded, hout⟩
  | «open» _ hout hflushed _ => exact .inl ⟨hflushed, by rw [hout]; rfl⟩
  | store _ _ hout hflushed => exact .inl ⟨hflushed, by rw [hout]; rfl⟩
  | duplicate _ _ hr => exact .inl (hr ▸ ⟨rfl, rfl⟩)
  | late _ _ hr => exact .inl (hr ▸ ⟨rfl, rfl⟩)

/-- What holds between two calls. -/
structure CountedBlocks (run : StatsRun) : Prop where
  inv : RxInv run.state
  packets : run.state.counts.receivedPacket + run.state.counts.lostPacket =
    12 * run.state.counts.receivedBlock
  blocks : run.state.counts.receivedBlock = .ofNat run.since.length
  damaged : run.state.counts.damagedBlock = .ofNat (run.since.countP FlushedBlock.incomplete)
  written : ∀ f ∈ run.since, ∃ blocks, Decoded f.packets blocks ∧
    f.output = flushOutput f.packets blocks
  output : ∃ before, run.out = before ++ run.since.flatMap FlushedBlock.output

theorem CountedBlocks.consistent {run : StatsRun} (h : CountedBlocks run) : Consistent run := by
  refine ⟨h.packets, h.blocks, fun hlen => ?_, fun f hf => ?_, h.output⟩
  · have hle : run.since.countP FlushedBlock.incomplete ≤ run.since.length := List.countP_le_length
    have hblocks : run.state.rxStatus.receivedBlockCnt.toNat = run.since.length := by
      rw [show run.state.rxStatus.receivedBlockCnt = _ from h.blocks, UInt32.toNat_ofNat',
        Nat.mod_eq_of_lt hlen]
    have hdamaged : run.state.rxStatus.damagedBlockCnt.toNat =
        run.since.countP FlushedBlock.incomplete := by
      rw [show run.state.rxStatus.damagedBlockCnt = _ from h.damaged, UInt32.toNat_ofNat',
        Nat.mod_eq_of_lt (by omega)]
    exact ⟨UInt32.le_iff_toNat_le.mpr (by omega), hdamaged⟩
  · obtain ⟨blocks, hdecoded, hout⟩ := h.written f hf
    exact ⟨blocks, hdecoded, hout.trans (flushOutput_eq f.packets blocks)⟩

section

variable {run run' : StatsRun} (hinv : RxInv run'.state)
include hinv

/-- The counters are zero, and no block counts. -/
theorem CountedBlocks.zero (hcounts : run'.state.counts = ⟨0, 0, 0, 0⟩) (hsince : run'.since = []) :
    CountedBlocks run' := by
  refine ⟨hinv, ?_, ?_, ?_, ?_, run'.out, ?_⟩
  · rw [hcounts]
    rfl
  · rw [hcounts, hsince]
    rfl
  · rw [hcounts, hsince]
    rfl
  · rw [hsince]
    exact fun f hf => absurd hf List.not_mem_nil
  · rw [hsince]
    exact (List.append_nil run'.out).symm

theorem CountedBlocks.same (h : CountedBlocks run) (hcounts : run'.state.counts = run.state.counts)
    (hsince : run'.since = run.since) (hout : run'.out = run.out) : CountedBlocks run' :=
  ⟨hinv, hcounts ▸ h.packets, hsince ▸ hcounts ▸ h.blocks, hsince ▸ hcounts ▸ h.damaged,
    hsince ▸ h.written, hsince ▸ hout ▸ h.output⟩

/-- A block is counted. -/
theorem CountedBlocks.flush (h : CountedBlocks run) {f : FlushedBlock} {blocks : Nat → Buf}
    (hdecoded : Decoded f.packets blocks) (hwritten : f.output = flushOutput f.packets blocks)
    (hcounts : run'.state.counts =
      run.state.counts.count (missing f.packets) (!repairable f.packets))
    (hsince : run'.since = run.since ++ [f]) (hout : run'.out = run.out ++ f.output) :
    CountedBlocks run' := by
  obtain ⟨before, hbefore⟩ := h.output
  refine ⟨hinv, ?_, ?_, ?_, ?_, before, ?_⟩
  · rw [hcounts]
    exact Counts.count_packets h.packets _ _
  · rw [hcounts, hsince, List.length_append, List.length_singleton, UInt32.ofNat_add, ← h.blocks]
    rfl
  · rw [hcounts, hsince, List.countP_append, List.countP_singleton, f.incomplete_eq,
      UInt32.ofNat_add, ← h.damaged]
    cases repairable f.packets
    · rfl
    · exact (UInt32.add_zero _).symm
  · intro g hg
    rw [hsince] at hg
    rcases List.mem_append.mp hg with hg | hg
    · exact h.written g hg
    · obtain rfl := List.mem_singleton.mp hg
      exact ⟨blocks, hdecoded, hwritten⟩
  · rw [hout, hsince, List.flatMap_append, List.flatMap_singleton, hbefore, List.append_assoc]

end

/-- **One packet keeps the counters right.** -/
theorem CountedBlocks.step (clk : Nat → UInt64) {run : StatsRun} (h : CountedBlocks run)
    {pd : PayloadData} (hcrc : pd.crcOk = true) :
    ∃ run', statsStep clk run pd = some run' ∧ CountedBlocks run' := by
  obtain ⟨r, hr, hprocessed, hinv⟩ := processPayload_spec clk h.inv hcrc ⟨0, run.data⟩
  refine ⟨run.next pd r, by rw [statsStep, hr]; rfl, ?_⟩
  have hout : (run.next pd r).out = run.out ++ r.rxData.content := rfl
  have houtput := hprocessed.output
  cases processPayload_counts hcrc hr with
  | restart hrestart hcounts hflushed =>
    exact CountedBlocks.zero hinv hcounts (by simp [StatsRun.next, hrestart, hflushed])
  | same hrestart hcounts hflushed =>
    have hempty : r.rxData.content = [] := by simpa [hflushed] using houtput
    refine h.same hinv hcounts (by simp [StatsRun.next, hrestart, hflushed]) ?_
    rw [hout, hempty, List.append_nil]
  | flush hrestart hcounts hflushed =>
    obtain ⟨blocks, hdecoded, hcontent⟩ : ∃ blocks, Decoded run.state.packets blocks ∧
      r.rxData.content = flushOutput run.state.packets blocks := by simpa [hflushed] using houtput
    refine h.flush hinv (f := ⟨run.state.packets, r.rxData.content⟩) hdecoded hcontent hcounts ?_
      hout
    simp [StatsRun.next, hrestart, hflushed]

/-- **The counters of the receiver.** After any packets, received and lost packets make up the
blocks counted, and as many blocks count as damaged as were written out with a data packet left
out, since the last restart. -/
theorem rx_statistics (clk : Nat → UInt64) (malloc : Nat → Buf) (data : Buf)
    (dlv : List PayloadData) (hcrc : ∀ pd ∈ dlv, pd.crcOk = true) :
    ∃ run, dlv.foldlM (statsStep clk) (.start malloc data) = some run ∧ Consistent run := by
  have hrun : ∀ run, CountedBlocks run →
      ∃ run', dlv.foldlM (statsStep clk) run = some run' ∧ CountedBlocks run' := by
    induction dlv with
    | nil => exact fun run h => ⟨run, rfl, h⟩
    | cons pd dlv ih =>
      intro run h
      obtain ⟨next, hnext, hcounted⟩ := h.step clk (hcrc pd List.mem_cons_self)
      rw [List.foldlM_cons, hnext]
      exact ih (fun pd hpd => hcrc pd (List.mem_cons_of_mem _ hpd)) next hcounted
  have hstart : CountedBlocks (.start malloc data) :=
    CountedBlocks.zero (wfbRxStreamInit_fresh malloc).inv rfl rfl
  obtain ⟨run, hfold, hcounted⟩ := hrun _ hstart
  exact ⟨run, hfold, hcounted.consistent⟩

/-- An intact packet that holds its sequence number only. -/
def numberedPacket (seq : UInt32) : PayloadData := ⟨ofList (le32 seq), 4, true⟩

/-- A packet of a later block flushes the first, and a restart follows. -/
theorem rx_statistics_restart :
    ∃ run, [numberedPacket 0, numberedPacket 2400, numberedPacket 0].foldlM (statsStep fun _ => 0)
      (.start (fun _ _ => 0) fun _ => 0) = some run ∧ Consistent run :=
  rx_statistics (fun _ => 0) (fun _ _ => 0) (fun _ => 0)
    [numberedPacket 0, numberedPacket 2400, numberedPacket 0] (by simp [numberedPacket])

end Rhex
