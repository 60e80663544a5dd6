import Mathlib
import Rhex.Lib.Run
import Rhex.StreamTx

/-!
# When FEC packets are withheld

After a slow block `pb_transmit_block` withholds every other FEC packet of the next one. A block is
slow when it took longer than a microsecond per byte, less a third; but the time is in
nanoseconds. Each of the eight rounds of a block counts `skipfec` down, without a floor; the
variable is an `int`.

* `BlockPacket.Withheld` — the packets that are withheld at some value of `skipfec`.
* `pbTransmitBlock_skips` — which packets of a block are withheld, and `skipfec` after it.
* `FastRun` — a run that counts the blocks since the last slow one.
* `skipfec_in_range` — when `skipfec` stays an `int`.
* `pbTransmitBlock_fec` — when all packets are sent after a block that was not slow.
-/

namespace Rhex

open Memory

/-! ## One block -/

/-- The packet is a FEC packet that is withheld in a block that starts at `skipfec`. -/
def BlockPacket.Withheld (skipfec : Int) : BlockPacket → Prop
  | .data _ => False
  | .fec fi => fi % 2 = 1 ∧ fi < skipfec

/-- The sending loop after `r` rounds, as far as FEC packets are withheld. -/
structure Skipping (skipfec : Int) (r : Nat) (l : TransmitLoop) : Prop where
  counterfec : l.counterfec = min (min r paramFecPacketsPerBlock) skipfec.toNat
  withheld : ∀ p ∈ l.packets, p.frame = none ↔ p.kind.Withheld skipfec

/-- The FEC packet of a round is withheld when it has an odd turn. -/
theorem transmitFec_frame (packetLength nrFec : Nat) (fecBlocks : Nat → Buf) {l : TransmitLoop}
    (h : l.fi < nrFec) :
    ∃ frame,
      (transmitFec packetLength nrFec fecBlocks l).packets = l.packets ++
        [⟨.fec l.fi, .ofNat l.seqNrTmp, slice (fecBlocks l.fi) 0 packetLength, frame⟩] ∧
      (frame = none ↔ 1 ≤ l.s.skipfec ∧ l.counterfec % 2 = 1) ∧
      (transmitFec packetLength nrFec fecBlocks l).counterfec =
        if l.s.skipfec < 1 then l.counterfec else l.counterfec + 1 := by
  rw [transmitFec, if_pos h]
  by_cases hsend : l.s.skipfec < 1 ∨ l.counterfec % 2 = 0
  · simp only [if_pos hsend]
    refine ⟨_, rfl, ?_, trivial⟩
    simp only [reduceCtorEq, false_iff]
    omega
  · simp only [if_neg hsend]
    refine ⟨_, rfl, ?_, trivial⟩
    simp only [true_iff]
    omega

section

variable {packetLength : Nat} {dataBlocks fecBlocks : Nat → Buf} {s : TxState} {seq r : Nat}
  {l : TransmitLoop}

theorem Skipping.round (hl : Transmitting packetLength dataBlocks fecBlocks s seq r l)
    (hskip : Skipping s.skipfec r l) (hr : r < paramDataPacketsPerBlock) :
    Skipping s.skipfec (r + 1)
      (transmitRound packetLength paramDataPacketsPerBlock paramFecPacketsPerBlock dataBlocks
        fecBlocks l) := by
  obtain ⟨buf, frame, hdata, -⟩ := transmitData_spec hl hr
  obtain ⟨mid, hmid⟩ : ∃ mid,
    mid = transmitData packetLength paramDataPacketsPerBlock dataBlocks l := ⟨_, rfl⟩
  rw [transmitRound, ← hmid]
  rw [hdata] at hmid
  have hnow : mid.s.skipfec = s.skipfec - r := by rw [hmid]; exact hl.skipfec
  have hfi : mid.fi = min r paramFecPacketsPerBlock := by rw [hmid]; exact hl.fi
  have hcounter : mid.counterfec = min (min r paramFecPacketsPerBlock) s.skipfec.toNat := by
    rw [hmid]
    exact hskip.counterfec
  -- The data packet is sent.
  have hsent : ∀ p ∈ mid.packets, p.frame = none ↔ p.kind.Withheld s.skipfec := by
    intro p hp
    rw [hmid] at hp
    rcases List.mem_append.mp hp with hp | hp
    · exact hskip.withheld p hp
    · rw [List.mem_singleton.mp hp]
      simp [BlockPacket.Withheld]
  simp only [paramFecPacketsPerBlock] at hfi hcounter
  by_cases hf : mid.fi < paramFecPacketsPerBlock
  · obtain ⟨frame₂, hpackets, hnone, hcount⟩ := transmitFec_frame packetLength
      paramFecPacketsPerBlock fecBlocks hf
    simp only [paramFecPacketsPerBlock] at hf
    refine ⟨?_, fun p hp => ?_⟩
    · change (transmitFec packetLength paramFecPacketsPerBlock fecBlocks mid).counterfec = _
      rw [hcount, hnow]
      simp only [paramFecPacketsPerBlock]
      split_ifs <;> omega
    · simp only [hpackets] at hp
      rcases List.mem_append.mp hp with hp | hp
      · exact hsent p hp
      · rw [List.mem_singleton.mp hp, hnone, hnow]
        simp only [BlockPacket.Withheld]
        omega
  · rw [transmitFec, if_neg hf]
    refine ⟨?_, hsent⟩
    simp only [paramFecPacketsPerBlock] at hf ⊢
    omega

end

/-- What writing the next block takes, by the two readings around it. -/
def blockTook (env : TxEnv) (s : TxState) : Nat :=
  (env.clk (s.ticks + 1) - env.clk s.ticks).toNat

theorem measureBlock_skipfec (env : TxEnv) (s : TxState) (prevTime : UInt64) (nrBytes : Nat) :
    (measureBlock env s prevTime nrBytes).skipfec =
      if 3 * (env.clk s.ticks - prevTime).toNat > 2 * nrBytes then 4 else s.skipfec := by
  simp only [measureBlock]
  split_ifs <;> rfl

theorem transmitRound_ticks (packetLength nrData nrFec : Nat) (dataBlocks fecBlocks : Nat → Buf)
    (l : TransmitLoop) :
    (transmitRound packetLength nrData nrFec dataBlocks fecBlocks l).s.ticks = l.s.ticks := by
  simp only [transmitRound, transmitFec, transmitData, pbTransmitPacket]
  split_ifs <;> rfl

/-- **One block.** -/
theorem pbTransmitBlock_skips (env : TxEnv) (s : TxState) (packetLength : Nat) :
    ∃ s' block, pbTransmitBlock env s packetLength paramDataPacketsPerBlock
        paramFecPacketsPerBlock = some (s', block) ∧
      block.packets.map TxPacket.kind = interleaving ∧
      (∀ p ∈ block.packets, p.frame = none ↔ p.kind.Withheld s.skipfec) ∧
      s'.skipfec = if 8 * packetLength < blockTook env s then 4 else s.skipfec - 8 := by
  -- The clock is not read between the packets.
  obtain ⟨fecBlocks, l, hrun, -, hend, hskip, hnow⟩ := pbTransmitBlock_runs env s packetLength
    (P := fun r l => Skipping s.skipfec r l ∧ l.s.ticks = s.ticks + 1)
    ⟨⟨by simp [transmitStart], fun p hp => absurd hp List.not_mem_nil⟩, rfl⟩
    fun _ _ _ _ hl hr h => ⟨h.1.round hl hr, (transmitRound_ticks _ _ _ _ _ _).trans h.2⟩
  refine ⟨_, _, hrun, hend.order, hskip.withheld, ?_⟩
  change (measureBlock env l.s _ _).skipfec = _
  rw [measureBlock_skipfec, hnow, hend.skipfec, blockTook]
  simp only [paramDataPacketsPerBlock, paramFecPacketsPerBlock]
  split_ifs <;> omega

/-! ## The range of `skipfec` -/

/-- The values of an `int`. -/
def IsInt (n : Int) : Prop := -2 ^ 31 ≤ n ∧ n < 2 ^ 31

/-- The sending loop of a block after `k` rounds. -/
def sendingRounds (packetLength : Nat) (dataBlocks fecBlocks : Nat → Memory.Buf) (s : TxState)
    (k : Nat) : TransmitLoop :=
  (transmitRound packetLength paramDataPacketsPerBlock paramFecPacketsPerBlock dataBlocks
    fecBlocks)^[k] (transmitStart s)

theorem transmitRound_skipfec (packetLength nrData nrFec : Nat)
    (dataBlocks fecBlocks : Nat → Memory.Buf) (l : TransmitLoop) :
    (transmitRound packetLength nrData nrFec dataBlocks fecBlocks l).s.skipfec =
      l.s.skipfec - 1 := by
  simp only [transmitRound, transmitFec, transmitData, pbTransmitPacket]
  split_ifs <;> rfl

theorem sendingRounds_skipfec (packetLength : Nat) (dataBlocks fecBlocks : Nat → Memory.Buf)
    (s : TxState) (k : Nat) :
    (sendingRounds packetLength dataBlocks fecBlocks s k).s.skipfec = s.skipfec - k := by
  induction k with
  | zero => simp [sendingRounds, transmitStart]
  | succ k ih =>
    rw [sendingRounds, Function.iterate_succ_apply', transmitRound_skipfec, ← sendingRounds, ih]
    omega

/-- How long writing a block took, in nanoseconds, and the length of its packets. -/
structure WrittenBlock where
  took : Nat
  packetLength : Nat

namespace WrittenBlock

/-- It took no longer than a microsecond per byte of its twelve packets, divided by 1.5. -/
def InTime (b : WrittenBlock) : Prop :=
  3 * b.took ≤ 2 * (1000 * (b.packetLength *
    (paramDataPacketsPerBlock + paramFecPacketsPerBlock)))

/-- It took longer than a nanosecond per byte, divided by 1.5. -/
def Counted (b : WrittenBlock) : Prop :=
  2 * (b.packetLength * (paramDataPacketsPerBlock + paramFecPacketsPerBlock)) < 3 * b.took

instance (b : WrittenBlock) : Decidable b.Counted := inferInstanceAs (Decidable (_ < _))

end WrittenBlock

/-- The transmitter, and the number of blocks since the last slow one, or since the start. -/
structure FastRun where
  state : TxState
  fast : Nat

/-- The state in which a block of the run is sent. -/
def FastRun.sending (r : FastRun) (e : (Nat → PacketBuffer) × Nat) : TxState :=
  { r.state with pbl := e.1 }

/-- The next block is a slow one. -/
def FastRun.Slow (env : TxEnv) (r : FastRun) (e : (Nat → PacketBuffer) × Nat) : Prop :=
  (WrittenBlock.mk (blockTook env (r.sending e)) e.2).Counted

instance (env : TxEnv) (r : FastRun) (e : (Nat → PacketBuffer) × Nat) : Decidable (r.Slow env e) :=
  inferInstanceAs (Decidable (WrittenBlock.Counted _))

/-- A block of packets of some length is transmitted. -/
def fastStep (env : TxEnv) (r : FastRun) (e : (Nat → PacketBuffer) × Nat) : Option FastRun :=
  (pbTransmitBlock env (r.sending e) e.2 paramDataPacketsPerBlock paramFecPacketsPerBlock).map
    fun (s', _) => ⟨s', if r.Slow env e then 0 else r.fast + 1⟩

/-- While a block is sent and after it, `skipfec` is an `int`; it is positive only after a slow
block. -/
structure StaysInt (env : TxEnv) (r : FastRun) (e : (Nat → PacketBuffer) × Nat) : Prop where
  rounds : ∀ fecBlocks, ∀ k ≤ paramDataPacketsPerBlock,
    IsInt (sendingRounds e.2 (fun i => (e.1 i).data) fecBlocks (r.sending e) k).s.skipfec
  after : ∀ r', fastStep env r e = some r' →
    IsInt r'.state.skipfec ∧ (0 < r'.state.skipfec → r.Slow env e)

/-- The next block is at most the 2²⁸-th since the last slow one, or since the start. -/
def FewFast (r : FastRun) (_ : (Nat → PacketBuffer) × Nat) : Prop := r.fast < 2 ^ 28

/-- `skipfec` counts the packets since the last slow block. -/
def FastRun.CountsDown (r : FastRun) : Prop :=
  r.state.skipfec = -8 * r.fast ∨ r.state.skipfec = 4 - 8 * r.fast

theorem fastRun_start (header : List UInt8) (malloc : Nat → Memory.Buf) :
    (⟨wfbStreamInit header malloc, 0⟩ : FastRun).CountsDown :=
  .inl (by simp [wfbStreamInit])

section

variable {env : TxEnv} {r : FastRun} {e : (Nat → PacketBuffer) × Nat}

theorem fastStep_eq (env : TxEnv) (r : FastRun) (e : (Nat → PacketBuffer) × Nat) :
    ∃ s', fastStep env r e = some ⟨s', if r.Slow env e then 0 else r.fast + 1⟩ ∧
      s'.skipfec = if r.Slow env e then 4 else r.state.skipfec - 8 := by
  obtain ⟨s', block, hrun, -, -, hskip⟩ := pbTransmitBlock_skips env (r.sending e) e.2
  refine ⟨s', by rw [fastStep, hrun]; rfl, ?_⟩
  have hslow : r.Slow env e ↔ 8 * e.2 < blockTook env (r.sending e) := by
    simp only [FastRun.Slow, WrittenBlock.Counted, paramDataPacketsPerBlock,
      paramFecPacketsPerBlock]
    omega
  simp only [hskip, hslow]
  rfl

theorem FastRun.CountsDown.step (h : r.CountsDown) {r' : FastRun}
    (hstep : fastStep env r e = some r') : r'.CountsDown := by
  obtain ⟨s', hs', hskip⟩ := fastStep_eq env r e
  obtain rfl := Option.some.inj (hs'.symm.trans hstep)
  simp only [CountsDown, hskip] at h ⊢
  split_ifs <;> omega

theorem staysInt_iff (h : r.CountsDown) : StaysInt env r e ↔ FewFast r e := by
  obtain ⟨s', hs', hskip⟩ := fastStep_eq env r e
  have hrange : ∀ k, (r.sending e).skipfec - (k : Nat) = r.state.skipfec - k := fun _ => rfl
  simp only [FastRun.CountsDown] at h
  constructor
  · intro hint
    have hlast := hint.rounds (fun _ _ => 0) paramDataPacketsPerBlock le_rfl
    rw [sendingRounds_skipfec, hrange] at hlast
    have hlow := hlast.1
    simp only [paramDataPacketsPerBlock] at hlow
    rw [FewFast]
    omega
  · intro hfew
    rw [FewFast] at hfew
    refine ⟨fun fecBlocks k hk => ?_, fun r' hr' => ?_⟩
    · rw [sendingRounds_skipfec, hrange, IsInt]
      simp only [paramDataPacketsPerBlock] at hk
      omega
    · obtain rfl := Option.some.inj (hs'.symm.trans hr')
      simp only [hskip, IsInt]
      split_ifs with hslow
      · exact ⟨by omega, fun _ => hslow⟩
      · exact ⟨by omega, fun hpos => by omega⟩

end

/-- **The range of `skipfec`.** In a run from the start `skipfec` stays an `int`, in each round of
each block, exactly if each block is at most the 2²⁸-th since the last slow one or the start. -/
theorem skipfec_in_range (env : TxEnv) (header : List UInt8) (malloc : Nat → Memory.Buf)
    (blocks : List ((Nat → PacketBuffer) × Nat)) :
    Run.Throughout (fastStep env) (StaysInt env) ⟨wfbStreamInit header malloc, 0⟩ blocks ↔
      Run.Throughout (fastStep env) FewFast ⟨wfbStreamInit header malloc, 0⟩ blocks :=
  Run.Throughout.congr (I := FastRun.CountsDown) (fun _ _ _ _ hr hstep => hr.step hstep)
    (fun _ _ _ hr => staysInt_iff hr) (fastRun_start header malloc)

theorem fastStep_still (env : TxEnv) (r : FastRun) (e : (Nat → PacketBuffer) × Nat)
    (hclk : ∀ n, env.clk n = 0) (hr : r.CountsDown) :
    ∃ r', fastStep env r e = some r' ∧ r'.CountsDown ∧ r'.fast = r.fast + 1 := by
  obtain ⟨s', hs', -⟩ := fastStep_eq env r e
  have hslow : ¬r.Slow env e := by
    simp [FastRun.Slow, WrittenBlock.Counted, blockTook, hclk]
  exact ⟨_, hs', hr.step hs', by rw [if_neg hslow]⟩

theorem fastRun_still (env : TxEnv) (n : Nat) (e : (Nat → PacketBuffer) × Nat)
    (hclk : ∀ n, env.clk n = 0) {r : FastRun} (hr : r.CountsDown) :
    ∃ r', (List.replicate n e).foldlM (fastStep env) r = some r' ∧ r'.CountsDown ∧
      r'.fast = r.fast + n := by
  induction n generalizing r with
  | zero => exact ⟨r, rfl, hr, rfl⟩
  | succ n ih =>
    obtain ⟨next, hnext, hcounts, hfast⟩ := fastStep_still env r e hclk hr
    obtain ⟨r', hr', hcounts', hfast'⟩ := ih hcounts
    refine ⟨r', ?_, hcounts', by omega⟩
    rw [List.replicate_succ, List.foldlM_cons, hnext]
    exact hr'

/-- A block of packets of 1024 bytes. -/
def fullPackets : (Nat → PacketBuffer) × Nat := (fun _ => allocPacketBuffer fun _ => 0, 1024)

def stillClock : TxEnv := ⟨fun _ => 0, fun _ _ _ => 0⟩

/-- One block too many, by a clock that stands still. -/
theorem skipfec_overflows :
    ∃ r, (List.replicate (2 ^ 28) fullPackets).foldlM (fastStep stillClock)
        ⟨wfbStreamInit [] fun _ _ => 0, 0⟩ = some r ∧
      (sendingRounds 1024 (fun i => (fullPackets.1 i).data) (fun _ _ => 0) (r.sending fullPackets)
        8).s.skipfec < -2 ^ 31 ∧ ¬StaysInt stillClock r fullPackets := by
  obtain ⟨r, hrun, hcounts, hfast⟩ := fastRun_still stillClock (2 ^ 28) fullPackets (fun _ => rfl)
    (fastRun_start [] fun _ _ => 0)
  have hskip := hcounts
  simp only [FastRun.CountsDown, hfast] at hskip
  refine ⟨r, hrun, ?_, fun hint => ?_⟩
  · rw [sendingRounds_skipfec]
    change r.state.skipfec - _ < _
    omega
  · have hfew : r.fast < 2 ^ 28 := (staysInt_iff hcounts).mp hint
    omega

/-! ## Blocks after blocks in time -/

/-- A run that also keeps the block before. -/
structure SkipRun extends FastRun where
  prev : Option WrittenBlock

/-- A block of packets of some length is transmitted. -/
def skipStep (env : TxEnv) (r : SkipRun) (e : (Nat → PacketBuffer) × Nat) : Option SkipRun :=
  (fastStep env r.toFastRun e).map fun r' => ⟨r', some ⟨blockTook env (r.sending e), e.2⟩⟩

/-- If the block before was in time, `skipfec` stays an `int` and all packets of the block are
sent. -/
def SendsAll (env : TxEnv) (r : SkipRun) (e : (Nat → PacketBuffer) × Nat) : Prop :=
  (∀ b, r.prev = some b → b.InTime) →
    StaysInt env r.toFastRun e ∧
    ∃ s' block, pbTransmitBlock env (r.sending e) e.2 paramDataPacketsPerBlock
        paramFecPacketsPerBlock = some (s', block) ∧
      block.packets.map TxPacket.kind = interleaving ∧ ∀ p ∈ block.packets, p.frame.isSome

/-- The block before was quick by the nanosecond, or was not in time; and the block is at most the
2²⁸-th since the last slow one, or since the start. -/
def QuickOrLate (r : SkipRun) (e : (Nat → PacketBuffer) × Nat) : Prop :=
  (∀ b, r.prev = some b → b.InTime → ¬b.Counted) ∧ FewFast r.toFastRun e

/-- `skipfec` withholds packets after a block that was counted as slow, and is counted down after
it. -/
structure SkipRun.Inv (r : SkipRun) : Prop where
  withholds : 2 ≤ r.state.skipfec ↔ ∃ b, r.prev = some b ∧ b.Counted
  countsDown : r.CountsDown
  slow : ∀ b, r.prev = some b → b.Counted → r.fast = 0

theorem skipStep_inv {env : TxEnv} {r r' : SkipRun} {e : (Nat → PacketBuffer) × Nat}
    (hr : r.Inv) (h : skipStep env r e = some r') : r'.Inv := by
  obtain ⟨s', hs', hskip⟩ := fastStep_eq env r.toFastRun e
  have hcounts := hr.countsDown.step hs'
  simp only [skipStep, hs', Option.map_some, Option.some.injEq] at h
  obtain rfl := h
  have hcount := hr.countsDown
  simp only [FastRun.CountsDown] at hcount
  refine ⟨?_, hcounts, ?_⟩
  · have hprev : (∃ b : WrittenBlock, some ⟨blockTook env (r.sending e), e.2⟩ = some b ∧
        b.Counted) ↔ r.Slow env e := by
      simp only [Option.some.injEq, exists_eq_left', FastRun.Slow]
    simp only [hskip, hprev]
    split_ifs with hslow
    · simp [hslow]
    · simp only [hslow, iff_false]
      omega
  · intro b hb hcounted
    obtain rfl := Option.some.inj hb
    exact if_pos hcounted

/-- All packets of a block are sent when `skipfec` does not reach the first that is withheld. -/
theorem sendsAll_iff {env : TxEnv} {r : SkipRun} {e : (Nat → PacketBuffer) × Nat} (hr : r.Inv) :
    SendsAll env r e ↔ QuickOrLate r e := by
  obtain ⟨s', block, hrun, horder, hwithheld, -⟩ := pbTransmitBlock_skips env (r.sending e) e.2
  constructor
  · intro h
    refine ⟨fun b hb htime hcounted => ?_, ?_⟩
    · obtain ⟨-, s₁, block₁, hrun₁, -, hall⟩ := h fun b' hb' => by
        obtain rfl := Option.some.inj (hb.symm.trans hb')
        exact htime
      obtain ⟨-, rfl⟩ := Prod.mk.inj (Option.some.inj (hrun.symm.trans hrun₁))
      -- FEC packet 1 is one that is withheld.
      have hmem : BlockPacket.fec 1 ∈ block.packets.map TxPacket.kind := by
        rw [horder]
        decide
      obtain ⟨p, hp, hkind⟩ := List.mem_map.mp hmem
      have hskip : 2 ≤ r.state.skipfec := hr.withholds.mpr ⟨b, hb, hcounted⟩
      have hnone : p.frame = none := by
        rw [hwithheld p hp, hkind]
        exact ⟨rfl, hskip⟩
      have hsome := hall p hp
      rw [hnone] at hsome
      exact absurd hsome (by simp)
    · by_cases htime : ∀ b, r.prev = some b → b.InTime
      · exact (staysInt_iff hr.countsDown).mp (h htime).1
      · -- A block that was not in time was counted as slow.
        push Not at htime
        obtain ⟨b, hb, hlate⟩ := htime
        have hcounted : b.Counted := by
          simp only [WrittenBlock.InTime, WrittenBlock.Counted] at hlate ⊢
          omega
        rw [FewFast, hr.slow b hb hcounted]
        decide
  · rintro ⟨h, hfew⟩ htime
    refine ⟨(staysInt_iff hr.countsDown).mpr hfew, s', block, hrun, horder, fun p hp => ?_⟩
    have hskip : ¬2 ≤ r.state.skipfec := by
      intro hskip
      obtain ⟨b, hb, hcounted⟩ := hr.withholds.mp hskip
      exact h b hb (htime b hb) hcounted
    rw [← Option.ne_none_iff_isSome, ne_eq, hwithheld p hp]
    intro hkind
    cases hk : p.kind with
    | data di =>
      rw [hk] at hkind
      exact hkind
    | fec fi =>
      rw [hk] at hkind
      have hodd := hkind.1
      have hlt : (fi : Int) < r.state.skipfec := hkind.2
      omega

theorem skipRun_start (header : List UInt8) (malloc : Nat → Buf) :
    (⟨⟨wfbStreamInit header malloc, 0⟩, none⟩ : SkipRun).Inv :=
  ⟨by simp [wfbStreamInit], fastRun_start header malloc, fun b hb => absurd hb (by simp)⟩

/-- **After blocks that were in time all packets are sent exactly as long as none of these took
longer than a nanosecond per byte, and `skipfec` does not overflow.** -/
theorem pbTransmitBlock_fec (env : TxEnv) (header : List UInt8) (malloc : Nat → Buf)
    (blocks : List ((Nat → PacketBuffer) × Nat)) :
    Run.Throughout (skipStep env) (SendsAll env) ⟨⟨wfbStreamInit header malloc, 0⟩, none⟩ blocks ↔
      Run.Throughout (skipStep env) QuickOrLate ⟨⟨wfbStreamInit header malloc, 0⟩, none⟩
        blocks :=
  Run.Throughout.congr (fun _ _ _ _ hr h => skipStep_inv hr h) (fun _ _ _ hr => sendsAll_iff hr)
    (skipRun_start header malloc)

/-- A clock that advances by a millisecond at each reading. -/
def millisecondClock : TxEnv := ⟨fun n => .ofNat (1000000 * n), fun _ _ _ => 0⟩

/-- The first of two blocks takes a millisecond, and may take eight; a FEC packet of the second one
is withheld. -/
theorem pbTransmitBlock_withholds :
    ∃ r s' block, skipStep millisecondClock ⟨⟨wfbStreamInit [] fun _ _ => 0, 0⟩, none⟩ fullPackets =
        some r ∧
      r.prev = some ⟨1000000, 1024⟩ ∧ (WrittenBlock.mk 1000000 1024).InTime ∧
      pbTransmitBlock millisecondClock (r.sending fullPackets) 1024 paramDataPacketsPerBlock
        paramFecPacketsPerBlock = some (s', block) ∧
      (∃ p ∈ block.packets, p.kind = .fec 1 ∧ p.frame = none) ∧
      ¬SendsAll millisecondClock r fullPackets := by
  obtain ⟨start, hstart⟩ : ∃ start : SkipRun,
    start = ⟨⟨wfbStreamInit [] fun _ _ => 0, 0⟩, none⟩ := ⟨_, rfl⟩
  have hinv : start.Inv := hstart ▸ skipRun_start [] fun _ _ => 0
  obtain ⟨s₁, hs₁, -⟩ := fastStep_eq millisecondClock start.toFastRun fullPackets
  have htook : blockTook millisecondClock (start.sending fullPackets) = 1000000 := by
    rw [hstart]
    change (UInt64.ofNat (1000000 * 1) - UInt64.ofNat (1000000 * 0)).toNat = _
    decide
  obtain ⟨r, hr, hprev⟩ : ∃ r, skipStep millisecondClock start fullPackets = some r ∧
      r.prev = some ⟨1000000, 1024⟩ :=
    ⟨_, by rw [skipStep, hs₁, Option.map_some], by rw [htook, fullPackets]⟩
  have hinv' := skipStep_inv hinv hr
  have hcounted : (WrittenBlock.mk 1000000 1024).Counted := by decide
  have htime : (WrittenBlock.mk 1000000 1024).InTime := by simp [WrittenBlock.InTime]
  obtain ⟨s', block, hrun, horder, hwithheld, -⟩ :=
    pbTransmitBlock_skips millisecondClock (r.sending fullPackets) 1024
  rw [← hstart]
  refine ⟨r, s', block, hr, hprev, htime, hrun, ?_, fun hsends => ?_⟩
  · have hmem : BlockPacket.fec 1 ∈ block.packets.map TxPacket.kind := by
      rw [horder]
      decide
    obtain ⟨p, hp, hkind⟩ := List.mem_map.mp hmem
    refine ⟨p, hp, hkind, (hwithheld p hp).mpr ?_⟩
    rw [hkind]
    exact ⟨rfl, hinv'.withholds.mpr ⟨_, hprev, hcounted⟩⟩
  · exact ((sendsAll_iff hinv').mp hsends).1 _ hprev htime hcounted

end Rhex
