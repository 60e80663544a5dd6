import Mathlib
import Rhex.Segmentation
import Rhex.StreamRx

/-!
# The video link

The transmitter of `StreamTx` and the receiver of `StreamRx` joined by a radio that loses,
duplicates and reorders packets.

* `Carries` — a payload handed to `process_payload` is a packet of a transmitted block.
* `FrameHeard` — it stands in a frame that was written.
* `block_boundaries` — when the two agree on where a block starts and ends.
* `video_link` — what the receiver puts out, for every delivery.
-/

namespace Rhex

open Memory

/-! ## Packets on their way -/

/-- The bytes handed to `process_payload` are the packet `p`. -/
structure Delivers (pd : PayloadData) (p : TxPacket) : Prop where
  crcOk : pd.crcOk = true
  bytes : slice pd.data 0 pd.size = p.payload

namespace Delivers

variable {pd : PayloadData} {p : TxPacket}

theorem size (h : Delivers pd p) : pd.size = 4 + p.data.length := by
  have := congrArg List.length h.bytes
  rwa [length_slice, TxPacket.length_payload] at this

theorem sequenceNumber (h : Delivers pd p) : pd.sequenceNumber = p.seqNr := by
  apply read32_of_slice
  have := congrArg (List.take 4) h.bytes
  rwa [take_slice _ _ (by rw [h.size]; omega), TxPacket.payload,
    List.take_left' (length_le32 _)] at this

theorem blockNum (h : Delivers pd p) : pd.blockNum = p.seqNr.toNat / 12 := by
  rw [PayloadData.blockNum, h.sequenceNumber]

theorem packetNum (h : Delivers pd p) : pd.packetNum = p.seqNr.toNat % 12 := by
  rw [PayloadData.packetNum, h.sequenceNumber]

/-- The slot takes in the packet. -/
theorem fillSlot (h : Delivers pd p) (q : PacketBuffer) :
    (fillSlot q pd).valid = true ∧
      slice (Rhex.fillSlot q pd).data 0 p.data.length = p.data := by
  have hlen : sizeSub pd.size sizeofWifiPacketHeader = p.data.length := by
    rw [sizeSub, if_pos (by rw [h.size]; simp), h.size]
    simp
  refine ⟨rfl, ?_⟩
  have hdata : slice pd.data 4 p.data.length = p.data := by
    have := congrArg (List.drop 4) h.bytes
    rwa [h.size, slice_add, List.drop_left' (length_slice _ _ _), TxPacket.payload,
      List.drop_left' (length_le32 _)] at this
  have hfill : (Rhex.fillSlot q pd).data = memcpy q.data 0 p.data := by
    rw [Rhex.fillSlot, hlen]
    simp only [sizeofWifiPacketHeader, hdata]
  rw [hfill, slice_memcpy]

end Delivers

/-! ## Block boundaries -/

/-- The slot that the split loop of `process_payload` reads a packet from. -/
def readBack (packets : Nat → PacketBuffer) : BlockPacket → Nat
  | .data di => (split packets).dataPkgs di
  | .fec fi => (split packets).fecPkgs fi

/-- `process_payload` maps the twelve packets of the block to one block number and to twelve
slots, and its split loop reads every packet back from its slot, whatever the other slots hold. -/
def BoundariesAgree (block : TxBlock) : Prop :=
  (∃ b, ∀ p ∈ block.packets, ∀ pd, Delivers pd p → pd.blockNum = b) ∧
    (∀ p ∈ block.packets, ∀ q ∈ block.packets, ∀ pd pd', Delivers pd p → Delivers pd' q →
      pd.packetNum = pd'.packetNum → p.kind = q.kind) ∧
    ∀ p ∈ block.packets, ∀ pd, Delivers pd p → ∀ packets, readBack packets p.kind = pd.packetNum

theorem exists_delivers (p : TxPacket) : ∃ pd, Delivers pd p :=
  ⟨⟨ofList p.payload, p.payload.length, true⟩, rfl, slice_ofList p.payload⟩

theorem readBack_eq (packets : Nat → PacketBuffer) {k : BlockPacket} (hk : k.Valid) :
    readBack packets k = k.slot := by
  cases k with
  | data di => exact (split_spec packets).dataPkgs di hk
  | fec fi =>
    rw [BlockPacket.Valid] at hk
    exact (split_spec packets).fecPkgs fi (by simpa using hk)

/-- A block agrees exactly when it starts at a multiple of twelve and `seq_nr` does not wrap
within it. -/
theorem boundariesAgree_iff {block : TxBlock} {seq : UInt32} (hgood : block.Good seq.toNat) :
    BoundariesAgree block ↔ seq.toNat % 12 = 0 ∧ seq.toNat + 12 ≤ 2 ^ 32 := by
  have hlt := seq.toNat_lt
  have hseq : ∀ p ∈ block.packets, p.seqNr.toNat = (seq.toNat + p.kind.slot) % 2 ^ 32 := by
    intro p hp
    rw [hgood.seqNr p hp, UInt32.toNat_ofNat']
  have hmem : ∀ k : BlockPacket, k.Valid → ∃ p ∈ block.packets, p.kind = k := by
    intro k hk
    rw [← mem_interleaving, ← hgood.order] at hk
    obtain ⟨p, hp, hkind⟩ := List.mem_map.mp hk
    exact ⟨p, hp, hkind⟩
  have hvalid : ∀ p ∈ block.packets, p.kind.Valid := by
    intro p hp
    rw [← mem_interleaving, ← hgood.order]
    exact List.mem_map_of_mem hp
  constructor
  · rintro ⟨⟨b, hb⟩, -, hslot⟩
    obtain ⟨p, hp, hkind⟩ := hmem (.data 0) (show 0 < 8 by decide)
    obtain ⟨q, hq, hkind'⟩ := hmem (.data 7) (show 7 < 8 by decide)
    obtain ⟨pd, hpd⟩ := exists_delivers p
    obtain ⟨pd', hpd'⟩ := exists_delivers q
    have hseq₀ := hseq p hp
    have hseq₁ := hseq q hq
    rw [hkind, show (BlockPacket.data 0).slot = 0 by decide] at hseq₀
    rw [hkind', show (BlockPacket.data 7).slot = 11 by decide] at hseq₁
    have hfirst := hslot p hp pd hpd fun _ => allocPacketBuffer fun _ => 0
    rw [hkind, readBack_eq _ (k := .data 0) (show 0 < 8 by decide), hpd.packetNum, hseq₀] at hfirst
    have hblock := (hb p hp pd hpd).trans (hb q hq pd' hpd').symm
    rw [hpd.blockNum, hpd'.blockNum, hseq₀, hseq₁] at hblock
    simp only [BlockPacket.slot, dataSlot, paramFecPacketsPerBlock] at hfirst
    omega
  · rintro ⟨halign, hwrap⟩
    have hnum : ∀ p ∈ block.packets, ∀ pd, Delivers pd p →
        pd.blockNum = seq.toNat / 12 ∧ pd.packetNum = p.kind.slot := by
      intro p hp pd hpd
      have hs := hseq p hp
      have hslot := slot_lt (hvalid p hp)
      rw [Nat.mod_eq_of_lt (by omega)] at hs
      rw [hpd.blockNum, hpd.packetNum, hs]
      omega
    refine ⟨⟨_, fun p hp pd hpd => (hnum p hp pd hpd).1⟩, fun p hp q hq pd pd' hpd hpd' h => ?_,
      fun p hp pd hpd packets => ?_⟩
    · rw [(hnum p hp pd hpd).2, (hnum q hq pd' hpd').2] at h
      exact slot_inj (hvalid p hp) (hvalid q hq) h
    · rw [(hnum p hp pd hpd).2]
      exact readBack_eq packets (hvalid p hp)

theorem transmitBlocks_next (env : TxEnv) (s : TxState) (hs : s.seqNr = 0)
    (pbls : List (Nat → PacketBuffer)) (pbl : Nat → PacketBuffer) :
    ∃ s' blocks s'' block, transmitBlocks env s pbls = some (s', blocks) ∧
      pbTransmitBlock env { s' with pbl } paramPacketLength paramDataPacketsPerBlock
        paramFecPacketsPerBlock = some (s'', block) ∧
      s'.seqNr.toNat = 12 * pbls.length % 2 ^ 32 ∧ block.Good s'.seqNr.toNat := by
  obtain ⟨s', blocks, hrun, -, hseq⟩ := transmitBlocks_spec env pbls s
  obtain ⟨s'', block, hblock, -, hgood, -⟩ := pbTransmitBlock_spec env { s' with pbl }
  refine ⟨s', blocks, s'', block, hrun, hblock, ?_, hgood⟩
  rw [hseq, hs, UInt32.zero_add, UInt32.toNat_ofNat']

/-- **Block boundaries.** After any number `n` of blocks, transmitter and receiver agree on the
next one exactly when `seq_nr`, which is `12 n` modulo `2 ^ 32`, is a multiple of twelve and does
not wrap within the block. -/
theorem block_boundaries (env : TxEnv) (s : TxState) (hs : s.seqNr = 0)
    (pbls : List (Nat → PacketBuffer)) (pbl : Nat → PacketBuffer) :
    ∃ s' blocks s'' block, transmitBlocks env s pbls = some (s', blocks) ∧
      pbTransmitBlock env { s' with pbl } paramPacketLength paramDataPacketsPerBlock
        paramFecPacketsPerBlock = some (s'', block) ∧
      s'.seqNr.toNat = 12 * pbls.length % 2 ^ 32 ∧
      (BoundariesAgree block ↔ s'.seqNr.toNat % 12 = 0 ∧ s'.seqNr.toNat + 12 ≤ 2 ^ 32) := by
  obtain ⟨s', blocks, s'', block, hrun, hblock, hseq, hgood⟩ :=
    transmitBlocks_next env s hs pbls pbl
  exact ⟨s', blocks, s'', block, hrun, hblock, hseq, boundariesAgree_iff hgood⟩

/-- After 357913941 blocks `seq_nr` wraps within the next block, which falls apart. -/
theorem block_boundaries_wrap : ∃ s' blocks s'' block,
    transmitBlocks ⟨fun _ => 0, fun _ _ _ => 0⟩ (wfbStreamInit [] fun _ _ => 0)
      (List.replicate 357913941 fun _ => allocPacketBuffer fun _ => 0) = some (s', blocks) ∧
    pbTransmitBlock ⟨fun _ => 0, fun _ _ _ => 0⟩
      { s' with pbl := fun _ => allocPacketBuffer fun _ => 0 } paramPacketLength
      paramDataPacketsPerBlock paramFecPacketsPerBlock = some (s'', block) ∧
    ¬BoundariesAgree block := by
  obtain ⟨s', blocks, s'', block, hrun, hblock, hseq, hgood⟩ :=
    transmitBlocks_next ⟨fun _ => 0, fun _ _ _ => 0⟩ (wfbStreamInit [] fun _ _ => 0) rfl
      (List.replicate 357913941 fun _ => allocPacketBuffer fun _ => 0)
      fun _ => allocPacketBuffer fun _ => 0
  rw [List.length_replicate] at hseq
  refine ⟨s', blocks, s'', block, hrun, hblock, ?_⟩
  rw [boundariesAgree_iff hgood, hseq]
  omega

/-- The boundaries of the block behind five others. -/
theorem block_boundaries_sixth : ∃ s' blocks s'' block,
    transmitBlocks ⟨fun _ => 0, fun _ _ _ => 0⟩ (wfbStreamInit [] fun _ _ => 0)
      (List.replicate 5 fun _ => allocPacketBuffer fun _ => 0) = some (s', blocks) ∧
    pbTransmitBlock ⟨fun _ => 0, fun _ _ _ => 0⟩
      { s' with pbl := fun _ => allocPacketBuffer fun _ => 3 } paramPacketLength
      paramDataPacketsPerBlock paramFecPacketsPerBlock = some (s'', block) ∧
    s'.seqNr.toNat = 60 ∧ BoundariesAgree block := by
  obtain ⟨s', blocks, s'', block, hrun, hblock, hseq, hagree⟩ :=
    block_boundaries ⟨fun _ => 0, fun _ _ _ => 0⟩ (wfbStreamInit [] fun _ _ => 0) rfl
      (List.replicate 5 fun _ => allocPacketBuffer fun _ => 0) fun _ => allocPacketBuffer fun _ => 3
  rw [List.length_replicate] at hseq
  exact ⟨s', blocks, s'', block, hrun, hblock, hseq, hagree.mpr (by rw [hseq]; decide)⟩

/-! ## What counts as received -/

/-- The highest block of the packets handed over, 0 if there are none. -/
def highest (dlv : List PayloadData) : Nat := dlv.foldl (fun m pd => max m pd.blockNum) 0

/-- Packet `j` of block `b` is received: it is handed over while no packet of a higher block has
been. -/
def received (dlv : List PayloadData) (b j : Nat) : Bool :=
  (dlv.takeWhile fun pd => decide (pd.blockNum ≤ b)).any fun pd =>
    decide (pd.blockNum = b) && decide (pd.packetNum = j)

/-- No packet arrives more than 128 blocks behind the highest block already seen. -/
def InWindow (dlv : List PayloadData) : Prop :=
  ∀ pre pd post, dlv = pre ++ pd :: post → highest pre ≤ pd.blockNum + 128

theorem highest_concat (dlv : List PayloadData) (pd : PayloadData) :
    highest (dlv ++ [pd]) = max (highest dlv) pd.blockNum := by
  rw [highest, List.foldl_append]
  rfl

theorem le_highest {dlv : List PayloadData} {pd : PayloadData} (h : pd ∈ dlv) :
    pd.blockNum ≤ highest dlv := by
  induction dlv using List.reverseRecOn with
  | nil => exact absurd h List.not_mem_nil
  | append_singleton dlv last ih =>
    rw [highest_concat]
    rcases List.mem_append.mp h with h | h
    · exact (ih h).trans (Nat.le_max_left _ _)
    · rw [List.mem_singleton.mp h]
      exact Nat.le_max_right _ _

theorem exists_highest {dlv : List PayloadData} (h : dlv ≠ []) :
    ∃ pd ∈ dlv, pd.blockNum = highest dlv := by
  induction dlv using List.reverseRecOn with
  | nil => exact absurd rfl h
  | append_singleton dlv last ih =>
    rw [highest_concat]
    rcases Nat.le_total (highest dlv) last.blockNum with hle | hle
    · exact ⟨last, by simp, (Nat.max_eq_right hle).symm⟩
    · rw [Nat.max_eq_left hle]
      by_cases hnil : dlv = []
      · subst hnil
        exact ⟨last, by simp, Nat.le_antisymm hle (Nat.zero_le _)⟩
      · obtain ⟨pd, hpd, he⟩ := ih hnil
        exact ⟨pd, List.mem_append_left _ hpd, he⟩

theorem InWindow.init {dlv : List PayloadData} {pd : PayloadData} (h : InWindow (dlv ++ [pd])) :
    InWindow dlv ∧ highest dlv ≤ pd.blockNum + 128 := by
  refine ⟨fun pre q post he => h pre q (post ++ [pd]) ?_, h dlv pd [] rfl⟩
  rw [he, List.append_assoc, List.cons_append]

/-- One more packet, as long as no higher block was seen. -/
theorem received_concat {dlv : List PayloadData} {b : Nat} (hle : highest dlv ≤ b)
    (pd : PayloadData) (j : Nat) :
    received (dlv ++ [pd]) b j =
      (received dlv b j || (decide (pd.blockNum = b) && decide (pd.packetNum = j))) := by
  have hall : ∀ q ∈ dlv, decide (q.blockNum ≤ b) = true := by
    intro q hq
    exact decide_eq_true ((le_highest hq).trans hle)
  rw [received, received, List.takeWhile_append_of_pos hall, List.takeWhile_eq_self_iff.mpr hall,
    List.any_append]
  congr 1
  by_cases hb : pd.blockNum ≤ b
  · simp [hb]
  · have hne : pd.blockNum ≠ b := by omega
    simp [hb, hne]

/-- Once a higher block was seen, nothing more of the block is received. -/
theorem received_concat_of_lt {dlv : List PayloadData} {b : Nat} (hlt : b < highest dlv)
    (pd : PayloadData) (j : Nat) : received (dlv ++ [pd]) b j = received dlv b j := by
  have htake : ∀ l : List PayloadData, (∃ q ∈ l, b < q.blockNum) →
      (l ++ [pd]).takeWhile (fun q => decide (q.blockNum ≤ b)) =
        l.takeWhile fun q => decide (q.blockNum ≤ b) := by
    intro l
    induction l with
    | nil => exact fun ⟨q, hq, _⟩ => absurd hq List.not_mem_nil
    | cons x l ih =>
      rintro ⟨q, hq, hqb⟩
      rw [List.cons_append]
      by_cases hx : x.blockNum ≤ b
      · simp only [List.takeWhile_cons, decide_eq_true hx, if_true, List.cons.injEq, true_and]
        apply ih
        rcases List.mem_cons.mp hq with rfl | hq
        · omega
        · exact ⟨q, hq, hqb⟩
      · simp only [List.takeWhile_cons, decide_eq_false hx, Bool.false_eq_true, if_false]
  have hne : dlv ≠ [] := by
    rintro rfl
    exact absurd hlt (Nat.not_lt_zero b)
  obtain ⟨q, hq, hqb⟩ := exists_highest hne
  rw [received, received, htake dlv ⟨q, hq, hqb ▸ hlt⟩]

theorem received_of_lt {dlv : List PayloadData} {b : Nat}
    (hb : ∀ pd ∈ dlv, pd.blockNum < b) (j : Nat) : received dlv b j = false := by
  rw [received, List.any_eq_false]
  intro pd hpd
  have := hb pd (List.takeWhile_sublist _ |>.subset hpd)
  simp [Nat.ne_of_lt this]

/-! ## What the receiver is to put out -/

/-- The payload of data packet `di` of block `b`. -/
def sentPayload (blocks : List TxBlock) (b di : Nat) : List UInt8 :=
  match blocks[b]? with
  | some block => (block.pbl di).payload
  | none => []

/-- The number of data packets of block `b` not received. -/
def datasMissing (dlv : List PayloadData) (b : Nat) : Nat :=
  countMissing (fun di => received dlv b (dataSlot di)) paramDataPacketsPerBlock

/-- The number of FEC packets of block `b` received. -/
def fecsReceived (dlv : List PayloadData) (b : Nat) : Nat :=
  countThere (fun fi => received dlv b (fecSlot fi)) paramFecPacketsPerBlock

/-- The output for block `b`: all eight payloads when there are FEC packets enough for the missing
data packets, otherwise the payloads of the data packets received. -/
def blockOutput (blocks : List TxBlock) (dlv : List PayloadData) (b : Nat) : List UInt8 :=
  (List.range paramDataPacketsPerBlock).flatMap fun di =>
    if decide (datasMissing dlv b ≤ fecsReceived dlv b) || received dlv b (dataSlot di) then
      sentPayload blocks b di
    else []

/-- The output for all blocks below the last one seen, in order. -/
def expectedOutput (blocks : List TxBlock) (dlv : List PayloadData) : List UInt8 :=
  (List.range (highest dlv)).flatMap (blockOutput blocks dlv)

theorem blockOutput_congr {blocks : List TxBlock} {dlv dlv' : List PayloadData} {b : Nat}
    (h : ∀ j, received dlv b j = received dlv' b j) :
    blockOutput blocks dlv b = blockOutput blocks dlv' b := by
  have hdata : datasMissing dlv b = datasMissing dlv' b := by simp only [datasMissing, h]
  have hfec : fecsReceived dlv b = fecsReceived dlv' b := by simp only [fecsReceived, h]
  simp only [blockOutput, hdata, hfec, h]

theorem blockOutput_of_lt {blocks : List TxBlock} {dlv : List PayloadData} {b : Nat}
    (hb : ∀ pd ∈ dlv, pd.blockNum < b) : blockOutput blocks dlv b = [] := by
  have hnone : ¬datasMissing dlv b ≤ fecsReceived dlv b := by
    simp only [datasMissing, fecsReceived, countMissing, countThere, received_of_lt hb]
    decide
  rw [blockOutput, List.flatMap_eq_nil_iff]
  intro di _
  rw [if_neg]
  simp [hnone, received_of_lt hb]

/-! ## The receiver collects the current block -/

/-- A well-formed run of the transmitter without a wrap of `seq_nr`. -/
structure Sent (blocks : List TxBlock) : Prop where
  good : ∀ b (block : TxBlock), blocks[b]? = some block → block.Good (12 * b)
  finished : ∀ block ∈ blocks, block.Finished
  framed : ∀ block ∈ blocks, ∃ phdrLen, block.Framed phdrLen
  length_lt : blocks.length < 357913941

/-- The payload is a packet of block `b`, sent or withheld. -/
structure CarriesAt (blocks : List TxBlock) (pd : PayloadData) (b : Nat) (k : BlockPacket) :
    Prop where
  packet : ∃ block p, blocks[b]? = some block ∧ p ∈ block.packets ∧ p.kind = k ∧ Delivers pd p

/-- The payload is a packet of one of the blocks. -/
def Carries (blocks : List TxBlock) (pd : PayloadData) : Prop :=
  ∃ b k, CarriesAt blocks pd b k

theorem CarriesAt.crcOk {blocks : List TxBlock} {pd : PayloadData} {b : Nat} {k : BlockPacket}
    (h : CarriesAt blocks pd b k) : pd.crcOk = true := by
  obtain ⟨block, p, -, -, -, hpd⟩ := h.packet
  exact hpd.crcOk

theorem CarriesAt.valid {blocks : List TxBlock} {pd : PayloadData} {b : Nat} {k : BlockPacket}
    (hblocks : Sent blocks) (h : CarriesAt blocks pd b k) : k.Valid := by
  obtain ⟨block, p, hb, hp, rfl, -⟩ := h.packet
  rw [← mem_interleaving, ← (hblocks.good b block hb).order]
  exact List.mem_map_of_mem hp

theorem CarriesAt.place {blocks : List TxBlock} {pd : PayloadData} {b : Nat} {k : BlockPacket}
    (hblocks : Sent blocks) (h : CarriesAt blocks pd b k) :
    pd.blockNum = b ∧ pd.packetNum = k.slot := by
  have hslot := slot_lt (h.valid hblocks)
  obtain ⟨block, p, hb, hp, rfl, hpd⟩ := h.packet
  have hlt : b < blocks.length := (List.getElem?_eq_some_iff.mp hb).1
  have hlen := hblocks.length_lt
  have hseq : p.seqNr.toNat = 12 * b + p.kind.slot := by
    rw [(hblocks.good b block hb).seqNr p hp, UInt32.toNat_ofNat', Nat.mod_eq_of_lt (by omega)]
  rw [hpd.blockNum, hpd.packetNum, hseq]
  omega

theorem Sent.exists_packet {blocks : List TxBlock} (hblocks : Sent blocks) {b : Nat}
    (hb : b < blocks.length) {k : BlockPacket} (hk : k.Valid) :
    ∃ p ∈ blocks[b].packets, p.kind = k := by
  have hgood := hblocks.good b _ (List.getElem?_eq_getElem hb)
  exact List.mem_map.mp (hgood.order ▸ mem_interleaving.mpr hk)

/-- The bytes of a slot are packet `k` of the block made of the data packets `pbl`. -/
def Holds (pbl : Nat → PacketBuffer) (data : Buf) : BlockPacket → Prop
  | .data di => ∀ q < paramPacketLength, data q = (pbl di).data q
  | .fec fi => ∀ q < paramPacketLength,
      gfAt data q = parity paramDataPacketsPerBlock (fun i => (pbl i).data) fi q

/-- A slot that takes in a packet holds it. -/
theorem CarriesAt.holds {blocks : List TxBlock} {pd : PayloadData} {b : Nat} {k : BlockPacket}
    (hblocks : Sent blocks) (h : CarriesAt blocks pd b k) {block : TxBlock}
    (hb : blocks[b]? = some block) (q : PacketBuffer) :
    Holds block.pbl (fillSlot q pd).data k := by
  obtain ⟨block', p, hb', hp, rfl, hpd⟩ := h.packet
  obtain rfl : block = block' := Option.some.inj (hb.symm.trans hb')
  have hgood := hblocks.good b block hb
  obtain ⟨-, hslice⟩ := hpd.fillSlot q
  have hbyte : ∀ i < p.data.length, (fillSlot q pd).data i = ofList p.data i := by
    intro i hi
    have := ofList_slice (fillSlot q pd).data 0 hi
    rw [hslice, Nat.zero_add] at this
    exact this.symm
  cases hk : p.kind with
  | data di =>
    intro i hi
    have hdata := hgood.data p hp di hk
    rw [hbyte i (by rw [hdata, length_slice]; exact hi), hdata, ofList_slice _ _ hi, Nat.zero_add]
  | fec fi =>
    intro i hi
    obtain ⟨hlen, hparity⟩ := hgood.fec p hp fi hk
    rw [gfAt, hbyte i (by rw [hlen]; exact hi)]
    exact hparity i hi

/-- The receiver after the delivery `dlv`, which is not empty: the buffer holds exactly the
received packets of the highest block, and `out` is what the blocks below it came to. -/
structure Collected (blocks : List TxBlock) (dlv : List PayloadData) (s : RxState)
    (out : List UInt8) (flushed : List Int) : Prop where
  inv : RxInv s
  max : s.maxBlockNum = highest dlv
  there : ∀ j < packetsPerBlock, (s.packets j).valid = received dlv (highest dlv) j
  holds : ∀ block, blocks[highest dlv]? = some block → ∀ k : BlockPacket, k.Valid →
    (s.packets k.slot).valid = true → Holds block.pbl (s.packets k.slot).data k
  out : out = expectedOutput blocks dlv
  flushed_lt : ∀ b ∈ flushed, b < s.maxBlockNum
  flushed_once : flushed.Pairwise (· < ·)

/-- The payload that the output loop takes from a finished packet. -/
theorem blockPayload_eq {block : Buf} {p : PacketBuffer} (hp : p.Finished)
    (h : ∀ q < paramPacketLength, block q = p.data q) : blockPayload block = p.payload := by
  have hge := hp.len_ge
  have hle := hp.len_le
  simp only [paramMinPacketLength, paramPacketLength] at hge hle h
  have hread : read32 block 0 = read32 p.data 0 :=
    read32_congr (slice_congr fun k hk => by rw [Nat.zero_add]; exact h k (by omega))
  have hlen : (read32 p.data 0).toNat = p.len - 4 := by
    rw [read32_of_slice hp.header, UInt32.toNat_ofNat', Nat.mod_eq_of_lt (by simp; omega)]
  rw [blockPayload, PacketBuffer.payload, PacketBuffer.dataLength, hread,
    Nat.min_eq_left (by rw [hlen, paramPacketLength]; omega)]
  refine slice_congr fun k hk => h _ ?_
  rw [hlen] at hk
  simp only [sizeofPayloadHeader]
  omega

/-- **The flush of a collected block** is the block's share of the expected output. -/
theorem Collected.flush {blocks : List TxBlock} {dlv : List PayloadData} {s : RxState}
    {out : List UInt8} {flushed : List Int} (hblocks : Sent blocks)
    (h : Collected blocks dlv s out flushed) (hlt : highest dlv < blocks.length)
    {decoded : Nat → Buf} (hdecoded : Decoded s.packets decoded) :
    flushOutput s.packets decoded = blockOutput blocks dlv (highest dlv) := by
  obtain ⟨block, hblock⟩ : ∃ block, blocks[highest dlv]? = some block :=
    ⟨_, List.getElem?_eq_getElem hlt⟩
  have hfin := hblocks.finished block (List.mem_of_getElem? hblock)
  have hdata : ∀ di < paramDataPacketsPerBlock,
      dataThere s.packets di = received dlv (highest dlv) (dataSlot di) :=
    fun di hdi => h.there _ (dataSlot_lt hdi)
  have hfec : ∀ fi < paramFecPacketsPerBlock,
      fecThere s.packets fi = received dlv (highest dlv) (fecSlot fi) :=
    fun fi hfi => h.there _ (fecSlot_lt hfi)
  have hrep : repairable s.packets =
      decide (datasMissing dlv (highest dlv) ≤ fecsReceived dlv (highest dlv)) := by
    have hm : countMissing (dataThere s.packets) paramDataPacketsPerBlock =
        datasMissing dlv (highest dlv) := countMissing_congr hdata
    have hf : countThere (fecThere s.packets) paramFecPacketsPerBlock =
        fecsReceived dlv (highest dlv) := countThere_congr hfec
    rw [repairable, hm, hf]
  have hdataOk : ∀ di < paramDataPacketsPerBlock, dataThere s.packets di = true →
      ∀ q < paramPacketLength, (s.packets (dataSlot di)).data q = (block.pbl di).data q :=
    fun di hdi hthere => h.holds block hblock (.data di) hdi hthere
  apply List.flatMap_congr
  intro di hdi
  have hdi := List.mem_range.mp hdi
  rw [hrep, hdata di hdi, sentPayload, hblock]
  by_cases hsel : (decide (datasMissing dlv (highest dlv) ≤ fecsReceived dlv (highest dlv)) ||
      received dlv (highest dlv) (dataSlot di)) = true
  · rw [if_pos hsel, if_pos hsel]
    apply blockPayload_eq (hfin di hdi)
    intro q hq
    rcases Bool.or_eq_true_iff.mp hsel with hall | hone
    · exact hdecoded.repaired (hrep.trans hall) (fun i => (block.pbl i).data) q hq
        (fun i hi hthere => hdataOk i hi hthere q hq)
        (fun _ fi hfi hthere => h.holds block hblock (.fec fi) hfi hthere q hq) di hdi
    · have hthere := (hdata di hdi).trans hone
      rw [hdecoded.there di hdi hthere]
      exact hdataOk di hdi hthere q hq
  · rw [if_neg hsel, if_neg hsel]

/-! ## One more packet -/

theorem received_concat_ne (dlv : List PayloadData) {pd : PayloadData} {b : Nat}
    (hne : pd.blockNum ≠ b) (j : Nat) : received (dlv ++ [pd]) b j = received dlv b j := by
  rcases Nat.lt_or_ge b (highest dlv) with hlt | hge
  · exact received_concat_of_lt hlt pd j
  · rw [received_concat hge, decide_eq_false hne]
    simp

theorem expectedOutput_single (blocks : List TxBlock) (pd : PayloadData) :
    expectedOutput blocks [pd] = [] := by
  rw [expectedOutput, List.flatMap_eq_nil_iff]
  intro b hb
  have hlt : b < pd.blockNum := by
    simpa [highest] using List.mem_range.mp hb
  have hcongr : blockOutput blocks [pd] b = blockOutput blocks [] b :=
    blockOutput_congr fun j => received_concat_ne [] (Nat.ne_of_gt hlt) j
  rw [hcongr]
  exact blockOutput_of_lt fun q hq => absurd hq List.not_mem_nil

/-- A packet of a later block adds the block that was collected to the output. -/
theorem expectedOutput_new (blocks : List TxBlock) {dlv : List PayloadData} {pd : PayloadData}
    (hnew : highest dlv < pd.blockNum) :
    expectedOutput blocks (dlv ++ [pd]) =
      expectedOutput blocks dlv ++ blockOutput blocks dlv (highest dlv) := by
  have hbelow : ∀ b < pd.blockNum, blockOutput blocks (dlv ++ [pd]) b = blockOutput blocks dlv b :=
    fun b hb => blockOutput_congr fun j => received_concat_ne dlv (Nat.ne_of_gt hb) j
  obtain ⟨n, hn⟩ := Nat.exists_eq_add_of_lt hnew
  have hrest :
      ((List.range n).map (highest dlv + 1 + ·)).flatMap (blockOutput blocks dlv) = [] := by
    rw [List.flatMap_eq_nil_iff]
    intro b hb
    obtain ⟨i, -, rfl⟩ := List.mem_map.mp hb
    apply blockOutput_of_lt
    intro q hq
    have := le_highest hq
    omega
  rw [expectedOutput, highest_concat, Nat.max_eq_right hnew.le,
    List.flatMap_congr fun b hb => hbelow b (List.mem_range.mp hb), hn,
    show highest dlv + n + 1 = highest dlv + 1 + n by omega, List.range_add, List.flatMap_append,
    hrest, List.append_nil, List.range_succ, List.flatMap_append, List.flatMap_singleton,
    expectedOutput]

theorem expectedOutput_old (blocks : List TxBlock) {dlv : List PayloadData} {pd : PayloadData}
    (hold : pd.blockNum ≤ highest dlv) :
    expectedOutput blocks (dlv ++ [pd]) = expectedOutput blocks dlv := by
  rw [expectedOutput, highest_concat, Nat.max_eq_left hold, expectedOutput]
  exact List.flatMap_congr fun b hb =>
    blockOutput_congr fun j => received_concat_of_lt (List.mem_range.mp hb) pd j

section

variable {blocks : List TxBlock} {dlv : List PayloadData} {pd : PayloadData}

/-- The packet that opens its block is all that is received of it. -/
theorem collected_opened (hblocks : Sent blocks) {b : Nat} {k : BlockPacket}
    (hpd : CarriesAt blocks pd b k) (hnew : ∀ q ∈ dlv, q.blockNum < pd.blockNum) {r : RxStep}
    (hopened : Opened pd r) (hinv : RxInv r.state) {flushed : List Int}
    (hlt : ∀ b ∈ flushed, b < (pd.blockNum : Int)) (honce : flushed.Pairwise (· < ·)) :
    Collected blocks (dlv ++ [pd]) r.state (expectedOutput blocks (dlv ++ [pd])) flushed := by
  obtain ⟨hb, hk⟩ := hpd.place hblocks
  have hle : highest dlv ≤ pd.blockNum := by
    by_cases hnil : dlv = []
    · subst hnil
      exact Nat.zero_le _
    · obtain ⟨q, hq, he⟩ := exists_highest hnil
      exact he ▸ (hnew q hq).le
  have hhigh : highest (dlv ++ [pd]) = pd.blockNum := by
    rw [highest_concat, Nat.max_eq_right hle]
  obtain ⟨p, hslot⟩ := hopened.slot
  refine ⟨hinv, hopened.max.trans (by rw [hhigh]), fun j hj => ?_,
    fun block hblock k' hk' hvalid => ?_, rfl, fun x hx => hopened.max ▸ hlt x hx, honce⟩
  · rw [hhigh, received_concat hle, received_of_lt hnew, Bool.false_or]
    by_cases hj' : j = pd.packetNum
    · rw [hj', hslot]
      simp [fillSlot]
    · rw [(hopened.only j hj hj').1]
      simp [Ne.symm hj']
  · rw [hhigh, hb] at hblock
    by_cases hslot' : k'.slot = pd.packetNum
    · have hkk : k' = k := slot_inj hk' (hpd.valid hblocks) (hslot'.trans hk)
      rw [hslot', hslot, hkk]
      exact hpd.holds hblocks hblock p
    · have := (hopened.only _ (slot_lt hk') hslot').1
      rw [this] at hvalid
      exact absurd hvalid (by decide)

/-- A packet of the block that is collected fills its slot. -/
theorem Collected.stored (hblocks : Sent blocks) {s s' : RxState} {out : List UInt8}
    {flushed : List Int} (h : Collected blocks dlv s out flushed) {b : Nat} {k : BlockPacket}
    (hpd : CarriesAt blocks pd b k) (hsame : pd.blockNum = highest dlv) (hinv : RxInv s')
    (hmax : s'.maxBlockNum = s.maxBlockNum)
    (hpackets : s'.packets =
      Function.update s.packets pd.packetNum (fillSlot (s.packets pd.packetNum) pd)) :
    Collected blocks (dlv ++ [pd]) s' out flushed := by
  obtain ⟨hb, hk⟩ := hpd.place hblocks
  have hhigh : highest (dlv ++ [pd]) = highest dlv := by
    rw [highest_concat, Nat.max_eq_left hsame.le]
  refine ⟨hinv, hmax.trans (h.max.trans (by rw [hhigh])), fun j hj => ?_,
    fun block hblock k' hk' hvalid => ?_, h.out.trans (expectedOutput_old blocks hsame.le).symm,
    hmax ▸ h.flushed_lt, h.flushed_once⟩
  · rw [hhigh, received_concat le_rfl, hpackets, ← h.there j hj, decide_eq_true hsame]
    by_cases hj' : j = pd.packetNum
    · simp [hj', fillSlot]
    · simp [hj', Ne.symm hj']
  · rw [hhigh] at hblock
    rw [hpackets] at hvalid ⊢
    by_cases hslot : k'.slot = pd.packetNum
    · have hkk : k' = k := slot_inj hk' (hpd.valid hblocks) (hslot.trans hk)
      rw [hslot, Function.update_self, hkk]
      exact hpd.holds hblocks (by rw [← hb, hsame]; exact hblock) _
    · rw [Function.update_of_ne hslot] at hvalid ⊢
      exact h.holds block hblock k' hk' hvalid

theorem Collected.dropped {s : RxState} {out : List UInt8} {flushed : List Int}
    (h : Collected blocks dlv s out flushed) (hle : pd.blockNum ≤ highest dlv)
    (hreceived : ∀ j < packetsPerBlock,
      received (dlv ++ [pd]) (highest dlv) j = received dlv (highest dlv) j) :
    Collected blocks (dlv ++ [pd]) s out flushed := by
  have hhigh : highest (dlv ++ [pd]) = highest dlv := by
    rw [highest_concat, Nat.max_eq_left hle]
  refine ⟨h.inv, h.max.trans (by rw [hhigh]), fun j hj => ?_, hhigh ▸ h.holds,
    h.out.trans (expectedOutput_old blocks hle).symm, h.flushed_lt, h.flushed_once⟩
  rw [hhigh, hreceived j hj]
  exact h.there j hj

/-- **One more packet.** -/
theorem Collected.step (clk : Nat → UInt64) (hblocks : Sent blocks) {run : RxRun}
    (h : Collected blocks dlv run.state run.out run.flushed) (hhigh : highest dlv < blocks.length)
    (hall : ∀ q ∈ dlv, q.blockNum ≤ highest dlv) (hpd : Carries blocks pd)
    (hwin : highest dlv ≤ pd.blockNum + 128) :
    ∃ run', rxRunStep clk run pd = some run' ∧
      Collected blocks (dlv ++ [pd]) run'.state run'.out run'.flushed := by
  obtain ⟨b, k, hpd⟩ := hpd
  have hcrc := hpd.crcOk
  have hmax := h.max
  obtain ⟨r, hrun, hdone, hinv⟩ := processPayload_spec clk h.inv hcrc ⟨0, run.data⟩
  refine ⟨_, by rw [rxRunStep, hrun]; rfl, ?_⟩
  have hempty : (⟨0, run.data⟩ : RxData).content = [] := rfl
  cases hdone with
  | flush hnew hopen decoded hdecoded hout hflushed hopened =>
    have hnew' : highest dlv < pd.blockNum := by omega
    have hexpected : run.out ++ r.rxData.content = expectedOutput blocks (dlv ++ [pd]) := by
      rw [hout, hempty, List.nil_append, h.flush hblocks hhigh hdecoded, expectedOutput_new _ hnew',
        h.out]
    simp only [hexpected]
    refine collected_opened hblocks hpd (fun q hq => by have := hall q hq; omega) hopened hinv ?_ ?_
    · intro x hx
      simp only [hflushed, Option.toList_some, List.mem_append, List.mem_singleton] at hx
      rcases hx with hx | rfl
      · have := h.flushed_lt x hx
        omega
      · omega
    · simp only [hflushed, Option.toList_some, List.pairwise_append, List.pairwise_singleton,
        List.mem_singleton, forall_eq, true_and]
      exact ⟨h.flushed_once, h.flushed_lt⟩
  | «open» hnew hout hflushed hopened =>
    -- Neither the first packet nor a restart.
    omega
  | store hblock hfree hout hflushed hmax' hnum hpackets hstored =>
    have hsame : pd.blockNum = highest dlv := by omega
    simp only [hout, hflushed, hempty, Option.toList_none, List.append_nil]
    exact h.stored hblocks hpd hsame hinv hmax' hpackets
  | duplicate hblock hfilled hr =>
    have hsame : pd.blockNum = highest dlv := by omega
    subst hr
    simp only [hempty, Option.toList_none, List.append_nil]
    apply h.dropped hsame.le
    intro j hj
    rw [received_concat le_rfl]
    by_cases hj' : j = pd.packetNum
    · rw [← h.there j hj, hj', hfilled, Bool.true_or]
    · simp [Ne.symm hj']
  | late hlt hge hr =>
    have hlt' : pd.blockNum < highest dlv := by omega
    subst hr
    simp only [hempty, Option.toList_none, List.append_nil]
    exact h.dropped hlt'.le fun j _ => received_concat_ne dlv (Nat.ne_of_lt hlt') j

theorem Carries.blockNum_lt (hblocks : Sent blocks) (h : Carries blocks pd) :
    pd.blockNum < blocks.length := by
  obtain ⟨b, k, hpd⟩ := h
  obtain ⟨hb, -⟩ := hpd.place hblocks
  obtain ⟨block, p, hblock, -⟩ := hpd.packet
  rw [hb]
  exact (List.getElem?_eq_some_iff.mp hblock).1

/-- A first packet that opens its block starts a collection. -/
theorem Collected.first (clk : Nat → UInt64) (hblocks : Sent blocks) (run : RxRun)
    (hinv : RxInv run.state) (hout : run.out = []) (hflushed : run.flushed = [])
    (hpd : Carries blocks pd)
    (hopen : run.state.maxBlockNum = -1 ∨ (pd.blockNum : Int) + 128 < run.state.maxBlockNum) :
    ∃ run', rxRunStep clk run pd = some run' ∧
      Collected blocks [pd] run'.state run'.out run'.flushed := by
  obtain ⟨b, k, hpd⟩ := hpd
  have hcrc := hpd.crcOk
  obtain ⟨r, hrun, hdone, hinv'⟩ := processPayload_spec clk hinv hcrc ⟨0, run.data⟩
  refine ⟨_, by rw [rxRunStep, hrun]; rfl, ?_⟩
  cases hdone with
  | «open» _ hout' hflushed' hopened =>
    have hempty : r.rxData.content = [] := by
      rw [hout']
      rfl
    have : Collected blocks ([] ++ [pd]) r.state (expectedOutput blocks ([] ++ [pd])) [] :=
      collected_opened hblocks hpd (fun q hq => absurd hq List.not_mem_nil) hopened hinv'
        (fun x hx => absurd hx List.not_mem_nil) List.Pairwise.nil
    rw [List.nil_append, expectedOutput_single] at this
    simpa only [hout, hflushed, hflushed', hempty, List.nil_append, Option.toList_none] using this
  | flush hnew hne _ _ _ _ _ => omega
  | store hblock _ _ _ _ _ _ _ => omega
  | duplicate hblock _ _ => omega
  | late hlt hge _ => omega

/-- **The packets after the first**, by induction on how many were handed over. -/
theorem Collected.run (clk : Nat → UInt64) (hblocks : Sent blocks) {run₀ run₁ : RxRun}
    (hfirst : rxRunStep clk run₀ pd = some run₁)
    (h : Collected blocks [pd] run₁.state run₁.out run₁.flushed) (rest : List PayloadData)
    (hall : ∀ q ∈ pd :: rest, Carries blocks q) (hwin : InWindow (pd :: rest)) :
    ∃ run, rxRun clk run₀ (pd :: rest) = some run ∧
      Collected blocks (pd :: rest) run.state run.out run.flushed := by
  induction rest using List.reverseRecOn with
  | nil => exact ⟨run₁, by rw [rxRun, List.foldlM_cons, hfirst]; rfl, h⟩
  | append_singleton rest q ih =>
    rw [← List.cons_append] at hall hwin ⊢
    obtain ⟨hwin', hq⟩ := hwin.init
    have hall' : ∀ p ∈ pd :: rest, Carries blocks p := by
      intro p hp
      exact hall p (List.mem_append_left _ hp)
    obtain ⟨run, hrun, hcollected⟩ := ih hall' hwin'
    obtain ⟨top, htop, hhigh⟩ := exists_highest (List.cons_ne_nil pd rest)
    obtain ⟨run', hstep, hcollected'⟩ := hcollected.step clk hblocks
      (hhigh ▸ (hall' top htop).blockNum_lt hblocks) (fun p hp => le_highest hp)
      (hall q (List.mem_append_right _ (List.mem_singleton_self q))) hq
    refine ⟨run', ?_, hcollected'⟩
    rw [rxRun_append, hrun, Option.bind_some, rxRun, List.foldlM_cons, hstep]
    rfl

end

/-! ## The link -/

/-- The packets of the blocks are written behind a radio header of `phdrLen` bytes. -/
def WrittenBlocks (phdrLen : Nat) (blocks : List TxBlock) : Prop :=
  ∀ b (block : TxBlock), blocks[b]? = some block → block.Written phdrLen (12 * b)

/-- A run of a fresh transmitter sends well-formed blocks, and writes them. -/
theorem sent_of_run (env : TxEnv) {s : TxState} (hs : s.Fresh) (calls : List (Buf × UInt16)) :
    ∃ s' blocks, wfbTxRun env s calls = some (s', blocks) ∧
      (∀ block ∈ blocks, block.Framed s.phdrLen) ∧
      (blocks.length < 357913941 → Sent blocks ∧ WrittenBlocks s.phdrLen blocks) := by
  obtain ⟨s', blocks, hrun, -, hemits⟩ := wfbTxRun_spec env calls hs.inv
  refine ⟨s', blocks, hrun, hemits.framed, fun hlen => ⟨⟨fun b block hb => ?_, hemits.finished,
    fun block hb => ⟨s.phdrLen, hemits.framed block hb⟩, hlen⟩, fun b block hb => ?_⟩⟩
  · have hlt : b < blocks.length := (List.getElem?_eq_some_iff.mp hb).1
    have hgood := hemits.good b block hb
    rwa [hs.seqNr, UInt32.zero_add, UInt32.toNat_ofNat', Nat.mod_eq_of_lt (by omega)] at hgood
  · have hlt : b < blocks.length := (List.getElem?_eq_some_iff.mp hb).1
    have hwritten := hemits.written hs hb
    rwa [Nat.mod_eq_of_lt (by omega)] at hwritten

/-- The bytes handed to `process_payload` stand behind the radio header in a frame that was written
for one of the blocks. -/
def FrameHeard (phdrLen : Nat) (blocks : List TxBlock) (pd : PayloadData) : Prop :=
  pd.crcOk = true ∧ ∃ block ∈ blocks, ∃ slot f, block.frame slot = some f ∧
    slice pd.data 0 pd.size = f.drop phdrLen

theorem FrameHeard.carries {phdrLen : Nat} {blocks : List TxBlock}
    (hframed : ∀ block ∈ blocks, block.Framed phdrLen) {pd : PayloadData}
    (h : FrameHeard phdrLen blocks pd) : Carries blocks pd := by
  obtain ⟨hcrc, block, hblock, slot, f, hframe, hbytes⟩ := h
  obtain ⟨p, hslot, hf⟩ := Option.bind_eq_some_iff.mp hframe
  have hp := List.mem_of_getElem? hslot
  obtain ⟨b, hb⟩ := List.mem_iff_getElem?.mp hblock
  exact ⟨b, p.kind, ⟨block, p, hb, hp, rfl, hcrc,
    hbytes.trans ((hframed block hblock).frame p hp f hf)⟩⟩

/-- **The video link.** Whatever a fresh transmitter is given, as long as `seq_nr` does not wrap, it
writes the packets of its blocks. Whichever of these frames are heard, in whichever order and how
often, as long as none is more than 128 blocks late: `process_payload` appends to `rx_data` the
payloads of the blocks below the last one seen, in order, each block flushed at most once, whole
where the FEC packets received make up for the data packets missing. A FEC packet that is withheld
is one that is not received. -/
theorem video_link (env : TxEnv) (s : TxState) (hs : s.Fresh) (calls : List (Buf × UInt16)) :
    ∃ s' blocks, wfbTxRun env s calls = some (s', blocks) ∧
      (blocks.length < 357913941 → WrittenBlocks s.phdrLen blocks ∧
        ∀ (clk : Nat → UInt64) (rx : RxState) (data : Buf) (dlv : List PayloadData), rx.Fresh →
          (∀ pd ∈ dlv, FrameHeard s.phdrLen blocks pd) → InWindow dlv →
          ∃ run, rxRun clk ⟨rx, data, [], []⟩ dlv = some run ∧
            run.out = expectedOutput blocks dlv ∧ run.flushed.Pairwise (· < ·)) := by
  obtain ⟨s', blocks, hrun, hframed, hsent⟩ := sent_of_run env hs calls
  refine ⟨s', blocks, hrun, ?_⟩
  intro hlen
  obtain ⟨hblocks, hwritten⟩ := hsent hlen
  refine ⟨hwritten, fun clk rx data dlv hrx hheard hwin => ?_⟩
  have hcarries : ∀ pd ∈ dlv, Carries blocks pd :=
    fun pd hpd => (hheard pd hpd).carries hframed
  cases dlv with
  | nil => exact ⟨_, rfl, rfl, List.Pairwise.nil⟩
  | cons pd rest =>
    obtain ⟨run₁, hfirst, hcollected⟩ := Collected.first clk hblocks
      ⟨rx, data, [], []⟩ hrx.inv rfl rfl (hcarries pd List.mem_cons_self)
      (Or.inl hrx.maxBlockNum)
    obtain ⟨run, hrun', h⟩ := hcollected.run clk hblocks hfirst rest hcarries hwin
    exact ⟨run, hrun', h.out, h.flushed_once⟩

/-- Runs of any number of blocks exist. -/
theorem sent_small (data : Buf) {n : Nat} (hn : n < 2 ^ 31) : ∃ s' blocks,
    wfbTxRun ⟨fun _ => 0, fun _ _ _ => 0⟩ (wfbStreamInit [] fun _ _ => 0)
      (List.replicate n (data, 20)) = some (s', blocks) ∧ blocks.length = n / 8 ∧ Sent blocks := by
  have hfresh := wfbStreamInit_fresh [] fun _ _ => 0
  obtain ⟨s', blocks, hrun, hlen⟩ :=
    wfbTxRun_small ⟨fun _ => 0, fun _ _ _ => 0⟩ data n hfresh.inv rfl
  obtain ⟨s₁, blocks₁, hrun₁, -, hsent⟩ := sent_of_run ⟨fun _ => 0, fun _ _ _ => 0⟩ hfresh
    (List.replicate n (data, 20))
  obtain ⟨-, rfl⟩ := Prod.mk.inj (Option.some.inj (hrun₁.symm.trans hrun))
  have hlen' : blocks₁.length = n / 8 := by
    rw [hlen]
    simp [wfbStreamInit]
  exact ⟨s', blocks₁, hrun, hlen', (hsent (by omega)).1⟩

/-! ## A delivery of two blocks -/

/-- What is put out depends only on the sequence numbers. -/
theorem expectedOutput_congr (blocks : List TxBlock) {dlv dlv' : List PayloadData}
    (h : dlv.map PayloadData.sequenceNumber = dlv'.map PayloadData.sequenceNumber) :
    expectedOutput blocks dlv = expectedOutput blocks dlv' := by
  have hhighest (l : List PayloadData) : highest l =
      (l.map PayloadData.sequenceNumber).foldl (fun m nr => max m (nr.toNat / 12)) 0 := by
    rw [List.foldl_map]
    rfl
  have hreceived (l : List PayloadData) (b j : Nat) : received l b j =
      ((l.map PayloadData.sequenceNumber).takeWhile fun nr => decide (nr.toNat / 12 ≤ b)).any
        fun nr => decide (nr.toNat / 12 = b) && decide (nr.toNat % 12 = j) := by
    rw [List.takeWhile_map, List.any_map]
    rfl
  rw [expectedOutput, expectedOutput, hhighest, hhighest, h]
  refine List.flatMap_congr fun b _ => blockOutput_congr fun j => ?_
  rw [hreceived, hreceived, h]

theorem InWindow.of_le {dlv : List PayloadData} (h : ∀ pd ∈ dlv, pd.blockNum ≤ 128) :
    InWindow dlv := by
  intro pre pd post he
  by_cases hnil : pre = []
  · subst hnil
    exact Nat.zero_le _
  · obtain ⟨q, hq, hhigh⟩ := exists_highest hnil
    have := h q (by rw [he]; exact List.mem_append_left _ hq)
    omega

theorem TxBlock.Written.hears {phdrLen : Nat} {blocks : List TxBlock} {b : Nat} {block : TxBlock}
    (hb : blocks[b]? = some block) (h : block.Written phdrLen (12 * b)) {k : BlockPacket}
    (hk : k.AlwaysSent) :
    ∃ pd, FrameHeard phdrLen blocks pd ∧ pd.sequenceNumber = .ofNat (12 * b + k.slot) := by
  obtain ⟨f, hframe, -, hseq⟩ := h.frame k hk
  refine ⟨⟨ofList (f.drop phdrLen), (f.drop phdrLen).length, true⟩,
    ⟨rfl, block, List.mem_of_getElem? hb, k.slot, f, hframe, slice_ofList _⟩, ?_⟩
  rw [← hseq]
  apply read32_congr
  refine slice_eq_iff.mpr fun i _ => ?_
  simp only [ofList, List.getD_eq_getElem?_getD, List.getElem?_drop, Nat.zero_add]

/-- A block carries at least eight times twenty bytes. -/
theorem TxBlock.Finished.length_payloads {block : TxBlock} (h : block.Finished) :
    160 ≤ block.payloads.length := by
  have hpayload : ∀ di < 8, 20 ≤ ((block.pbl di).payload).length := by
    intro di hdi
    have hwhole := (h di hdi).whole
    rw [hwhole.payload]
    exact hwhole.length_ge
  have hsum : block.payloads.length =
      ((List.range 8).map fun di => ((block.pbl di).payload).length).sum := List.length_flatMap
  have := List.card_nsmul_le_sum ((List.range 8).map fun di => ((block.pbl di).payload).length) 20
    (by simpa using hpayload)
  rw [hsum]
  simpa using this

/-- Sixteen calls of twenty bytes fill two blocks, each with eight of them. -/
theorem payloads_first {env : TxEnv} {s s' : TxState} {blocks : List TxBlock} {x : UInt8}
    (hs : s.Fresh) (hblocks : Sent blocks) (hlen : blocks.length = 2)
    (hrun : wfbTxRun env s (List.replicate 16 (fun _ => x, 20)) = some (s', blocks)) :
    (List.range paramDataPacketsPerBlock).flatMap (sentPayload blocks 0) =
      List.replicate 160 x := by
  obtain ⟨first, second, rfl⟩ := List.length_eq_two.mp hlen
  have hbytes := wfbTxRun_pending hs.inv hrun
  have hgiven : ((List.replicate 16 ((fun _ => x, 20) : Buf × UInt16)).flatMap fun call =>
      slice call.1 0 call.2.toNat) = List.replicate 320 x := by
    rw [List.flatMap_replicate, show slice (fun _ => x) 0 (20 : UInt16).toNat =
      List.replicate 20 x from List.map_const', List.flatten_replicate_replicate]
  rw [hs.pending, List.nil_append, hgiven, List.flatMap_cons, List.append_assoc] at hbytes
  have hfirst := (hblocks.finished first (by simp)).length_payloads
  have hsecond := (hblocks.finished second (by simp)).length_payloads
  have hlength := congrArg List.length hbytes
  simp only [List.length_append, List.length_replicate, List.flatMap_cons, List.flatMap_nil,
    List.append_nil] at hlength
  have htake := congrArg (List.take 160) hbytes
  rw [List.take_left' (by omega), List.take_replicate] at htake
  exact htake

/-- Data packets 3 and 5 of block 0 are lost or late, and two FEC packets make up for them; packet
0 arrives twice. -/
def lossyDelivery : List (Nat × BlockPacket) :=
  [(0, .fec 2), (0, .data 7), (0, .data 0), (0, .data 1), (0, .data 0), (0, .fec 0), (0, .data 6),
    (0, .data 2), (0, .data 4), (1, .data 0), (0, .data 3), (1, .fec 0)]

/-- The sequence numbers of the delivery. -/
def lossyNumbers : List UInt32 :=
  lossyDelivery.map fun x => .ofNat (12 * x.1 + x.2.slot)

/-- It brings the whole of block 0. -/
theorem expectedOutput_lossy (blocks : List TxBlock) {dlv : List PayloadData}
    (h : dlv.map PayloadData.sequenceNumber = lossyNumbers) :
    expectedOutput blocks dlv =
      (List.range paramDataPacketsPerBlock).flatMap (sentPayload blocks 0) ∧ InWindow dlv := by
  constructor
  · obtain ⟨dlv', hdlv'⟩ : ∃ dlv' : List PayloadData,
        dlv' = lossyNumbers.map fun nr => ⟨ofList (le32 nr), 4, true⟩ := ⟨_, rfl⟩
    have hnumbers : dlv'.map PayloadData.sequenceNumber = lossyNumbers := by
      rw [hdlv', List.map_map]
      exact List.map_id'' (fun nr => read32_of_slice (slice_ofList (le32 nr))) _
    have hhighest : highest dlv' = 1 := by
      rw [hdlv']
      decide
    have hmissing : datasMissing dlv' 0 ≤ fecsReceived dlv' 0 := by
      rw [hdlv']
      decide
    rw [expectedOutput_congr blocks (h.trans hnumbers.symm), expectedOutput, hhighest,
      List.range_one, List.flatMap_singleton]
    refine List.flatMap_congr fun di _ => ?_
    rw [if_pos (by rw [decide_eq_true hmissing, Bool.true_or])]
  · refine .of_le fun pd hpd => ?_
    have hnr : ∀ nr ∈ lossyNumbers, nr.toNat / 12 ≤ 128 := by
      rw [lossyNumbers, List.forall_mem_map]
      decide
    exact hnr _ (h ▸ List.mem_map_of_mem hpd)

/-- Any sequence numbers of packets that are always sent can be heard. -/
theorem exists_frameHeard {phdrLen : Nat} {blocks : List TxBlock}
    (hwritten : WrittenBlocks phdrLen blocks)
    {l : List (Nat × BlockPacket)} (hl : ∀ x ∈ l, x.1 < blocks.length ∧ x.2.AlwaysSent) :
    ∃ dlv : List PayloadData, (∀ pd ∈ dlv, FrameHeard phdrLen blocks pd) ∧
      dlv.map PayloadData.sequenceNumber = l.map fun x => .ofNat (12 * x.1 + x.2.slot) := by
  induction l with
  | nil => exact ⟨[], fun pd hpd => absurd hpd List.not_mem_nil, rfl⟩
  | cons x l ih =>
    obtain ⟨⟨hb, hk⟩, hrest⟩ := List.forall_mem_cons.mp hl
    obtain ⟨pd, hpd, hseq⟩ :=
      (hwritten _ _ (List.getElem?_eq_getElem hb)).hears (List.getElem?_eq_getElem hb) hk
    obtain ⟨dlv, hdlv, hseqs⟩ := ih hrest
    exact ⟨pd :: dlv, List.forall_mem_cons.mpr ⟨hpd, hdlv⟩, by
      rw [List.map_cons, List.map_cons, hseq, hseqs]⟩

/-- The link with two blocks and a lossy delivery: the whole of block 0 is put out. -/
theorem video_link_lossy : ∃ s' blocks dlv run,
    wfbTxRun ⟨fun _ => 0, fun _ _ _ => 0⟩ (wfbStreamInit [] fun _ _ => 0)
      (List.replicate 16 (fun _ => 7, 20)) = some (s', blocks) ∧ blocks.length = 2 ∧
    dlv.map PayloadData.sequenceNumber = lossyNumbers ∧ (∀ pd ∈ dlv, FrameHeard 0 blocks pd) ∧
    rxRun (fun _ => 0) ⟨wfbRxStreamInit fun _ _ => 0, fun _ => 0, [], []⟩ dlv = some run ∧
    run.out = List.replicate 160 7 ∧ run.flushed.Pairwise (· < ·) := by
  have hfresh := wfbStreamInit_fresh [] fun _ _ => 0
  obtain ⟨s', blocks, hrun, hlen, hsent⟩ := sent_small (fun _ => 7) (show 16 < 2 ^ 31 by decide)
  obtain ⟨s₁, blocks₁, hrun₁, h⟩ := video_link ⟨fun _ => 0, fun _ _ _ => 0⟩
    (wfbStreamInit [] fun _ _ => 0) hfresh (List.replicate 16 (fun _ => 7, 20))
  obtain ⟨-, rfl⟩ := Prod.mk.inj (Option.some.inj (hrun₁.symm.trans hrun))
  obtain ⟨hwritten, hlink⟩ := h (by omega)
  have hdelivery : ∀ x ∈ lossyDelivery, x.1 < 2 ∧ x.2.AlwaysSent := by decide
  obtain ⟨dlv, hheard, hnumbers⟩ := exists_frameHeard hwritten (l := lossyDelivery) (by
    rw [hlen]
    exact hdelivery)
  obtain ⟨hexpected, hwin⟩ := expectedOutput_lossy blocks₁ hnumbers
  obtain ⟨run, hrx, hout, honce⟩ := hlink (fun _ => 0) (wfbRxStreamInit fun _ _ => 0)
    (fun _ => 0) dlv (wfbRxStreamInit_fresh _) hheard hwin
  rw [hexpected, payloads_first hfresh hsent hlen hrun] at hout
  exact ⟨s', blocks₁, dlv, run, hrun, hlen, hnumbers, hheard, hrx, hout, honce⟩

end Rhex
