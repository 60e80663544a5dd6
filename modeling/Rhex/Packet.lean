import Mathlib
import Rhex.Lib.Memory

/-!
# Blocks and packets of the video stream

What `wfb_tx_rawsock.c` and `wfb_rx_rawsock.c` share: a block is eight data packets and four FEC
packets, a packet travels behind a `wifi_packet_header_t`, and a data packet starts with a
`payload_header_t`. Both files define these on their own.

* `PacketBuffer` — `packet_buffer_t`.
* `dataSlot`, `fecSlot` — where the packets of a block stand in the interleaved order.
-/

namespace Rhex

open Memory

/-- `param_data_packets_per_block`. -/
@[simp] abbrev paramDataPacketsPerBlock : Nat := 8

/-- `param_fec_packets_per_block`. -/
@[simp] abbrev paramFecPacketsPerBlock : Nat := 4

/-- `param_packet_length`. -/
@[simp] abbrev paramPacketLength : Nat := 1024

/-- `param_min_packet_length`. -/
@[simp] abbrev paramMinPacketLength : Nat := 24

/-- `MAX_PACKET_LENGTH`, the size of a packet buffer. -/
@[simp] abbrev maxPacketLength : Nat := 4192

/-- `sizeof(wifi_packet_header_t)`. -/
@[simp] abbrev sizeofWifiPacketHeader : Nat := 4

/-- `sizeof(payload_header_t)`. -/
@[simp] abbrev sizeofPayloadHeader : Nat := 4

/-- `packet_buffer_t`. -/
structure PacketBuffer where
  valid : Bool
  crcCorrect : Bool
  /-- The actual length of the packet stored in `data`. -/
  len : Nat
  data : Buf

/-- `init_packet_buffer` and `alloc_packet_buffer`; `malloc` promises nothing on the contents. -/
def allocPacketBuffer (malloc : Buf) : PacketBuffer := ⟨false, false, 0, malloc⟩

/-- `ph->data_length` of the packet. -/
def PacketBuffer.dataLength (p : PacketBuffer) : UInt32 := read32 p.data 0

/-- The payload behind the header of a data packet. -/
def PacketBuffer.payload (p : PacketBuffer) : List UInt8 :=
  slice p.data sizeofPayloadHeader p.dataLength.toNat

/-! ## The interleaved order -/

/-- A packet of a block, by its number among the data or the FEC packets. -/
inductive BlockPacket where
  | data (di : Nat)
  | fec (fi : Nat)
deriving DecidableEq

/-- The slot of a data packet: the first four alternate with the FEC packets. -/
def dataSlot (di : Nat) : Nat := if di < paramFecPacketsPerBlock then 2 * di else di + 4

/-- The slot of a FEC packet. -/
def fecSlot (fi : Nat) : Nat := 2 * fi + 1

def BlockPacket.slot : BlockPacket → Nat
  | .data di => dataSlot di
  | .fec fi => fecSlot fi

/-- Round `r` of an interleaving loop starts behind `r` data packets and the FEC packets of the
rounds before. -/
theorem dataSlot_eq (r : Nat) : dataSlot r = r + min r paramFecPacketsPerBlock := by
  rw [dataSlot]
  split_ifs with h
  · rw [Nat.min_eq_left h.le]
    omega
  · rw [Nat.min_eq_right (Nat.le_of_not_lt h)]

theorem fecSlot_eq {r : Nat} (h : r < paramFecPacketsPerBlock) : fecSlot r = dataSlot r + 1 := by
  rw [fecSlot, dataSlot, if_pos h]

/-- The packet is one of the eight and four that a block has. -/
def BlockPacket.Valid : BlockPacket → Prop
  | .data di => di < paramDataPacketsPerBlock
  | .fec fi => fi < paramFecPacketsPerBlock

/-- The packets that take their turn in round `r` of an interleaving loop. -/
def roundPackets (r : Nat) : List BlockPacket :=
  .data r :: if r < paramFecPacketsPerBlock then [.fec r] else []

/-- The twelve packets of a block in their interleaved order. -/
def interleaving : List BlockPacket := (List.range paramDataPacketsPerBlock).flatMap roundPackets

/-- **The interleaved order fills the slots from 0 to 11.** -/
theorem interleaving_slots : interleaving.map BlockPacket.slot = List.range 12 := by decide

theorem mem_interleaving {p : BlockPacket} : p ∈ interleaving ↔ p.Valid := by
  cases p with
  | data di =>
    simp only [interleaving, roundPackets, List.mem_flatMap, List.mem_range, List.mem_cons,
      BlockPacket.data.injEq, BlockPacket.Valid]
    constructor
    · rintro ⟨r, hr, rfl | h⟩
      · exact hr
      · split_ifs at h <;> simp at h
    · intro h
      exact ⟨di, h, Or.inl rfl⟩
  | fec fi =>
    simp only [interleaving, roundPackets, List.mem_flatMap, List.mem_range, List.mem_cons,
      reduceCtorEq, false_or, BlockPacket.Valid]
    constructor
    · rintro ⟨r, -, h⟩
      split_ifs at h with hr
      · rw [List.mem_singleton, BlockPacket.fec.injEq] at h
        exact h ▸ hr
      · simp at h
    · intro h
      exact ⟨fi, Nat.lt_trans h (by decide), by rw [if_pos h]; exact List.mem_singleton_self _⟩

theorem interleaving_slot {p : BlockPacket} (h : p.Valid) : interleaving[p.slot]? = some p := by
  obtain ⟨i, hi⟩ := List.mem_iff_getElem?.mp (mem_interleaving.mpr h)
  have hslot := congrArg (Option.map BlockPacket.slot) hi
  rw [← List.getElem?_map, interleaving_slots, Option.map_some] at hslot
  obtain ⟨hlt, heq⟩ := List.getElem?_eq_some_iff.mp hslot
  rw [List.getElem_range] at heq
  rwa [← heq]

theorem slot_lt {p : BlockPacket} (h : p.Valid) : p.slot < 12 := by
  cases p with
  | data di =>
    simp only [BlockPacket.Valid, BlockPacket.slot, dataSlot, paramDataPacketsPerBlock,
      paramFecPacketsPerBlock] at h ⊢
    split_ifs <;> omega
  | fec fi =>
    simp only [BlockPacket.Valid, BlockPacket.slot, fecSlot, paramFecPacketsPerBlock] at h ⊢
    omega

/-- Different packets of a block have different slots. -/
theorem slot_inj {p q : BlockPacket} (hp : p.Valid) (hq : q.Valid) (h : p.slot = q.slot) :
    p = q := by
  cases p with
  | data di =>
    cases q with
    | data dj =>
      simp only [BlockPacket.slot, dataSlot, paramFecPacketsPerBlock] at h
      congr 1
      split_ifs at h <;> omega
    | fec fj =>
      simp only [BlockPacket.Valid, BlockPacket.slot, dataSlot, fecSlot,
        paramFecPacketsPerBlock] at h hq
      split_ifs at h <;> omega
  | fec fi =>
    cases q with
    | data dj =>
      simp only [BlockPacket.Valid, BlockPacket.slot, dataSlot, fecSlot,
        paramFecPacketsPerBlock] at h hp
      split_ifs at h <;> omega
    | fec fj =>
      simp only [BlockPacket.slot, fecSlot] at h
      congr 1
      omega

end Rhex
