import Mathlib
import Rhex.Lib.Crc
import Rhex.Lib.CrcErrors
import Rhex.Mavlink

/-!
# The checksum of a MAVLink frame

A frame ends with a checksum of two bytes. `crc_accumulate` takes a byte at a time; the checksum
is defined on bits, as CRC-16/MCRF4XX.

* `crc16Mcrf4xx` — the checksum, bit by bit.
* `crcAccumulate_eq` — a step of `crc_accumulate` is eight steps of it.
* `Verifies` — a frame as a receiver checks it.
* `mavlink_checksum` — what `mavlink_msg_buffer` stores, and the acknowledgement as a frame.
* `mavlink_detects` — the errors in a frame that a receiver notices.
-/

namespace Rhex

open Memory

/-! ## The checksum -/

/-- The reflected polynomial of the checksum. -/
def crcPoly : BitVec 16 := 0x8408

def crc16Mcrf4xx (message : List UInt8) : UInt16 :=
  .ofBitVec (Crc.bytes crcPoly 0xFFFF (message.map UInt8.toBitVec))

theorem crcAccumulate_zero (x : BitVec 8) :
    (crcAccumulate 0 (.ofBitVec x)).toBitVec = Crc.byte crcPoly 0#16 x := by
  revert x
  decide +kernel

theorem crcAccumulate_eq (crc : UInt16) (data : UInt8) :
    (crcAccumulate crc data).toBitVec = Crc.byte crcPoly crc.toBitVec data.toBitVec := by
  have hmask : (crc &&& 0xFF).toUInt8 = crc.toUInt8 := by
    apply UInt8.toNat_inj.mp
    rw [UInt16.toNat_toUInt8, UInt16.toNat_toUInt8, UInt16.toNat_and]
    rw [show (0xFF : UInt16).toNat = 2 ^ 8 - 1 from rfl, Nat.and_two_pow_sub_one_eq_mod]
    exact Nat.mod_mod _ _
  have hlow : data.toBitVec ^^^ crc.toBitVec.setWidth 8 =
      (data ^^^ (crc &&& 0xFF).toUInt8).toBitVec := by
    rw [hmask]
    rfl
  have hsplit : crcAccumulate crc data =
      (crc >>> 8) ^^^ crcAccumulate 0 (data ^^^ (crc &&& 0xFF).toUInt8) := by
    simp [crcAccumulate, UInt16.xor_assoc]
  rw [Crc.byte_eq, hlow, ← crcAccumulate_zero, UInt8.ofBitVec_toBitVec, hsplit]
  simp

theorem crcAccumulateBuffer_eq (crc : UInt16) (data : List UInt8) :
    (crcAccumulateBuffer crc data).toBitVec =
      Crc.bytes crcPoly crc.toBitVec (data.map UInt8.toBitVec) := by
  induction data generalizing crc with
  | nil => rfl
  | cons x data ih =>
    rw [List.map_cons]
    exact (ih _).trans (by rw [crcAccumulate_eq]; rfl)

theorem crcCalculate_eq (data : List UInt8) : crcCalculate data = crc16Mcrf4xx data := by
  apply UInt16.toBitVec_inj.mp
  exact crcAccumulateBuffer_eq 0xFFFF data

/-- The check value of CRC-16/MCRF4XX, for the digits from 1 to 9. -/
example : crc16Mcrf4xx [0x31, 0x32, 0x33, 0x34, 0x35, 0x36, 0x37, 0x38, 0x39] = 0x6F91 := by
  decide +kernel

theorem crcAccumulateBuffer_append (crc : UInt16) (l r : List UInt8) :
    crcAccumulateBuffer (crcAccumulateBuffer crc l) r = crcAccumulateBuffer crc (l ++ r) :=
  List.foldl_append.symm

/-! ## Frames -/

/-- A frame as a receiver checks it: the magic byte, the length of the payload, and the checksum
over the header behind the magic byte, the payload and the extra byte of the message. -/
structure Verifies (frame : List UInt8) (crcExtra : UInt8) : Prop where
  magic : ofList frame 0 = mavlinkStx
  length : frame.length = mavlinkHeaderLen + (ofList frame 1).toNat + 2
  checksum : slice (ofList frame) (mavlinkHeaderLen + (ofList frame 1).toNat) 2 =
    le16 (crc16Mcrf4xx (slice (ofList frame) 1 (mavlinkHeaderLen - 1) ++
      slice (ofList frame) mavlinkHeaderLen (ofList frame 1).toNat ++ [crcExtra]))

/-- `result` of the acknowledgement in a frame. -/
def ackedResult (frame : List UInt8) : UInt8 := ofList frame (mavlinkHeaderLen + 2)

section

variable (msg : Buf) (length crcExtra txSeq : UInt8)

theorem mavlinkMsgBuffer_header {i : Nat} (hi : i < mavlinkHeaderLen + length.toNat) :
    mavlinkMsgBuffer msg length crcExtra txSeq i =
      memcpy (memcpy msg 0 [mavlinkStx, length, 0]) 4 [txSeq] i :=
  memcpy_of_lt hi

/-- The checksum is that of the bytes in front of it. -/
theorem mavlinkMsgBuffer_checksum :
    slice (mavlinkMsgBuffer msg length crcExtra txSeq) (mavlinkHeaderLen + length.toNat) 2 =
      le16 (crc16Mcrf4xx (slice (mavlinkMsgBuffer msg length crcExtra txSeq) 1
        (mavlinkHeaderLen - 1) ++ slice (mavlinkMsgBuffer msg length crcExtra txSeq)
          mavlinkHeaderLen length.toNat ++ [crcExtra])) := by
  have hhead : slice (mavlinkMsgBuffer msg length crcExtra txSeq) 1 (mavlinkHeaderLen - 1) =
      slice (memcpy (memcpy msg 0 [mavlinkStx, length, 0]) 4 [txSeq]) 1 (mavlinkHeaderLen - 1) :=
    slice_memcpy_before (by simp)
  have hpayload : slice (mavlinkMsgBuffer msg length crcExtra txSeq) mavlinkHeaderLen
      length.toNat = slice (memcpy (memcpy msg 0 [mavlinkStx, length, 0]) 4 [txSeq])
        mavlinkHeaderLen length.toNat :=
    slice_memcpy_before le_rfl
  rw [hhead, hpayload, ← crcCalculate_eq, crcCalculate, ← crcAccumulateBuffer_append,
    ← crcAccumulateBuffer_append]
  exact slice_memcpy _ _ _

/-- The frame in the buffer verifies. -/
theorem mavlinkMsgBuffer_verifies :
    Verifies (slice (mavlinkMsgBuffer msg length crcExtra txSeq) 0
      (mavlinkHeaderLen + length.toNat + 2)) crcExtra := by
  have hchecksum := mavlinkMsgBuffer_checksum msg length crcExtra txSeq
  have hmagic : mavlinkMsgBuffer msg length crcExtra txSeq 0 = mavlinkStx :=
    mavlinkMsgBuffer_header msg length crcExtra txSeq (by simp)
  have hlen : mavlinkMsgBuffer msg length crcExtra txSeq 1 = length :=
    mavlinkMsgBuffer_header msg length crcExtra txSeq (by simp; omega)
  generalize mavlinkMsgBuffer msg length crcExtra txSeq = b at *
  have hslice {off n : Nat} (h : off + n ≤ mavlinkHeaderLen + length.toNat + 2) :
      slice (ofList (slice b 0 (mavlinkHeaderLen + length.toNat + 2))) off n = slice b off n :=
    slice_congr fun k hk => by rw [ofList_slice _ _ (by omega), Nat.zero_add]
  have hone : ofList (slice b 0 (mavlinkHeaderLen + length.toNat + 2)) 1 = length := by
    rw [ofList_slice _ _ (by omega), Nat.zero_add, hlen]
  constructor
  · rw [ofList_slice _ _ (by omega), Nat.zero_add, hmagic]
  · rw [hone, length_slice]
  · rw [hone, hslice le_rfl, hslice (by simp; omega), hslice (by omega)]
    exact hchecksum

end

theorem mavlinkAckMsg_fields (cmd : UInt16) (systemId compId result txSeq : UInt8) :
    msgid (ofList (mavlinkAckMsg cmd systemId compId result txSeq)) =
        mavlinkMsgIdCommandAck.toNat ∧
      ackedResult (mavlinkAckMsg cmd systemId compId result txSeq) = result :=
  ⟨rfl, rfl⟩

/-- **The two bytes behind the payload are the checksum of the frame and lie in the buffer, and
the 22 bytes of an acknowledgement are a frame that verifies, with the command and the result.** -/
theorem mavlink_checksum :
    (∀ (msg : Buf) (length crcExtra txSeq : UInt8),
      slice (mavlinkMsgBuffer msg length crcExtra txSeq) (mavlinkHeaderLen + length.toNat) 2 =
        le16 (crc16Mcrf4xx (slice (mavlinkMsgBuffer msg length crcExtra txSeq) 1 9 ++
          slice (mavlinkMsgBuffer msg length crcExtra txSeq) mavlinkHeaderLen length.toNat ++
            [crcExtra])) ∧
      mavlinkHeaderLen + length.toNat + 2 ≤ sizeofMavlinkMessage) ∧
    ∀ (cmd : UInt16) (systemId compId result txSeq : UInt8),
      (mavlinkAckMsg cmd systemId compId result txSeq).length = 22 ∧
      Verifies (mavlinkAckMsg cmd systemId compId result txSeq) mavlinkMsgIdCommandAckCrc ∧
      msgid (ofList (mavlinkAckMsg cmd systemId compId result txSeq)) =
        mavlinkMsgIdCommandAck.toNat ∧
      ackedCommand (mavlinkAckMsg cmd systemId compId result txSeq) = cmd ∧
      ackedResult (mavlinkAckMsg cmd systemId compId result txSeq) = result := by
  constructor
  · intro msg length crcExtra txSeq
    have hlen := length.toNat_lt
    refine ⟨mavlinkMsgBuffer_checksum msg length crcExtra txSeq, ?_⟩
    simp only [mavlinkHeaderLen, sizeofMavlinkMessage]
    omega
  · intro cmd systemId compId result txSeq
    obtain ⟨hid, hresult⟩ := mavlinkAckMsg_fields cmd systemId compId result txSeq
    exact ⟨length_slice _ _ _, mavlinkMsgBuffer_verifies _ 10 _ txSeq, hid,
      ackedCommand_mavlinkAckMsg cmd systemId compId result txSeq, hresult⟩

/-! ## Errors -/

theorem Verifies.exists_covered {frame : List UInt8} {crcExtra : UInt8}
    (h : Verifies frame crcExtra) :
    ∃ covered, frame = mavlinkStx :: covered ++ le16 (crc16Mcrf4xx (covered ++ [crcExtra])) := by
  have hmagic : slice (ofList frame) 0 1 = [mavlinkStx] := congrArg (fun x => [x]) h.magic
  refine ⟨slice (ofList frame) 1 (mavlinkHeaderLen - 1) ++
    slice (ofList frame) mavlinkHeaderLen (ofList frame 1).toNat, ?_⟩
  rw [← h.checksum, ← List.cons_append, ← List.singleton_append, ← hmagic, ← slice_add,
    show 1 + (mavlinkHeaderLen - 1) = mavlinkHeaderLen from rfl]
  have hrest := slice_add (ofList frame) 0 mavlinkHeaderLen (ofList frame 1).toNat
  have hall := slice_add (ofList frame) 0 (mavlinkHeaderLen + (ofList frame 1).toNat) 2
  rw [Nat.zero_add] at hrest hall
  rw [← hrest, ← hall, ← h.length, slice_ofList]

theorem le16_injective : Function.Injective le16 := by
  intro x y h
  have hread {z : UInt16} (b : Buf) (hb : slice b 0 2 = le16 z) : read16 b 0 = z :=
    read16_of_slice hb
  exact (hread _ (slice_ofList (le16 x))).symm.trans
    (hread _ ((slice_ofList (le16 x)).trans h))

/-- The extra byte does not hide a difference, nor does a byte in front. -/
theorem bytes_eq_of_crc16Mcrf4xx {l l' : List UInt8} {x : UInt8} (y : UInt8)
    (hlen : l'.length = l.length)
    (h : crc16Mcrf4xx (l ++ [x]) = crc16Mcrf4xx (l' ++ [x])) :
    Crc.bytes crcPoly 0#16 ((y :: l).map UInt8.toBitVec) =
      Crc.bytes crcPoly 0#16 ((y :: l').map UInt8.toBitVec) := by
  have hmap : (l'.map UInt8.toBitVec).length = (l.map UInt8.toBitVec).length := by simpa using hlen
  have hsplit (m : List UInt8) : (crc16Mcrf4xx (m ++ [x])).toBitVec =
      Crc.bytes crcPoly (Crc.bytes crcPoly 0xFFFF (m.map UInt8.toBitVec)) [x.toBitVec] := by
    simp [crc16Mcrf4xx, Crc.bytes]
  have hbytes := congrArg UInt16.toBitVec h
  rw [hsplit, hsplit] at hbytes
  have hstart := Crc.bytes_injective (rfl : crcPoly.getMsbD 0 = true) [x.toBitVec] hbytes
  exact (Crc.bytes_eq_congr 0xFFFF (Crc.byte crcPoly 0#16 y.toBitVec) hmap).mp hstart

/-- **No frame that `mavlink_msg_buffer` stores is taken for a frame of the same length after errors
in front of its checksum, if these lie in a burst of 16 bits, are two less than 32767 bits apart, or
are an odd number.** -/
theorem mavlink_detects (msg : Buf) (length crcExtra txSeq : UInt8) (frame : List UInt8)
    (hlen : frame.length = mavlinkHeaderLen + length.toNat + 2)
    (hsum : frame.drop (mavlinkHeaderLen + length.toNat) =
      slice (mavlinkMsgBuffer msg length crcExtra txSeq) (mavlinkHeaderLen + length.toNat) 2)
    (herrors : Crc.Detected 16 32767 (Crc.errors
      (Crc.messageBits ((slice (mavlinkMsgBuffer msg length crcExtra txSeq) 0
        (mavlinkHeaderLen + length.toNat)).map UInt8.toBitVec))
      (Crc.messageBits ((frame.take (mavlinkHeaderLen + length.toNat)).map UInt8.toBitVec))
      (8 * (mavlinkHeaderLen + length.toNat)))) :
    ¬Verifies frame crcExtra := by
  have hstored := mavlinkMsgBuffer_verifies msg length crcExtra txSeq
  have hparts := slice_add (mavlinkMsgBuffer msg length crcExtra txSeq) 0
    (mavlinkHeaderLen + length.toNat) 2
  rw [hparts, Nat.zero_add] at hstored
  have hcount := length_slice (mavlinkMsgBuffer msg length crcExtra txSeq) 0
    (mavlinkHeaderLen + length.toNat)
  rw [← hsum] at hstored
  generalize slice (mavlinkMsgBuffer msg length crcExtra txSeq) 0
    (mavlinkHeaderLen + length.toNat) = sent at *
  generalize mavlinkHeaderLen + length.toNat = n at *
  intro hverifies
  obtain ⟨c, hc⟩ := hstored.exists_covered
  obtain ⟨d, hd⟩ := hverifies.exists_covered
  have hdlen : (mavlinkStx :: d).length = n := by
    have := congrArg List.length hd
    simp only [List.length_append, length_le16] at this
    omega
  obtain ⟨rfl, hsums⟩ := List.append_inj' hc (by simp; omega)
  rw [hd, List.take_left' hdlen] at herrors
  rw [hd, List.drop_left' hdlen] at hsums
  have hsame : d.length = c.length := by
    simp only [List.length_cons] at hcount hdlen
    omega
  have hstrong : Crc.Strong crcPoly 32767 := Crc.strong_ccitt
  have hmap : ((mavlinkStx :: d).map UInt8.toBitVec).length =
      ((mavlinkStx :: c).map UInt8.toBitVec).length := by
    simpa using hsame
  refine hstrong.bytes_ne 0#16 hmap ?_
    (bytes_eq_of_crc16Mcrf4xx mavlinkStx hsame (le16_injective hsums).symm).symm
  rwa [List.length_map, hcount]

/-- The acknowledgement of a reboot, of which two bytes of the command arrive changed. -/
theorem mavlink_detects_command :
    let msg : Buf := ofList [0, 0, 0, 0, 0, 1, 1, 77, 0, 0, 0xF6, 0, 0, 0, 0, 0, 0, 0, 0, 0]
    ¬Verifies ([253, 10, 0, 0, 9, 1, 1, 77, 0, 0, 0x91, 1, 0, 0, 0, 0, 0, 0, 0, 0] ++
      slice (mavlinkMsgBuffer msg 10 143 9) 20 2) 143 := by
  intro msg
  exact mavlink_detects msg 10 143 9 _ rfl rfl
    (.inl ⟨⟨80, by decide +kernel⟩, 80, by decide +kernel⟩)

end Rhex
