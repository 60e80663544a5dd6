import Mathlib
import Rhex.Lib.Memory

/-!
# MAVLink messages (`rhex_ground/rhex_control.c`, `private/mavlink_defs.h`)

A message lies in a buffer of the size of `mavlink_message_t`; its fields are read at fixed offsets.

* `crcAccumulate` — the checksum.
* `mavlinkMsgBuffer`, `mavlinkAckMsg` — an acknowledgement as it is sent.
* `controlParseMsg` — what is done with a message.
* `controlParseMsg_received` — it depends on what was received, not on what the buffer held.
-/

namespace Rhex

open Memory

/-! ## Layout -/

/-- `MAVLINK_STX`. -/
def mavlinkStx : UInt8 := 253

/-- `MAVLINK_CORE_HEADER_LEN + 1`, the offset of `payload64`. -/
@[simp] abbrev mavlinkHeaderLen : Nat := 10

/-- `sizeof(mavlink_message_t)`. -/
@[simp] abbrev sizeofMavlinkMessage : Nat := 289

/-- `msgid`, a field of 24 bits. -/
def msgid (b : Buf) : Nat := (b 7).toNat + 2 ^ 8 * (b 8).toNat + 2 ^ 16 * (b 9).toNat

/-- `command` of a `mavlink_longcmd_t` in the payload. -/
def longCommand (b : Buf) : UInt16 := read16 b (mavlinkHeaderLen + 28)

/-- `MAVLINK_COMMAND_LONG`. -/
def mavlinkCommandLong : Nat := 76

/-- `MAVLINK_MSG_ID_COMMAND_ACK`. -/
def mavlinkMsgIdCommandAck : UInt8 := 77

/-- `MAVLINK_MSG_ID_COMMAND_ACK_CRC`. -/
def mavlinkMsgIdCommandAckCrc : UInt8 := 143

/-- `OPENHD_CMD_POWER_SHUTDOWN`. -/
def openhdCmdPowerShutdown : UInt16 := 11400

/-- `OPENHD_CMD_POWER_REBOOT`. -/
def openhdCmdPowerReboot : UInt16 := 11401

/-- `MAV_CMD_ACK_OK`. -/
def mavCmdAckOk : UInt8 := 1

/-! ## The checksum -/

/-- `crc_accumulate`. -/
def crcAccumulate (crc : UInt16) (data : UInt8) : UInt16 :=
  let tmp := data ^^^ (crc &&& 0xFF).toUInt8
  let tmp := tmp ^^^ (tmp <<< 4)
  (crc >>> 8) ^^^ (tmp.toUInt16 <<< 8) ^^^ (tmp.toUInt16 <<< 3) ^^^ (tmp.toUInt16 >>> 4)

/-- `crc_accumulate_buffer`. -/
def crcAccumulateBuffer (crc : UInt16) (data : List UInt8) : UInt16 := data.foldl crcAccumulate crc

/-- `crc_calculate`; `X25_INIT_CRC` is 0xFFFF. -/
def crcCalculate (data : List UInt8) : UInt16 := crcAccumulateBuffer 0xFFFF data

/-! ## Acknowledgements -/

/-- `mavlink_msg_buffer` with `mavlink_tx_seq`; the counter is one more afterwards. -/
def mavlinkMsgBuffer (msg : Buf) (length crcExtra txSeq : UInt8) : Buf :=
  let msg := memcpy msg 0 [mavlinkStx, length, 0]
  let msg := memcpy msg 4 [txSeq]
  let checksum := crcCalculate (slice msg 1 (mavlinkHeaderLen - 1))
  let checksum := crcAccumulateBuffer checksum (slice msg mavlinkHeaderLen length.toNat)
  memcpy msg (mavlinkHeaderLen + length.toNat) (le16 (crcAccumulate checksum crcExtra))

/-- `mavlink_ack_msg`: the 22 bytes that are written. -/
def mavlinkAckMsg (cmd : UInt16) (systemId compId result txSeq : UInt8) : List UInt8 :=
  let tx : Buf := fun _ => 0
  let tx := memcpy tx 7 [mavlinkMsgIdCommandAck, 0, 0]
  let tx := memcpy tx 5 [systemId]
  let tx := memcpy tx 6 [compId]
  let tx := memcpy tx mavlinkHeaderLen (le16 cmd ++ [result])
  slice (mavlinkMsgBuffer tx 10 mavlinkMsgIdCommandAckCrc txSeq) 0 22

/-- The command that a frame acknowledges. -/
def ackedCommand (frame : List UInt8) : UInt16 := read16 (ofList frame) mavlinkHeaderLen

theorem ackedCommand_mavlinkAckMsg (cmd : UInt16) (systemId compId result txSeq : UInt8) :
    ackedCommand (mavlinkAckMsg cmd systemId compId result txSeq) = cmd := by
  have hframe (b : Buf) : read16 (ofList (slice b 0 22)) mavlinkHeaderLen =
      read16 b mavlinkHeaderLen := by
    rw [read16, read16, ofList_slice b 0 (by decide), ofList_slice b 0 (by decide),
      Nat.zero_add, Nat.zero_add]
  rw [ackedCommand, mavlinkAckMsg, hframe, mavlinkMsgBuffer]
  refine read16_of_slice ?_
  rw [slice_memcpy_before (by decide), slice_memcpy_after (by simp), slice_memcpy_after (by simp)]
  exact (stored_append (stored_memcpy _ mavlinkHeaderLen (le16 cmd ++ [result]))).1

/-! ## Messages that are received -/

def IsPower (command : UInt16) : Prop :=
  command = openhdCmdPowerShutdown ∨ command = openhdCmdPowerReboot

instance (command : UInt16) : Decidable (IsPower command) := inferInstanceAs (Decidable (_ ∨ _))

/-- `parse_msg` of `rhex_control.c`: the frame that it writes, if it writes one. -/
def controlParseMsg (msg : Buf) (txSeq : UInt8) : Option (List UInt8) :=
  if msgid msg = mavlinkCommandLong ∧ IsPower (longCommand msg) then
    some (mavlinkAckMsg (longCommand msg) (msg (mavlinkHeaderLen + 30))
      (msg (mavlinkHeaderLen + 31)) mavCmdAckOk txSeq)
  else none

/-- The command that is acknowledged when `data` is received. -/
def powerCommand (data : List UInt8) : Option UInt16 :=
  if msgid (ofList data) = mavlinkCommandLong ∧ IsPower (longCommand (ofList data)) then
    some (longCommand (ofList data))
  else none

/-- All that `parse_msg` reads was received: `msgid` and, when it is `COMMAND_LONG`, also the
fields up to `target_component`. -/
def Whole (data : List UInt8) : Prop :=
  mavlinkHeaderLen + 32 ≤ data.length ∨
    mavlinkHeaderLen ≤ data.length ∧ msgid (ofList data) ≠ mavlinkCommandLong

instance (data : List UInt8) : Decidable (Whole data) := inferInstanceAs (Decidable (_ ∨ _))

/-- What is done does not depend on what the buffer held before. -/
theorem controlParseMsg_received {data : List UInt8} (h : Whole data) (stale : Buf)
    (txSeq : UInt8) :
    controlParseMsg (memcpy stale 0 data) txSeq = controlParseMsg (ofList data) txSeq := by
  have hten : mavlinkHeaderLen ≤ data.length :=
    h.elim (fun hlong => (Nat.le_add_right _ _).trans hlong) And.left
  have hmsgid : msgid (memcpy stale 0 data) = msgid (ofList data) := by
    simp only [mavlinkHeaderLen] at hten
    rw [msgid, msgid, memcpy_of_lt_length (by omega), memcpy_of_lt_length (by omega),
      memcpy_of_lt_length (by omega)]
  rw [controlParseMsg, controlParseMsg, hmsgid]
  rcases h with hlong | ⟨-, hother⟩
  · simp only [mavlinkHeaderLen] at hlong
    have hcommand : longCommand (memcpy stale 0 data) = longCommand (ofList data) := by
      rw [longCommand, longCommand, read16, read16, memcpy_of_lt_length (by simp; omega),
        memcpy_of_lt_length (by simp; omega)]
    rw [hcommand, memcpy_of_lt_length (by simp; omega), memcpy_of_lt_length (by simp; omega)]
  · rw [if_neg fun hno => hother hno.1, if_neg fun hno => hother hno.1]

theorem ackedCommand_controlParseMsg (data : List UInt8) (txSeq : UInt8) :
    (controlParseMsg (ofList data) txSeq).map ackedCommand = powerCommand data := by
  rw [controlParseMsg, powerCommand]
  split_ifs with hpower
  · exact congrArg some (ackedCommand_mavlinkAckMsg ..)
  · rfl

end Rhex
