import Mathlib
import Rhex.Lib.Align
import Rhex.Lib.Memory

/-!
# Netlink messages (`libnetlink/netlink_base.c`)

A datagram holds messages one after the other, and a message may hold attributes, each at an offset
that is a multiple of four.

* `nlmsgOk`, `nlmsgNext`, `rtaOk`, `rtaNext` — the macros by which messages and attributes are
  walked.
* `readNetlinkRecv` — how a reply is received into the static `local_buf`.
* `NlMsg.encode`, `RtAttr.encode` — messages and attributes as the kernel lays them out.
-/

namespace Rhex

open Memory

/-- `NL_MAX_IFACES`. -/
@[simp] abbrev nlMaxIfaces : Nat := 4

/-! ## Macros -/

/-- `NLMSG_ALIGN` and `RTA_ALIGN`. -/
def nlmsgAlign (len : UInt32) : UInt32 := (len + 3) &&& ~~~3

/-- `nlmsg_len` of the message at `p`. -/
def nlmsgLen (b : Buf) (p : Nat) : UInt32 := read32 b p

/-- `nlmsg_type` of the message at `p`. -/
def nlmsgType (b : Buf) (p : Nat) : UInt16 := read16 b (p + 4)

/-- `nlmsg_seq` of the message at `p`. -/
def nlmsgSeq (b : Buf) (p : Nat) : UInt32 := read32 b (p + 8)

/-- `NLMSG_ERROR`. -/
def nlmsgError : UInt16 := 2

/-- `NLMSG_DONE`. -/
def nlmsgDone : UInt16 := 3

/-- `error` of the `struct nlmsgerr` in the message at `p`. -/
def nlmsgErr (b : Buf) (p : Nat) : Int := (read32 b (p + 16)).toInt32.toInt

/-- `NLMSG_OK`. -/
def nlmsgOk (b : Buf) (p : Nat) (len : UInt32) : Prop :=
  16 ≤ len ∧ 16 ≤ nlmsgLen b p ∧ nlmsgLen b p ≤ len

instance (b : Buf) (p : Nat) (len : UInt32) : Decidable (nlmsgOk b p len) :=
  inferInstanceAs (Decidable (_ ∧ _))

/-- `NLMSG_NEXT`: the pointer, and the length that is left. -/
def nlmsgNext (b : Buf) (p : Nat) (len : UInt32) : Nat × UInt32 :=
  (p + (nlmsgAlign (nlmsgLen b p)).toNat, len - nlmsgAlign (nlmsgLen b p))

/-- `rta_len` of the attribute at `p`. -/
def rtaLen (b : Buf) (p : Nat) : UInt16 := read16 b p

/-- `rta_type` of the attribute at `p`. -/
def rtaType (b : Buf) (p : Nat) : UInt16 := read16 b (p + 2)

/-- `RTA_OK`. -/
def rtaOk (b : Buf) (p : Nat) (len : UInt32) : Prop :=
  4 ≤ len ∧ 4 ≤ rtaLen b p ∧ (rtaLen b p).toUInt32 ≤ len

instance (b : Buf) (p : Nat) (len : UInt32) : Decidable (rtaOk b p len) :=
  inferInstanceAs (Decidable (_ ∧ _))

/-- `RTA_NEXT`: the pointer. The length that is left is set anew by the callers. -/
def rtaNext (b : Buf) (p : Nat) : Nat := p + (nlmsgAlign (rtaLen b p).toUInt32).toNat

theorem nlmsgAlign_toNat {len : UInt32} (h : len.toNat + 3 < 2 ^ 32) :
    (nlmsgAlign len).toNat = Align.up 4 len.toNat := by
  have hmask : (~~~3 : UInt32).toNat = 2 ^ 32 - 2 ^ 2 := by decide
  have hadd : (len + 3).toNat = len.toNat + 3 := by
    rw [UInt32.toNat_add, show (3 : UInt32).toNat = 3 from rfl, Nat.mod_eq_of_lt h]
  rw [nlmsgAlign, UInt32.toNat_and, hmask, hadd, Align.and_mask (by decide) h, Align.up]
  rfl

/-! ## Receiving -/

/-- `BUF_SIZE`. -/
@[simp] abbrev nlBufSize : Nat := 8192

theorem toNat_ofNat_of_le {n : Nat} (h : n ≤ nlBufSize) : (UInt32.ofNat n).toNat = n := by
  simp only [nlBufSize] at h
  rw [UInt32.toNat_ofNat', Nat.mod_eq_of_lt (by omega)]

/-- What a call of `read_netlink_recv` leaves: its result, what is unread on the socket, and
`local_buf`. -/
structure NlRecv where
  result : Int
  sock : List (List UInt8)
  buf : Buf

/-- The loop of `read_netlink_recv` on the datagrams of an open socket; an empty one stands for a
failed `recvmsg` too. On a socket where nothing is unread the call does not return. -/
def recvLoop (seqId : UInt32) (waitConfirm : Bool) : Int → List (List UInt8) → Buf → Option NlRecv
  | _, [], _ => none
  | result, d :: sock, buf =>
    let msgLen := min d.length nlBufSize
    let buf := memcpy buf 0 (d.take nlBufSize)
    if msgLen = 0 then some ⟨result, sock, buf⟩
    else if nlmsgType buf 0 = nlmsgError then some ⟨nlmsgErr buf 0, sock, buf⟩
    else if nlmsgSeq buf 0 ≠ seqId then recvLoop seqId waitConfirm result sock buf
    else if nlmsgType buf 0 = nlmsgDone then some ⟨result, sock, buf⟩
    else if waitConfirm then recvLoop seqId waitConfirm msgLen sock buf
    else some ⟨msgLen, sock, buf⟩

/-- `read_netlink_recv`. -/
def readNetlinkRecv (sock : List (List UInt8)) (buf : Buf) (seqId : UInt32) (waitConfirm : Bool) :
    Option NlRecv :=
  recvLoop seqId waitConfirm 0 sock buf

/-! ## Layout -/

/-- Zeros up to a multiple of four. -/
def pad4 (l : List UInt8) : List UInt8 := l ++ List.replicate (Align.up 4 l.length - l.length) 0

@[simp] theorem length_pad4 (l : List UInt8) : (pad4 l).length = Align.up 4 l.length := by
  have := Align.le_up (a := 4) (by decide) l.length
  rw [pad4, List.length_append, List.length_replicate]
  omega

theorem four_dvd_length_pad4 (l : List UInt8) : 4 ∣ (pad4 l).length := by
  rw [length_pad4]
  exact Align.dvd_up 4 _

/-- A message; its length and sequence number are not part of it. -/
structure NlMsg where
  type : UInt16
  flags : UInt16
  pid : UInt32
  payload : List UInt8

namespace NlMsg

/-- `nlmsg_len`. -/
def len (m : NlMsg) : Nat := 16 + m.payload.length

def encode (seq : UInt32) (m : NlMsg) : List UInt8 :=
  pad4 (le32 (.ofNat m.len) ++ (le16 m.type ++ (le16 m.flags ++ (le32 seq ++ (le32 m.pid ++
    m.payload)))))

@[simp] theorem length_encode (seq : UInt32) (m : NlMsg) :
    (m.encode seq).length = Align.up 4 m.len := by
  rw [encode, length_pad4, len]
  congr 1
  simp only [List.length_append, length_le32, length_le16]
  omega

theorem sixteen_le_len (m : NlMsg) : 16 ≤ m.len := Nat.le_add_right 16 _

theorem len_le_length_encode (seq : UInt32) (m : NlMsg) : m.len ≤ (m.encode seq).length := by
  rw [length_encode]
  exact Align.le_up (by decide) m.len

theorem of_stored {m : NlMsg} {seq : UInt32} {b : Buf} {p : Nat}
    (h : Stored b p (m.encode seq)) : nlmsgLen b p = .ofNat m.len ∧ nlmsgType b p = m.type ∧
      nlmsgSeq b p = seq ∧ Stored b (p + 16) m.payload := by
  obtain ⟨h, -⟩ := stored_append h
  obtain ⟨hlen, h⟩ := stored_append h
  obtain ⟨htype, h⟩ := stored_append h
  obtain ⟨-, h⟩ := stored_append h
  obtain ⟨hseq, h⟩ := stored_append h
  obtain ⟨-, h⟩ := stored_append h
  exact ⟨read32_of_slice hlen, read16_of_slice htype, read32_of_slice hseq, h⟩

end NlMsg

/-- A datagram that fits is received whole; `NLMSG_DONE` counts as no bytes. -/
theorem readNetlinkRecv_datagram {m : NlMsg} {seqId : UInt32} {more : List UInt8}
    (hsize : (m.encode seqId ++ more).length ≤ nlBufSize) (herr : m.type ≠ nlmsgError)
    (sock : List (List UInt8)) (buf : Buf) :
    readNetlinkRecv ((m.encode seqId ++ more) :: sock) buf seqId false =
      some ⟨if m.type = nlmsgDone then 0 else (m.encode seqId ++ more).length, sock,
        memcpy buf 0 (m.encode seqId ++ more)⟩ := by
  obtain ⟨-, htype, hseq, -⟩ :=
    NlMsg.of_stored (stored_append (stored_memcpy buf 0 (m.encode seqId ++ more))).1
  have hpos : min (m.encode seqId ++ more).length nlBufSize ≠ 0 := by
    have hle := m.len_le_length_encode seqId
    have hsixteen := m.sixteen_le_len
    rw [List.length_append]
    simp only [nlBufSize]
    omega
  rw [readNetlinkRecv, recvLoop, List.take_of_length_le hsize, if_neg hpos, htype, hseq,
    if_neg herr, if_neg (not_not.mpr rfl), Nat.min_eq_left hsize]
  by_cases hdone : m.type = nlmsgDone
  · rw [if_pos hdone, if_pos hdone]
  · rw [if_neg hdone, if_neg hdone, if_neg Bool.false_ne_true]

/-- An attribute. -/
structure RtAttr where
  type : UInt16
  data : List UInt8

namespace RtAttr

/-- `rta_len`. -/
def len (a : RtAttr) : Nat := 4 + a.data.length

def encode (a : RtAttr) : List UInt8 := pad4 (le16 (.ofNat a.len) ++ (le16 a.type ++ a.data))

@[simp] theorem length_encode (a : RtAttr) : a.encode.length = Align.up 4 a.len := by
  rw [encode, length_pad4, len]
  congr 1
  simp only [List.length_append, length_le16]
  omega

theorem len_le_length_encode (a : RtAttr) : a.len ≤ a.encode.length := by
  rw [length_encode]
  exact Align.le_up (by decide) a.len

theorem of_stored {a : RtAttr} {b : Buf} {p : Nat} (h : Stored b p a.encode) :
    rtaLen b p = .ofNat a.len ∧ rtaType b p = a.type ∧ Stored b (p + 4) a.data := by
  obtain ⟨h, -⟩ := stored_append h
  obtain ⟨hlen, h⟩ := stored_append h
  obtain ⟨htype, h⟩ := stored_append h
  exact ⟨read16_of_slice hlen, read16_of_slice htype, h⟩

end RtAttr

end Rhex
