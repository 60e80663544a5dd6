import Mathlib
import Rhex.NetlinkConfirm

/-!
# The lookup of a family

`nl_get_family` asks the controller for the number of a family by its name, and looks for it among
the attributes of the reply. The loop starts twelve bytes behind the first attribute.

* `FamilyReply` — a reply as the controller sends it.
* `FamilyRecv` — how the receive ends.
* `FamilyReply.IdAt` — where the attribute with the number is, in the reply.
* `FamilyReply.Leads` — where the lengths in the bytes of the attributes lead to.
* `FamilyReply.leads_of_twelve` — they lead to the number if an attribute begins where the loop
  starts.
* `nl_family_found` — when the number that is stored is that of the reply.
-/

namespace Rhex

open Memory

/-! ## Replies -/

/-- The message `CTRL_CMD_NEWFAMILY`. It has at most one number. -/
structure FamilyReply where
  flags : UInt16
  pid : UInt32
  version : UInt8
  attrs : List RtAttr
  len_lt : ∀ a ∈ attrs, a.len < 2 ^ 16
  one_id : (attrs.filter fun a => a.type = ctrlAttrFamilyId).length ≤ 1
  id_data : ∀ a ∈ attrs, a.type = ctrlAttrFamilyId → a.data.length = 2

namespace FamilyReply

def attrBytes (m : FamilyReply) : List UInt8 := m.attrs.flatMap RtAttr.encode

def msg (m : FamilyReply) : NlMsg where
  type := genlIdCtrl
  flags := m.flags
  pid := m.pid
  payload := [ctrlCmdNewfamily, m.version, 0, 0] ++ m.attrBytes

/-- The value of `CTRL_ATTR_FAMILY_ID`. -/
def id (m : FamilyReply) : Option UInt16 :=
  (m.attrs.find? fun a => a.type = ctrlAttrFamilyId).map fun a => read16 (ofList a.data) 0

/-- The attribute with the number begins behind `q` bytes of attributes. -/
def IdAt (m : FamilyReply) (q : Nat) : Prop :=
  ∃ front a rest, m.attrs = front ++ a :: rest ∧ a.type = ctrlAttrFamilyId ∧
    (front.flatMap RtAttr.encode).length = q

/-- The lengths in the bytes of the attributes lead from one place to another one, where no header
before that has the type of the number. Any length from that of a header up to that of all
attributes is followed. -/
inductive Leads (m : FamilyReply) : Nat → Nat → Prop where
  | here (q : Nat) : Leads m q q
  | next {p q : Nat} (hin : p + 4 ≤ m.attrBytes.length)
      (hge : 4 ≤ (rtaLen (ofList m.attrBytes) p).toNat)
      (hle : (rtaLen (ofList m.attrBytes) p).toNat ≤ m.attrBytes.length)
      (htype : rtaType (ofList m.attrBytes) p ≠ ctrlAttrFamilyId)
      (h : Leads m (p + Align.up 4 (rtaLen (ofList m.attrBytes) p).toNat) q) : Leads m p q

end FamilyReply

/-- How the receive ends: its result, what `local_buf` holds, and the reply that was received, if
it is one. What is behind a reply in the buffer is older. -/
inductive FamilyRecv (seqId : UInt32) (stale : Buf) : Int → Buf → Option FamilyReply → Prop where
  | error (r : Int) (buf : Buf) (h : r < 0) : FamilyRecv seqId stale r buf none
  /-- `recvmsg` fails or gives nothing, or the kernel only acknowledges. -/
  | empty (buf : Buf) : FamilyRecv seqId stale 0 buf none
  /-- A message that is not `CTRL_CMD_NEWFAMILY`. -/
  | other (m : NlMsg) (hsize : (m.encode seqId).length ≤ nlBufSize)
      (h : m.type ≠ genlIdCtrl ∨ ∃ cmd rest, m.payload = cmd :: rest ∧ cmd ≠ ctrlCmdNewfamily) :
      FamilyRecv seqId stale (m.encode seqId).length (memcpy stale 0 (m.encode seqId)) none
  | reply (m : FamilyReply) (hlen : m.msg.len < 2 ^ 32) :
      FamilyRecv seqId stale (min (m.msg.encode seqId).length nlBufSize : Nat)
        (memcpy stale 0 ((m.msg.encode seqId).take nlBufSize)) (some m)

/-! ## The loops -/

theorem familyMessages_nil (b : Buf) (fuel p : Nat) {len : UInt32} (hlen : len < 16)
    (var : FamilyVar) : familyMessages b (fuel + 1) p len var = some var := by
  rw [familyMessages, if_neg fun hok => absurd hok.1 (UInt32.not_le.mpr hlen)]

theorem le_rtaNext (b : Buf) (p : Nat) (hok : 4 ≤ rtaLen b p) :
    rtaNext b p = p + Align.up 4 (rtaLen b p).toNat ∧ p + 4 ≤ rtaNext b p := by
  have hlt := (rtaLen b p).toNat_lt
  have hge : 4 ≤ (rtaLen b p).toNat := UInt16.le_iff_toNat_le.mp hok
  have h32 : (rtaLen b p).toUInt32.toNat = (rtaLen b p).toNat := UInt16.toNat_toUInt32 _
  have hup := Align.le_up (a := 4) (by decide) (rtaLen b p).toNat
  rw [rtaNext, nlmsgAlign_toNat (by omega), h32]
  exact ⟨rfl, by omega⟩

/-- The loop goes forward. -/
theorem familyAttrs_ge {b : Buf} {msg fuel p : Nat} {var : FamilyVar}
    (h : familyAttrs b msg fuel p = some (some var)) : ∃ q, p ≤ q ∧ var.source = some q := by
  induction fuel generalizing p with
  | zero => cases h
  | succ fuel ih =>
    rw [familyAttrs] at h
    split_ifs at h with hok htype
    · cases h
      exact ⟨p, le_rfl, rfl⟩
    · obtain ⟨q, hle, hsource⟩ := ih h
      have hnext := (le_rtaNext b p hok.2.1).2
      exact ⟨q, by omega, hsource⟩
    · cases h

/-- The reply is in memory at the start of a buffer. -/
structure FamilyReply.InBuf (m : FamilyReply) (b : Buf) : Prop where
  stored : Stored b 20 m.attrBytes
  length : nlmsgLen b 0 - 20 = .ofNat m.attrBytes.length
  length_lt : m.attrBytes.length < 2 ^ 32

namespace FamilyReply.InBuf

variable {m : FamilyReply} {b : Buf} {p q fuel : Nat}

/-- The headers in the buffer are those in the bytes of the attributes. -/
theorem header (h : m.InBuf b) (hin : p + 4 ≤ m.attrBytes.length) :
    rtaLen b (20 + p) = rtaLen (ofList m.attrBytes) p ∧
      rtaType b (20 + p) = rtaType (ofList m.attrBytes) p := by
  have hbytes : ∀ k < m.attrBytes.length, b (20 + k) = ofList m.attrBytes (0 + k) :=
    slice_eq_iff.mp (h.stored.trans (slice_ofList m.attrBytes).symm)
  have hbyte : ∀ k < m.attrBytes.length, b (20 + k) = ofList m.attrBytes k := by
    simpa only [Nat.zero_add] using hbytes
  constructor
  · refine read16_congr (slice_eq_iff.mpr fun k hk => ?_)
    rw [Nat.add_assoc]
    exact hbyte _ (by omega)
  · refine read16_congr (slice_eq_iff.mpr fun k hk => ?_)
    rw [Nat.add_assoc, Nat.add_assoc, hbyte _ (by omega), Nat.add_assoc]

theorem rtaOk_iff (h : m.InBuf b) (hin : p + 4 ≤ m.attrBytes.length) :
    rtaOk b (20 + p) (nlmsgLen b 0 - 20) ↔ 4 ≤ (rtaLen (ofList m.attrBytes) p).toNat ∧
      (rtaLen (ofList m.attrBytes) p).toNat ≤ m.attrBytes.length := by
  have hlen : (UInt32.ofNat m.attrBytes.length).toNat = m.attrBytes.length := by
    rw [UInt32.toNat_ofNat', Nat.mod_eq_of_lt h.length_lt]
  have hfour : (4 : UInt32) ≤ .ofNat m.attrBytes.length := by
    rw [UInt32.le_iff_toNat_le, hlen]
    exact le_trans (Nat.le_add_left 4 p) hin
  rw [rtaOk, h.length, (h.header hin).1, and_iff_right hfour, UInt16.le_iff_toNat_le,
    UInt32.le_iff_toNat_le, hlen, UInt16.toNat_toUInt32]
  rfl

/-- **What the loop finds in the reply, the lengths lead to.** -/
theorem leads (h : m.InBuf b) (hq : q + 4 ≤ m.attrBytes.length) {var : FamilyVar}
    (hrun : familyAttrs b 0 fuel (20 + p) = some (some var))
    (hsource : var.source = some (20 + q)) : m.Leads p q := by
  induction fuel generalizing p with
  | zero => cases hrun
  | succ fuel ih =>
    rw [familyAttrs] at hrun
    split_ifs at hrun with hok htype
    · cases hrun
      obtain rfl : p = q := Nat.add_left_cancel (Option.some.inj hsource)
      exact .here p
    · obtain ⟨hnext, hlt⟩ := le_rtaNext b (20 + p) hok.2.1
      obtain ⟨q', hle, hsource'⟩ := familyAttrs_ge hrun
      obtain rfl := Option.some.inj (hsource'.symm.trans hsource)
      have hin : p + 4 ≤ m.attrBytes.length := by omega
      obtain ⟨hlen, htype'⟩ := h.header hin
      obtain ⟨hge, hsmall⟩ := (h.rtaOk_iff hin).mp hok
      rw [hnext, hlen, Nat.add_assoc] at hrun
      exact .next hin hge hsmall (htype' ▸ htype) (ih hrun)
    · cases hrun

/-- **What the lengths lead to, the loop finds.** -/
theorem familyAttrs_of_leads (h : m.InBuf b) (hleads : m.Leads p q)
    (hok : rtaOk b (20 + q) (nlmsgLen b 0 - 20)) (htype : rtaType b (20 + q) = ctrlAttrFamilyId) :
    ∃ fuel, familyAttrs b 0 fuel (20 + p) =
      some (some ⟨read16 b (20 + q + 4), some (20 + q)⟩) := by
  induction hleads with
  | here q => exact ⟨1, by rw [familyAttrs, if_pos hok, if_pos htype]⟩
  | @next p q hin hge hle hother _ ih =>
    obtain ⟨fuel, hrun⟩ := ih hok htype
    obtain ⟨hlen, htype'⟩ := h.header hin
    have hokp := (h.rtaOk_iff hin).mpr ⟨hge, hle⟩
    refine ⟨fuel + 1, ?_⟩
    rw [familyAttrs, if_pos hokp, if_neg (by rwa [htype']),
      (le_rtaNext b (20 + p) hokp.2.1).1, hlen, Nat.add_assoc, hrun]

end FamilyReply.InBuf

/-! ## The call -/

/-- The request, up to the name. -/
def familyRequest (family : List UInt8) (pid : UInt32) : Buf :=
  (netlinkAddattrL (nlRequest 20 genlIdCtrl (nlmFRequest ||| nlmFAck) pid [ctrlCmdGetfamily, 1]) 40
    ctrlAttrFamilyName (family ++ [0]) (.ofNat (family.length + 1))).2

/-- What `send_netlink_request` leaves for it. -/
def familySent (family : List UInt8) (io : Sending) (s : NlState) : NlSent :=
  sendNetlinkRequest .generic (familyRequest family s.pid) io s

/-- The call returns. It returns 0 only if the variable was set from the attribute with the number,
and it is set to the number if there is one. -/
def FamilyFound (family : List UInt8) (io : Sending) (s : NlState) (reply : Option FamilyReply) :
    Prop :=
  ∀ familyId, ∃ fuel x, nlGetFamily fuel family familyId io s = some x ∧
    (x.result = 0 → ∃ m q, reply = some m ∧ m.IdAt q ∧ x.source = some (20 + q)) ∧
    ∀ m id, reply = some m → m.id = some id → x.result = 0 ∧ x.familyId = id

/-- The request of a name that fits. -/
theorem familyRequest_fits {family : List UInt8} (hname : family.length ≤ 15) (pid : UInt32) :
    (netlinkAddattrL (nlRequest 20 genlIdCtrl (nlmFRequest ||| nlmFAck) pid [ctrlCmdGetfamily, 1])
      40 ctrlAttrFamilyName (family ++ [0]) (.ofNat (family.length + 1))).1 = 0 := by
  have hlen := (nlRequest_fields 20 genlIdCtrl (nlmFRequest ||| nlmFAck) pid
    [ctrlCmdGetfamily, 1]).1
  have hattr : (4 + UInt32.ofNat (family.length + 1)).toNat = family.length + 5 := by
    rw [UInt32.toNat_add, UInt32.toNat_ofNat', show (4 : UInt32).toNat = 4 from rfl]
    omega
  have htwenty : (20 : UInt32).toNat = 20 := rfl
  have hpad := Align.up_le 4 (family.length + 5)
  obtain ⟨k, hk⟩ := Align.dvd_up 4 (family.length + 5)
  simp only [netlinkAddattrL]
  rw [if_neg]
  rw [hlen, UInt32.not_lt, UInt32.le_iff_toNat_le, UInt32.toNat_add,
    nlmsgAlign_toNat (by omega), nlmsgAlign_toNat (by omega), hattr,
    show Align.up 4 (20 : UInt32).toNat = 20 from rfl, show (40 : UInt32).toNat = 40 from rfl]
  omega

section

variable {family : List UInt8} {io : Sending} {s s' : NlState} {r : Int}

/-- The call, after its receive. -/
theorem nlGetFamily_recv (hname : family.length ≤ 15) (hsent : 0 ≤ (familySent family io s).result)
    (hrecv : netlinkRecv .generic (familySent family io s).seqId false
      (familySent family io s).state = some (r, s')) (fuel : Nat) (familyId : UInt16) :
    nlGetFamily fuel family familyId io s =
      if r < 0 then some ⟨⟨familyId, none⟩, r, s'⟩
      else (familyMessages s'.localBuf fuel 0 (.ofNat r.toNat) ⟨familyId, none⟩).map fun var =>
        ⟨var, 0, s'⟩ := by
  have hfits := familyRequest_fits hname s.pid
  simp only [familySent, familyRequest] at hsent hrecv
  rw [nlGetFamily]
  generalize netlinkAddattrL _ _ _ _ _ = attr at hfits hsent hrecv
  dsimp only
  rw [if_neg (not_not.mpr hfits), if_neg (not_lt.mpr hsent), hrecv]
  rfl

/-- A call that returns 0 and has not set the variable. -/
theorem not_familyFound (hname : family.length ≤ 15) (hsent : 0 ≤ (familySent family io s).result)
    (hrecv : netlinkRecv .generic (familySent family io s).seqId false
      (familySent family io s).state = some (r, s')) (hr : 0 ≤ r)
    (hkept : ∀ fuel var var',
      familyMessages s'.localBuf fuel 0 (.ofNat r.toNat) var = some var' → var' = var)
    (reply : Option FamilyReply) : ¬FamilyFound family io s reply := by
  intro h
  obtain ⟨fuel, x, hrun, hzero, -⟩ := h 0
  rw [nlGetFamily_recv hname hsent hrecv, if_neg (not_lt.mpr hr)] at hrun
  obtain ⟨var, hloop, rfl⟩ := Option.map_eq_some_iff.mp hrun
  obtain rfl := hkept fuel _ var hloop
  obtain ⟨m, q, -, -, hsource⟩ := hzero rfl
  cases hsource

end

/-- A message that fits, and nothing behind it. -/
theorem familyMessages_one {b : Buf} {seqId : UInt32} {m : NlMsg}
    (hstored : Stored b 0 (m.encode seqId)) (hsize : (m.encode seqId).length ≤ nlBufSize)
    (fuel : Nat) (var : FamilyVar) :
    familyMessages b (fuel + 2) 0 (.ofNat (m.encode seqId).length) var =
      if m.type ≠ nlmsgDone ∧ m.type = genlIdCtrl ∧ genlCmd b 0 = ctrlCmdNewfamily then
        (familyAttrs b 0 (fuel + 2) 32).map fun found => found.getD var
      else some var := by
  have hlen := toNat_ofNat_of_le hsize
  obtain ⟨-, hok, hnext⟩ := nlmsg_stored hstored hlen.ge (hlen.le.trans hsize)
  have htype := (NlMsg.of_stored hstored).2.1
  rw [familyMessages, if_pos hok, htype, hnext, UInt32.sub_self]
  dsimp only
  rw [familyMessages_nil b fuel _ (show (0 : UInt32) < 16 by decide)]
  by_cases hdone : m.type = nlmsgDone
  · rw [if_pos hdone, if_neg fun h => h.1 hdone]
  rw [if_neg hdone]
  by_cases hnew : m.type ≠ genlIdCtrl ∨ genlCmd b 0 ≠ ctrlCmdNewfamily
  · rw [if_pos hnew, if_neg fun h => hnew.elim (absurd h.2.1) (absurd h.2.2)]
  rw [if_neg hnew, if_pos ⟨hdone, by tauto⟩]
  cases familyAttrs b 0 (fuel + 2) 32 with
  | none => simp
  | some found => simp [familyMessages_nil]

theorem genlCmd_stored {b : Buf} {seqId : UInt32} {m : NlMsg} {cmd : UInt8} {rest : List UInt8}
    (hstored : Stored b 0 (m.encode seqId)) (hpayload : m.payload = cmd :: rest) :
    genlCmd b 0 = cmd := by
  obtain ⟨-, -, -, h⟩ := NlMsg.of_stored hstored
  rw [hpayload] at h
  obtain ⟨hcmd, -⟩ := stored_append (l := [cmd]) h
  exact List.head_eq_of_cons_eq hcmd

namespace FamilyReply

variable (m : FamilyReply)

theorem four_dvd_length_attrBytes : 4 ∣ m.attrBytes.length := by
  rw [attrBytes, List.length_flatMap]
  refine List.dvd_sum fun n hn => ?_
  obtain ⟨a, -, rfl⟩ := List.mem_map.mp hn
  exact four_dvd_length_pad4 _

theorem len_msg : m.msg.len = 20 + m.attrBytes.length := by
  rw [NlMsg.len, msg, List.length_append]
  simp only [List.length_cons, List.length_nil]
  omega

theorem length_encode_msg (seqId : UInt32) : (m.msg.encode seqId).length = m.msg.len := by
  rw [NlMsg.length_encode]
  refine Align.up_of_dvd (by decide) ?_
  rw [len_msg]
  exact (Nat.dvd_add_right (by decide)).mpr m.four_dvd_length_attrBytes

/-- A reply that was cut is not a message for `NLMSG_OK`. -/
theorem not_nlmsgOk_cut {seqId : UInt32} (hlen : m.msg.len < 2 ^ 32)
    (hcut : ¬(m.msg.encode seqId).length ≤ nlBufSize) (stale : Buf) :
    ¬nlmsgOk (memcpy stale 0 ((m.msg.encode seqId).take nlBufSize)) 0 (.ofNat nlBufSize) := by
  rintro ⟨-, -, hle⟩
  have hlong := m.msg.len_le_length_encode seqId
  have hfield : nlmsgLen (memcpy stale 0 ((m.msg.encode seqId).take nlBufSize)) 0 =
      .ofNat m.msg.len := by
    refine (read32_congr (slice_received stale ?_ (by decide))).trans
      (NlMsg.of_stored (slice_ofList (m.msg.encode seqId))).1
    have hsixteen := m.msg.sixteen_le_len
    omega
  rw [hfield, UInt32.le_iff_toNat_le, UInt32.toNat_ofNat', Nat.mod_eq_of_lt hlen,
    toNat_ofNat_of_le le_rfl, ← m.length_encode_msg seqId] at hle
  exact hcut hle

theorem inBuf {b : Buf} {seqId : UInt32} (hstored : Stored b 0 (m.msg.encode seqId))
    (hsize : (m.msg.encode seqId).length ≤ nlBufSize) : m.InBuf b := by
  obtain ⟨hfield, -, -, hpayload⟩ := NlMsg.of_stored hstored
  rw [m.length_encode_msg, len_msg, nlBufSize] at hsize
  refine ⟨(stored_append hpayload).2, ?_, by omega⟩
  rw [hfield, len_msg, UInt32.ofNat_add, UInt32.add_comm]
  exact UInt32.add_sub_cancel _ 20

variable {m}

theorem find_id {front rest : List RtAttr} {a : RtAttr} (hattrs : m.attrs = front ++ a :: rest)
    (htype : a.type = ctrlAttrFamilyId) :
    (m.attrs.find? fun a => a.type = ctrlAttrFamilyId) = some a := by
  have hone := m.one_id
  rw [hattrs, List.filter_append, List.filter_cons_of_pos (by simpa using htype),
    List.length_append, List.length_cons] at hone
  have hfront : front.filter (fun a => a.type = ctrlAttrFamilyId) = [] :=
    List.eq_nil_of_length_eq_zero (by omega)
  rw [hattrs, List.find?_append, List.find?_eq_none.mpr (List.filter_eq_nil_iff.mp hfront),
    Option.none_or, List.find?_cons_of_pos (by simpa using htype)]

/-- The attribute with the number, in a buffer. -/
theorem IdAt.inBuf {q : Nat} (h : m.IdAt q) {b : Buf} (hin : m.InBuf b) :
    q + 4 ≤ m.attrBytes.length ∧ rtaOk b (20 + q) (nlmsgLen b 0 - 20) ∧
      rtaType b (20 + q) = ctrlAttrFamilyId ∧ m.id = some (read16 b (20 + q + 4)) := by
  obtain ⟨front, a, rest, hattrs, htype, hq⟩ := h
  have hmem : a ∈ m.attrs := by
    rw [hattrs]
    exact List.mem_append_right front List.mem_cons_self
  have hbytes : m.attrBytes =
      front.flatMap RtAttr.encode ++ (a.encode ++ rest.flatMap RtAttr.encode) := by
    rw [attrBytes, hattrs, List.flatMap_append, List.flatMap_cons]
  have hstored := hin.stored
  rw [hbytes] at hstored
  have ha := (stored_append (stored_append hstored).2).1
  rw [hq] at ha
  obtain ⟨-, hatype, hdata⟩ := RtAttr.of_stored ha
  have hlen := (rtaLen_stored (m.len_lt a hmem) ha).1
  have hle := a.len_le_length_encode
  have hfour : 4 ≤ a.len := Nat.le_add_right 4 _
  have hlength := congrArg List.length hbytes
  rw [List.length_append, List.length_append, hq] at hlength
  have hroom : q + 4 ≤ m.attrBytes.length := by omega
  refine ⟨hroom, (hin.rtaOk_iff hroom).mpr ?_, hatype.trans htype, ?_⟩
  · rw [← (hin.header hroom).1, hlen]
    omega
  · have htwo := m.id_data a hmem htype
    rw [id, find_id hattrs htype, Option.map_some]
    rw [Stored, htwo] at hdata
    refine congrArg some (read16_congr (Eq.trans ?_ hdata.symm))
    rw [← htwo]
    exact slice_ofList a.data

/-- From where an attribute begins, the lengths lead past those that are not the number. -/
theorem leads_passes {b : Buf} (hin : m.InBuf b) {front mid rest : List RtAttr}
    (hattrs : m.attrs = front ++ (mid ++ rest)) (hmid : ∀ a ∈ mid, a.type ≠ ctrlAttrFamilyId) :
    m.Leads (front.flatMap RtAttr.encode).length
      ((front ++ mid).flatMap RtAttr.encode).length := by
  induction mid generalizing front with
  | nil =>
    rw [List.append_nil]
    exact .here _
  | cons a mid ih =>
    have hmem : a ∈ m.attrs := by
      rw [hattrs]
      simp
    have hbytes : m.attrBytes = front.flatMap RtAttr.encode ++
        (a.encode ++ (mid ++ rest).flatMap RtAttr.encode) := by
      rw [attrBytes, hattrs, List.flatMap_append, List.cons_append, List.flatMap_cons]
    have hstored := hin.stored
    rw [hbytes] at hstored
    have ha := (stored_append (stored_append hstored).2).1
    have hlen := (rtaLen_stored (m.len_lt a hmem) ha).1
    have htype := (RtAttr.of_stored ha).2.1
    have hle := a.len_le_length_encode
    have hfour : 4 ≤ a.len := Nat.le_add_right 4 _
    have hlength := congrArg List.length hbytes
    rw [List.length_append, List.length_append] at hlength
    have hroom : (front.flatMap RtAttr.encode).length + 4 ≤ m.attrBytes.length := by omega
    obtain ⟨hlen', htype'⟩ := hin.header hroom
    rw [hlen'] at hlen
    have hsplit : m.attrs = (front ++ [a]) ++ (mid ++ rest) := by
      rw [hattrs, List.append_assoc]
      rfl
    have hnext := ih hsplit fun x hx => hmid x (List.mem_cons_of_mem a hx)
    rw [List.append_assoc, List.singleton_append, List.flatMap_append, List.length_append,
      List.flatMap_singleton, RtAttr.length_encode] at hnext
    refine .next hroom (by omega) (by omega) ?_ (by rwa [hlen])
    rw [← htype', htype]
    exact hmid a List.mem_cons_self

/-- The lengths lead to the number if an attribute begins twelve bytes behind the first, and the
number is in one of those from there on. -/
theorem leads_of_twelve {b : Buf} (hin : m.InBuf b) {front mid rest : List RtAttr} {a : RtAttr}
    (hattrs : m.attrs = front ++ (mid ++ a :: rest)) (htype : a.type = ctrlAttrFamilyId)
    (htwelve : (front.flatMap RtAttr.encode).length = 12) : ∃ q, m.IdAt q ∧ m.Leads 12 q := by
  have hsplit : m.attrs = (front ++ mid) ++ a :: rest := by rw [hattrs, List.append_assoc]
  have hmid : ∀ x ∈ mid, x.type ≠ ctrlAttrFamilyId := by
    intro x hx hid
    have hone := m.one_id
    have hpos : 0 < (mid.filter fun a => a.type = ctrlAttrFamilyId).length :=
      List.length_pos_of_mem (List.mem_filter.mpr ⟨hx, by simpa using hid⟩)
    rw [hattrs, List.filter_append, List.filter_append,
      List.filter_cons_of_pos (by simpa using htype)] at hone
    simp only [List.length_append, List.length_cons] at hone
    omega
  refine ⟨_, ⟨front ++ mid, a, rest, hsplit, htype, rfl⟩, ?_⟩
  rw [← htwelve]
  exact leads_passes hin hattrs hmid

end FamilyReply

section

variable {family : List UInt8} {io : Sending} {s s' : NlState} {r : Int}

/-- A reply that is received whole. -/
theorem familyFound_whole (hname : family.length ≤ 15)
    (hsent : 0 ≤ (familySent family io s).result) {m : FamilyReply} {seqId : UInt32}
    (hrecv : netlinkRecv .generic (familySent family io s).seqId false
      (familySent family io s).state = some (((m.msg.encode seqId).length : Int), s'))
    (hsize : (m.msg.encode seqId).length ≤ nlBufSize)
    (hstored : Stored s'.localBuf 0 (m.msg.encode seqId)) :
    FamilyFound family io s (some m) ↔ ∃ q, m.IdAt q ∧ m.Leads 12 q := by
  have hin := m.inBuf hstored hsize
  have hnew : m.msg.type ≠ nlmsgDone ∧ m.msg.type = genlIdCtrl ∧
      genlCmd s'.localBuf 0 = ctrlCmdNewfamily :=
    ⟨(by decide : genlIdCtrl ≠ nlmsgDone), rfl, genlCmd_stored hstored rfl⟩
  constructor
  · intro h
    obtain ⟨fuel, x, hrun, hzero, -⟩ := h 0
    rw [nlGetFamily_recv hname hsent hrecv, if_neg (by omega), Int.toNat_natCast] at hrun
    obtain ⟨var, hloop, rfl⟩ := Option.map_eq_some_iff.mp hrun
    obtain ⟨m', q, hm', hq, hsource⟩ := hzero rfl
    cases hm'
    have hloop' := familyMessages_add hloop 2
    rw [familyMessages_one hstored hsize, if_pos hnew] at hloop'
    obtain ⟨found, hattrs, rfl⟩ := Option.map_eq_some_iff.mp hloop'
    cases found with
    | none => cases hsource
    | some var => exact ⟨q, hq, hin.leads (p := 12) (hq.inBuf hin).1 hattrs hsource⟩
  · rintro ⟨q, hq, hleads⟩ familyId
    obtain ⟨-, hok, htype, hid⟩ := hq.inBuf hin
    obtain ⟨fuel, hattrs⟩ := hin.familyAttrs_of_leads hleads hok htype
    refine ⟨fuel + 2, ⟨⟨read16 s'.localBuf (20 + q + 4), some (20 + q)⟩, 0, s'⟩, ?_,
      fun _ => ⟨m, q, rfl, hq, rfl⟩, ?_⟩
    · rw [nlGetFamily_recv hname hsent hrecv, if_neg (by omega), Int.toNat_natCast,
        familyMessages_one hstored hsize, if_pos hnew, familyAttrs_add hattrs 2]
      rfl
    · rintro m' id hm' hid'
      cases hm'
      exact ⟨rfl, Option.some.inj (hid.symm.trans hid')⟩

/-- A reply that was cut: no message is found in the buffer, and the call returns 0. -/
theorem not_familyFound_cut (hname : family.length ≤ 15)
    (hsent : 0 ≤ (familySent family io s).result)
    (hrecv : netlinkRecv .generic (familySent family io s).seqId false
      (familySent family io s).state = some ((nlBufSize : Int), s'))
    (hcut : ¬nlmsgOk s'.localBuf 0 (.ofNat nlBufSize)) (reply : Option FamilyReply) :
    ¬FamilyFound family io s reply := by
  refine not_familyFound hname hsent hrecv (by omega) ?_ reply
  intro fuel var var' h
  have h' := familyMessages_add h 1
  rw [familyMessages, Int.toNat_natCast, if_neg hcut] at h'
  exact (Option.some.inj h').symm

/-- A reply, as much of it as is received. -/
theorem familyFound_reply (hname : family.length ≤ 15)
    (hsent : 0 ≤ (familySent family io s).result) {m : FamilyReply} (hlen : m.msg.len < 2 ^ 32)
    {stale : Buf}
    (hrecv : netlinkRecv .generic (familySent family io s).seqId false
      (familySent family io s).state =
        some (((min (m.msg.encode (familySent family io s).seqId).length nlBufSize : Nat) : Int),
          s'))
    (hbuf : s'.localBuf =
      memcpy stale 0 ((m.msg.encode (familySent family io s).seqId).take nlBufSize)) :
    FamilyFound family io s (some m) ↔ m.msg.len ≤ nlBufSize ∧ ∃ q, m.IdAt q ∧ m.Leads 12 q := by
  rw [← m.length_encode_msg (familySent family io s).seqId]
  by_cases hsize : (m.msg.encode (familySent family io s).seqId).length ≤ nlBufSize
  · rw [Nat.min_eq_left hsize] at hrecv
    rw [List.take_of_length_le hsize] at hbuf
    have hstored := stored_memcpy stale 0 (m.msg.encode (familySent family io s).seqId)
    rw [← hbuf] at hstored
    rw [and_iff_right hsize]
    exact familyFound_whole hname hsent hrecv hsize hstored
  · have hcut : ¬nlmsgOk s'.localBuf 0 (.ofNat nlBufSize) := by
      rw [hbuf]
      exact m.not_nlmsgOk_cut hlen hsize stale
    rw [Nat.min_eq_right (by omega)] at hrecv
    exact iff_of_false (not_familyFound_cut hname hsent hrecv hcut _) fun h => hsize h.1

end

/-- The reply is received behind nothing else. -/
theorem netlinkRecv_reply (m : FamilyReply) (seqId : UInt32) {s : NlState}
    {q : List (List UInt8)} (hsock : s.sock .generic = some (m.msg.encode seqId :: q)) :
    netlinkRecv .generic seqId false s =
      some (((min (m.msg.encode seqId).length nlBufSize : Nat) : Int), { s with
        sock := Function.update s.sock .generic (some q)
        localBuf := memcpy s.localBuf 0 ((m.msg.encode seqId).take nlBufSize) }) := by
  have hplain : m.msg.type ≠ nlmsgError ∧ m.msg.type ≠ nlmsgDone :=
    (by decide : genlIdCtrl ≠ nlmsgError ∧ genlIdCtrl ≠ nlmsgDone)
  obtain ⟨htype, hseq, -⟩ := (NlReply.data ⟨m.msg, [], hplain⟩).received seqId s.localBuf
  have hencode : (NlReply.data ⟨m.msg, [], hplain⟩).encode seqId = m.msg.encode seqId :=
    List.append_nil _
  have hpos : min (m.msg.encode seqId).length nlBufSize ≠ 0 := by
    have hle := m.msg.len_le_length_encode seqId
    have hsixteen := m.msg.sixteen_le_len
    simp only [nlBufSize]
    omega
  rw [hencode] at htype hseq
  dsimp only [NlReply.msg] at htype
  rw [netlinkRecv, hsock]
  dsimp only
  rw [readNetlinkRecv, recvLoop, if_neg hpos, htype, hseq, if_neg hplain.1,
    if_neg (not_not.mpr rfl), if_neg hplain.2, if_neg Bool.false_ne_true]
  rfl

/-- **The number of a family is set from the reply exactly if the lengths in its bytes lead to the
attribute with the number, from twelve bytes behind the first attribute on; and a lookup that
returns 0 has set it exactly then.** -/
theorem nl_family_found (family : List UInt8) (hname : family.length ≤ 15) (io : Sending)
    (s : NlState) (hsent : 0 ≤ (familySent family io s).result) (r : Int) (s' : NlState)
    (hrecv : netlinkRecv .generic (familySent family io s).seqId false
      (familySent family io s).state = some (r, s')) (stale : Buf) (reply : Option FamilyReply)
    (hreply : FamilyRecv (familySent family io s).seqId stale r s'.localBuf reply) :
    FamilyFound family io s reply ↔ r < 0 ∨ ∃ m, reply = some m ∧ m.msg.len ≤ nlBufSize ∧
      ∃ q, m.IdAt q ∧ m.Leads 12 q := by
  generalize hbuf : s'.localBuf = buf at hreply
  cases hreply with
  | error r buf hr =>
    refine iff_of_true (fun familyId => ⟨0, ⟨⟨familyId, none⟩, r, s'⟩, ?_,
      fun h => absurd h hr.ne, ?_⟩) (.inl hr)
    · rw [nlGetFamily_recv hname hsent hrecv, if_pos hr]
    · nofun
  | empty =>
    refine iff_of_false (not_familyFound hname hsent hrecv le_rfl ?_ none) ?_
    · intro fuel var var' h
      have h' := familyMessages_add h 1
      rw [familyMessages_nil _ _ _ (by decide)] at h'
      exact (Option.some.inj h').symm
    · rintro (h | ⟨m, h, -⟩)
      · exact absurd h (by decide)
      · cases h
  | other m hsize hother =>
    have hstored := stored_memcpy stale 0 (m.encode (familySent family io s).seqId)
    rw [← hbuf] at hstored
    refine iff_of_false (not_familyFound hname hsent hrecv (by omega) ?_ none) ?_
    · intro fuel var var' h
      have h' := familyMessages_add h 2
      rw [Int.toNat_natCast, familyMessages_one hstored hsize, if_neg] at h'
      · exact (Option.some.inj h').symm
      · rintro ⟨-, htype, hcmd⟩
        rcases hother with hother | ⟨cmd, rest, hpayload, hne⟩
        · exact hother htype
        · exact hne ((genlCmd_stored hstored hpayload).symm.trans hcmd)
    · rintro (h | ⟨m, h, -⟩)
      · omega
      · cases h
  | reply m hlen =>
    rw [familyFound_reply hname hsent hlen hrecv hbuf]
    constructor
    · exact fun h => .inr ⟨m, rfl, h⟩
    · rintro (h | ⟨m', hm', h⟩)
      · omega
      · cases hm'
        exact h

/-- The controller answers the request with the reply, on a socket that it opens. -/
def familyIo (m : FamilyReply) : Sending := ⟨.opened 3, true, fun seq _ => [m.msg.encode seq]⟩

/-- The reply to `"nl80211"`, up to the number. -/
def nl80211Reply : FamilyReply where
  flags := 0
  pid := 0
  version := 1
  attrs := [⟨ctrlAttrFamilyName, nl80211Name ++ [0]⟩, ⟨ctrlAttrFamilyId, [28, 0]⟩]
  len_lt := by decide
  one_id := by decide
  id_data := by decide

/-- The number of `"nl80211"` is found. -/
theorem nl_family_found_nl80211 :
    FamilyFound nl80211Name (familyIo nl80211Reply) (.start 0) (some nl80211Reply) :=
  have hin := nl80211Reply.inBuf (stored_memcpy (fun _ => 0) 0 (nl80211Reply.msg.encode 0))
    (by decide)
  (nl_family_found nl80211Name (by decide) (familyIo nl80211Reply) (.start 0) le_rfl _ _
    (netlinkRecv_reply nl80211Reply 0 (q := []) rfl) (fun _ => 0) _
    (.reply nl80211Reply (by decide))).mpr
      (.inr ⟨nl80211Reply, rfl, by decide, FamilyReply.leads_of_twelve hin
        (show nl80211Reply.attrs = [_] ++ ([] ++ [_]) from rfl) rfl (by decide)⟩)

/-- `"acpi_event"`. -/
def acpiEventName : List UInt8 := [97, 99, 112, 105, 95, 101, 118, 101, 110, 116]

/-- The reply to `"acpi_event"`, up to the number. -/
def acpiEventReply : FamilyReply where
  flags := 0
  pid := 0
  version := 1
  attrs := [⟨ctrlAttrFamilyName, acpiEventName ++ [0]⟩, ⟨ctrlAttrFamilyId, [23, 0]⟩]
  len_lt := by decide
  one_id := by decide
  id_data := by decide

/-- The loop starts within a longer name, and the call returns 0 without the number. -/
theorem nl_family_missed :
    ∃ s', netlinkRecv .generic 0 false
        (familySent acpiEventName (familyIo acpiEventReply) (.start 0)).state = some (44, s') ∧
      FamilyRecv 0 (fun _ => 0) 44 s'.localBuf (some acpiEventReply) ∧
      acpiEventReply.id = some 23 ∧
      nlGetFamily 2 acpiEventName 0 (familyIo acpiEventReply) (.start 0) =
        some ⟨⟨0, none⟩, 0, s'⟩ ∧
      ¬FamilyFound acpiEventName (familyIo acpiEventReply) (.start 0) (some acpiEventReply) := by
  have hstored := stored_memcpy (fun _ => 0) 0 (acpiEventReply.msg.encode 0)
  have hrecv := netlinkRecv_reply acpiEventReply 0
    (s := (familySent acpiEventName (familyIo acpiEventReply) (.start 0)).state) (q := []) rfl
  have hone : ∀ fuel var, familyMessages (memcpy (fun _ => 0) 0 (acpiEventReply.msg.encode 0))
      (fuel + 2) 0 (.ofNat (acpiEventReply.msg.encode 0).length) var = some var := by
    intro fuel var
    have hok : ¬rtaOk (memcpy (fun _ => 0) 0 (acpiEventReply.msg.encode 0)) 32
        (nlmsgLen (memcpy (fun _ => 0) 0 (acpiEventReply.msg.encode 0)) 0 - 20) := by decide
    rw [familyMessages_one hstored (by decide), familyAttrs, if_neg hok]
    exact ite_self _
  refine ⟨_, hrecv, .reply acpiEventReply (by decide), rfl, ?_, ?_⟩
  · rw [@nlGetFamily_recv acpiEventName (familyIo acpiEventReply) (.start 0) _ _ (by decide) le_rfl
      hrecv, if_neg (by decide)]
    exact congrArg (Option.map _) (hone 0 ⟨0, none⟩)
  · refine @not_familyFound acpiEventName (familyIo acpiEventReply) (.start 0) _ _ (by decide)
      le_rfl hrecv (by decide) (fun fuel var var' h => ?_) _
    exact (Option.some.inj ((hone fuel var).symm.trans (familyMessages_add h 2))).symm

end Rhex
