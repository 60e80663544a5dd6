import Mathlib
import Rhex.Lib.Run
import Rhex.NetlinkCalls

/-!
# Confirmations of netlink requests (`libnetlink`)

The kernel answers the requests on a socket in order: messages with data first, then one
acknowledgement with an error code.

* `NlReply` — what is in a datagram; `NlAnswer`, `NlDump` — answers.
* `NlCall` — the calls; `nlStep` — a call in a run.
* `SetterConfirmed` — a setter returns what the kernel said to its own request.
* `setters_confirmed` — the runs in which all setters do.

A lookup of the family reads one datagram and leaves the acknowledgement behind it unread.
-/

namespace Rhex

open Memory

/-! ## Answers -/

/-- A message with data, and what is behind it in its datagram. -/
structure NlData where
  msg : NlMsg
  more : List UInt8
  plain : msg.type ≠ nlmsgError ∧ msg.type ≠ nlmsgDone

/-- An acknowledgement; what follows the code is the header of the request and maybe more. -/
structure NlAck where
  code : UInt32
  more : List UInt8
  nonpos : code.toInt32.toInt ≤ 0

/-- The error code; 0 is success. -/
def NlAck.error (a : NlAck) : Int := a.code.toInt32.toInt

/-- What is in a datagram. -/
inductive NlReply where
  | data (d : NlData)
  | done (m : NlMsg) (h : m.type = nlmsgDone)
  | ack (a : NlAck)

namespace NlReply

def msg : NlReply → NlMsg
  | data d => d.msg
  | done m _ => m
  | ack a => ⟨nlmsgError, 0, 0, le32 a.code ++ a.more⟩

/-- What is behind the first message. -/
def more : NlReply → List UInt8
  | data d => d.more
  | _ => []

def encode (seq : UInt32) (r : NlReply) : List UInt8 := r.msg.encode seq ++ r.more

/-- `NLMSG_ERROR` or `NLMSG_DONE`. -/
def confirms : NlReply → Bool
  | data _ => false
  | _ => true

end NlReply

/-- The answer to a request. -/
structure NlAnswer where
  data : List NlData
  ack : NlAck

/-- The answer to a dump. When the dump is started, `NLMSG_DONE` ends it. -/
structure NlDump where
  data : List NlData
  done : Option { m : NlMsg // m.type = nlmsgDone }
  ack : Option NlAck

/-- The replies of an answer; `acked` is whether the request has `NLM_F_ACK`. -/
def NlAnswer.replies (a : NlAnswer) (acked : Bool) : List NlReply :=
  a.data.map .data ++ if acked then [.ack a.ack] else []

/-- The replies of the answer to a dump. -/
def NlDump.replies (a : NlDump) (acked : Bool) : List NlReply :=
  a.data.map .data ++ (a.done.toList.map fun m => .done m.1 m.2) ++
    if acked then a.ack.toList.map .ack else []

/-- A request whose answer has these replies. -/
def NlIo.sending {α : Type} (io : NlIo α) (replies : α → Bool → List NlReply) : Sending :=
  ⟨io.init, io.accepted, fun seq acked => (replies io.answer acked).map (NlReply.encode seq)⟩

/-! ## Calls -/

/-- The setters. -/
inductive NlSetter where
  | wlanSetMonitor (ifiIndex : UInt32)
  | wlanSetFreq (ifiIndex freq width ht : UInt32)
  | linkUp (name : List UInt8)
  | linkDown (name : List UInt8)

namespace NlSetter

/-- The socket of a setter. -/
def proto : NlSetter → NlProto
  | wlanSetMonitor _ => .generic
  | wlanSetFreq .. => .generic
  | linkUp _ => .route
  | linkDown _ => .route

def request (fuel : Nat) (lookup : Lookup) (io : Sending) (s : NlState) :
    NlSetter → Option NlSent
  | wlanSetMonitor i => genlSetRequest 6 36 (monitorAttrs i) fuel lookup io s
  | wlanSetFreq i freq width ht => genlSetRequest 2 60 (freqAttrs i freq width ht) fuel lookup io s
  | linkUp name => some (linkUpdownRequest name true io s)
  | linkDown name => some (linkUpdownRequest name false io s)

def run (fuel : Nat) (lookup : Lookup) (io : Sending) (s : NlState) :
    NlSetter → Option (Int × NlState)
  | wlanSetMonitor i => nlWlanSetMonitor i fuel lookup io s
  | wlanSetFreq i freq width ht => nlWlanSetFreq i freq width ht fuel lookup io s
  | linkUp name => nlLinkUp name fuel io s
  | linkDown name => nlLinkDown name fuel io s

theorem run_eq (fuel : Nat) (lookup : Lookup) (io : Sending) (s : NlState) (c : NlSetter) :
    c.run fuel lookup io s = (c.request fuel lookup io s).bind (nlConfirm c.proto fuel) := by
  cases c <;> rfl

end NlSetter

/-- A lookup and its answer; `fam` is what the variable for the family holds before. -/
structure NlLookup where
  io : NlIo NlAnswer
  fam : UInt16

def NlLookup.toLookup (l : NlLookup) : Lookup := ⟨l.io.sending NlAnswer.replies, l.fam⟩

/-- The calls, with what their requests meet. -/
inductive NlCall where
  | getWlanList (lookup : NlLookup) (io : NlIo NlDump)
  | getFamily (family : List UInt8) (familyId : UInt16) (io : NlIo NlAnswer)
  | set (setter : NlSetter) (lookup : NlLookup) (io : NlIo NlAnswer)

/-- A call in a run. On a socket where nothing is unread a call does not return. -/
def nlStep (fuel : Nat) (s : NlState) : NlCall → Option NlState
  | .getWlanList lookup io =>
    (nlGetWlanList fuel lookup.toLookup (io.sending NlDump.replies) s).map Prod.snd
  | .getFamily family familyId io =>
    (nlGetFamily fuel family familyId (io.sending NlAnswer.replies) s).map FamilyResult.state
  | .set setter lookup io =>
    (setter.run fuel lookup.toLookup (io.sending NlAnswer.replies) s).map Prod.snd

/-! ## The property and the condition -/

/-- The request has reached the kernel. -/
def NlSent.Reached (proto : NlProto) (x : NlSent) : Prop :=
  0 ≤ x.result ∧ (x.state.sock proto).isSome

section

/-- What is unread on the generic socket when a request to nl80211 is sent: what was unread before,
less the datagram that a lookup reads when its answer has arrived. -/
def unreadBefore (s : NlState) (lookup : Lookup) : List (List UInt8) :=
  let q := (s.sock .generic).getD []
  if s.nl80211fam.isSome then q else (q ++ lookup.io.answer s.nlSeqId true).drop 1

variable (s : NlState) (setter : NlSetter) (lookup : NlLookup) (io : NlIo NlAnswer)

/-- The request of a setter reaches the kernel. -/
def SetterReaches : Prop :=
  ∃ fuel x, setter.request fuel lookup.toLookup (io.sending NlAnswer.replies) s = some x ∧
    x.Reached setter.proto

/-- A setter that returns 0 has been acknowledged with error 0, and one that the kernel rejects
returns a negative value. -/
structure SetterConfirmed : Prop where
  acked : ∀ fuel s', setter.run fuel lookup.toLookup (io.sending NlAnswer.replies) s =
    some (0, s') → SetterReaches s setter lookup io ∧ io.answer.ack.error = 0
  rejected : SetterReaches s setter lookup io → io.answer.ack.error < 0 →
    ∃ N result s', result < 0 ∧ ∀ fuel ≥ N,
      setter.run fuel lookup.toLookup (io.sending NlAnswer.replies) s = some (result, s')

end

def confirmsDatagram (d : List UInt8) : Bool :=
  nlmsgType (ofList d) 0 = nlmsgError ∨ nlmsgType (ofList d) 0 = nlmsgDone

/-- The first confirmation, if there is one, is a rejection. -/
def Settled (q : List (List UInt8)) : Prop :=
  ∀ d, q.find? confirmsDatagram = some d →
    nlmsgType (ofList d) 0 = nlmsgError ∧ nlmsgErr (ofList d) 0 < 0

def CallConfirmed (s : NlState) : NlCall → Prop
  | .set setter lookup io => SetterConfirmed s setter lookup io
  | _ => True

/-- When the kernel rejects the request of a setter of nl80211, no confirmation is unread before
it, or the first one is a rejection too. -/
def CallSettled (s : NlState) : NlCall → Prop
  | .set setter lookup io =>
    setter.proto = .generic → SetterReaches s setter lookup io → io.answer.ack.error < 0 →
      Settled (unreadBefore s lookup.toLookup)
  | _ => True

/-! ## Receiving replies -/

theorem slice_received (buf : Buf) {d : List UInt8} {o n : Nat} (hd : o + n ≤ d.length)
    (hn : o + n ≤ nlBufSize) :
    slice (memcpy buf 0 (d.take nlBufSize)) o n = slice (ofList d) o n := by
  refine slice_congr fun k hk => ?_
  have hlt : o + k < (d.take nlBufSize).length := by
    rw [List.length_take]
    omega
  rw [memcpy_of_lt_length hlt, ofList, ofList, List.getD_eq_getElem _ _ hlt, List.getElem_take,
    List.getD_eq_getElem]

namespace NlReply

variable (seq : UInt32) (r : NlReply) (a : NlAck)

theorem encode_stored : Stored (ofList (r.encode seq)) 0 (r.msg.encode seq) :=
  (stored_append (slice_ofList (r.encode seq))).1

theorem nlmsgType_ofList : nlmsgType (ofList (r.encode seq)) 0 = r.msg.type :=
  (NlMsg.of_stored (r.encode_stored seq)).2.1

theorem nlmsgSeq_ofList : nlmsgSeq (ofList (r.encode seq)) 0 = seq :=
  (NlMsg.of_stored (r.encode_stored seq)).2.2.1

theorem nlmsgErr_ofList : nlmsgErr (ofList ((ack a).encode seq)) 0 = a.error := by
  have hpayload := (NlMsg.of_stored ((ack a).encode_stored seq)).2.2.2
  have hcode : slice (ofList ((ack a).encode seq)) (0 + 16) 4 = le32 a.code :=
    (stored_append hpayload).1
  rw [nlmsgErr, read32_of_slice hcode, NlAck.error]

theorem sixteen_le_length : 16 ≤ (r.encode seq).length := by
  have hle := r.msg.len_le_length_encode seq
  have hsixteen := r.msg.sixteen_le_len
  rw [encode, List.length_append]
  omega

theorem twenty_le_length : 20 ≤ ((ack a).encode seq).length := by
  have hle := (ack a).msg.len_le_length_encode seq
  have htwenty : 20 ≤ (ack a).msg.len := by
    rw [NlMsg.len, msg, List.length_append, length_le32]
    omega
  rw [encode, List.length_append]
  omega

theorem received (buf : Buf) :
    nlmsgType (memcpy buf 0 ((r.encode seq).take nlBufSize)) 0 = r.msg.type ∧
      nlmsgSeq (memcpy buf 0 ((r.encode seq).take nlBufSize)) 0 = seq ∧
      ∀ a, r = ack a → nlmsgErr (memcpy buf 0 ((r.encode seq).take nlBufSize)) 0 = a.error := by
  have hlen := r.sixteen_le_length seq
  refine ⟨?_, ?_, ?_⟩
  · rw [← r.nlmsgType_ofList seq]
    exact read16_congr (slice_received buf (by omega) (by decide))
  · nth_rewrite 2 [← r.nlmsgSeq_ofList seq]
    exact read32_congr (slice_received buf (by omega) (by decide))
  · rintro a rfl
    have hlen := twenty_le_length seq a
    rw [← nlmsgErr_ofList seq a, nlmsgErr, nlmsgErr]
    rw [read32_congr (slice_received buf (by omega) (by decide))]

theorem eq_ack {r : NlReply} (h : r.msg.type = nlmsgError) : ∃ a, r = ack a := by
  cases r with
  | data d => exact absurd h d.plain.1
  | done m hm => exact absurd (h.symm.trans hm) (by decide)
  | ack a => exact ⟨a, rfl⟩

end NlReply

section

variable {seq : UInt32} {wait : Bool}

/-- The first datagram is received. -/
theorem recvLoop_reply (seq : UInt32) (wait : Bool) (r : NlReply) (result : Int)
    (q : List (List UInt8)) (buf : Buf) :
    ∃ (n : Nat) (buf' : Buf), recvLoop seq wait result (r.encode seq :: q) buf =
      match r with
      | .data _ => if wait then recvLoop seq wait n q buf' else some ⟨n, q, buf'⟩
      | .done .. => some ⟨result, q, buf'⟩
      | .ack a => some ⟨a.error, q, buf'⟩ := by
  refine ⟨min (r.encode seq).length nlBufSize,
    memcpy buf 0 ((r.encode seq).take nlBufSize), ?_⟩
  obtain ⟨htype, hseq, herr⟩ := r.received seq buf
  have hpos : min (r.encode seq).length nlBufSize ≠ 0 := by
    have hlen := r.sixteen_le_length seq
    simp only [nlBufSize]
    omega
  cases r with
  | data d =>
    dsimp only [NlReply.msg] at htype
    rw [recvLoop, if_neg hpos, htype, hseq, if_neg d.plain.1, if_neg (not_not.mpr rfl),
      if_neg d.plain.2]
  | done m h =>
    replace htype := htype.trans h
    rw [recvLoop, if_neg hpos, htype, hseq, if_neg (by decide), if_neg (not_not.mpr rfl),
      if_pos rfl]
  | ack a =>
    replace htype : nlmsgType _ 0 = nlmsgError := htype
    rw [recvLoop, if_neg hpos, if_pos htype, herr a rfl]

theorem recvLoop_ack (seq : UInt32) {rs : List NlReply} (hdata : ∀ r ∈ rs, !r.confirms) (a : NlAck)
    (result : Int) (q : List (List UInt8)) (buf : Buf) : ∃ buf',
    recvLoop seq true result (rs.map (NlReply.encode seq) ++ (NlReply.ack a).encode seq :: q) buf =
      some ⟨a.error, q, buf'⟩ := by
  induction rs generalizing result buf with
  | nil =>
    obtain ⟨n, buf', h⟩ := recvLoop_reply seq true (.ack a) result q buf
    exact ⟨buf', h⟩
  | cons r rs ih =>
    obtain ⟨n, buf', h⟩ := recvLoop_reply seq true r result
      (rs.map (NlReply.encode seq) ++ (NlReply.ack a).encode seq :: q) buf
    rw [List.map_cons, List.cons_append, h]
    have hr := hdata r List.mem_cons_self
    cases r with
    | data d => exact ih (fun r' hr' => hdata r' (List.mem_cons_of_mem _ hr')) n buf'
    | done m h => exact absurd hr Bool.false_ne_true
    | ack a => exact absurd hr Bool.false_ne_true

theorem recvLoop_suffix {result : Int} {q : List (List UInt8)} {buf : Buf} {recv : NlRecv}
    (h : recvLoop seq wait result q buf = some recv) : recv.sock <:+ q := by
  induction q generalizing result buf with
  | nil => cases h
  | cons d q ih =>
    simp only [recvLoop] at h
    have hmore : ∀ {result buf}, recvLoop seq wait result q buf = some recv →
        recv.sock <:+ d :: q := fun h => (ih h).trans (List.suffix_cons d q)
    have hstop : ∀ {result buf}, some (⟨result, q, buf⟩ : NlRecv) = some recv →
        recv.sock <:+ d :: q := by
      rintro result buf ⟨⟩
      exact List.suffix_cons d q
    split_ifs at h
    · exact hstop h
    · exact hstop h
    · exact hmore h
    · exact hstop h
    · exact hmore h
    · exact hstop h

theorem recvLoop_one {r : NlReply} {result : Int} {q : List (List UInt8)} {buf : Buf}
    {recv : NlRecv} (h : recvLoop seq false result (r.encode seq :: q) buf = some recv) :
    recv.sock = q := by
  obtain ⟨n, buf', hrecv⟩ := recvLoop_reply seq false r result q buf
  rw [hrecv] at h
  cases r <;> cases h <;> rfl

end

/-! ## Requests -/

theorem netlinkAddattrL_flags {hdr : Buf} (h : 8 ≤ (nlmsgAlign (nlmsgLen hdr 0)).toNat)
    (maxlen : UInt32) (type : UInt16) (attrdata : List UInt8) (attrlen : UInt32) :
    nlmsgFlags (netlinkAddattrL hdr maxlen type attrdata attrlen).2 0 = nlmsgFlags hdr 0 := by
  simp only [netlinkAddattrL]
  split_ifs
  · rfl
  · refine read16_congr ?_
    rw [slice_memcpy_after (by simp), slice_memcpy_after (by simp),
      slice_memcpy_before (by omega), slice_memcpy_before (by omega),
      slice_memcpy_before (by omega)]

theorem nlmsgLen_memcpy (b : Buf) (len : UInt32) : nlmsgLen (memcpy b 0 (le32 len)) 0 = len :=
  read32_of_slice (slice_memcpy b 0 (le32 len))

theorem nlmsgLen_memcpy_of_le {off : Nat} (h : 4 ≤ off) (b : Buf) (l : List UInt8) :
    nlmsgLen (memcpy b off l) 0 = nlmsgLen b 0 :=
  read32_congr (slice_memcpy_before h)

theorem netlinkAddattrU32_len {hdr : Buf} {maxlen : UInt32} (hmax : maxlen.toNat < 2 ^ 16)
    (hlow : 16 ≤ (nlmsgLen hdr 0).toNat) (hhigh : (nlmsgLen hdr 0).toNat ≤ maxlen.toNat)
    (type : UInt16) (value : UInt32) :
    16 ≤ (nlmsgLen (netlinkAddattrU32 hdr maxlen type value).2 0).toNat ∧
      (nlmsgLen (netlinkAddattrU32 hdr maxlen type value).2 0).toNat ≤ maxlen.toNat := by
  have hup := nlmsgAlign_toNat (show (nlmsgLen hdr 0).toNat + 3 < 2 ^ 32 by omega)
  have hle := Align.le_up (a := 4) (by decide) (nlmsgLen hdr 0).toNat
  simp only [netlinkAddattrU32, netlinkAddattrL]
  split_ifs with hfit
  · exact ⟨hlow, hhigh⟩
  · have hsum : (nlmsgAlign (nlmsgLen hdr 0) + nlmsgAlign (4 + 4)).toNat =
        Align.up 4 (nlmsgLen hdr 0).toNat + 8 := by
      have hend := Align.up_le 4 (nlmsgLen hdr 0).toNat
      rw [UInt32.toNat_add, hup, show (nlmsgAlign (4 + 4)).toNat = 8 by decide,
        Nat.mod_eq_of_lt (by omega)]
    have hfits := UInt32.not_lt.mp hfit
    rw [UInt32.le_iff_toNat_le, hsum] at hfits
    rw [nlmsgLen_memcpy, nlmsgLen_memcpy, nlmsgLen_memcpy_of_le (by omega),
      nlmsgLen_memcpy_of_le (by omega), nlmsgLen_memcpy_of_le (by omega), hsum]
    exact ⟨by omega, hfits⟩

theorem addattrs_flags {maxlen : UInt32} (hmax : maxlen.toNat < 2 ^ 16)
    (attrs : List (UInt16 × UInt32)) {hdr : Buf} (hlow : 16 ≤ (nlmsgLen hdr 0).toNat)
    (hhigh : (nlmsgLen hdr 0).toNat ≤ maxlen.toNat) :
    nlmsgFlags (addattrs maxlen attrs hdr).2 0 = nlmsgFlags hdr 0 := by
  induction attrs generalizing hdr with
  | nil => rfl
  | cons attr attrs ih =>
    have hup := nlmsgAlign_toNat (show (nlmsgLen hdr 0).toNat + 3 < 2 ^ 32 by omega)
    have hle := Align.le_up (a := 4) (by decide) (nlmsgLen hdr 0).toNat
    have hflags : nlmsgFlags (netlinkAddattrU32 hdr maxlen attr.1 attr.2).2 0 =
        nlmsgFlags hdr 0 :=
      netlinkAddattrL_flags (by omega) maxlen attr.1 (le32 attr.2) 4
    obtain ⟨hlow', hhigh'⟩ := netlinkAddattrU32_len hmax hlow hhigh attr.1 attr.2
    rw [addattrs]
    dsimp only
    split_ifs
    · exact hflags
    · exact (ih hlow' hhigh').trans hflags

theorem nlmsgFlags_memcpy (b : Buf) (seq : UInt32) :
    nlmsgFlags (memcpy b 8 (le32 seq)) 0 = nlmsgFlags b 0 :=
  read16_congr (slice_memcpy_before (by decide))

theorem nlmsgSeq_memcpy (b : Buf) (seq : UInt32) : nlmsgSeq (memcpy b 8 (le32 seq)) 0 = seq :=
  read32_of_slice (slice_memcpy b 8 (le32 seq))

theorem nlRequest_fields (len : UInt32) (type flags : UInt16) (pid : UInt32)
    (payload : List UInt8) : nlmsgLen (nlRequest len type flags pid payload) 0 = len ∧
      nlmsgFlags (nlRequest len type flags pid payload) 0 = flags := by
  obtain ⟨hlen, h⟩ := stored_append (slice_ofList (le32 len ++ (le16 type ++ (le16 flags ++
    (le32 0 ++ (le32 pid ++ payload))))))
  obtain ⟨-, h⟩ := stored_append h
  obtain ⟨hflags, -⟩ := stored_append h
  exact ⟨read32_of_slice hlen, read16_of_slice hflags⟩

/-! ## Sending -/

theorem openSocket_spec (proto : NlProto) (init : SockInit) (s : NlState) :
    ∃ v, (openSocket proto init s).2 = { s with sock := Function.update s.sock proto v } ∧
      v.getD [] = (s.sock proto).getD [] := by
  have hsame : s = { s with sock := Function.update s.sock proto (s.sock proto) } := by
    rw [Function.update_eq_self]
  rw [openSocket]
  split_ifs with hopen
  · exact ⟨s.sock proto, hsame, rfl⟩
  · rw [Option.not_isSome_iff_eq_none] at hopen
    cases init with
    | noSocket => exact ⟨s.sock proto, hsame, rfl⟩
    | noBind => exact ⟨s.sock proto, hsame, rfl⟩
    | opened fd =>
      refine ⟨some [], rfl, ?_⟩
      rw [hopen]
      rfl

/-- What a request leaves on its socket; the rest of the state stays. -/
theorem sendNetlinkRequest_spec (proto : NlProto) (hdr : Buf) (io : Sending) (s : NlState) :
    ∃ v, (sendNetlinkRequest proto hdr io s).state =
        { s with sock := Function.update s.sock proto v } ∧
      ((sendNetlinkRequest proto hdr io s).result < 0 ∧ v.getD [] = (s.sock proto).getD [] ∨
        0 ≤ (sendNetlinkRequest proto hdr io s).result ∧
          (v = none ∨ v = some ((s.sock proto).getD [] ++
            io.answer s.nlSeqId (nlmsgFlags hdr 0 &&& nlmFAck ≠ 0)))) := by
  obtain ⟨v, hstate, hv⟩ := openSocket_spec proto io.init s
  simp only [sendNetlinkRequest, hstate]
  split_ifs with hopen haccepted
  · exact ⟨v, rfl, .inl ⟨hopen, hv⟩⟩
  · refine ⟨v.map (· ++ io.answer s.nlSeqId (nlmsgFlags hdr 0 &&& nlmFAck ≠ 0)), ?_,
      .inr ⟨le_rfl, ?_⟩⟩
    · rw [NlState.deliver, nlmsgSeq_memcpy, nlmsgFlags_memcpy]
      dsimp only
      rw [Function.update_self, Function.update_idem]
    · rw [← hv]
      cases v with
      | none => exact .inl rfl
      | some q => exact .inr rfl
  · exact ⟨v, rfl, .inl ⟨neg_one_lt_zero, hv⟩⟩

theorem sock_of_update {proto : NlProto} {s s' : NlState} {v : Option (List (List UInt8))}
    (h : s' = { s with sock := Function.update s.sock proto v }) : s'.sock proto = v := by
  rw [h]
  exact Function.update_self proto v s.sock

theorem sendNetlinkRequest_seqId (proto : NlProto) (hdr : Buf) (io : Sending) (s : NlState) :
    (sendNetlinkRequest proto hdr io s).seqId = s.nlSeqId := by
  obtain ⟨v, hstate, -⟩ := openSocket_spec proto io.init s
  simp only [sendNetlinkRequest, hstate]
  split_ifs <;> rfl

/-! ## What is unread -/

/-- The datagrams are replies to requests with sequence number 0. -/
def Replies (q : List (List UInt8)) : Prop := ∃ rs : List NlReply, q = rs.map (NlReply.encode 0)

theorem Replies.append {q q' : List (List UInt8)} (h : Replies q) (h' : Replies q') :
    Replies (q ++ q') := by
  obtain ⟨rs, rfl⟩ := h
  obtain ⟨rs', rfl⟩ := h'
  exact ⟨rs ++ rs', List.map_append.symm⟩

theorem Replies.of_suffix {q q' : List (List UInt8)} (h : Replies q) (hsuffix : q' <:+ q) :
    Replies q' := by
  obtain ⟨rs, rfl⟩ := h
  obtain ⟨n, rfl⟩ : ∃ n, q' = (rs.map (NlReply.encode 0)).drop n :=
    ⟨_, List.suffix_iff_eq_drop.mp hsuffix⟩
  exact ⟨rs.drop n, List.map_drop.symm⟩

/-- The sequence number stays 0. On the generic socket replies may be unread, on the route socket
nothing is between two calls. -/
structure NlInv (s : NlState) : Prop where
  seq : s.nlSeqId = 0
  generic : Replies ((s.sock .generic).getD [])
  route : (s.sock .route).getD [] = []

namespace NlInv

variable {s : NlState}

theorem start (pid : UInt32) : NlInv (.start pid) := ⟨rfl, ⟨[], rfl⟩, rfl⟩

theorem of_generic (hs : NlInv s) {s' : NlState} {v : Option (List (List UInt8))}
    (hseq : s'.nlSeqId = s.nlSeqId) (hsock : s'.sock = Function.update s.sock .generic v)
    (hv : Replies (v.getD [])) : NlInv s' := by
  refine ⟨hseq.trans hs.seq, ?_, ?_⟩
  · rw [hsock, Function.update_self]
    exact hv
  · rw [hsock, Function.update_of_ne (by decide)]
    exact hs.route

theorem send (hs : NlInv s) (hdr : Buf) {io : Sending}
    (hio : ∀ acked, Replies (io.answer 0 acked)) :
    NlInv (sendNetlinkRequest .generic hdr io s).state := by
  obtain ⟨v, hstate, hv⟩ := sendNetlinkRequest_spec .generic hdr io s
  rw [hstate]
  refine hs.of_generic rfl rfl ?_
  rcases hv with ⟨-, hv⟩ | ⟨-, rfl | rfl⟩
  · rw [hv]
    exact hs.generic
  · exact ⟨[], rfl⟩
  · rw [hs.seq]
    exact hs.generic.append (hio _)

theorem recv (hs : NlInv s) {seqId : UInt32} {wait : Bool} {r : Int} {s' : NlState}
    (h : netlinkRecv .generic seqId wait s = some (r, s')) : NlInv s' := by
  have hgeneric := hs.generic
  rw [netlinkRecv] at h
  cases hq : s.sock .generic with
  | none =>
    rw [hq] at h
    cases h
    exact hs
  | some q =>
    rw [hq] at h hgeneric
    obtain ⟨recv, hrecv, hs'⟩ := Option.map_eq_some_iff.mp h
    cases hs'
    exact hs.of_generic rfl rfl (hgeneric.of_suffix (recvLoop_suffix hrecv))

end NlInv

theorem NlSent.Reached.sock_ne_none {proto : NlProto} {x : NlSent} (h : x.Reached proto) :
    x.state.sock proto ≠ none :=
  Option.isSome_iff_ne_none.mp h.2

theorem NlSent.Reached.sock {proto : NlProto} {hdr : Buf} {io : Sending} {s : NlState}
    (h : (sendNetlinkRequest proto hdr io s).Reached proto) :
    (sendNetlinkRequest proto hdr io s).state.sock proto =
      some ((s.sock proto).getD [] ++ io.answer s.nlSeqId (nlmsgFlags hdr 0 &&& nlmFAck ≠ 0)) := by
  obtain ⟨v, hstate, hv⟩ := sendNetlinkRequest_spec proto hdr io s
  have hsock := sock_of_update hstate
  rcases hv with ⟨hneg, -⟩ | ⟨-, rfl | rfl⟩
  · exact absurd h.1 (not_le.mpr hneg)
  · exact absurd hsock h.sock_ne_none
  · exact hsock

theorem netlinkRecv_closed {proto : NlProto} {s : NlState} (h : s.sock proto = none)
    (seqId : UInt32) (wait : Bool) : netlinkRecv proto seqId wait s = some (-1, s) := by
  rw [netlinkRecv, h]

theorem netlinkRecv_open {proto : NlProto} {seqId : UInt32} {wait : Bool} {s s' : NlState} {r : Int}
    (h : netlinkRecv proto seqId wait s = some (r, s')) (hr : 0 ≤ r) :
    (s.sock proto).isSome := by
  by_contra hclosed
  rw [Option.not_isSome_iff_eq_none] at hclosed
  rw [netlinkRecv_closed hclosed] at h
  cases h
  exact absurd hr (by decide)

theorem netlinkRecv_one {s s' : NlState} {q : List (List UInt8)} {r : Int}
    (hq : s.sock .generic = some q) (hrep : Replies q)
    (h : netlinkRecv .generic 0 false s = some (r, s')) :
    s'.sock .generic = some (q.drop 1) := by
  rw [netlinkRecv, hq] at h
  obtain ⟨recv, hrecv, hs'⟩ := Option.map_eq_some_iff.mp h
  cases hs'
  obtain ⟨rs, rfl⟩ := hrep
  cases rs with
  | nil => cases hrecv
  | cons r rs =>
    exact (Function.update_self NlProto.generic _ s.sock).trans
      (congrArg some (recvLoop_one hrecv))

/-! ## The family -/

section

variable {s : NlState} {io : Sending}

theorem familyRequest_flags (pid : UInt32) (family : List UInt8) :
    nlmsgFlags (netlinkAddattrL (nlRequest 20 genlIdCtrl (nlmFRequest ||| nlmFAck) pid
      [ctrlCmdGetfamily, 1]) 40 ctrlAttrFamilyName (family ++ [0])
        (.ofNat (family.length + 1))).2 0 &&& nlmFAck ≠ 0 := by
  obtain ⟨hlen, hflags⟩ := nlRequest_fields 20 genlIdCtrl (nlmFRequest ||| nlmFAck) pid
    [ctrlCmdGetfamily, 1]
  rw [netlinkAddattrL_flags (by rw [hlen]; decide), hflags]
  decide

theorem netlinkAddattrL_nonpos (hdr : Buf) (maxlen : UInt32) (type : UInt16)
    (attrdata : List UInt8) (attrlen : UInt32) :
    (netlinkAddattrL hdr maxlen type attrdata attrlen).1 ≤ 0 := by
  simp only [netlinkAddattrL]
  split_ifs
  · exact neg_one_lt_zero.le
  · exact le_rfl

theorem addattrs_nonpos (maxlen : UInt32) (attrs : List (UInt16 × UInt32)) (hdr : Buf) :
    (addattrs maxlen attrs hdr).1 ≤ 0 := by
  induction attrs generalizing hdr with
  | nil => exact le_rfl
  | cons attr attrs ih =>
    rw [addattrs]
    dsimp only
    split_ifs
    · exact netlinkAddattrL_nonpos ..
    · exact ih _

/-- A lookup keeps the invariant; when it returns 0, it has read one datagram. -/
theorem nlGetFamily_spec (hs : NlInv s) (hio : ∀ acked, Replies (io.answer 0 acked)) {fuel : Nat}
    {family : List UInt8} {familyId : UInt16} {x : FamilyResult}
    (h : nlGetFamily fuel family familyId io s = some x) :
    NlInv x.state ∧ x.result ≤ 0 ∧ (x.result = 0 → x.state.sock .generic =
      some (((s.sock .generic).getD [] ++ io.answer s.nlSeqId true).drop 1)) := by
  have hflags := familyRequest_flags s.pid family
  have hneg := netlinkAddattrL_nonpos (nlRequest 20 genlIdCtrl (nlmFRequest ||| nlmFAck) s.pid
    [ctrlCmdGetfamily, 1]) 40 ctrlAttrFamilyName (family ++ [0]) (.ofNat (family.length + 1))
  rw [nlGetFamily] at h
  generalize netlinkAddattrL _ _ _ _ _ = attr at h hflags hneg
  dsimp only at h
  split_ifs at h with hattr hsent
  · cases h
    exact ⟨hs, hneg, fun hzero => absurd hzero hattr⟩
  · cases h
    exact ⟨hs.send _ hio, hsent.le, fun hzero => absurd hzero hsent.ne⟩
  · obtain ⟨⟨r, s'⟩, hrecv, h⟩ := Option.bind_eq_some_iff.mp h
    have hs' := (hs.send _ hio).recv hrecv
    dsimp only at h
    split_ifs at h with hr
    · cases h
      exact ⟨hs', hr.le, fun hzero => absurd hzero hr.ne⟩
    · obtain ⟨id, -, rfl⟩ := Option.map_eq_some_iff.mp h
      refine ⟨hs', le_rfl, fun _ => ?_⟩
      have hreached : (sendNetlinkRequest .generic attr.2 io s).Reached .generic :=
        ⟨not_lt.mp hsent, netlinkRecv_open hrecv (not_lt.mp hr)⟩
      have hsock := hreached.sock
      rw [decide_eq_true hflags] at hsock
      rw [sendNetlinkRequest_seqId, hs.seq] at hrecv
      have hrep := (hs.send attr.2 hio).generic
      rw [hsock] at hrep
      exact netlinkRecv_one hsock hrep hrecv

theorem familyAttrs_add {b : Buf} {msg fuel p : Nat} {found : Option FamilyVar}
    (h : familyAttrs b msg fuel p = some found) (k : Nat) :
    familyAttrs b msg (fuel + k) p = some found := by
  induction fuel generalizing p with
  | zero => cases h
  | succ fuel ih =>
    rw [familyAttrs] at h
    rw [Nat.succ_add, familyAttrs]
    split_ifs at h ⊢
    · exact h
    · exact ih h
    · exact h

theorem familyMessages_add {b : Buf} {fuel p : Nat} {len : UInt32} {var var' : FamilyVar}
    (h : familyMessages b fuel p len var = some var') (k : Nat) :
    familyMessages b (fuel + k) p len var = some var' := by
  induction fuel generalizing p len var with
  | zero => cases h
  | succ fuel ih =>
    simp only [familyMessages] at h
    simp only [Nat.succ_add, familyMessages]
    split_ifs at h ⊢
    · exact h
    · exact ih h
    · obtain ⟨found, hattrs, hrest⟩ := Option.bind_eq_some_iff.mp h
      have hattrs' := familyAttrs_add hattrs k
      rw [Nat.succ_add] at hattrs'
      rw [hattrs', Option.bind_some]
      exact ih hrest
    · exact h

theorem nlGetFamily_add {fuel : Nat} {family : List UInt8} {familyId : UInt16} {x : FamilyResult}
    (h : nlGetFamily fuel family familyId io s = some x) (k : Nat) :
    nlGetFamily (fuel + k) family familyId io s = some x := by
  simp only [nlGetFamily] at h ⊢
  split_ifs at h ⊢
  · exact h
  · exact h
  · obtain ⟨r, hrecv, h⟩ := Option.bind_eq_some_iff.mp h
    rw [hrecv, Option.bind_some]
    split_ifs at h ⊢
    · exact h
    · obtain ⟨id, hid, rfl⟩ := Option.map_eq_some_iff.mp h
      rw [familyMessages_add hid k]
      rfl

/-! ## Requests to nl80211 -/

variable {lookup : Lookup}

theorem nl80211Request_add {fuel : Nat} {hdr : Buf} {x : NlSent}
    (h : nl80211Request fuel hdr lookup io s = some x) (k : Nat) :
    nl80211Request (fuel + k) hdr lookup io s = some x := by
  rw [nl80211Request] at h ⊢
  cases hfam : s.nl80211fam with
  | some fam =>
    rw [hfam] at h
    exact h
  | none =>
    rw [hfam] at h
    obtain ⟨found, hfound, rfl⟩ := Option.map_eq_some_iff.mp h
    dsimp only
    rw [nlGetFamily_add hfound k]
    rfl

/-- A request to nl80211 keeps the invariant. When it has reached the kernel, its answer is behind
what was unread before. -/
theorem nl80211Request_spec (hs : NlInv s) (hlookup : ∀ acked, Replies (lookup.io.answer 0 acked))
    (hio : ∀ acked, Replies (io.answer 0 acked)) {fuel : Nat} {hdr : Buf} {x : NlSent}
    (h : nl80211Request fuel hdr lookup io s = some x) :
    NlInv x.state ∧ x.seqId = 0 ∧ (x.Reached .generic → x.state.sock .generic =
      some (unreadBefore s lookup ++ io.answer 0 (nlmsgFlags hdr 0 &&& nlmFAck ≠ 0))) := by
  have hflags (fam : UInt16) : nlmsgFlags (memcpy hdr 4 (le16 fam)) 0 = nlmsgFlags hdr 0 :=
    read16_congr (slice_memcpy_after le_rfl)
  rw [nl80211Request] at h
  cases hfam : s.nl80211fam with
  | some fam =>
    rw [hfam] at h
    cases h
    refine ⟨hs.send _ hio, (sendNetlinkRequest_seqId ..).trans hs.seq, fun hreached => ?_⟩
    rw [hreached.sock, hflags, hs.seq, unreadBefore, hfam]
    rfl
  | none =>
    rw [hfam] at h
    obtain ⟨found, hfound, rfl⟩ := Option.map_eq_some_iff.mp h
    obtain ⟨hinv, hneg, hread⟩ := nlGetFamily_spec hs hlookup hfound
    dsimp only
    split_ifs with hzero
    · exact ⟨hinv, hinv.seq, fun hreached => absurd (le_antisymm hneg hreached.1) hzero⟩
    · have hinv' : NlInv { found.state with nl80211fam := some found.familyId } :=
        ⟨hinv.seq, hinv.generic, hinv.route⟩
      refine ⟨hinv'.send _ hio, (sendNetlinkRequest_seqId ..).trans hinv.seq,
        fun hreached => ?_⟩
      rw [hreached.sock, hflags]
      dsimp only
      rw [hinv.seq, hread (not_not.mp hzero), unreadBefore, hfam]
      rfl

/-- The request of a setter of nl80211. -/
theorem genlSetRequest_spec (hs : NlInv s) (hlookup : ∀ acked, Replies (lookup.io.answer 0 acked))
    (hio : ∀ acked, Replies (io.answer 0 acked)) {cmd : UInt8} {maxlen : UInt32}
    (hlow : 20 ≤ maxlen.toNat) (hmax : maxlen.toNat < 2 ^ 16) {attrs : List (UInt16 × UInt32)}
    {fuel : Nat} {x : NlSent} (h : genlSetRequest cmd maxlen attrs fuel lookup io s = some x) :
    NlInv x.state ∧ (x.Reached .generic → x.seqId = 0 ∧ x.state.sock .generic =
      some (unreadBefore s lookup ++ io.answer 0 true)) := by
  obtain ⟨hlen, hflags⟩ := nlRequest_fields 20 0 (nlmFRequest ||| nlmFAck) 0 [cmd]
  have hflags' : nlmsgFlags (addattrs maxlen attrs
      (nlRequest 20 0 (nlmFRequest ||| nlmFAck) 0 [cmd])).2 0 &&& nlmFAck ≠ 0 := by
    rw [addattrs_flags hmax attrs (by rw [hlen]; decide) (by rw [hlen]; exact hlow), hflags]
    decide
  have hneg := addattrs_nonpos maxlen attrs (nlRequest 20 0 (nlmFRequest ||| nlmFAck) 0 [cmd])
  rw [genlSetRequest] at h
  generalize addattrs maxlen attrs _ = attr at h hflags' hneg
  dsimp only at h
  split_ifs at h with hattr
  · cases h
    exact ⟨hs, fun hreached => absurd (le_antisymm hneg hreached.1) hattr⟩
  · obtain ⟨hinv, hseq, hsock⟩ := nl80211Request_spec hs hlookup hio h
    rw [decide_eq_true hflags'] at hsock
    exact ⟨hinv, fun hreached => ⟨hseq, hsock hreached⟩⟩

theorem genlSetRequest_add {cmd : UInt8} {maxlen : UInt32} {attrs : List (UInt16 × UInt32)}
    {fuel : Nat} {x : NlSent} (h : genlSetRequest cmd maxlen attrs fuel lookup io s = some x)
    (k : Nat) : genlSetRequest cmd maxlen attrs (fuel + k) lookup io s = some x := by
  simp only [genlSetRequest] at h ⊢
  split_ifs at h ⊢
  · exact h
  · exact nl80211Request_add h k

/-- The request of a setter of links; nothing is unread before its answer. -/
theorem linkUpdownRequest_spec (hs : NlInv s) (name : List UInt8) (up : Bool) (io : Sending) :
    ∃ v, (linkUpdownRequest name up io s).state =
        { s with sock := Function.update s.sock .route v } ∧
      ((linkUpdownRequest name up io s).result < 0 ∧ v.getD [] = [] ∨
        0 ≤ (linkUpdownRequest name up io s).result ∧
          (linkUpdownRequest name up io s).seqId = 0 ∧
          (v = none ∨ v = some (io.answer 0 true))) := by
  obtain ⟨hlen, hflags⟩ :=
    nlRequest_fields 32 rtmSetlink (nlmFRequest ||| nlmFAck) 0 (linkIfinfo up)
  have hflags' : nlmsgFlags (netlinkAddattrL (nlRequest 32 rtmSetlink (nlmFRequest ||| nlmFAck) 0
      (linkIfinfo up)) 52 iflaIfname name 16).2 0 &&& nlmFAck ≠ 0 := by
    rw [netlinkAddattrL_flags (by rw [hlen]; decide), hflags]
    decide
  have hneg := netlinkAddattrL_nonpos (nlRequest 32 rtmSetlink (nlmFRequest ||| nlmFAck) 0
    (linkIfinfo up)) 52 iflaIfname name 16
  rw [linkUpdownRequest]
  generalize netlinkAddattrL _ _ _ _ _ = attr at hflags' hneg
  dsimp only
  split_ifs with hattr
  · refine ⟨s.sock .route, ?_, .inl ⟨lt_of_le_of_ne hneg hattr, hs.route⟩⟩
    rw [Function.update_eq_self]
  · obtain ⟨v, hstate, hv⟩ := sendNetlinkRequest_spec .route attr.2 io s
    rw [hs.route, hs.seq, decide_eq_true hflags', List.nil_append] at hv
    refine ⟨v, hstate, hv.imp_right fun ⟨hsent, hv⟩ => ⟨hsent, ?_, hv⟩⟩
    rw [sendNetlinkRequest_seqId, hs.seq]

theorem linkUpdownRequest_reached (hs : NlInv s) {name : List UInt8} {up : Bool}
    (h : (linkUpdownRequest name up io s).Reached .route) :
    (linkUpdownRequest name up io s).seqId = 0 ∧
      (linkUpdownRequest name up io s).state.sock .route = some (io.answer 0 true) := by
  obtain ⟨v, hstate, hv⟩ := linkUpdownRequest_spec hs name up io
  have hsock := sock_of_update hstate
  rcases hv with ⟨hneg, -⟩ | ⟨-, hseq, rfl | rfl⟩
  · exact absurd h.1 (not_le.mpr hneg)
  · exact absurd hsock h.sock_ne_none
  · exact ⟨hseq, hsock⟩

/-! ## The interfaces -/

theorem wlanLoop_inv (hs : NlInv s) {seqId : UInt32} {fuel : Nat} {x : WlanScan}
    {r : WlanScan × NlState} (h : wlanLoop seqId fuel x s = some r) : NlInv r.2 := by
  induction fuel generalizing x s with
  | zero => cases h
  | succ fuel ih =>
    rw [wlanLoop] at h
    split_ifs at h with hneg
    · cases h
      exact hs
    · obtain ⟨⟨n, s'⟩, hrecv, h⟩ := Option.bind_eq_some_iff.mp h
      have hs' := hs.recv hrecv
      dsimp only at h
      split_ifs at h
      · cases h
        exact hs'
      · obtain ⟨⟨p, x'⟩, -, h⟩ := Option.bind_eq_some_iff.mp h
        dsimp only at h
        split_ifs at h
        · cases h
          exact hs'
        · cases h
          exact hs'
        · exact ih hs' h
        · exact ih hs' h

theorem nlGetWlanList_inv (hs : NlInv s) (hlookup : ∀ acked, Replies (lookup.io.answer 0 acked))
    (hio : ∀ acked, Replies (io.answer 0 acked)) {fuel : Nat} {r : WlanScan × NlState}
    (h : nlGetWlanList fuel lookup io s = some r) : NlInv r.2 := by
  rw [nlGetWlanList] at h
  obtain ⟨sent, hsent, h⟩ := Option.bind_eq_some_iff.mp h
  have hs' := (nl80211Request_spec hs hlookup hio hsent).1
  split_ifs at h
  · cases h
    exact hs'
  · exact wlanLoop_inv hs' h

end

/-! ## Confirmations -/

theorem nlConfirm_state {proto : NlProto} {fuel : Nat} {sent : NlSent} {r : Int × NlState}
    (h : nlConfirm proto fuel sent = some r) :
    sent.result < 0 ∧ r = (sent.result, sent.state) ∨ 0 ≤ sent.result ∧
      ∃ n, netlinkRecv proto sent.seqId true sent.state = some (n, r.2) ∧ (n < 0 → r.1 = n) := by
  rw [nlConfirm] at h
  split_ifs at h with hneg
  · cases h
    exact .inl ⟨hneg, rfl⟩
  · obtain ⟨⟨n, s'⟩, hrecv, h⟩ := Option.bind_eq_some_iff.mp h
    refine .inr ⟨not_lt.mp hneg, n, ?_⟩
    dsimp only at h
    split_ifs at h with hn
    · cases h
      exact ⟨hrecv, fun _ => rfl⟩
    · obtain ⟨result, -, rfl⟩ := Option.map_eq_some_iff.mp h
      exact ⟨hrecv, fun hn' => absurd hn' hn⟩

theorem nlConfirm_neg {proto : NlProto} {sent : NlSent} (hsent : 0 ≤ sent.result) {n : Int}
    {s' : NlState} (hrecv : netlinkRecv proto sent.seqId true sent.state = some (n, s'))
    (hn : n < 0) (fuel : Nat) : nlConfirm proto fuel sent = some (n, s') := by
  rw [nlConfirm, if_neg (not_lt.mpr hsent), hrecv, Option.bind_some]
  exact if_pos hn

theorem netlinkRecv_ack {proto : NlProto} {s : NlState} {rs : List NlReply}
    {q : List (List UInt8)} (hdata : ∀ r ∈ rs, !r.confirms) (a : NlAck)
    (hsock : s.sock proto =
      some (rs.map (NlReply.encode 0) ++ (NlReply.ack a).encode 0 :: q)) :
    ∃ buf', netlinkRecv proto 0 true s = some (a.error,
      { s with sock := Function.update s.sock proto (some q), localBuf := buf' }) := by
  obtain ⟨buf', hrecv⟩ := recvLoop_ack 0 hdata a 0 q s.localBuf
  refine ⟨buf', ?_⟩
  rw [netlinkRecv, hsock]
  dsimp only
  rw [readNetlinkRecv, hrecv]
  rfl

/-! ## Setters -/

theorem NlAnswer.replies_true (a : NlAnswer) :
    a.replies true = a.data.map .data ++ [.ack a.ack] := by
  rw [NlAnswer.replies, if_pos rfl]

theorem NlReply.data_not_confirms {ds : List NlData} :
    ∀ r ∈ ds.map NlReply.data, !r.confirms := by
  intro r hr
  obtain ⟨d, -, rfl⟩ := List.mem_map.mp hr
  rfl

theorem confirmsDatagram_encode (seq : UInt32) (r : NlReply) :
    confirmsDatagram (r.encode seq) = r.confirms := by
  rw [confirmsDatagram, r.nlmsgType_ofList seq]
  cases r with
  | data d => exact decide_eq_false (not_or.mpr d.plain)
  | done m h => exact decide_eq_true (.inr h)
  | ack a => exact decide_eq_true (.inl rfl)

/-- Where the first confirmation is among what is unread, if there is one. -/
theorem Replies.find {q : List (List UInt8)} (hrep : Replies q) :
    (q.find? confirmsDatagram = none ∧
      ∃ rs : List NlReply, q = rs.map (NlReply.encode 0) ∧ ∀ r ∈ rs, !r.confirms) ∨
    ∃ (rs : List NlReply) (r : NlReply) (q' : List (List UInt8)),
      q.find? confirmsDatagram = some (r.encode 0) ∧
        q = rs.map (NlReply.encode 0) ++ r.encode 0 :: q' ∧ ∀ r ∈ rs, !r.confirms := by
  obtain ⟨rs, rfl⟩ := hrep
  have hfind : (rs.map (NlReply.encode 0)).find? confirmsDatagram =
      (rs.find? NlReply.confirms).map (NlReply.encode 0) := by
    rw [List.find?_map]
    congr 2
    funext r
    exact confirmsDatagram_encode 0 r
  rw [hfind]
  cases hfirst : rs.find? NlReply.confirms with
  | none =>
    refine .inl ⟨rfl, rs, rfl, fun r hr => ?_⟩
    simpa using List.find?_eq_none.mp hfirst r hr
  | some r =>
    obtain ⟨-, rs₁, rs₂, rfl, hdata⟩ := List.find?_eq_some_iff_append.mp hfirst
    refine .inr ⟨rs₁, r, rs₂.map (NlReply.encode 0), rfl, ?_, hdata⟩
    rw [List.map_append, List.map_cons]

theorem Settled.first {q : List (List UInt8)} (hrep : Replies q) (h : Settled q) (a : NlAnswer) :
    ∃ (rs : List NlReply) (b : NlAck) (q' : List (List UInt8)),
      q ++ (a.replies true).map (NlReply.encode 0) =
        rs.map (NlReply.encode 0) ++ (NlReply.ack b).encode 0 :: q' ∧
      (∀ r ∈ rs, !r.confirms) ∧ (b = a.ack ∨ b.error < 0) := by
  rw [NlAnswer.replies_true]
  rcases hrep.find with ⟨-, rs, rfl, hdata⟩ | ⟨rs, r, q', hfirst, rfl, hdata⟩
  · refine ⟨rs ++ a.data.map .data, a.ack, [], ?_, ?_, .inl rfl⟩
    · simp only [List.map_append, List.map_cons, List.map_nil, List.append_assoc]
    · intro r hr
      rcases List.mem_append.mp hr with hr | hr
      · exact hdata r hr
      · exact NlReply.data_not_confirms r hr
  · obtain ⟨htype, herr⟩ := h _ hfirst
    rw [r.nlmsgType_ofList 0] at htype
    obtain ⟨b, rfl⟩ := NlReply.eq_ack htype
    rw [NlReply.nlmsgErr_ofList] at herr
    exact ⟨rs, b, _, List.append_assoc .., hdata, .inr herr⟩

section

variable {s : NlState} {setter : NlSetter} {lookup : NlLookup} {io : NlIo NlAnswer}

/-- What is unread on the socket of a setter when its request is sent. -/
def NlSetter.unread (s : NlState) (lookup : Lookup) (setter : NlSetter) : List (List UInt8) :=
  if setter.proto = .generic then unreadBefore s lookup else []

theorem NlIo.sending_replies {α : Type} (io : NlIo α) (replies : α → Bool → List NlReply)
    (acked : Bool) : Replies ((io.sending replies).answer 0 acked) :=
  ⟨replies io.answer acked, rfl⟩

theorem NlLookup.replies (lookup : NlLookup) (acked : Bool) :
    Replies (lookup.toLookup.io.answer 0 acked) :=
  lookup.io.sending_replies NlAnswer.replies acked

theorem unreadBefore_replies (hs : NlInv s) (lookup : NlLookup) :
    Replies (unreadBefore s lookup.toLookup) := by
  rw [unreadBefore, hs.seq]
  split_ifs
  · exact hs.generic
  · exact (hs.generic.append (lookup.replies true)).of_suffix (List.drop_suffix 1 _)

/-- The answer to the request of a setter is behind what is unread. -/
theorem NlSetter.request_spec (hs : NlInv s) {fuel : Nat} {x : NlSent}
    (h : setter.request fuel lookup.toLookup (io.sending NlAnswer.replies) s = some x)
    (hreached : x.Reached setter.proto) :
    x.seqId = 0 ∧ Replies (setter.unread s lookup.toLookup) ∧ x.state.sock setter.proto =
      some (setter.unread s lookup.toLookup ++
        (io.answer.replies true).map (NlReply.encode 0)) := by
  cases setter with
  | wlanSetMonitor i =>
    rw [NlSetter.request] at h
    obtain ⟨hseq, hsock⟩ := (genlSetRequest_spec hs lookup.replies
      (io.sending_replies NlAnswer.replies) (by decide) (by decide) h).2 hreached
    exact ⟨hseq, unreadBefore_replies hs lookup, hsock⟩
  | wlanSetFreq i freq width ht =>
    rw [NlSetter.request] at h
    obtain ⟨hseq, hsock⟩ := (genlSetRequest_spec hs lookup.replies
      (io.sending_replies NlAnswer.replies) (by decide) (by decide) h).2 hreached
    exact ⟨hseq, unreadBefore_replies hs lookup, hsock⟩
  | linkUp name =>
    cases h
    obtain ⟨hseq, hsock⟩ := linkUpdownRequest_reached hs hreached
    exact ⟨hseq, ⟨[], rfl⟩, hsock⟩
  | linkDown name =>
    cases h
    obtain ⟨hseq, hsock⟩ := linkUpdownRequest_reached hs hreached
    exact ⟨hseq, ⟨[], rfl⟩, hsock⟩

theorem NlSetter.receives (hs : NlInv s) (hset : CallSettled s (.set setter lookup io)) {fuel : Nat}
    {x : NlSent} (h : setter.request fuel lookup.toLookup (io.sending NlAnswer.replies) s = some x)
    (hreached : x.Reached setter.proto) (hneg : io.answer.ack.error < 0) :
    ∃ n s', n < 0 ∧ netlinkRecv setter.proto x.seqId true x.state = some (n, s') := by
  obtain ⟨hseq, hrep, hsock⟩ := setter.request_spec hs h hreached
  have hsettled : Settled (setter.unread s lookup.toLookup) := by
    rw [NlSetter.unread]
    split_ifs with hgeneric
    · exact hset hgeneric ⟨fuel, x, h, hreached⟩ hneg
    · intro d hd
      cases hd
  obtain ⟨rs, b, q', happend, hdata, hb⟩ := hsettled.first hrep io.answer
  rw [happend] at hsock
  obtain ⟨buf', hrecv⟩ := netlinkRecv_ack hdata b hsock
  rw [← hseq] at hrecv
  refine ⟨b.error, _, ?_, hrecv⟩
  rcases hb with rfl | hb
  · exact hneg
  · exact hb

theorem NlSetter.request_add {fuel : Nat} {lookup : Lookup} {io : Sending} {x : NlSent}
    (h : setter.request fuel lookup io s = some x) (k : Nat) :
    setter.request (fuel + k) lookup io s = some x := by
  cases setter with
  | wlanSetMonitor i =>
    rw [NlSetter.request] at h
    exact genlSetRequest_add h k
  | wlanSetFreq i freq width ht =>
    rw [NlSetter.request] at h
    exact genlSetRequest_add h k
  | linkUp name => exact h
  | linkDown name => exact h

/-- **A setter** is confirmed, if what is unread before its request is settled. -/
theorem setterConfirmed (hs : NlInv s) (hset : CallSettled s (.set setter lookup io)) :
    SetterConfirmed s setter lookup io := by
  constructor
  · intro fuel s' hrun
    rw [NlSetter.run_eq] at hrun
    obtain ⟨x, hrequest, hconfirm⟩ := Option.bind_eq_some_iff.mp hrun
    rcases nlConfirm_state hconfirm with ⟨hneg, hx⟩ | ⟨hsent, n, hrecv, hn⟩
    · exact absurd (congrArg Prod.fst hx) hneg.ne'
    · have hnonneg : 0 ≤ n := not_lt.mp fun hlt => hlt.ne (hn hlt).symm
      have hreached : x.Reached setter.proto := ⟨hsent, netlinkRecv_open hrecv hnonneg⟩
      refine ⟨⟨fuel, x, hrequest, hreached⟩, ?_⟩
      by_contra hzero
      obtain ⟨n', s'', hn', hrecv'⟩ := setter.receives hs hset hrequest hreached
        (lt_of_le_of_ne io.answer.ack.nonpos hzero)
      rw [hrecv] at hrecv'
      cases hrecv'
      exact absurd hn' (not_lt.mpr hnonneg)
  · rintro ⟨N, x, hrequest, hreached⟩ hneg
    obtain ⟨n, s', hn, hrecv⟩ := setter.receives hs hset hrequest hreached hneg
    refine ⟨N, n, s', hn, fun fuel hfuel => ?_⟩
    obtain ⟨k, rfl⟩ := Nat.exists_eq_add_of_le hfuel
    rw [NlSetter.run_eq, NlSetter.request_add hrequest k, Option.bind_some]
    exact nlConfirm_neg hreached.1 hrecv hn _

theorem nlConfirm_zero {proto : NlProto} {sent : NlSent} (hsent : 0 ≤ sent.result) {s' : NlState}
    (hrecv : netlinkRecv proto sent.seqId true sent.state = some (0, s')) (fuel : Nat) :
    nlConfirm proto (fuel + 1) sent = some (0, s') := by
  have hnone : ¬nlmsgOk s'.localBuf 0 (.ofNat (Int.toNat 0)) := fun h => absurd h.1 (by decide)
  rw [nlConfirm, if_neg (not_lt.mpr hsent), hrecv, Option.bind_some]
  dsimp only
  rw [if_neg (lt_irrefl 0), netlinkCheckError, if_neg hnone]
  rfl

/-- If no `NLMSG_DONE` is the first confirmation that is unread, a setter is confirmed exactly when
what is unread before its request is settled. -/
theorem setterConfirmed_iff (hs : NlInv s)
    (hack : ∀ d, (unreadBefore s lookup.toLookup).find? confirmsDatagram = some d →
      nlmsgType (ofList d) 0 = nlmsgError) :
    SetterConfirmed s setter lookup io ↔ CallSettled s (.set setter lookup io) := by
  refine ⟨fun hconfirmed hgeneric hreaches hneg d hd => ⟨hack d hd, ?_⟩, setterConfirmed hs⟩
  obtain ⟨N, x, hrequest, hreached⟩ := hreaches
  obtain ⟨hseq, hrep, hsock⟩ := setter.request_spec hs hrequest hreached
  rw [NlSetter.unread, if_pos hgeneric] at hrep hsock
  rcases hrep.find with ⟨hnone, -⟩ | ⟨rs, r, q', hfirst, hunread, hdata⟩
  · rw [hnone] at hd
    cases hd
  · rw [hfirst] at hd
    cases hd
    have htype := hack _ hfirst
    rw [r.nlmsgType_ofList 0] at htype
    obtain ⟨b, rfl⟩ := NlReply.eq_ack htype
    rw [NlReply.nlmsgErr_ofList]
    refine lt_of_le_of_ne b.nonpos fun hzero => ?_
    rw [hunread, List.append_assoc, List.cons_append] at hsock
    obtain ⟨buf', hrecv⟩ := netlinkRecv_ack hdata b hsock
    replace hzero : b.error = 0 := hzero
    rw [hzero, ← hseq] at hrecv
    have hrun : setter.run (N + 1) lookup.toLookup (io.sending NlAnswer.replies) s =
        nlConfirm setter.proto (N + 1) x := by
      rw [NlSetter.run_eq, NlSetter.request_add hrequest 1, Option.bind_some]
    rw [nlConfirm_zero hreached.1 hrecv N] at hrun
    exact absurd (hconfirmed.acked _ _ hrun).2 hneg.ne

/-! ## Runs -/

theorem nlConfirm_inv {fuel : Nat} {sent : NlSent} {r : Int × NlState} (hs : NlInv sent.state)
    (h : nlConfirm .generic fuel sent = some r) : NlInv r.2 := by
  rcases nlConfirm_state h with ⟨-, rfl⟩ | ⟨-, n, hrecv, -⟩
  · exact hs
  · exact hs.recv hrecv

theorem NlInv.of_route (hs : NlInv s) {s' : NlState} {v : Option (List (List UInt8))}
    (hseq : s'.nlSeqId = s.nlSeqId) (hsock : s'.sock = Function.update s.sock .route v)
    (hv : v.getD [] = []) : NlInv s' := by
  refine ⟨hseq.trans hs.seq, ?_, ?_⟩
  · rw [hsock, Function.update_of_ne (by decide)]
    exact hs.generic
  · rw [hsock, Function.update_self]
    exact hv

/-- A setter of links reads its acknowledgement, and nothing is left behind it. -/
theorem nlLinkUpdown_inv (hs : NlInv s) {name : List UInt8} {up : Bool} {fuel : Nat}
    {r : Int × NlState} (h : nlLinkUpdown name up fuel (io.sending NlAnswer.replies) s = some r) :
    NlInv r.2 := by
  obtain ⟨v, hstate, hv⟩ := linkUpdownRequest_spec hs name up (io.sending NlAnswer.replies)
  rcases nlConfirm_state h with ⟨hneg, rfl⟩ | ⟨hsent, n, hrecv, -⟩
  · rcases hv with ⟨-, hv⟩ | ⟨hsent, -⟩
    · exact hs.of_route (by rw [hstate]) (by rw [hstate]) hv
    · exact absurd hneg (not_lt.mpr hsent)
  · have hsock := sock_of_update hstate
    rcases hv with ⟨hneg, -⟩ | ⟨-, hseq, rfl | rfl⟩
    · exact absurd hsent (not_le.mpr hneg)
    · rw [netlinkRecv_closed hsock] at hrecv
      obtain ⟨-, hr⟩ := Prod.mk.inj (Option.some.inj hrecv)
      rw [← hr]
      exact hs.of_route (by rw [hstate]) (by rw [hstate]) rfl
    · have hanswer : (io.sending NlAnswer.replies).answer 0 true =
          (io.answer.data.map .data).map (NlReply.encode 0) ++
            (NlReply.ack io.answer.ack).encode 0 :: [] := by
        have hreplies := congrArg (List.map (NlReply.encode 0)) io.answer.replies_true
        rw [List.map_append] at hreplies
        exact hreplies
      rw [hanswer] at hsock
      obtain ⟨buf', hrecv'⟩ := netlinkRecv_ack NlReply.data_not_confirms io.answer.ack hsock
      rw [hseq, hrecv'] at hrecv
      obtain ⟨-, hr⟩ := Prod.mk.inj (Option.some.inj hrecv)
      rw [← hr, hstate]
      exact hs.of_route rfl (Function.update_idem ..) rfl

/-- A call keeps the invariant. -/
theorem nlStep_inv (hs : NlInv s) {fuel : Nat} {call : NlCall} {s' : NlState}
    (h : nlStep fuel s call = some s') : NlInv s' := by
  cases call with
  | getWlanList lookup io =>
    obtain ⟨r, hr, rfl⟩ := Option.map_eq_some_iff.mp h
    exact nlGetWlanList_inv hs lookup.replies (io.sending_replies NlDump.replies) hr
  | getFamily family familyId io =>
    obtain ⟨x, hx, rfl⟩ := Option.map_eq_some_iff.mp h
    exact (nlGetFamily_spec hs (io.sending_replies NlAnswer.replies) hx).1
  | set setter lookup io =>
    obtain ⟨r, hr, rfl⟩ := Option.map_eq_some_iff.mp h
    have hgenl {cmd : UInt8} {maxlen : UInt32} {attrs : List (UInt16 × UInt32)}
        (hlow : 20 ≤ maxlen.toNat) (hmax : maxlen.toNat < 2 ^ 16)
        (hr : genlSet cmd maxlen attrs fuel lookup.toLookup (io.sending NlAnswer.replies) s =
          some r) : NlInv r.2 := by
      obtain ⟨x, hx, hconfirm⟩ := Option.bind_eq_some_iff.mp hr
      exact nlConfirm_inv (genlSetRequest_spec hs lookup.replies
        (io.sending_replies NlAnswer.replies) hlow hmax hx).1 hconfirm
    cases setter with
    | wlanSetMonitor i =>
      rw [NlSetter.run, nlWlanSetMonitor] at hr
      exact hgenl (by decide) (by decide) hr
    | wlanSetFreq i freq width ht =>
      rw [NlSetter.run, nlWlanSetFreq] at hr
      exact hgenl (by decide) (by decide) hr
    | linkUp name => exact nlLinkUpdown_inv hs hr
    | linkDown name => exact nlLinkUpdown_inv hs hr

end

/-- **The setters** are confirmed in every run in which nothing that could be taken for the
acknowledgement of a rejected request is unread before it. -/
theorem setters_confirmed (fuel : Nat) (pid : UInt32) (calls : List NlCall)
    (h : Run.Throughout (nlStep fuel) CallSettled (.start pid) calls) :
    Run.Throughout (nlStep fuel) CallConfirmed (.start pid) calls := by
  refine Run.Throughout.imp (I := NlInv) (fun s call _ s' hs hs' => nlStep_inv hs hs') ?_
    (NlInv.start pid) h
  intro s call _ hs hsettled
  cases call with
  | getWlanList lookup io => trivial
  | getFamily family familyId io => trivial
  | set setter lookup io => exact setterConfirmed hs hsettled

/-- The answer to the lookup of nl80211: its name and its number, and success. -/
def lookupNl80211 : NlLookup where
  io :=
    { init := .opened 3
      accepted := true
      answer :=
        { data := [⟨⟨genlIdCtrl, 0, 0, [ctrlCmdNewfamily, 1, 0, 0] ++
            ((⟨ctrlAttrFamilyName, nl80211Name ++ [0]⟩ : RtAttr).encode ++
              (⟨ctrlAttrFamilyId, [28, 0]⟩ : RtAttr).encode)⟩, [], by decide⟩]
          ack := ⟨0, [], by decide⟩ } }
  fam := 0

/-- `-EBUSY`. -/
def rejectBusy : NlIo NlAnswer := ⟨.opened 4, true, ⟨[], ⟨0xFFFFFFF0, [], by decide⟩⟩⟩

/-- One interface, `wlan0`. -/
def dumpWlan0 : NlIo NlDump where
  init := .opened 4
  accepted := true
  answer :=
    { data := [⟨⟨28, 2, 0, [nl80211CmdNewInterface, 1, 0, 0] ++
        ((⟨nl80211AttrIfindex, [3, 0, 0, 0]⟩ : RtAttr).encode ++
          ((⟨nl80211AttrIfname, [119, 108, 97, 110, 48, 0]⟩ : RtAttr).encode ++
            (⟨1, [0, 0, 0, 0]⟩ : RtAttr).encode))⟩, [], by decide⟩]
      done := some ⟨⟨nlmsgDone, 2, 0, [0, 0, 0, 0]⟩, rfl⟩
      ack := none }

/-- The dump of the interfaces, and a setter that is rejected. -/
def callsSettled : List NlCall :=
  [.getWlanList lookupNl80211 dumpWlan0, .set (.wlanSetMonitor 3) lookupNl80211 rejectBusy]

theorem setters_confirmed_busy :
    Run.Throughout (nlStep 9) CallConfirmed (.start 1) callsSettled := by
  apply setters_confirmed
  refine ⟨trivial, fun s hs => ⟨?_, fun _ _ => trivial⟩⟩
  have hclean : (nlStep 9 (.start 1) (.getWlanList lookupNl80211 dumpWlan0)).map
      (fun s => (s.sock .generic, s.nl80211fam)) = some (some [], some 28) := by
    decide +kernel
  rw [hs] at hclean
  obtain ⟨hsock, hfam⟩ := Prod.mk.inj (Option.some.inj hclean)
  intro _ _ _ d hd
  rw [unreadBefore, hsock, hfam] at hd
  cases hd

/-- The first call is a setter. Its lookup leaves an acknowledgement unread, which the setter takes
for its own. -/
theorem setter_mistaken : ¬Run.Throughout (nlStep 9) CallConfirmed (.start 1)
    [.set (.wlanSetMonitor 3) lookupNl80211 rejectBusy] := by
  have hzero : (NlSetter.run 9 lookupNl80211.toLookup (rejectBusy.sending NlAnswer.replies)
      (.start 1) (.wlanSetMonitor 3)).map Prod.fst = some 0 := by
    decide +kernel
  obtain ⟨⟨result, s'⟩, hrun, rfl⟩ := Option.map_eq_some_iff.mp hzero
  rintro ⟨hconfirmed, -⟩
  exact absurd (hconfirmed.acked 9 s' hrun).2 (by decide)

end Rhex
